import Mathlib.Data.List.Forall2
import ModemFhss.Ad9361.ClockTree

/-!
# Setting a sample rate (`ad9361_set_trx_clock_chain`)

The rates of `ad9361_calculate_rf_clock_chain` are set from the BBPLL down, those of the receiver
and of the transmitter in turn. Each factor is found anew, as the nearest one to what is asked for
of the rate that the clock above has got.

* `getTrxClockChain_setTrxClockChain` — the factors that are found so are those of the table, so
  both sample rates are met up to the rounding of the BBPLL, and the filters are on unless bypassed.
-/

namespace ModemFhss.Ad9361

open Errno

variable {σ : Type*}

/-- The members that the interface depends on as well. -/
structure TrxPhy extends RatePhy where
  rx2tx2 : Bool
  lvdsMode : Bool
  digInterfaceTuneFirDisable : Bool

/-- The rate of `DATA_CLK`. -/
def TrxPhy.dataClk (phy : TrxPhy) (sampl : Nat) : Nat :=
  mul32 ((if phy.rx2tx2 then 4 else 2) / (if phy.lvdsMode then 1 else 2)) sampl

/-- `abs(rate - data_clk) < 4`, where the difference is taken as an `int`. -/
def nearDataClk (rate dataClk : Nat) : Bool :=
  ((BitVec.ofNat 32 rate - BitVec.ofNat 32 dataClk).abs).toInt < 4

def validateTrxClockChain (phy : TrxPhy) (rx : PathClks) : Int :=
  let dataClk := phy.dataClk rx.sampl
  if ¬phy.lvdsMode ∧ dataClk > 61440000 then -einval else
  if [1, 2, 3].any fun i => nearDataClk (rx.adc / i) dataClk then 0 else
  if [1, 2, 3, 4].any fun i => nearDataClk (rx.r2 >>> i) dataClk then 0 else -einval

/-- Where a clock has its rate in `rx_path_clks` or `tx_path_clks`. -/
def pathRate (rx tx : PathClks) : Clock → Nat
  | .bbpllClk => rx.bbpll
  | .adcClk => rx.adc
  | .r2Clk => rx.r2
  | .r1Clk => rx.r1
  | .clkrfClk => rx.clkrf
  | .rxSamplClk => rx.sampl
  | .dacClk => tx.adc
  | .t2Clk => tx.r2
  | .t1Clk => tx.r1
  | .clktfClk => tx.clkrf
  | .txSamplClk => tx.sampl
  | _ => 0

/-- The clocks that are set, in this order. -/
def chain : List Clock :=
  [.bbpllClk, .adcClk, .dacClk, .r2Clk, .t2Clk, .r1Clk, .t1Clk, .clkrfClk, .clktfClk, .rxSamplClk,
    .txSamplClk]

def setRates (phy : FirBypass) (c : Chip σ) (refin : Nat) :
    List (Clock × Nat) → Tree σ → Int × Tree σ
  | [], t => (0, t)
  | (k, rate) :: l, t =>
    let (ret, t) := clkSetRate phy c refin t k rate
    if ret < 0 then (ret, t) else setRates phy c refin l t

/-- Where the clock does not change, the filter is switched by hand. -/
def enableFir (c : Chip σ) (s : σ) (f : ScalerField) (factor : Nat) (bypass : Bool) : σ :=
  if factor = 1 ∨ bypass then (c.writef s f (if bypass then 0 else 1)).2 else s

/-- `ad9361_dig_tune` and `ad9361_bb_clk_change_handler`, which are not looked into. -/
structure ChainEnd (σ : Type*) where
  digTune : Tree σ → Tree σ
  bbClkChangeHandler : Tree σ → Int × Tree σ

/-- What the digital tune returns is lost. -/
def setTrxClockChain (phy : TrxPhy) (c : Chip σ) (refin : Nat) (f : ChainEnd σ) (t : Tree σ)
    (rx tx : PathClks) : Int × Tree σ :=
  let ret := validateTrxClockChain phy rx
  if ret < 0 then (ret, t) else
  let (ret, t) :=
    setRates phy.toFirBypass c refin (chain.map fun k => (k, pathRate rx tx k)) t
  if ret < 0 then (ret, t) else
  let s := enableFir c t.dev .rxFirEnableDecimation phy.rxFirDec phy.bypassRxFir
  let s := enableFir c s .txFirEnableInterpolation phy.txFirInt phy.bypassTxFir
  let t := { t with dev := s }
  let t := if ¬phy.digInterfaceTuneFirDisable ∧ ¬(phy.bypassTxFir ∧ phy.bypassRxFir) then
    f.digTune t else t
  f.bbClkChangeHandler t

/-- The rates of some clocks, read one after the other. -/
def getRates (c : Chip σ) (refin : Nat) : List Clock → Tree σ → List Nat × Tree σ
  | [], t => ([], t)
  | k :: l, t =>
    let (rate, s) := clkGetRate c refin t k
    let (rates, t) := getRates c refin l { t with dev := s }
    (rate :: rates, t)

/-- Both buffers, in the order in which the rates are read. -/
def getTrxClockChain (c : Chip σ) (refin : Nat) (t : Tree σ) : List Nat × Tree σ :=
  getRates c refin chain t

section Chain

variable {phy : TrxPhy} {c : Chip σ} {regs : σ → BitVec 10 → Byte} {refin e fs gov : Nat} {s : σ}
  {t : Tree σ} {k : Clock} {rate : Nat} {rx tx : PathClks}

/-! ## The BBPLL -/

theorem rate_bbRefclk (h : t.dev = s) (hcoherent : Coherent regs refin t) :
    t.rates .bbRefclk = (settings regs s).rate .bbRefclk refin := by
  subst h
  exact hcoherent .bbRefclk (by decide)

/-- The reference is as it was after the BBPLL is set. -/
theorem rate_bbRefclk_bbpllSetRate (hc : KeepsTree c regs) (hcoherent : Coherent regs refin t)
    (rate prate : Nat) :
    (settings regs (bbpllSetRate c t.dev rate prate).2).rate .bbRefclk refin =
      t.rates .bbRefclk := by
  rw [rate_bbRefclk rfl hcoherent, Settings.rate_of_ne (by decide), Settings.rate_of_ne (by decide),
    settings, settings, held_bbpllSetRate hc]

/-- The BBPLL was set before, or what its word stands for has 32 bits. -/
def BbpllFits (regs : σ → BitVec 10 → Byte) (t : Tree σ) : Prop :=
  t.bbpllInitialized = true ∨
    Fractional.rate bbpllModulus (t.rates .bbRefclk) (settings regs t.dev).word < 2 ^ 32

theorem BbpllFits.firstInRange (h : BbpllFits regs t) (hcoherent : Coherent regs refin t)
    (hp : maxBbpllFreq < 255 * t.rates .bbRefclk) (hmin : minBbpllFreq ≤ rate)
    (hmax : rate ≤ maxBbpllFreq) : FirstInRange regs t .bbpllClk rate := by
  intro _ hinit hrate
  have hword := h.resolve_left (by simp [hinit])
  rw [hcoherent.bbpll, Nat.mod_eq_of_lt hword] at hrate
  exact ⟨hp, hrate ▸ hmin, hrate ▸ hmax⟩

/-- **The BBPLL is set as near as its word allows.** -/
theorem clkSetRate_bbpll (phy : FirBypass) (hc : KeepsTree c regs)
    (hcoherent : Coherent regs refin t) (hfits : BbpllFits regs t)
    (hp : maxBbpllFreq < 255 * t.rates .bbRefclk) (hmin : minBbpllFreq ≤ rate)
    (hmax : rate ≤ maxBbpllFreq) :
    let t' := (clkSetRate phy c refin t .bbpllClk rate).2
    Coherent regs refin t' ∧
      Close (t.rates .bbRefclk / (2 * bbpllModulus) + 1) (t'.rates .bbpllClk) rate := by
  have hfirst := hfits.firstInRange hcoherent hp hmin hmax
  refine ⟨clkSetRate_coherent hc hfirst hcoherent, ?_⟩
  by_cases hrate : t.rates .bbpllClk = rate
  · have hsame : (clkSetRate phy c refin t .bbpllClk rate).2.rates .bbpllClk = rate := by
      unfold clkSetRate
      rw [if_neg (by simpa using hrate)]
      split
      · next hset =>
        subst hrate
        rw [(setRate_bbpll_coherent hc hcoherent (hfirst rfl (by simpa using hset.2) rfl)).1]
      · exact hrate
    rw [hsame]
    exact ⟨Nat.le_add_right _ _, Nat.le_add_right _ _⟩
  · have hset : (clkSetRate phy c refin t .bbpllClk rate).2 =
        refresh c refin (setRate phy c refin t .bbpllClk rate) := by
      unfold clkSetRate
      rw [if_pos hrate]
    obtain ⟨hround, hle, hge⟩ := bbpll_recalc_round (s := t.dev) hc
      (fun _ => .inr) hp hcoherent.bbRefclk_lt hmin hmax
    generalize hs : (bbpllSetRate c t.dev (bbpllRoundRate rate (t.rates .bbRefclk))
      (t.rates .bbRefclk)).2 = s at hround hle hge
    have href : (settings regs s).rate .bbRefclk refin = t.rates .bbRefclk := by
      rw [← hs]
      exact rate_bbRefclk_bbpllSetRate hc hcoherent _ _
    -- reading back leaves what was set, and so do the loops
    have hsettings : settings regs
        (refresh c refin (setRate phy c refin t .bbpllClk rate)).dev =
          settings regs s := by
      rw [settings_refresh hc]
      show settings regs (bbpllRecalcRate c (bbpllSetRate c t.dev _ _).2
        (t.rates .bbRefclk)).2 = _
      exact (settings_recalcRate (k := .bbpllClk) hc).trans (congrArg _ hs)
    have hcoherent' := refresh_coherent hc refin (setRate phy c refin t .bbpllClk rate)
    have href' := hcoherent' .bbRefclk (by decide)
    rw [hsettings] at href'
    rw [hset, hcoherent'.bbpll, hsettings, href'.trans href, ← bbpllRecalcRate_fst hc]
    simp only [bbpllModulus] at hle hge ⊢
    exact ⟨by omega, by omega⟩

/-! ## The plan -/

/-- Every divider of the table can be set. -/
theorem accepts_row (phy : FirBypass) {d : Dividers} (hd : d ∈ clkDividers) :
    Accepts phy .r2Clk d.div2 ∧ Accepts phy .r1Clk d.div1 ∧ Accepts phy .clkrfClk d.div0 ∧
      Accepts phy .t2Clk d.div2 ∧ Accepts phy .t1Clk d.div1 ∧ Accepts phy .clktfClk d.div0 := by
  have hall : ∀ d ∈ clkDividers, Accepts phy .r2Clk d.div2 ∧ Accepts phy .r1Clk d.div1 ∧
      Accepts phy .clkrfClk d.div0 ∧ Accepts phy .t2Clk d.div2 ∧ Accepts phy .t1Clk d.div1 ∧
      Accepts phy .clktfClk d.div0 := by
    unfold Accepts
    rcases phy with ⟨_ | _, _ | _⟩ <;> decide
  exact hall d hd

theorem accepts_adcClk {phy : FirBypass} {j : Nat} (h1 : 1 ≤ j) (h6 : j ≤ 6) :
    Accepts phy .adcClk (2 ^ j) := by
  have hall : ∀ j < 7, 1 ≤ j → Accepts phy .adcClk (2 ^ j) := by
    unfold Accepts
    rcases phy with ⟨_ | _, _ | _⟩ <;> decide
  exact hall j (Nat.lt_succ_of_le h6) h1

theorem accepts_dacClk {phy : FirBypass} : Accepts phy .dacClk 1 ∧ Accepts phy .dacClk 2 := by
  unfold Accepts
  rcases phy with ⟨_ | _, _ | _⟩ <;> decide

theorem Usual.rxIntdec_mem {phy : RatePhy} (hphy : phy.Usual) : phy.rxIntdec ∈ [1, 2, 4] := by
  have hrx := hphy.rx
  have hmul : phy.rxMul = 1 ∨ phy.rxMul = 2 := by
    unfold RatePhy.rxMul
    split
    · exact .inr rfl
    · exact .inl rfl
  simp only [List.mem_cons, List.not_mem_nil, or_false] at hrx ⊢
  rcases hmul with h | h <;> rw [h] at hrx <;> omega

theorem accepts_rxSamplClk {phy : RatePhy} (hphy : phy.Usual) :
    Accepts phy.toFirBypass .rxSamplClk phy.rxIntdec := by
  have hmem := Usual.rxIntdec_mem hphy
  unfold RatePhy.rxIntdec at hmem ⊢
  rcases phy with ⟨⟨_ | _, bypassTxFir⟩, rxFirDec, txFirInt, rxEq2tx⟩
  · simp only [Bool.false_eq_true, if_false, List.mem_cons, List.not_mem_nil, or_false] at hmem ⊢
    rcases hmem with rfl | rfl | rfl <;> exact ⟨by decide, by decide, rfl⟩
  · show Accepts _ .rxSamplClk 1
    exact ⟨by decide, by decide, rfl⟩

theorem accepts_txSamplClk {phy : RatePhy} (hphy : phy.Usual) :
    Accepts phy.toFirBypass .txSamplClk phy.txIntdec := by
  have hmem := hphy.tx
  unfold RatePhy.txIntdec at hmem ⊢
  rcases phy with ⟨⟨bypassRxFir, _ | _⟩, rxFirDec, txFirInt, rxEq2tx⟩
  · simp only [Bool.false_eq_true, if_false, List.mem_cons, List.not_mem_nil, or_false] at hmem ⊢
    rcases hmem with rfl | rfl | rfl <;> exact ⟨by decide, by decide, rfl⟩
  · show Accepts _ .txSamplClk 1
    exact ⟨by decide, by decide, rfl⟩

/-- A clock of the chain, with the rate that it should have and the divider for it. -/
def chainStep (rx tx : PathClks) (k : Clock) (div : Nat) : Step := ⟨k, pathRate rx tx k, div⟩

/-- All rates are in a range where an error does not matter. -/
def InRange (e : Nat) (rx tx : PathClks) : Prop :=
  ∀ k ∈ chain, 4 * e + 512 ≤ pathRate rx tx k ∧ pathRate rx tx k + e < 2 ^ 31

theorem chainStep_sound {phy : FirBypass} {l : List Step} {k j : Clock} {d : Nat}
    (hrange : InRange e rx tx) (haccepts : Accepts phy k d)
    (hstatic : k ∈ dividers ∧ k ∈ chain ∧ j ∈ chain) (hparent : parentSource k = some j)
    (hmem : k ∉ l.map Step.clock ∧ (j = .bbpllClk ∨ j ∈ l.map Step.clock))
    (hrate : pathRate rx tx j = pathRate rx tx k * d) :
    (chainStep rx tx k d).Sound phy (pathRate rx tx) e l where
  mem := hstatic.1
  notMem := hmem.1
  accepts := haccepts
  rate := rfl
  parent := ⟨j, hparent, hmem.2, hrate, (hrange j hstatic.2.2).2⟩
  large := (hrange k hstatic.2.1).1

/-- The dividers of a row on the receiver's side, and those of one on the transmitter's. -/
def chainSteps (phy : RatePhy) (rx tx : PathClks) (adcDiv dacDiv : Nat) (d d' : Dividers) :
    List Step :=
  [chainStep rx tx .adcClk adcDiv, chainStep rx tx .dacClk dacDiv, chainStep rx tx .r2Clk d.div2,
    chainStep rx tx .t2Clk d'.div2, chainStep rx tx .r1Clk d.div1, chainStep rx tx .t1Clk d'.div1,
    chainStep rx tx .clkrfClk d.div0, chainStep rx tx .clktfClk d'.div0,
    chainStep rx tx .rxSamplClk phy.rxIntdec, chainStep rx tx .txSamplClk phy.txIntdec]

theorem bounds_of_eq_mul {P x d n : Nat} (h : P = x * d) (hd : 0 < d) (hn : d ≤ n) :
    x ≤ P ∧ P ≤ x * n :=
  ⟨h ▸ Nat.le_mul_of_pos_right x hd, h ▸ Nat.mul_le_mul_left x hn⟩

/-- **The rates of `ad9361_calculate_rf_clock_chain` are a plan**, so long as the BBPLL is not off
by much. -/
theorem exists_plan {phy : RatePhy} (hphy : phy.Usual) (hgov : gov ≤ 1)
    (hnear : phy.rxIntdec * phy.rxMul = phy.txIntdec ∨
      phy.rxIntdec * phy.rxMul * phy.txIntdec = 2)
    (h : calculateRfClockChain phy fs gov = .ok (rx, tx)) (he : e ≤ 2000) :
    ∃ adcDiv dacDiv d d', Plan phy.toFirBypass (pathRate rx tx) e
      (chainSteps phy rx tx adcDiv dacDiv d d') := by
  obtain ⟨hlow, hmax, -, ⟨j, hj1, hj6, hj⟩, hmin, hadc, -, hdac, -, d, hd, hexact⟩ :=
    calculate_ok hphy h
  obtain ⟨-, d', hd', hexact'⟩ := calculate_tx hphy hgov hnear h
  obtain ⟨hr2, hr1, hr0, -, -, -⟩ := accepts_row phy.toFirBypass hd
  obtain ⟨-, -, -, ht2, ht1, ht0⟩ := accepts_row phy.toFirBypass hd'
  obtain ⟨dacDiv, hdacDiv, hdacRate, hdacAccepts⟩ : ∃ n, n ≤ 2 ∧ rx.adc = tx.adc * n ∧
      Accepts phy.toFirBypass .dacClk n := by
    rcases hdac with heq | heq
    · exact ⟨1, by decide, by omega, accepts_dacClk.1⟩
    · exact ⟨2, by decide, heq.symm, accepts_dacClk.2⟩
  have hrow : ∀ d ∈ clkDividers, d.div2 ≤ 3 ∧ d.div1 ≤ 2 ∧ d.div0 ≤ 2 := by decide
  have hfour : ∀ n ∈ [1, 2, 4], n ≤ 4 := by decide
  have hrx := accepts_rxSamplClk hphy
  have htx := accepts_txSamplClk hphy
  -- each rate is between that above it and a part of it
  have hr2b := bounds_of_eq_mul hexact.r2 hr2.1 (hrow d hd).1
  have hr1b := bounds_of_eq_mul hexact.r1 hr1.1 (hrow d hd).2.1
  have hr0b := bounds_of_eq_mul hexact.clkrf hr0.1 (hrow d hd).2.2
  have hrxb := bounds_of_eq_mul hexact.sampl hrx.1 (hfour _ (Usual.rxIntdec_mem hphy))
  have hdacb := bounds_of_eq_mul hdacRate hdacAccepts.1 hdacDiv
  have ht2b := bounds_of_eq_mul hexact'.r2 ht2.1 (hrow d' hd').1
  have ht1b := bounds_of_eq_mul hexact'.r1 ht1.1 (hrow d' hd').2.1
  have ht0b := bounds_of_eq_mul hexact'.clkrf ht0.1 (hrow d' hd').2.2
  have htxb := bounds_of_eq_mul hexact'.sampl htx.1 (hfour _ hphy.tx)
  have hrange : InRange e rx tx := by
    simp only [minAdcClk, maxAdcClk, minBbpllFreq, maxBbpllFreq] at hlow hmin hadc hmax
    simp only [InRange, chain, List.forall_mem_cons, pathRate]
    refine ⟨?_, ?_, ?_, ?_, ?_, ?_, ?_, ?_, ?_, ?_, ?_, by simp⟩ <;> omega
  refine ⟨2 ^ j, dacDiv, d, d', ?_⟩
  have hplan : Plan phy.toFirBypass (pathRate rx tx) e [] := .nil
  replace hplan := hplan.snoc <|
    chainStep_sound (j := .bbpllClk) hrange (accepts_adcClk hj1 hj6) (by decide) rfl (by simp) hj
  replace hplan := hplan.snoc <|
    chainStep_sound (j := .adcClk) hrange hdacAccepts (by decide) rfl (by simp [chainStep]) hdacRate
  replace hplan := hplan.snoc <|
    chainStep_sound (j := .adcClk) hrange hr2 (by decide) rfl (by simp [chainStep]) hexact.r2
  replace hplan := hplan.snoc <|
    chainStep_sound (j := .dacClk) hrange ht2 (by decide) rfl (by simp [chainStep]) hexact'.r2
  replace hplan := hplan.snoc <|
    chainStep_sound (j := .r2Clk) hrange hr1 (by decide) rfl (by simp [chainStep]) hexact.r1
  replace hplan := hplan.snoc <|
    chainStep_sound (j := .t2Clk) hrange ht1 (by decide) rfl (by simp [chainStep]) hexact'.r1
  replace hplan := hplan.snoc <|
    chainStep_sound (j := .r1Clk) hrange hr0 (by decide) rfl (by simp [chainStep]) hexact.clkrf
  replace hplan := hplan.snoc <|
    chainStep_sound (j := .t1Clk) hrange ht0 (by decide) rfl (by simp [chainStep]) hexact'.clkrf
  replace hplan := hplan.snoc <|
    chainStep_sound (j := .clkrfClk) hrange hrx (by decide) rfl (by simp [chainStep]) hexact.sampl
  replace hplan := hplan.snoc <|
    chainStep_sound (j := .clktfClk) hrange htx (by decide) rfl (by simp [chainStep]) hexact'.sampl
  exact hplan

/-! ## Carrying it out -/

theorem clkSetRate_fst (phy : FirBypass) : (clkSetRate phy c refin t k rate).1 = 0 := by
  unfold clkSetRate
  split
  · rfl
  · split <;> rfl

theorem setRates_eq (phy : FirBypass) (l : List (Clock × Nat)) : setRates phy c refin l t =
    (0, l.foldl (fun t x => (clkSetRate phy c refin t x.1 x.2).2) t) := by
  induction l generalizing t with
  | nil => rfl
  | cons x l ih =>
    unfold setRates
    dsimp only
    rw [clkSetRate_fst, if_neg (Int.lt_irrefl 0), ih, List.foldl_cons]

theorem Settings.rate_congr {S S' : Settings} {P : Nat} (hword : S'.word = S.word)
    (hfactor : RefclkScale.factor ⟨k, 1, 1⟩ S'.held = RefclkScale.factor ⟨k, 1, 1⟩ S.held) :
    S'.rate k P = S.rate k P := by
  rcases eq_or_ne k .bbpllClk with rfl | hne
  · exact congrArg (fun w => Fractional.rate bbpllModulus P w % 2 ^ 32) hword
  · rw [Settings.rate_of_ne hne, Settings.rate_of_ne hne, hfactor]

/-- The table stays true of registers that come to the same factors. -/
theorem Coherent.of_factor (h : Coherent regs refin t)
    (hword : (settings regs s).word = (settings regs t.dev).word)
    (hfactor : ∀ j, RefclkScale.factor ⟨j, 1, 1⟩ (settings regs s).held =
      RefclkScale.factor ⟨j, 1, 1⟩ (settings regs t.dev).held) :
    Coherent regs refin { t with dev := s } :=
  fun k hk => (h k hk).trans (Settings.rate_congr hword (hfactor k)).symm

/-- The two fields that switch a filter on, with their clocks. -/
def FirField (k : Clock) (f : ScalerField) : Prop :=
  k = .rxSamplClk ∧ f = .rxFirEnableDecimation ∨ k = .txSamplClk ∧ f = .txFirEnableInterpolation

theorem FirField.factor {f : ScalerField} (hf : FirField k f) (h : ScalerField → BitVec 32) :
    RefclkScale.factor ⟨k, 1, 1⟩ h = RefclkScale.firScaler ⟨k, 1, 1⟩ (h f) := by
  rcases hf with ⟨rfl, rfl⟩ | ⟨rfl, rfl⟩ <;> rfl

/-- To switch a filter of factor 1 on or off changes no rate. -/
theorem writef_fir (hc : KeepsTree c regs) {f : ScalerField} (hf : FirField k f)
    (hdivides : (settings regs s).Divides k 1) (bypass : Bool) :
    let s' := (c.writef s f (if bypass then 0 else 1)).2
    (settings regs s').word = (settings regs s).word ∧
      (∀ j, RefclkScale.factor ⟨j, 1, 1⟩ (settings regs s').held =
        RefclkScale.factor ⟨j, 1, 1⟩ (settings regs s).held) ∧
      (held regs s' f = 0 ↔ bypass = true) ∧ ∀ g ≠ f, held regs s' g = held regs s g := by
  have hfits : FitsBelow f 2 := by
    rcases hf with ⟨-, rfl⟩ | ⟨-, rfl⟩ <;> decide
  have hother : ∀ g ≠ f, held regs (c.writef s f (if bypass then 0 else 1)).2 g = held regs s g :=
    fun g hg => held_writef_of_ne hc.scalers (Ne.symm hg)
  have hvalue : held regs (c.writef s f (if bypass then 0 else 1)).2 f = if bypass then 0 else 1 :=
    held_writef_of_lt hc.scalers hfits (by cases bypass <;> decide)
  refine ⟨word_writef hc _ _, ?_, ?_, hother⟩
  · intro j
    by_cases hj : j = k
    · subst hj
      have hold : RefclkScale.factor ⟨j, 1, 1⟩ (held regs s) = _ := hdivides
      show RefclkScale.factor ⟨j, 1, 1⟩ (held regs _) = RefclkScale.factor ⟨j, 1, 1⟩ (held regs s)
      rw [hf.factor, hvalue, hold]
      cases bypass <;> rfl
    · apply RefclkScale.factor_congr
      intro g hg
      apply hother
      rintro rfl
      apply hj
      have howner : RefclkScale.owner g = j := RefclkScale.owner_of_mem hg
      rw [← howner]
      rcases hf with ⟨rfl, rfl⟩ | ⟨rfl, rfl⟩ <;> rfl
  · rw [hvalue]
    cases bypass <;> decide

/-- What a plan and the BBPLL before it come to. -/
theorem setRates_chain (hc : KeepsTree c regs) {phy : RatePhy} (hphy : phy.Usual) (hgov : gov ≤ 1)
    (hnear : phy.rxIntdec * phy.rxMul = phy.txIntdec ∨
      phy.rxIntdec * phy.rxMul * phy.txIntdec = 2)
    (h : calculateRfClockChain phy fs gov = .ok (rx, tx)) (hcoherent : Coherent regs refin t)
    (hfits : BbpllFits regs t) (hp : maxBbpllFreq < 255 * t.rates .bbRefclk) :
    let e := t.rates .bbRefclk / (2 * bbpllModulus) + 1
    let t' := (setRates phy.toFirBypass c refin (chain.map fun k => (k, pathRate rx tx k)) t).2
    Coherent regs refin t' ∧ (∀ k ∈ chain, Close e (t'.rates k) (pathRate rx tx k)) ∧
      (settings regs t'.dev).Divides .rxSamplClk phy.rxIntdec ∧
      (settings regs t'.dev).Divides .txSamplClk phy.txIntdec := by
  have hp32 := hcoherent.bbRefclk_lt
  have he : t.rates .bbRefclk / (2 * bbpllModulus) + 1 ≤ 2000 := by
    simp only [bbpllModulus]
    omega
  obtain ⟨adcDiv, dacDiv, d, d', hplan⟩ := exists_plan hphy hgov hnear h he
  obtain ⟨hlow, hhigh, -⟩ := calculate_ok hphy h
  obtain ⟨hcoherent₁, hclose₁⟩ :=
    clkSetRate_bbpll phy.toFirBypass hc hcoherent hfits hp hlow hhigh
  obtain ⟨hcoherent₂, hclose₂, hdivides⟩ := clkSetRate_plan hc hplan hcoherent₁ hclose₁
  have hrun : (setRates phy.toFirBypass c refin (chain.map fun k => (k, pathRate rx tx k)) t).2 =
      (chainSteps phy rx tx adcDiv dacDiv d d').foldl
        (fun t x => (clkSetRate phy.toFirBypass c refin t x.clock x.rate).2)
        (clkSetRate phy.toFirBypass c refin t .bbpllClk rx.bbpll).2 := by
    have hmap : chain.map (fun k => (k, pathRate rx tx k)) = (.bbpllClk, rx.bbpll) ::
        (chainSteps phy rx tx adcDiv dacDiv d d').map fun x => (x.clock, x.rate) := rfl
    rw [setRates_eq, hmap, List.foldl_cons, List.foldl_map]
  have hchain : chain =
      .bbpllClk :: (chainSteps phy rx tx adcDiv dacDiv d d').map Step.clock := rfl
  dsimp only
  rw [hrun]
  refine ⟨hcoherent₂, ?_, ?_, ?_⟩
  · intro k hk
    rw [hchain, List.mem_cons] at hk
    exact hplan.close hcoherent₂ hdivides hclose₂ k hk
  · exact hdivides (chainStep rx tx .rxSamplClk phy.rxIntdec) (by simp [chainSteps])
  · exact hdivides (chainStep rx tx .txSamplClk phy.txIntdec) (by simp [chainSteps])

/-- The workaround leaves the filter on if and only if it is not bypassed, and changes no rate. -/
theorem enableFir_spec (hc : KeepsTree c regs) {f : ScalerField} (hf : FirField k f)
    (factor : Nat) (bypass : Bool) {intdec : Nat} (hintdec : intdec = if bypass then 1 else factor)
    (hmem : intdec ∈ [1, 2, 4]) (hdivides : (settings regs s).Divides k intdec) :
    let s' := enableFir c s f factor bypass
    (settings regs s').word = (settings regs s).word ∧
      (∀ j, RefclkScale.factor ⟨j, 1, 1⟩ (settings regs s').held =
        RefclkScale.factor ⟨j, 1, 1⟩ (settings regs s).held) ∧
      (held regs s' f = 0 ↔ bypass = true) ∧ ∀ g ≠ f, held regs s' g = held regs s g := by
  unfold enableFir
  by_cases h : factor = 1 ∨ bypass = true
  · have hone : intdec = 1 := by
      rcases h with h | h <;> simp [hintdec, h]
    rw [if_pos h]
    exact writef_fir hc hf (hone ▸ hdivides) bypass
  · rw [if_neg h]
    refine ⟨rfl, fun _ => rfl, ?_, fun _ _ => rfl⟩
    have hbypass : bypass = false := by simpa using fun hb => h (.inr hb)
    have hne : intdec ≠ 1 := by
      rw [hintdec, hbypass]
      exact fun hone => h (.inl hone)
    simp only [hbypass, Bool.false_eq_true, iff_false]
    intro hzero
    -- a filter that is off does not divide
    have hoff : RefclkScale.factor ⟨k, 1, 1⟩ (held regs s) = _ := hdivides
    rw [hf.factor, hzero] at hoff
    simp only [List.mem_cons, List.not_mem_nil, or_false] at hmem
    rcases hmem with rfl | rfl | rfl
    · exact hne rfl
    · exact absurd (congrArg (·.2.div) hoff : (1 : BitVec 32) = 2) (by decide)
    · exact absurd (congrArg (·.2.div) hoff : (1 : BitVec 32) = 4) (by decide)

theorem getRates_eq (hc : KeepsTree c regs) (hcoherent : Coherent regs refin t) {l : List Clock}
    (hl : ∀ k ∈ l, k ∈ baseBand) : (getRates c refin l t).1 = l.map t.rates := by
  induction l generalizing t with
  | nil => rfl
  | cons k l ih =>
    obtain ⟨hk, hl⟩ := List.forall_mem_cons.mp hl
    have hsettings : settings regs (clkGetRate c refin t k).2 = settings regs t.dev :=
      settings_recalcRate hc
    have hrest := ih (hcoherent.of_factor (congrArg _ hsettings)
      fun j => congrArg (fun S : Settings => RefclkScale.factor ⟨j, 1, 1⟩ S.held) hsettings) hl
    unfold getRates
    dsimp only
    rw [hrest, List.map_cons, hcoherent k hk]
    exact congrArg (· :: _) (recalcRate_fst hc)

/-- The table and what the registers say are as they were. -/
def SameClocks (regs : σ → BitVec 10 → Byte) (t t' : Tree σ) : Prop :=
  t'.rates = t.rates ∧ settings regs t'.dev = settings regs t.dev

theorem SameClocks.coherent {t' : Tree σ} (h : SameClocks regs t t')
    (hcoherent : Coherent regs refin t) : Coherent regs refin t' := by
  intro k hk
  rw [h.1, h.2]
  exact hcoherent k hk

/-- Both read the clocks at most, and write to other registers. -/
structure ChainEnd.Keeps (f : ChainEnd σ) (regs : σ → BitVec 10 → Byte) : Prop where
  digTune : ∀ t, SameClocks regs t (f.digTune t)
  bbClkChangeHandler : ∀ t, SameClocks regs t (f.bbClkChangeHandler t).2

/-- **The sample rates that are asked for are those that are read back**, up to the rounding of the
BBPLL, and so are all rates of `ad9361_calculate_rf_clock_chain`. A filter is on unless it is
bypassed. What is returned is left to the handler. -/
theorem getTrxClockChain_setTrxClockChain (hc : KeepsTree c regs) (hphy : phy.Usual)
    (hgov : gov ≤ 1)
    (hnear : phy.rxIntdec * phy.rxMul = phy.txIntdec ∨
      phy.rxIntdec * phy.rxMul * phy.txIntdec = 2)
    (h : calculateRfClockChain phy.toRatePhy fs gov = .ok (rx, tx))
    (hvalid : validateTrxClockChain phy rx = 0) (hcoherent : Coherent regs refin t)
    (hfits : BbpllFits regs t) (hp : maxBbpllFreq < 255 * t.rates .bbRefclk) {f : ChainEnd σ}
    (hf : f.Keeps regs) :
    let e := t.rates .bbRefclk / (2 * bbpllModulus) + 1
    let r := setTrxClockChain phy c refin f t rx tx
    (∃ t', r = f.bbClkChangeHandler t') ∧ Coherent regs refin r.2 ∧
      List.Forall₂ (Close e) (getTrxClockChain c refin r.2).1 (chain.map (pathRate rx tx)) ∧
      rx.sampl = fs * phy.rxMul ∧ tx.sampl = fs ∧
      (held regs r.2.dev .rxFirEnableDecimation = 0 ↔ phy.bypassRxFir = true) ∧
      (held regs r.2.dev .txFirEnableInterpolation = 0 ↔ phy.bypassTxFir = true) := by
  have hrxSampl := (calculate_ok hphy h).2.2.2.2.2.2.2.2.1
  have htxSampl := (calculate_tx hphy hgov hnear h).1
  obtain ⟨hcoherent₁, hclose, hrxDivides, htxDivides⟩ :=
    setRates_chain hc hphy hgov hnear h hcoherent hfits hp
  dsimp only
  generalize t.rates .bbRefclk / (2 * bbpllModulus) + 1 = e at hclose ⊢
  unfold setTrxClockChain
  dsimp only
  rw [hvalid, if_neg (Int.lt_irrefl 0)]
  have hret : (setRates phy.toFirBypass c refin
      (chain.map fun k => (k, pathRate rx tx k)) t).1 = 0 := by rw [setRates_eq]
  rw [hret, if_neg (Int.lt_irrefl 0)]
  generalize (setRates phy.toFirBypass c refin
    (chain.map fun k => (k, pathRate rx tx k)) t).2 = t₁ at *
  have hrxField : FirField .rxSamplClk .rxFirEnableDecimation := .inl ⟨rfl, rfl⟩
  have htxField : FirField .txSamplClk .txFirEnableInterpolation := .inr ⟨rfl, rfl⟩
  obtain ⟨hword₂, hfactor₂, hrxOn, -⟩ :=
    enableFir_spec hc hrxField phy.rxFirDec phy.bypassRxFir rfl
      (Usual.rxIntdec_mem hphy) hrxDivides
  generalize enableFir c t₁.dev .rxFirEnableDecimation phy.rxFirDec phy.bypassRxFir = s₂ at *
  have htxDivides₂ : (settings regs s₂).Divides .txSamplClk phy.txIntdec :=
    (hfactor₂ .txSamplClk).trans htxDivides
  obtain ⟨hword₃, hfactor₃, htxOn, hkeep⟩ :=
    enableFir_spec hc htxField phy.txFirInt phy.bypassTxFir rfl hphy.tx
      htxDivides₂
  generalize enableFir c s₂ .txFirEnableInterpolation phy.txFirInt phy.bypassTxFir = s₃ at *
  have hcoherent₃ : Coherent regs refin { t₁ with dev := s₃ } :=
    hcoherent₁.of_factor (hword₃.trans hword₂) fun j => (hfactor₃ j).trans (hfactor₂ j)
  -- the digital tune and the handler leave all that alone
  generalize ht₄ : (if ¬phy.digInterfaceTuneFirDisable = true ∧
    ¬(phy.bypassTxFir = true ∧ phy.bypassRxFir = true) then
      f.digTune { t₁ with dev := s₃ } else { t₁ with dev := s₃ }) = t₄
  have hsame : SameClocks regs { t₁ with dev := s₃ } (f.bbClkChangeHandler t₄).2 := by
    obtain ⟨hrates, hsettings⟩ := hf.bbClkChangeHandler t₄
    have htune : SameClocks regs { t₁ with dev := s₃ } t₄ := by
      rw [← ht₄]
      split
      · exact hf.digTune _
      · exact ⟨rfl, rfl⟩
    exact ⟨hrates.trans htune.1, hsettings.trans htune.2⟩
  have hheld : held regs (f.bbClkChangeHandler t₄).2.dev = held regs s₃ :=
    congrArg Settings.held hsame.2
  have hcoherent₄ := hsame.coherent hcoherent₃
  refine ⟨⟨t₄, rfl⟩, hcoherent₄, ?_, hrxSampl, htxSampl, ?_, ?_⟩
  · unfold getTrxClockChain
    rw [getRates_eq hc hcoherent₄ (by decide), hsame.1, List.forall₂_map_left_iff,
      List.forall₂_map_right_iff, List.forall₂_same]
    exact hclose
  · rw [hheld, hkeep _ (by decide)]
    exact hrxOn
  · rw [hheld]
    exact htxOn

/-- Two channels over LVDS. -/
def halfTrx : TrxPhy :=
  { halfPhy with rx2tx2 := true, lvdsMode := true, digInterfaceTuneFirDisable := false }

/-- One delay of the interface is found, and one divider of the auxiliary ADC is set. -/
def delayOnly : ChainEnd (BitVec 10 → Byte) where
  digTune t := { t with dev := (registerFile.spiWrite t.dev 0x006#32 0x0F#32).2 }
  bbClkChangeHandler t := (0, { t with dev := (registerFile.spiWrite t.dev 0x01C#32 0x10#32).2 })

theorem delayOnly_keeps : delayOnly.Keeps id := by
  have hall : ∀ f ∈ ScalerField.all, f.at.addr ≠ 0x006#10 ∧ f.at.addr ≠ 0x01C#10 := by decide
  have hne : ∀ a, TreeReg a → a ≠ 0x006#10 ∧ a ≠ 0x01C#10 := by
    rintro a (⟨f, rfl⟩ | ha)
    · exact hall f f.mem_all
    · simp only [BbpllReg, List.mem_cons, List.not_mem_nil, or_false] at ha
      rcases ha with rfl | rfl | rfl | rfl <;> decide
  constructor
  · refine fun t => ⟨rfl, settings_congr fun a ha => ?_⟩
    exact (((registerFile_keeps TreeReg).spiWrite t.dev 0x006#32 0x0F#32).2 a ha).trans
      (Function.update_of_ne (hne a ha).1 _ _)
  · refine fun t => ⟨rfl, settings_congr fun a ha => ?_⟩
    exact (((registerFile_keeps TreeReg).spiWrite t.dev 0x01C#32 0x10#32).2 a ha).trans
      (Function.update_of_ne (hne a ha).2 _ _)

theorem getTrxClockChain_setTrxClockChain_halfTrx :
    List.Forall₂ (Close 10)
      (getTrxClockChain registerFile 40000000
        (setTrxClockChain halfTrx registerFile 40000000 delayOnly resetTree halfRates.1
          halfRates.2).2).1
      [983040000, 491520000, 245760000, 245760000, 122880000, 122880000, 61440000, 61440000,
        30720000, 30720000, 30720000] := by
  have hphy : halfTrx.Usual := ⟨by decide, by decide⟩
  have hfits : BbpllFits id resetTree := .inr (by rw [resetTree_bbpll]; decide)
  have h := getTrxClockChain_setTrxClockChain (registerFile_keeps TreeReg) hphy (by decide)
    (.inr rfl) calculate_halfPhy (by decide) resetTree_coherent hfits
    (by rw [resetTree_bbRefclk]; decide) delayOnly_keeps
  rw [resetTree_bbRefclk] at h
  exact h.2.2.1

end Chain

end ModemFhss.Ad9361
