import ModemFhss.Library.Fill
import ModemFhss.Library.Machine
import ModemFhss.Ad9361.Pll

/-!
# The tree of clocks (`clk_set_rate`)

Every clock's rate is kept in a table, and calculated anew from the registers and the rate of the
clock it is made of whenever one of them is set. The clocks of the base band are a tree: the ADC's
is the BBPLL's divided, and so on down to the two sample rates.

* `clkGetRate_run` — the table says what the registers say, from the registration of the clocks on
  and after any settings.
* `clkSetRate_plan` — rates that are in proportion are set by their factors, and an error of the
  BBPLL does not grow on the way down.
-/

namespace ModemFhss.Ad9361

variable {σ : Type*}

/-- The clock that a clock of the base band is made of, if it is not the external one. -/
def parentSource : Clock → Option Clock
  | .bbpllClk => some .bbRefclk
  | .adcClk => some .bbpllClk
  | .r2Clk | .dacClk => some .adcClk
  | .r1Clk => some .r2Clk
  | .clkrfClk => some .r1Clk
  | .rxSamplClk => some .clkrfClk
  | .t2Clk => some .dacClk
  | .t1Clk => some .t2Clk
  | .clktfClk => some .t1Clk
  | .txSamplClk => some .clktfClk
  | _ => none

/-- The members of `struct ad9361_rf_phy` that the rates are kept in, over the device. -/
structure Tree (σ : Type*) where
  dev : σ
  rates : Clock → Nat
  bbpllInitialized : Bool

def parentRate (refin : Nat) (rates : Clock → Nat) (k : Clock) : Nat :=
  match parentSource k with
  | some j => rates j
  | none => refin

/-! ## One clock -/

/-- What the structure of the clock held before is not looked at. -/
def clkFactorRecalcRate (c : Chip σ) (s : σ) (k : Clock) (parentRate : Nat) : Nat × σ :=
  let ((_, p), s) := RefclkScale.getClkScaler c s ⟨k, 1, 1⟩
  (mul32 parentRate p.mult.toNat / p.div.toNat, s)

/-- The factor that is nearest to what is asked for. -/
def nearestFactor (k : Clock) (rate prate : Nat) : RefclkScale :=
  if rate ≥ prate then ⟨k, BitVec.ofNat 32 (divRoundClosest rate prate), 1⟩ else
  let div := divRoundClosest prate rate
  ⟨k, 1, BitVec.ofNat 32 (if div = 0 then 1 else div)⟩

/-- The result as the `uint32_t` that it is stored in: an error is a rate too. -/
def clkFactorRoundRate (phy : FirBypass) (c : Chip σ) (s : σ) (k : Clock) (rate prate : Nat) :
    Nat × σ :=
  let p := nearestFactor k rate prate
  let (ret, s) := p.setClkScaler phy c s false
  if ret < 0 then ((BitVec.ofInt 32 ret).toNat, s) else
  (mul32 (prate / p.div.toNat) p.mult.toNat, s)

def clkFactorSetRate (phy : FirBypass) (c : Chip σ) (s : σ) (k : Clock) (rate parentRate : Nat) :
    Int × σ :=
  (nearestFactor k rate parentRate).setClkScaler phy c s true

def recalcRate (c : Chip σ) (s : σ) (k : Clock) (parentRate : Nat) : Nat × σ :=
  match k with
  | .bbpllClk => bbpllRecalcRate c s parentRate
  | _ => clkFactorRecalcRate c s k parentRate

/-! ## All of them -/

/-- The clocks of the base band, in the order of `enum ad9361_clocks`. -/
def baseBand : List Clock :=
  [.bbRefclk, .rxRefclk, .txRefclk, .bbpllClk, .adcClk, .r2Clk, .r1Clk, .clkrfClk, .rxSamplClk,
    .dacClk, .t2Clk, .t1Clk, .clktfClk, .txSamplClk]

def refreshOne (c : Chip σ) (refin : Nat) (t : Tree σ) (k : Clock) : Tree σ :=
  let (rate, s) := recalcRate c t.dev k (parentRate refin t.rates k)
  { t with dev := s, rates := Function.update t.rates k rate }

/-- The loops at the end of `clk_set_rate`. -/
def refresh (c : Chip σ) (refin : Nat) (t : Tree σ) : Tree σ :=
  baseBand.foldl (refreshOne c refin) t

/-- The `switch` of `clk_set_rate`. -/
def setRate (phy : FirBypass) (c : Chip σ) (refin : Nat) (t : Tree σ) (k : Clock) (rate : Nat) :
    Tree σ :=
  let prate := parentRate refin t.rates k
  match k with
  | .bbpllClk =>
    let s := (bbpllSetRate c t.dev (bbpllRoundRate rate prate) prate).2
    let (rate, s) := bbpllRecalcRate c s prate
    ⟨s, Function.update t.rates k rate, true⟩
  | _ =>
    let (roundRate, s) := clkFactorRoundRate phy c t.dev k rate prate
    let s := (clkFactorSetRate phy c s k roundRate prate).2
    let (rate, s) := clkFactorRecalcRate c s k prate
    { t with dev := s, rates := Function.update t.rates k rate }

def clkSetRate (phy : FirBypass) (c : Chip σ) (refin : Nat) (t : Tree σ) (k : Clock) (rate : Nat) :
    Int × Tree σ :=
  if t.rates k ≠ rate then (0, refresh c refin (setRate phy c refin t k rate)) else
  if k = .bbpllClk ∧ ¬t.bbpllInitialized then (0, setRate phy c refin t k rate) else (0, t)

/-- `register_clocks`: the rate of a clock is calculated when it is made, in this order. -/
def registered : List Clock :=
  [.txRefclk, .rxRefclk, .bbRefclk, .bbpllClk, .adcClk, .r2Clk, .r1Clk, .clkrfClk, .rxSamplClk,
    .dacClk, .t2Clk, .t1Clk, .clktfClk, .txSamplClk]

def registerClocks (c : Chip σ) (refin : Nat) (s : σ) : Tree σ :=
  registered.foldl (refreshOne c refin) ⟨s, fun _ => 0, false⟩

def clkGetRate (c : Chip σ) (refin : Nat) (t : Tree σ) (k : Clock) : Nat × σ :=
  recalcRate c t.dev k (parentRate refin t.rates k)

/-! ## What the registers say -/

/-- The registers that the tree is set up in. -/
def TreeReg (a : BitVec 10) : Prop := Holding ScalerField.at a ∨ BbpllReg a

abbrev KeepsTree (c : Chip σ) (regs : σ → BitVec 10 → Byte) : Prop := c.Keeps regs TreeReg

/-- The factors and the word of the BBPLL. -/
structure Settings where
  held : ScalerField → BitVec 32
  word : Fractional.Word

def settings (regs : σ → BitVec 10 → Byte) (s : σ) : Settings where
  held := held regs s
  word := bbpllWord [regs s 0x044#10, regs s 0x043#10, regs s 0x042#10, regs s 0x041#10]

/-- The rate of a clock by its registers and the rate that it is made of. -/
def Settings.rate (S : Settings) (k : Clock) (parentRate : Nat) : Nat :=
  match k with
  | .bbpllClk => Fractional.rate bbpllModulus parentRate S.word % 2 ^ 32
  | _ =>
    let p := (RefclkScale.factor ⟨k, 1, 1⟩ S.held).2
    mul32 parentRate p.mult.toNat / p.div.toNat

/-- **The table says what the registers say.** -/
def Coherent (regs : σ → BitVec 10 → Byte) (refin : Nat) (t : Tree σ) : Prop :=
  ∀ k ∈ baseBand, t.rates k = (settings regs t.dev).rate k (parentRate refin t.rates k)

section View

variable {phy : FirBypass} {c : Chip σ} {regs : σ → BitVec 10 → Byte} {refin : Nat} {s s' : σ}
  {t : Tree σ} {k : Clock} {rate prate : Nat}

theorem Chip.Keeps.mono {kept kept' : BitVec 10 → Prop} (hc : c.Keeps regs kept)
    (h : ∀ a, kept' a → kept a) : c.Keeps regs kept' where
  read_ok := hc.read_ok
  read_keeps s hi lo hw a ha := hc.read_keeps s hi lo hw a (h a ha)
  read_bytes s hi lo hw i hi' ha := hc.read_bytes s hi lo hw i hi' (h _ ha)
  write_ok := hc.write_ok
  write_stores s hi lo data hw hlen a ha := hc.write_stores s hi lo data hw hlen a (h a ha)

theorem KeepsTree.scalers (hc : KeepsTree c regs) : KeepsScalers c regs := hc.mono fun _ => .inl

theorem settings_congr (h : ∀ a, TreeReg a → regs s' a = regs s a) :
    settings regs s' = settings regs s := by
  unfold settings
  congr 1
  · funext f
    exact held_congr fun a ha => h a (.inl ha)
  · rw [h _ (.inr (by decide)), h _ (.inr (by decide)), h _ (.inr (by decide)),
      h _ (.inr (by decide))]

theorem readf_keeps (hc : KeepsTree c regs) (f : ScalerField) {a : BitVec 10} (ha : TreeReg a) :
    regs (c.readf s f).2 a = regs s a := spiReadf_keeps hc s f.at.reg32 f.at.mask32 ha

theorem spiRead_keeps (hc : KeepsTree c regs) (reg : BitVec 32) {a : BitVec 10} (ha : TreeReg a) :
    regs (c.spiRead s reg).2 a = regs s a := by
  have hkeeps := (hc.spiReadm (by decide : 0 < 1) (by decide : 1 ≤ maxMbyteSpi) s reg).2.1 a ha
  unfold Chip.spiRead
  dsimp only
  split <;> exact hkeeps

theorem getClkScaler_keeps (hc : KeepsTree c regs) (q : RefclkScale) {a : BitVec 10}
    (ha : TreeReg a) : regs (q.getClkScaler c s).2 a = regs s a := by
  unfold RefclkScale.getClkScaler
  cases q.source
  case bbRefclk => exact spiRead_keeps hc ScalerField.refFreqScaler.at.reg32 ha
  case adcClk => exact spiRead_keeps hc ScalerField.bbpllDivider.at.reg32 ha
  case rxRefclk =>
    exact (readf_keeps hc .rxRefDividerLsb ha).trans (readf_keeps hc .rxRefDividerMsb ha)
  case txRefclk => exact readf_keeps hc .txRefDivider ha
  case r2Clk => exact readf_keeps hc .dec3EnableDecimation ha
  case r1Clk => exact readf_keeps hc .rhb2En ha
  case clkrfClk => exact readf_keeps hc .rhb1En ha
  case dacClk => exact readf_keeps hc .dacDivider ha
  case t2Clk => exact readf_keeps hc .thb3EnableInterp ha
  case t1Clk => exact readf_keeps hc .thb2En ha
  case clktfClk => exact readf_keeps hc .thb1En ha
  case rxSamplClk => exact readf_keeps hc .rxFirEnableDecimation ha
  case txSamplClk => exact readf_keeps hc .txFirEnableInterpolation ha
  all_goals rfl

theorem recalcRate_of_ne (h : k ≠ .bbpllClk) :
    recalcRate c s k prate = clkFactorRecalcRate c s k prate := by
  cases k
  case bbpllClk => exact absurd rfl h
  all_goals rfl

theorem Settings.rate_of_ne {S : Settings} (h : k ≠ .bbpllClk) : S.rate k prate =
    mul32 prate (RefclkScale.factor ⟨k, 1, 1⟩ S.held).2.mult.toNat /
      (RefclkScale.factor ⟨k, 1, 1⟩ S.held).2.div.toNat := by
  cases k
  case bbpllClk => exact absurd rfl h
  all_goals rfl

theorem bbpllRecalcRate_keeps (hc : KeepsTree c regs) {a : BitVec 10} (ha : TreeReg a) :
    regs (bbpllRecalcRate c s prate).2 a = regs s a :=
  (hc.spiReadm (by decide : 0 < 4) (by decide : 4 ≤ maxMbyteSpi) s regIntegerBbFreqWord).2.1 a ha

theorem settings_recalcRate (hc : KeepsTree c regs) :
    settings regs (recalcRate c s k prate).2 = settings regs s := by
  apply settings_congr
  intro a ha
  rcases eq_or_ne k .bbpllClk with rfl | hk
  · exact bbpllRecalcRate_keeps hc ha
  · rw [recalcRate_of_ne hk]
    exact getClkScaler_keeps hc _ ha

theorem bbpllRecalcRate_fst (hc : KeepsTree c regs) : (bbpllRecalcRate c s prate).1 =
    Fractional.rate bbpllModulus prate (settings regs s).word % 2 ^ 32 := by
  obtain ⟨-, -, hread⟩ := hc.spiReadm (by decide : 0 < 4) (by decide : 4 ≤ maxMbyteSpi) s
    regIntegerBbFreqWord
  have h0 := hread 0 (by decide) (.inr (by decide))
  have h1 := hread 1 (by decide) (.inr (by decide))
  have h2 := hread 2 (by decide) (.inr (by decide))
  have h3 := hread 3 (by decide) (.inr (by decide))
  unfold bbpllRecalcRate settings bbpllWord
  simp only [List.getD_eq_getElem?_getD, h0, h1, h2, h3]
  rfl

theorem recalcRate_fst (hc : KeepsTree c regs) :
    (recalcRate c s k prate).1 = (settings regs s).rate k prate := by
  rcases eq_or_ne k .bbpllClk with rfl | hk
  · exact bbpllRecalcRate_fst hc
  · rw [recalcRate_of_ne hk, Settings.rate_of_ne hk]
    have hfst := RefclkScale.getClkScaler_fst (s := s) (q := ⟨k, 1, 1⟩) hc.scalers
    exact congrArg (fun x : Int × RefclkScale => mul32 prate x.2.mult.toNat / x.2.div.toNat) hfst

/-! ## The table -/

/-- The rule of a clock. -/
def Settings.rule (S : Settings) (refin : Nat) (k : Clock) (rates : Clock → Nat) : Nat :=
  S.rate k (parentRate refin rates k)

/-- A clock does not look at those that come after it. -/
theorem Settings.rule_congr {S : Settings} {l : List Clock} (hl : ∀ j ∈ parentSource k, j ∉ k :: l)
    (r r' : Clock → Nat) (hr : ∀ j, j ∉ k :: l → r j = r' j) :
    S.rule refin k r = S.rule refin k r' := by
  unfold Settings.rule parentRate
  cases hk : parentSource k with
  | none => rfl
  | some j => exact congrArg _ (hr j (hl j hk))

theorem ordered_baseBand (S : Settings) (refin : Nat) : Fill.Ordered (S.rule refin) baseBand := by
  iterate 14 refine ⟨by decide, Settings.rule_congr (by decide), ?_⟩
  trivial

theorem ordered_registered (S : Settings) (refin : Nat) :
    Fill.Ordered (S.rule refin) registered := by
  iterate 14 refine ⟨by decide, Settings.rule_congr (by decide), ?_⟩
  trivial

/-- The loops leave the registers alone and fill the table. -/
theorem foldl_refreshOne (hc : KeepsTree c regs) (refin : Nat) (l : List Clock) (t : Tree σ) :
    settings regs (l.foldl (refreshOne c refin) t).dev = settings regs t.dev ∧
      (l.foldl (refreshOne c refin) t).rates =
        Fill.fill ((settings regs t.dev).rule refin) l t.rates := by
  induction l generalizing t with
  | nil => exact ⟨rfl, rfl⟩
  | cons k l ih =>
    rw [List.foldl_cons, Fill.fill_cons]
    obtain ⟨hsettings, hrates⟩ := ih (refreshOne c refin t k)
    have hdev : settings regs (refreshOne c refin t k).dev = settings regs t.dev :=
      settings_recalcRate hc
    have hone : (refreshOne c refin t k).rates =
        Function.update t.rates k ((settings regs t.dev).rule refin k t.rates) :=
      congrArg (Function.update t.rates k) (recalcRate_fst hc)
    rw [hdev] at hsettings hrates
    rw [hone] at hrates
    exact ⟨hsettings, hrates⟩

theorem foldl_refreshOne_coherent (hc : KeepsTree c regs) {l : List Clock} (t : Tree σ)
    (hordered : Fill.Ordered ((settings regs t.dev).rule refin) l) (hl : ∀ k ∈ baseBand, k ∈ l) :
    Coherent regs refin (l.foldl (refreshOne c refin) t) := by
  obtain ⟨hsettings, hrates⟩ := foldl_refreshOne hc refin l t
  intro k hk
  rw [hsettings, hrates]
  exact Fill.fill_spec hordered (hl k hk)

theorem settings_refresh (hc : KeepsTree c regs) :
    settings regs (refresh c refin t).dev = settings regs t.dev :=
  (foldl_refreshOne hc refin baseBand t).1

theorem settings_registerClocks (hc : KeepsTree c regs) :
    settings regs (registerClocks c refin s).dev = settings regs s :=
  (foldl_refreshOne hc refin registered ⟨s, fun _ => 0, false⟩).1

theorem refresh_coherent (hc : KeepsTree c regs) (refin : Nat) (t : Tree σ) :
    Coherent regs refin (refresh c refin t) :=
  foldl_refreshOne_coherent hc t (ordered_baseBand _ refin) fun _ hk => hk

theorem registerClocks_coherent (hc : KeepsTree c regs) (refin : Nat) (s : σ) :
    Coherent regs refin (registerClocks c refin s) :=
  foldl_refreshOne_coherent hc _ (ordered_registered _ refin) (by decide)

/-! ### The first setting of the BBPLL -/

/-- The registers of the dividers are none of those that the BBPLL is set in. -/
theorem held_bbpllSetRate (hc : KeepsTree c regs) (rate prate : Nat) :
    held regs (bbpllSetRate c s rate prate).2 = held regs s := by
  have hall : ∀ f ∈ ScalerField.all, f.at.addr ∉ [0x046#10, 0x04A#10, 0x049#10, 0x048#10] ∧
      f.at.addr ∉ [0x04B#10, 0x04E#10, 0x044#10, 0x043#10, 0x042#10, 0x041#10, 0x03F#10, 0x03F#10,
        0x04C#10, 0x04D#10, 0x04D#10] := by
    decide
  funext f
  apply held_congr
  rintro a ⟨g, rfl⟩
  obtain ⟨hclear, hbytes⟩ := hall g g.mem_all
  rw [bbpllSetRate_regs hc (.inl (holding g)) hclear, Assignments.last_eq_none_iff.mpr,
    Option.getD_none]
  intro x hx heq
  apply hbytes
  rw [← heq]
  exact List.mem_map_of_mem (f := Prod.fst) hx

theorem Coherent.bbpll (hcoherent : Coherent regs refin t) : t.rates .bbpllClk =
    Fractional.rate bbpllModulus (t.rates .bbRefclk) (settings regs t.dev).word % 2 ^ 32 :=
  hcoherent .bbpllClk (by decide)

theorem Coherent.bbRefclk_lt (hcoherent : Coherent regs refin t) :
    t.rates .bbRefclk < 2 ^ 32 := by
  rw [hcoherent .bbRefclk (by decide), Settings.rate_of_ne (by decide)]
  exact Nat.lt_of_le_of_lt (Nat.div_le_self _ _) (Nat.mod_lt _ (by decide))

/-- The BBPLL runs where it can, by its registers. -/
def BbpllInRange (regs : σ → BitVec 10 → Byte) (t : Tree σ) : Prop :=
  maxBbpllFreq < 255 * t.rates .bbRefclk ∧
    minBbpllFreq ≤
      Fractional.rate bbpllModulus (t.rates .bbRefclk) (settings regs t.dev).word ∧
    Fractional.rate bbpllModulus (t.rates .bbRefclk) (settings regs t.dev).word ≤ maxBbpllFreq

/-- **To set the BBPLL to a rate that it has changes no rate**: it is met exactly. So the table need
not be filled anew. -/
theorem setRate_bbpll_coherent (hc : KeepsTree c regs) (hcoherent : Coherent regs refin t)
    (hrange : BbpllInRange regs t) :
    (setRate phy c refin t .bbpllClk (t.rates .bbpllClk)).rates = t.rates ∧
      Coherent regs refin (setRate phy c refin t .bbpllClk (t.rates .bbpllClk)) := by
  obtain ⟨hp, hmin, hmax⟩ := hrange
  have hmax' : Fractional.rate bbpllModulus (t.rates .bbRefclk) (settings regs t.dev).word ≤
    1430000000 := hmax
  have hp' : 1430000000 < 255 * t.rates .bbRefclk := hp
  have hrate := hcoherent.bbpll
  rw [Nat.mod_eq_of_lt (by omega)] at hrate
  rw [← hrate] at hmin hmax
  have hround : bbpllRoundRate (t.rates .bbpllClk) (t.rates .bbRefclk) = t.rates .bbpllClk := by
    rw [bbpllRoundRate, if_neg (Nat.not_lt.mpr hmax), if_neg (Nat.not_lt.mpr hmin), hrate]
    exact Fractional.rate_word_rate (by decide) (show 2 * 2088960 ≤ _ by omega) _
  have hset := (bbpll_recalc_round (s := t.dev) hc (fun _ => .inr) hp hcoherent.bbRefclk_lt hmin
    hmax).1
  rw [hround] at hset
  have hrates : (setRate phy c refin t .bbpllClk (t.rates .bbpllClk)).rates = t.rates := by
    show Function.update t.rates .bbpllClk (bbpllRecalcRate c (bbpllSetRate c t.dev
      (bbpllRoundRate (t.rates .bbpllClk) (t.rates .bbRefclk)) (t.rates .bbRefclk)).2
        (t.rates .bbRefclk)).1 = t.rates
    rw [hround, hset, Function.update_eq_self]
  have hsettings : settings regs (setRate phy c refin t .bbpllClk (t.rates .bbpllClk)).dev =
      settings regs (bbpllSetRate c t.dev (t.rates .bbpllClk) (t.rates .bbRefclk)).2 := by
    show settings regs (recalcRate c (bbpllSetRate c t.dev
      (bbpllRoundRate (t.rates .bbpllClk) (t.rates .bbRefclk)) (t.rates .bbRefclk)).2 .bbpllClk
        (t.rates .bbRefclk)).2 = _
    rw [settings_recalcRate hc, hround]
  refine ⟨hrates, fun k hk => ?_⟩
  rw [hrates, hsettings]
  rcases eq_or_ne k .bbpllClk with rfl | hne
  · rw [bbpllRecalcRate_fst hc] at hset
    exact hset.symm
  · have hheld : (settings regs (bbpllSetRate c t.dev (t.rates .bbpllClk)
        (t.rates .bbRefclk)).2).held = (settings regs t.dev).held := held_bbpllSetRate hc _ _
    rw [Settings.rate_of_ne hne, hheld, ← Settings.rate_of_ne hne]
    exact hcoherent k hk

/-- Where the first setting of the BBPLL asks for the rate that the table has, the BBPLL is in its
range. Elsewhere that rate is not met, and the clocks below the BBPLL keep their old entries. -/
def FirstInRange (regs : σ → BitVec 10 → Byte) (t : Tree σ) (k : Clock) (rate : Nat) : Prop :=
  k = .bbpllClk → t.bbpllInitialized = false → t.rates .bbpllClk = rate → BbpllInRange regs t

theorem clkSetRate_coherent (hc : KeepsTree c regs) (hfirst : FirstInRange regs t k rate)
    (h : Coherent regs refin t) : Coherent regs refin (clkSetRate phy c refin t k rate).2 := by
  unfold clkSetRate
  split
  · exact refresh_coherent hc _ _
  · next hsame =>
    have hrate : t.rates k = rate := Decidable.not_not.mp hsame
    split
    · next hset =>
      obtain ⟨rfl, hinit⟩ := hset
      subst hrate
      have hrange := hfirst rfl (by simpa using hinit) rfl
      obtain ⟨-, hset⟩ :
          _ ∧ Coherent regs refin (setRate phy c refin t .bbpllClk (t.rates .bbpllClk)) :=
        setRate_bbpll_coherent hc h hrange
      exact hset
    · exact h

/-- A device whose registers are all 0, with an external clock of 40 MHz. -/
def resetTree : Tree (BitVec 10 → Byte) := registerClocks registerFile 40000000 fun _ => 0#8

theorem resetTree_coherent : Coherent id 40000000 resetTree :=
  registerClocks_coherent (registerFile_keeps _) _ _

theorem resetTree_settings : settings id resetTree.dev = settings id fun _ => 0#8 :=
  settings_registerClocks (registerFile_keeps TreeReg)

theorem resetTree_bbRefclk : resetTree.rates .bbRefclk = 40000000 := by
  rw [resetTree_coherent .bbRefclk (by decide), resetTree_settings]
  decide

theorem resetTree_bbpll : Fractional.rate bbpllModulus (resetTree.rates .bbRefclk)
    (settings id resetTree.dev).word = 0 := by
  rw [resetTree_bbRefclk, resetTree_settings]
  decide

/-- The clocks with a divider. -/
def dividers : List Clock :=
  [.adcClk, .r2Clk, .r1Clk, .clkrfClk, .rxSamplClk, .dacClk, .t2Clk, .t1Clk, .clktfClk, .txSamplClk]

/-- The clock divides by `d`. -/
def Settings.Divides (S : Settings) (k : Clock) (d : Nat) : Prop :=
  RefclkScale.factor ⟨k, 1, 1⟩ S.held = (0, ⟨k, 1, BitVec.ofNat 32 d⟩)

/-- The divider is one that can be set. -/
def Accepts (phy : FirBypass) (k : Clock) (d : Nat) : Prop :=
  0 < d ∧ d ≤ 64 ∧
    RefclkScale.readBack phy ⟨k, 1, BitVec.ofNat 32 d⟩ = some (1, BitVec.ofNat 32 d)

variable {d e P R : Nat} {S : Settings}

/-- The rate that a clock is made of is nearly `d` times the one in question. -/
structure Near (P R d e : Nat) : Prop where
  le : P ≤ R * d + e
  ge : R * d ≤ P + e
  small : 4 * e + 256 ≤ R
  parent : P < 2 ^ 31
  rate : R < 2 ^ 31

theorem nearestFactor_of_near (h : Near P R d e) (hd : 0 < d) :
    nearestFactor k R P = ⟨k, 1, BitVec.ofNat 32 d⟩ := by
  obtain ⟨hle, hge, hsmall, hP, hR⟩ := h
  unfold nearestFactor
  rcases Nat.lt_or_ge R P with hlt | hge'
  · have hclosest : divRoundClosest P R = d := by
      unfold divRoundClosest
      rw [Nat.mod_eq_of_lt (by omega)]
      apply Nat.div_eq_of_lt_le
      · rw [Nat.mul_comm]
        omega
      · rw [Nat.succ_mul, Nat.mul_comm]
        omega
    rw [if_neg (Nat.not_le.mpr hlt)]
    dsimp only
    rw [hclosest, if_neg (Nat.ne_of_gt hd)]
  · -- not above the rate itself, so not far enough for 2
    have hd1 : d = 1 := by
      by_contra hne
      have h2 : R * 2 ≤ R * d := Nat.mul_le_mul_left R (by omega)
      omega
    subst hd1
    have hclosest : divRoundClosest R P = 1 := by
      unfold divRoundClosest
      rw [Nat.mod_eq_of_lt (by omega)]
      apply Nat.div_eq_of_lt_le <;> omega
    rw [if_pos hge', hclosest]
    rfl

/-- The rate that is then rounded to is near enough as well. -/
theorem Near.rounded (h : Near P R d e) (hR512 : 4 * e + 512 ≤ R) (hd : 0 < d) (hd64 : d ≤ 64) :
    Near P (P / d) d d := by
  obtain ⟨hle, hge, hsmall, hP, hR⟩ := h
  have hdiv := Nat.div_add_mod P d
  have hmod := Nat.mod_lt P hd
  have hcomm : P / d * d = d * (P / d) := Nat.mul_comm _ _
  have hquot : R - e ≤ P / d := by
    rw [Nat.le_div_iff_mul_le hd, Nat.sub_mul]
    have : e ≤ e * d := Nat.le_mul_of_pos_right e hd
    omega
  have hle' : P / d ≤ P := Nat.div_le_self P d
  exact ⟨by omega, by omega, by omega, hP, by omega⟩

theorem writef_keeps (hc : KeepsTree c regs) (f : ScalerField) (v : BitVec 32) {a : BitVec 10}
    (ha : BbpllReg a) : regs (c.writef s f v).2 a = regs s a := by
  have hne : a ≠ f.at.addr := by
    have hall : ∀ f ∈ ScalerField.all, ¬BbpllReg f.at.addr := by decide
    rintro rfl
    exact hall f f.mem_all ha
  unfold Chip.writef
  rw [(hc.spiWritef (.inl (holding f))).2 a (.inr ha)]
  exact Fields.BitField.write_apply_of_ne hne

theorem word_writef (hc : KeepsTree c regs) (f : ScalerField) (v : BitVec 32) :
    (settings regs (c.writef s f v).2).word = (settings regs s).word := by
  unfold settings
  dsimp only
  rw [writef_keeps hc f v (by decide), writef_keeps hc f v (by decide),
    writef_keeps hc f v (by decide), writef_keeps hc f v (by decide)]

theorem word_setClkScaler (hc : KeepsTree c regs) (p : RefclkScale) (set : Bool) :
    (settings regs (p.setClkScaler phy c s set).2).word = (settings regs s).word := by
  apply RefclkScale.setClkScaler_induct
    (motive := fun s' => (settings regs s').word = (settings regs s).word) rfl
  intro s' f hf v hs'
  exact (word_writef hc f v).trans hs'

theorem held_lt (f : ScalerField) : (held regs s f).toNat < 8 := by
  have hall : ∀ f ∈ ScalerField.all, (f.at.mask >>> findFirstBit f.at.mask32).toNat < 8 := by
    decide
  have hmask := hall f f.mem_all
  rw [BitVec.toNat_ushiftRight, Nat.shiftRight_eq_div_pow] at hmask
  unfold held Fields.BitField.read Fields.get RegField.field
  rw [BitVec.toNat_setWidth, BitVec.toNat_ushiftRight, BitVec.toNat_and, Nat.shiftRight_eq_div_pow]
  exact Nat.lt_of_le_of_lt (Nat.mod_le _ _)
    (Nat.lt_of_le_of_lt (Nat.div_le_div_right Nat.and_le_right) hmask)

/-- What a divider can be: the codes are of three bits at most. -/
theorem factor_dividers (hk : k ∈ dividers) {h : ScalerField → BitVec 32}
    (hh : ∀ f, (h f).toNat < 8) :
    ∃ n, 0 < n ∧ n ≤ 128 ∧ RefclkScale.factor ⟨k, 1, 1⟩ h = (0, ⟨k, 1, BitVec.ofNat 32 n⟩) := by
  have hof (f : ScalerField) : ∃ n < 8, h f = BitVec.ofNat 32 n :=
    ⟨(h f).toNat, hh f, by rw [BitVec.ofNat_toNat, BitVec.setWidth_eq]⟩
  have hdivider (f : ScalerField) : ∃ n, 0 < n ∧ n ≤ 128 ∧
      RefclkScale.setMuldiv ⟨k, 1, 1⟩ 1 (h f + 1) = (0, ⟨k, 1, BitVec.ofNat 32 n⟩) := by
    obtain ⟨n, hn, heq⟩ := hof f
    refine ⟨n + 1, by omega, by omega, ?_⟩
    rw [heq, BitVec.ofNat_add]
    rfl
  have hfir (f : ScalerField) : ∃ n, 0 < n ∧ n ≤ 128 ∧
      RefclkScale.firScaler ⟨k, 1, 1⟩ (h f) = (0, ⟨k, 1, BitVec.ofNat 32 n⟩) := by
    have hall : ∀ n < 8, 2 ^ (n - 1) ≤ 128 ∧
        (if BitVec.ofNat 32 n = 0 then 1 else 1#32 <<< (BitVec.ofNat 32 n - 1).toNat) =
          BitVec.ofNat 32 (2 ^ (n - 1)) := by
      decide
    obtain ⟨n, hn, heq⟩ := hof f
    obtain ⟨hle, hcode⟩ := hall n hn
    refine ⟨2 ^ (n - 1), Nat.two_pow_pos _, hle, ?_⟩
    rw [heq, RefclkScale.firScaler, hcode]
    rfl
  simp only [dividers, List.mem_cons, List.not_mem_nil, or_false] at hk
  rcases hk with rfl | rfl | rfl | rfl | rfl | rfl | rfl | rfl | rfl | rfl
  case inl =>
    obtain ⟨n, hn, heq⟩ := hof .bbpllDivider
    refine ⟨2 ^ n, Nat.two_pow_pos n, Nat.pow_le_pow_right (by decide) (by omega : n ≤ 7), ?_⟩
    unfold RefclkScale.factor
    dsimp only
    rw [heq, BitVec.toNat_ofNat, Nat.mod_eq_of_lt (by omega), RefclkScale.one_shiftLeft]
    rfl
  all_goals first | exact hdivider _ | exact hfir _

/-- A divider that gives the rate in question is the one that is near. -/
theorem Near.unique (h : Near P R d e) {n : Nat} (hn : 0 < n) (hn128 : n ≤ 128) (hR : P / n = R) :
    n = d := by
  obtain ⟨hle, hge, hsmall, -, -⟩ := h
  have hdiv := Nat.div_add_mod P n
  have hmod := Nat.mod_lt P hn
  rw [hR, Nat.mul_comm n] at hdiv
  rcases Nat.lt_trichotomy n d with hlt | heq | hgt
  · have hmul : R * (n + 1) ≤ R * d := Nat.mul_le_mul_left R hlt
    rw [Nat.mul_succ] at hmul
    omega
  · exact heq
  · have hmul : R * (d + 1) ≤ R * n := Nat.mul_le_mul_left R hgt
    rw [Nat.mul_succ] at hmul
    omega

theorem ne_bbpllClk_of_dividers (hk : k ∈ dividers) : k ≠ .bbpllClk := by
  rintro rfl
  exact absurd hk (by decide)

theorem mem_baseBand_of_dividers (hk : k ∈ dividers) : k ∈ baseBand := by
  have hall : ∀ k ∈ dividers, k ∈ baseBand := by decide
  exact hall k hk

theorem Settings.rate_of_divides (hk : k ∈ dividers) (h : S.Divides k d) (hd : d < 2 ^ 32)
    (hP : P < 2 ^ 32) : S.rate k P = P / d := by
  rw [Settings.rate_of_ne (ne_bbpllClk_of_dividers hk), h]
  show mul32 P 1 / (d % 2 ^ 32) = P / d
  rw [mul32_of_lt (by omega), Nat.mul_one, Nat.mod_eq_of_lt hd]

theorem setRate_of_ne (h : k ≠ .bbpllClk) : setRate phy c refin t k rate =
    let prate := parentRate refin t.rates k
    let (roundRate, s) := clkFactorRoundRate phy c t.dev k rate prate
    let s := (clkFactorSetRate phy c s k roundRate prate).2
    let (rate, s) := clkFactorRecalcRate c s k prate
    { t with dev := s, rates := Function.update t.rates k rate } := by
  cases k
  case bbpllClk => exact absurd rfl h
  all_goals rfl

/-- The device after a divider was set: what rounding and setting come to. -/
theorem setRate_dev (hc : KeepsTree c regs) (hk : k ∈ dividers) (hd : Accepts phy k d)
    (hnear : Near (parentRate refin t.rates k) R d e) (hR : 4 * e + 512 ≤ R) :
    settings regs (setRate phy c refin t k R).dev =
      settings regs (RefclkScale.setClkScaler phy c t.dev ⟨k, 1, BitVec.ofNat 32 d⟩ true).2 := by
  obtain ⟨hd0, hd64, hback⟩ := hd
  obtain ⟨hret, hdev⟩ := RefclkScale.setClkScaler_of_some (s := t.dev) hc.scalers hback false
  have hround : clkFactorRoundRate phy c t.dev k R (parentRate refin t.rates k) =
      (parentRate refin t.rates k / d, t.dev) := by
    unfold clkFactorRoundRate
    rw [nearestFactor_of_near hnear hd0]
    dsimp only
    rw [hret, hdev, if_neg (Int.lt_irrefl 0), BitVec.toNat_ofNat, Nat.mod_eq_of_lt (by omega)]
    have hquot := Nat.div_le_self (parentRate refin t.rates k) d
    have hP := hnear.parent
    have hone : (1 : BitVec 32).toNat = 1 := rfl
    rw [hone, mul32_of_lt (by omega), Nat.mul_one]
  rw [setRate_of_ne (ne_bbpllClk_of_dividers hk)]
  dsimp only
  rw [hround]
  dsimp only
  have hset : clkFactorSetRate phy c t.dev k (parentRate refin t.rates k / d)
      (parentRate refin t.rates k) =
        RefclkScale.setClkScaler phy c t.dev ⟨k, 1, BitVec.ofNat 32 d⟩ true := by
    unfold clkFactorSetRate
    rw [nearestFactor_of_near (hnear.rounded hR hd0 hd64) hd0]
  rw [hset, ← recalcRate_of_ne (ne_bbpllClk_of_dividers hk), settings_recalcRate hc]

/-- **A divider that is nearly what is asked for is set**, or was set already, and nothing else
changes. -/
theorem clkSetRate_divides (hc : KeepsTree c regs) (hcoherent : Coherent regs refin t)
    (hk : k ∈ dividers) (hd : Accepts phy k d)
    (hnear : Near (parentRate refin t.rates k) R d e) (hR : 4 * e + 512 ≤ R) :
    let t' := (clkSetRate phy c refin t k R).2
    Coherent regs refin t' ∧ (settings regs t'.dev).Divides k d ∧
      (settings regs t'.dev).word = (settings regs t.dev).word ∧
      ∀ j, j ≠ k → RefclkScale.factor ⟨j, 1, 1⟩ (settings regs t'.dev).held =
        RefclkScale.factor ⟨j, 1, 1⟩ (settings regs t.dev).held := by
  have hne := ne_bbpllClk_of_dividers hk
  dsimp only
  by_cases hrate : t.rates k = R
  · have hsame : (clkSetRate phy c refin t k R).2 = t := by
      unfold clkSetRate
      rw [if_neg (by simpa using hrate), if_neg fun h => hne h.1]
    rw [hsame]
    refine ⟨hcoherent, ?_, rfl, fun _ _ => rfl⟩
    -- the registers have a divider that gives this rate already
    obtain ⟨n, hn, hn128, hfactor⟩ := factor_dividers hk (h := held regs t.dev) held_lt
    have hdivides : (settings regs t.dev).Divides k n := hfactor
    have hP := hnear.parent
    have hcoh := hcoherent k (mem_baseBand_of_dividers hk)
    rw [hrate, Settings.rate_of_divides hk hdivides (by omega) (by omega)] at hcoh
    exact hnear.unique hn hn128 hcoh.symm ▸ hdivides
  · have hset : (clkSetRate phy c refin t k R).2 =
        refresh c refin (setRate phy c refin t k R) := by
      unfold clkSetRate
      rw [if_pos hrate]
    have hsettings : settings regs (refresh c refin (setRate phy c refin t k R)).dev =
        settings regs (setRate phy c refin t k R).dev := settings_refresh hc
    rw [setRate_dev hc hk hd hnear hR] at hsettings
    rw [hset, hsettings]
    refine ⟨refresh_coherent hc _ _, ?_, word_setClkScaler hc _ true, ?_⟩
    · exact RefclkScale.factor_setClkScaler (q := ⟨k, 1, 1⟩) hc.scalers hd.2.2 rfl
    · intro j hj
      apply RefclkScale.factor_congr
      intro f hf
      apply RefclkScale.held_setClkScaler_of_notMem hc.scalers
      intro hmem
      exact hj ((RefclkScale.owner_of_mem hf).symm.trans (RefclkScale.owner_of_mem hmem))

/-! ## Setting a chain of factors -/

/-- A clock with the rate that is asked for and the divider that this means. -/
structure Step where
  clock : Clock
  rate : Nat
  div : Nat

/-- The clock is made of one that was set before, or of the BBPLL, and the rates are in
proportion. -/
structure Step.Sound (phy : FirBypass) (goal : Clock → Nat) (e : Nat) (l : List Step) (x : Step) :
    Prop where
  mem : x.clock ∈ dividers
  notMem : x.clock ∉ l.map Step.clock
  accepts : Accepts phy x.clock x.div
  rate : goal x.clock = x.rate
  parent : ∃ j, parentSource x.clock = some j ∧ (j = .bbpllClk ∨ j ∈ l.map Step.clock) ∧
    goal j = x.rate * x.div ∧ goal j + e < 2 ^ 31
  large : 4 * e + 512 ≤ x.rate

inductive Plan (phy : FirBypass) (goal : Clock → Nat) (e : Nat) : List Step → Prop
  | nil : Plan phy goal e []
  | snoc {l : List Step} {x : Step} : Plan phy goal e l → x.Sound phy goal e l →
      Plan phy goal e (l ++ [x])

/-- A rate that is off by `e` at most. -/
def Close (e a b : Nat) : Prop := a ≤ b + e ∧ b ≤ a + e

theorem Close.div {a b : Nat} (h : Close e a (b * d)) (hd : 0 < d) : Close e (a / d) b := by
  obtain ⟨hle, hge⟩ := h
  have hmul : e ≤ e * d := Nat.le_mul_of_pos_right e hd
  constructor
  · apply Nat.div_le_of_le_mul
    rw [Nat.mul_comm, Nat.add_mul]
    omega
  · have hsub : b - e ≤ a / d := by
      rw [Nat.le_div_iff_mul_le hd, Nat.sub_mul]
      omega
    omega

variable {goal : Clock → Nat} {l : List Step} {x : Step}

/-- With the dividers of a plan, an error of the BBPLL does not grow on the way down. -/
theorem Plan.close (hplan : Plan phy goal e l) (hcoherent : Coherent regs refin t)
    (hdivides : ∀ x ∈ l, (settings regs t.dev).Divides x.clock x.div)
    (hbbpll : Close e (t.rates .bbpllClk) (goal .bbpllClk)) :
    ∀ j, (j = .bbpllClk ∨ j ∈ l.map Step.clock) → Close e (t.rates j) (goal j) := by
  induction hplan with
  | nil =>
    rintro j (rfl | hj)
    · exact hbbpll
    · cases hj
  | @snoc l x hplan hsound ih =>
    have hbefore := ih fun y hy => hdivides y (List.mem_append_left _ hy)
    intro j hj
    by_cases hx : j = x.clock
    · subst hx
      obtain ⟨i, hparent, hmem, hgoal, hlt⟩ := hsound.parent
      have hclose := hbefore i hmem
      rw [hgoal] at hclose
      have hsmall : t.rates i < 2 ^ 32 := by
        have := (hbefore i hmem).1
        omega
      have hd := hsound.accepts
      have hrate : t.rates x.clock = t.rates i / x.div := by
        have hpr : parentRate refin t.rates x.clock = t.rates i := by rw [parentRate, hparent]
        rw [hcoherent _ (mem_baseBand_of_dividers hsound.mem), hpr]
        exact Settings.rate_of_divides hsound.mem (hdivides x (by simp))
          (by have := hd.2.1; omega) hsmall
      rw [hrate, hsound.rate]
      exact hclose.div hd.1
    · apply hbefore
      rcases hj with rfl | hj
      · exact .inl rfl
      · right
        simpa [hx] using hj

/-- **A plan is carried out**: in the end every clock has its divider, and its rate is off by no
more than that of the BBPLL. -/
theorem clkSetRate_plan (hc : KeepsTree c regs) (hplan : Plan phy goal e l)
    (hcoherent : Coherent regs refin t) (hbbpll : Close e (t.rates .bbpllClk) (goal .bbpllClk)) :
    let t' := l.foldl (fun t x => (clkSetRate phy c refin t x.clock x.rate).2) t
    Coherent regs refin t' ∧ Close e (t'.rates .bbpllClk) (goal .bbpllClk) ∧
      ∀ x ∈ l, (settings regs t'.dev).Divides x.clock x.div := by
  induction hplan with
  | nil => exact ⟨hcoherent, hbbpll, by simp⟩
  | @snoc l x hplan hsound ih =>
    rw [List.foldl_append, List.foldl_cons, List.foldl_nil]
    generalize l.foldl (fun t x => (clkSetRate phy c refin t x.clock x.rate).2) t = t₁ at ih ⊢
    obtain ⟨hcoherent₁, hbbpll₁, hdivides₁⟩ := ih
    obtain ⟨j, hparent, hmem, hgoal, hlt⟩ := hsound.parent
    have hclose := hplan.close hcoherent₁ hdivides₁ hbbpll₁ j hmem
    have hpr : parentRate refin t₁.rates x.clock = t₁.rates j := by rw [parentRate, hparent]
    have hd := hsound.accepts
    have hlarge := hsound.large
    have hrate : x.rate ≤ goal j := by
      rw [hgoal]
      exact Nat.le_mul_of_pos_right _ hd.1
    have hnear : Near (parentRate refin t₁.rates x.clock) x.rate x.div e := by
      rw [hpr]
      obtain ⟨hle, hge⟩ := hclose
      exact ⟨by omega, by omega, by omega, by omega, by omega⟩
    obtain ⟨hcoherent₂, hdivides₂, hword, hfactor⟩ :=
      clkSetRate_divides hc hcoherent₁ hsound.mem hd hnear hlarge
    refine ⟨hcoherent₂, ?_, ?_⟩
    · -- neither the reference nor the word has changed
      have href := hcoherent₂ .bbRefclk (by decide)
      have href₁ := hcoherent₁ .bbRefclk (by decide)
      rw [Settings.rate_of_ne (by decide), hfactor .bbRefclk,
        ← Settings.rate_of_ne (by decide)] at href
      · have hsame : (clkSetRate phy c refin t₁ x.clock x.rate).2.rates .bbRefclk =
            t₁.rates .bbRefclk := href.trans href₁.symm
        rw [hcoherent₂.bbpll, hword, hsame, ← hcoherent₁.bbpll]
        exact hbbpll₁
      · rintro hx
        have := hsound.mem
        rw [← hx] at this
        exact absurd this (by decide)
    · intro y hy
      rcases List.mem_append.mp hy with hy | hy
      · have hne : y.clock ≠ x.clock := by
          intro heq
          exact hsound.notMem (heq ▸ List.mem_map_of_mem hy)
        exact (hfactor y.clock hne).trans (hdivides₁ y hy)
      · rw [List.mem_singleton] at hy
        subst hy
        exact hdivides₂

end View

end ModemFhss.Ad9361
