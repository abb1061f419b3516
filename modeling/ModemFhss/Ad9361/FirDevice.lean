import ModemFhss.Ad9361.FirTables

/-!
# The configurations of the filters (`ad9361_set_rx_fir_config`, `ad9361_get_rx_fir_config`, …)

A configuration is loaded for one direction and one or both channels, and read for one of each.

* `loadFirFilterCoef_spec` — what a configuration that is accepted makes of the two filters; one
  that is rejected only changes the ratio, which is recorded before.
* `getFirConfig_run` — after any run, what is read is what the calls before have loaded: of every
  coefficient the last configuration that was accepted, was for its channel and had as many taps.
-/

namespace ModemFhss.Ad9361

open Errno

variable {σ : Type*}

/-! ## The driver -/

/-- The loop over the coefficients that are still to be read. -/
def readCoefs (c : Chip σ) (rx : Bool) : List (Fin 128) → Vector Int16 128 → σ →
    Int × Vector Int16 128 × σ
  | [], coef, s => (0, coef, s)
  | i :: l, coef, s =>
    let s := (c.spiWrite s (firReg rx 0#32) (BitVec.ofNat 32 i)).2
    let (ret, s) := c.spiRead s (firReg rx 3#32)
    if ret < 0 then (ret, coef, s) else
    let coef := coef.set i (Int16.ofInt ret) i.isLt
    let (ret, s) := c.spiRead s (firReg rx 4#32)
    if ret < 0 then (ret, coef, s) else
    readCoefs c rx l (coef.set i (coef.get i ||| Int16.ofInt (ret * 256)) i.isLt) s

/-- The channel is selected, the clock started, and the coefficients are read. -/
def readTable (c : Chip σ) (rx : Bool) (conf : BitVec 32) (ch : UInt8) (coef : Vector Int16 128)
    (s : σ) : Int × Vector Int16 128 × σ :=
  let conf := conf &&& ~~~firSelect 3#32 ||| (firSelect (ch.toBitVec.setWidth 32) ||| firStartClk)
  let s := (c.spiWrite s (firReg rx 5#32) conf).2
  let (ret, coef, s) := readCoefs c rx (List.finRange 128) coef s
  if ret < 0 then (ret, coef, s) else
  (0, coef, (c.spiWrite s (firReg rx 5#32) (conf &&& ~~~firStartClk)).2)

def getRxFirConfig (c : Chip σ) (phy : FirPhy) (s : σ) (rxCh : UInt8) (cfg : RXFIRConfig) :
    Int × RXFIRConfig × σ :=
  let rxCh := rxCh + 1
  let (ret, s) := c.spiRead s (firReg true 5#32)
  if ret < 0 then (ret, cfg, s) else
  let conf := BitVec.ofInt 32 ret
  let cfg := { cfg with rxCoefSize := coefSizeOf conf }
  let (ret, s) := c.spiRead s regRxFilterGain
  if ret < 0 then (ret, cfg, s) else
  let gain := -6 * ((BitVec.ofInt 32 ret &&& 3#32).toNat : Int) + 6
  let cfg := { cfg with rxGain := Int32.ofInt gain, rx := rxCh.toUInt32 }
  let (ret, coef, s) := readTable c true conf rxCh cfg.rxCoef s
  let cfg := { cfg with rxCoef := coef }
  if ret < 0 then (ret, cfg, s) else
  (0, { cfg with rxDec := phy.rxFirDec.toUInt32 }, s)

def getTxFirConfig (c : Chip σ) (phy : FirPhy) (s : σ) (txCh : UInt8) (cfg : TXFIRConfig) :
    Int × TXFIRConfig × σ :=
  let txCh := txCh + 1
  let (ret, s) := c.spiRead s (firReg false 5#32)
  if ret < 0 then (ret, cfg, s) else
  let conf := BitVec.ofInt 32 ret
  let gain := -6 * ((conf &&& txFirGain6dB).toNat : Int)
  let cfg := { cfg with
    txCoefSize := coefSizeOf conf, txGain := Int32.ofInt gain, tx := txCh.toUInt32 }
  let (ret, coef, s) := readTable c false conf txCh cfg.txCoef s
  let cfg := { cfg with txCoef := coef }
  if ret < 0 then (ret, cfg, s) else
  (0, { cfg with txInt := phy.txFirInt.toUInt32 }, s)

/-! ## What is loaded -/

/-- The filter of a direction, as far as it can be read. -/
@[ext]
structure FirBank where
  coefSize : UInt8
  gain : Int
  ratio : UInt8
  coef : Bool → Fin 128 → Int16

/-- The numbers of a register for the gain of the receivers, and of the bit for the other. -/
def gainOf (rx : Bool) (conf gain : BitVec 32) : Int :=
  if rx then -6 * ((gain &&& 3#32).toNat : Int) + 6 else -6 * ((conf &&& txFirGain6dB).toNat : Int)

def firBank (regs : σ → BitVec 10 → Byte) (table : σ → Coefs) (phy : FirPhy) (s : σ) (rx : Bool) :
    FirBank where
  coefSize := coefSizeOf ((regs s (firAddr rx 5#32)).setWidth 32)
  gain := gainOf rx ((regs s (firAddr rx 5#32)).setWidth 32) ((regs s 0x0F6#10).setWidth 32)
  ratio := if rx then phy.rxFirDec else phy.txFirInt
  coef ch i := Int16.ofBitVec (table s rx ch (BitVec.ofNat 7 i))

/-- A configuration of either direction. -/
structure FirLoad where
  dest : BitVec 32
  gain : Int
  ntaps : Nat
  coef : Vector Int16 128

/-- A filter has 16 taps, or 32 and so on up to 128. -/
def FirLoad.Rejected (l : FirLoad) : Prop := l.ntaps = 0 ∨ l.ntaps > 128 ∨ l.ntaps % 16 ≠ 0

instance (l : FirLoad) : Decidable l.Rejected := inferInstanceAs (Decidable (_ ∨ _))

def FirLoad.isRx (l : FirLoad) : Bool := decide (l.dest &&& firIsRx ≠ 0#32)

/-- The gain that is read when this one was loaded: 6, 0, -6 and -12 of the receivers and 0 and -6
of the others are read as they are. -/
def loadedGain (rx : Bool) (gain : Int) : Int :=
  if rx then -6 * ((rxGainVal gain).toNat : Int) + 6 else if gain = -6 then -6 else 0

/-- The coefficients of the other channel, and those from `ntaps` on, stay as they are. -/
def FirBank.load (b : FirBank) (l : FirLoad) : FirBank :=
  if l.Rejected then b else
  { b with
    coefSize := UInt8.ofNat l.ntaps
    gain := loadedGain l.isRx l.gain
    coef := fun ch i => if isDest l.dest ch ∧ i < l.ntaps then l.coef.get i else b.coef ch i }

/-- No coefficient is stored when the configuration is written back. -/
def Quiet (regs : σ → BitVec 10 → Byte) (s : σ) : Prop :=
  ∀ rx, (regs s (firAddr rx 5#32)).getLsbD 2 = false

theorem FirBank.load_of_not_rejected {b : FirBank} {l : FirLoad} (h : ¬ l.Rejected) :
    b.load l =
      { b with
        coefSize := UInt8.ofNat l.ntaps
        gain := loadedGain l.isRx l.gain
        coef := fun ch i =>
          if isDest l.dest ch ∧ i < l.ntaps then l.coef.get i else b.coef ch i } :=
  if_neg h

section Bank

variable {c : Chip σ} {regs : σ → BitVec 10 → Byte} {table : σ → Coefs} {s s' : σ}
  {phy phy' : FirPhy} {l : FirLoad}

theorem SameFir.firBank (h : SameFir regs table s s') (hrx : phy'.rxFirDec = phy.rxFirDec)
    (htx : phy'.txFirInt = phy.txFirInt) :
    firBank regs table phy' s' = firBank regs table phy s := by
  funext rx
  unfold Ad9361.firBank
  rw [h.table_eq, h.regs_eq _ (by cases rx <;> decide), h.regs_eq _ (by decide), hrx, htx]

theorem SameFir.quiet (h : SameFir regs table s s') (hquiet : Quiet regs s) : Quiet regs s' := by
  intro rx
  rw [h.regs_eq _ (by cases rx <;> decide)]
  exact hquiet rx

theorem rxGainVal_read (gain : Int) :
    ((rxGainVal gain).setWidth 8).setWidth 32 &&& 3#32 = rxGainVal gain := by
  have hall : ∀ d : BitVec 2, ((d.setWidth 32).setWidth 8).setWidth 32 &&& 3#32 =
      d.setWidth 32 := by
    decide
  unfold rxGainVal
  rw [and_three (BitVec.ofInt 32 _)]
  exact hall _

theorem txGain_read : ∀ b : Byte, (b.setWidth 32 &&& txFirGain6dB).toNat =
    if b.getLsbD 0 then 1 else 0 := by
  decide +kernel

/-- The list that is stored has the coefficients of the vector. -/
theorem stored_coef (coef : Vector Int16 128) (i : Fin 128) :
    Int16.ofBitVec (coef.toList.getD i 0).toBitVec = coef.get i := by
  rw [Int16.ofBitVec_toBitVec, List.getD_eq_getElem?_getD, Vector.getElem?_toList,
    Vector.getElem?_eq_getElem i.isLt]
  rfl

/-- What the direction has after its filter is stored, and the other one still has. -/
theorem firBank_storeFilter {rx : Bool} (phy : FirPhy) (hc : c.KeepsFir regs table)
    (hn : ¬ l.Rejected) (hisRx : l.isRx = rx)
    (hregs : ∀ a, FirReg a → a ≠ 0x0F6#10 → regs s' a = regs s a)
    (hgain : regs s' 0x0F6#10 = if rx then (rxGainVal l.gain).setWidth 8 else regs s 0x0F6#10)
    (htable : table s' = table s) :
    firBank regs table phy (storeFilter c s' rx
      (firConf (if rx then 0#32 else txGainBit l.gain) l.ntaps l.dest)
      (fun i => l.coef.toList.getD i 0) l.ntaps) =
    Function.update (firBank regs table phy s) rx ((firBank regs table phy s rx).load l) ∧
    (Quiet regs s → Quiet regs (storeFilter c s' rx
      (firConf (if rx then 0#32 else txGainBit l.gain) l.ntaps l.dest)
      (fun i => l.coef.toList.getD i 0) l.ntaps)) := by
  obtain ⟨h0, h128, h16⟩ : l.ntaps ≠ 0 ∧ l.ntaps ≤ 128 ∧ l.ntaps % 16 = 0 := by
    simpa only [FirLoad.Rejected, not_or, not_not, not_lt] using hn
  have hbit : (if rx then 0#32 else txGainBit l.gain) =
      if (!rx && decide (l.gain = -6)) then txFirGain6dB else 0#32 := by
    cases rx <;> simp [txGainBit]
  have hbits := firConf_bits h0 h128 h16 (!rx && decide (l.gain = -6)) l.dest
  rw [← hbit] at hbits
  obtain ⟨hconf, hothers, hnew⟩ := storeFilter_spec s' rx (fun i => l.coef.toList.getD i 0) hc
    (hbits false).2.1 (hbits false).1 (hbits false).2.2.2.1 h128
  have hstoring : ∀ rx', rx' ≠ rx → ¬ Storing rx (firAddr rx' 5#32) := by
    cases rx <;> decide
  refine ⟨?_, ?_⟩
  swap
  · intro hquiet rx'
    by_cases hrx : rx' = rx
    · subst hrx
      rw [hconf]
      exact (hbits false).2.2.2.1
    · rw [hothers _ (by cases rx' <;> decide) (hstoring rx' hrx), hregs _ (by cases rx' <;> decide)
        (by cases rx' <;> decide)]
      exact hquiet rx'
  funext rx'
  by_cases hrx : rx' = rx
  · subst hrx
    rw [Function.update_self, FirBank.load_of_not_rejected hn]
    refine FirBank.ext ?_ ?_ rfl ?_
    · show coefSizeOf _ = _
      rw [hconf, (hbits false).2.2.2.2.1]
    · show gainOf _ _ _ = _
      rw [hconf, hothers _ (by decide) (by cases rx' <;> decide), hgain]
      cases rx'
      · show -6 * ((((firConf _ l.ntaps l.dest &&& ~~~firStartClk).setWidth 8).setWidth 32 &&&
          txFirGain6dB).toNat : Int) = _
        rw [txGain_read, (hbits false).2.2.2.2.2]
        by_cases hsix : l.gain = -6 <;> simp [loadedGain, hisRx, hsix]
      · show -6 * ((((rxGainVal l.gain).setWidth 8).setWidth 32 &&& 3#32).toNat : Int) + 6 = _
        rw [rxGainVal_read, hisRx]
        rfl
    · funext ch i
      have hi : (BitVec.ofNat 7 i).toNat = i := by
        rw [BitVec.toNat_ofNat, Nat.mod_eq_of_lt i.isLt]
      show Int16.ofBitVec (table _ rx' ch (BitVec.ofNat 7 i)) =
        if isDest l.dest ch ∧ i < l.ntaps then l.coef.get i
        else Int16.ofBitVec (table s rx' ch (BitVec.ofNat 7 i))
      rw [hnew, htable]
      dsimp only
      rw [(hbits ch).2.2.1, hi]
      simp only [true_and]
      split
      · exact stored_coef l.coef i
      · rfl
  · rw [Function.update_of_ne hrx]
    have hconf' := hstoring rx' hrx
    refine FirBank.ext ?_ ?_ rfl ?_
    · show coefSizeOf _ = coefSizeOf _
      rw [hothers _ (by cases rx' <;> decide) hconf', hregs _ (by cases rx' <;> decide)
        (by cases rx' <;> decide)]
    · show gainOf _ _ _ = gainOf _ _ _
      rw [hothers _ (by cases rx' <;> decide) hconf', hregs _ (by cases rx' <;> decide)
        (by cases rx' <;> decide), hothers _ (by decide) (by cases rx <;> decide), hgain]
      -- the register of the gain is of the receivers alone
      cases rx <;> cases rx' <;> first | rfl | exact absurd rfl hrx
    · funext ch i
      show Int16.ofBitVec _ = Int16.ofBitVec _
      rw [hnew, htable]
      exact congrArg _ (if_neg fun h => hrx h.1)

theorem loadFirFilterCoef_spec (hc : c.KeepsFir regs table) (phy : FirPhy) (s : σ) (l : FirLoad) :
    let r := loadFirFilterCoef c phy s l.dest l.gain l.ntaps l.coef
    r.1 = (if l.Rejected then -einval else 0) ∧
    firBank regs table r.2.1 r.2.2 = Function.update (firBank regs table phy s) l.isRx
      ((firBank regs table phy s l.isRx).load l) ∧
    (Quiet regs s → Quiet regs r.2.2) := by
  have hctrl : ∀ rx, ¬ FirReg ((regEnableFilterCtrl rx).setWidth 10) := by decide
  have hgain : ∀ rx, regRxFilterGain.setWidth 10 = firAddr rx 5#32 →
      ((rxGainVal l.gain).setWidth 8).getLsbD 2 = false := by
    intro rx h
    revert h
    cases rx <;> intro h <;> exact absurd h (by decide)
  have hrestored : ∀ s v ensm rx, SameFir regs table s (ensmRestorePrevState c ensm
      (c.spiWritef s (regEnableFilterCtrl rx) 3#32 v).2) := fun s v _ rx =>
    (hc.same_spiWritef s 3#32 v (hctrl rx)).trans (hc.same_ensmRestorePrevState _)
  have hforce := hc.same_ensmForceState phy.toEnsmPhy s ensmStateAlert
  have hrejected : (l.ntaps = 0 ∨ l.ntaps > 128 ∨ l.ntaps % 16 ≠ 0) ↔ l.Rejected := Iff.rfl
  unfold loadFirFilterCoef
  by_cases hn : l.Rejected
  · dsimp only
    rw [if_pos (hrejected.mpr hn), if_pos hn, FirBank.load, if_pos hn, Function.update_eq_self]
    exact ⟨rfl, rfl, id⟩
  dsimp only
  rw [if_neg (hrejected.not.mpr hn), if_neg hn]
  refine ⟨rfl, ?_⟩
  cases hrx : l.isRx
  · rw [show decide (l.dest &&& firIsRx ≠ 0#32) = false from hrx]
    have hsame := (hforce.trans (hc.same_spiReadf _ (regEnableFilterCtrl false) 3#32)).trans
      (hc.same_spiWritef _ 3#32 (ratioVal phy.txFirInt) (hctrl false))
    have hstored := firBank_storeFilter phy hc hn hrx
      (fun a ha _ => hsame.regs_eq a ha) (hsame.regs_eq _ (by decide)) hsame.table_eq
    rw [← hstored.1]
    exact ⟨(hrestored _ _ _ false).firBank rfl rfl,
      fun hquiet => (hrestored _ _ _ false).quiet (hstored.2 hquiet)⟩
  · rw [show decide (l.dest &&& firIsRx ≠ 0#32) = true from hrx]
    have hothers : ∀ a, FirReg a → a ≠ 0x0F6#10 →
        regs (c.spiWrite (ensmForceState c phy.toEnsmPhy s ensmStateAlert).2 regRxFilterGain
          (rxGainVal l.gain)).2 a = regs s a := by
      intro a ha hne
      have hne' : a ≠ regRxFilterGain.setWidth 10 := hne
      rw [regs_spiWrite_of_ne hc ha hne', hforce.regs_eq a ha]
    have hsame := (hc.same_spiReadf (c.spiWrite (ensmForceState c phy.toEnsmPhy s
      ensmStateAlert).2 regRxFilterGain (rxGainVal l.gain)).2 (regEnableFilterCtrl true) 3#32).trans
      (hc.same_spiWritef _ 3#32 (ratioVal phy.rxFirDec) (hctrl true))
    have hstored := firBank_storeFilter phy hc hn hrx
      (fun a ha hne => (hsame.regs_eq a ha).trans (hothers a ha hne))
      ((hsame.regs_eq _ (by decide)).trans (regs_spiWrite hc (by decide)))
      ((hsame.table_eq.trans (table_spiWrite hc hgain)).trans hforce.table_eq)
    rw [← hstored.1]
    exact ⟨(hrestored _ _ _ true).firBank rfl rfl,
      fun hquiet => (hrestored _ _ _ true).quiet (hstored.2 hquiet)⟩

end Bank

/-! ## Reading -/

section Reading

variable {c : Chip σ} {regs : σ → BitVec 10 → Byte} {table : σ → Coefs} {s s' : σ}
  {rx ch : Bool} {phy : FirPhy} {coef : Vector Int16 128} {l : List (Fin 128)}

/-- One channel is selected. -/
def Selects (regs : σ → BitVec 10 → Byte) (s : σ) (rx ch : Bool) : Prop :=
  (regs s (firAddr rx 5#32)).getLsbD (channelBit ch) = true ∧
  (regs s (firAddr rx 5#32)).getLsbD (channelBit !ch) = false

theorem spiRead_coef (hc : c.KeepsFir regs table) (hsel : Selects regs s rx ch) :
    (c.spiRead s (firReg rx 3#32)).1 =
      ((table s rx ch (coefIndex (regs s) rx)).setWidth 8).toNat ∧
    (c.spiRead s (firReg rx 4#32)).1 =
      ((table s rx ch (coefIndex (regs s) rx) >>> 8).setWidth 8).toNat := by
  obtain ⟨hok3, -, hread3⟩ := hc.spiReadm_one s (firReg rx 3#32)
  obtain ⟨hok4, -, hread4⟩ := hc.spiReadm_one s (firReg rx 4#32)
  unfold Chip.spiRead
  dsimp only
  rw [hok3, hok4, if_neg (Int.lt_irrefl 0), if_neg (Int.lt_irrefl 0)]
  rw [(hread3 rx ch hsel.1 hsel.2).1 rfl, (hread4 rx ch hsel.1 hsel.2).2 rfl]
  exact ⟨rfl, rfl⟩

/-- The two bytes make the coefficient. -/
theorem coef_join (x : BitVec 16) :
    Int16.ofInt ((x.setWidth 8).toNat : Int) |||
      Int16.ofInt ((((x >>> 8).setWidth 8).toNat : Int) * 256) = Int16.ofBitVec x := by
  have hlow : ∀ y : Byte, BitVec.ofInt 16 (y.toNat : Int) = y.setWidth 16 := by
    intro y
    rw [BitVec.ofInt_natCast]
    exact BitVec.eq_of_toNat_eq (by rw [BitVec.toNat_ofNat, BitVec.toNat_setWidth])
  have hhigh : ∀ y : Byte, BitVec.ofInt 16 ((y.toNat : Int) * 256) = y.setWidth 16 <<< 8 := by
    intro y
    rw [show ((y.toNat : Int) * 256) = ((y.toNat * 256 : Nat) : Int) by simp, BitVec.ofInt_natCast]
    apply BitVec.eq_of_toNat_eq
    rw [BitVec.toNat_ofNat, BitVec.toNat_shiftLeft, BitVec.toNat_setWidth, Nat.shiftLeft_eq]
    omega
  apply Int16.toBitVec_inj.mp
  rw [Int16.toBitVec_or, Int16.toBitVec_ofBitVec]
  show BitVec.ofInt 16 _ ||| BitVec.ofInt 16 _ = x
  rw [hlow, hhigh]
  apply BitVec.eq_of_getLsbD_eq
  intro i hi
  by_cases h : i < 8
  · simp [h, hi]
  · simp [h, hi, show i - 8 < 8 by omega, show 8 + (i - 8) = i by omega]

theorem get_set_self (coef : Vector Int16 128) (i : Fin 128) (x : Int16) :
    (coef.set i x i.isLt).get i = x :=
  Vector.getElem_set_self i.isLt

theorem get_set_of_ne (coef : Vector Int16 128) {i j : Fin 128} (x : Int16) (h : i ≠ j) :
    (coef.set i x i.isLt).get j = coef.get j :=
  Vector.getElem_set_ne i.isLt j.isLt fun hij => h (Fin.ext hij)

/-- One round reads one coefficient and leaves only the number register changed. -/
theorem readCoefs_cons (hc : c.KeepsFir regs table) (i : Fin 128) (l : List (Fin 128))
    (coef : Vector Int16 128) (s : σ) (hsel : Selects regs s rx ch) :
    ∃ s', readCoefs c rx (i :: l) coef s = readCoefs c rx l
        (coef.set i (Int16.ofBitVec (table s rx ch (BitVec.ofNat 7 i))) i.isLt) s' ∧
      (∀ a, FirReg a → a ≠ firAddr rx 0#32 → regs s' a = regs s a) ∧ table s' = table s := by
  have hconf : FirReg (firAddr rx 5#32) := by cases rx <;> decide
  have hindexReg : FirReg (firAddr rx 0#32) := by cases rx <;> decide
  have hne : firAddr rx 5#32 ≠ (firReg rx 0#32).setWidth 10 := by cases rx <;> decide
  have hnever : ∀ rx', (firReg rx 0#32).setWidth 10 ≠ firAddr rx' 5#32 := by cases rx <;> decide
  -- the number of the coefficient
  generalize hs₁ : (c.spiWrite s (firReg rx 0#32) (BitVec.ofNat 32 i)).2 = s₁
  have hregs₁ : ∀ a, FirReg a → a ≠ firAddr rx 0#32 → regs s₁ a = regs s a := by
    intro a ha h
    rw [← hs₁]
    exact regs_spiWrite_of_ne hc ha h
  have htable₁ : table s₁ = table s := by
    rw [← hs₁]
    exact table_spiWrite hc fun rx' h => absurd h (hnever rx')
  have hindex₁ : coefIndex (regs s₁) rx = BitVec.ofNat 7 i := by
    rw [coefIndex, ← hs₁, ← ofNat_setWidth_seven]
    exact congrArg _ (regs_spiWrite hc hindexReg)
  have hsel₁ : Selects regs s₁ rx ch := by
    unfold Selects
    rw [hregs₁ _ hconf hne]
    exact hsel
  -- its two bytes
  generalize hs₂ : (c.spiRead s₁ (firReg rx 3#32)).2 = s₂
  have hsame₂ : SameFir regs table s₁ s₂ := by
    rw [← hs₂]
    exact hc.same_spiRead _ _
  have hsel₂ : Selects regs s₂ rx ch := by
    unfold Selects
    rw [hsame₂.regs_eq _ hconf]
    exact hsel₁
  have hindex₂ : coefIndex (regs s₂) rx = BitVec.ofNat 7 i := by
    rw [← hindex₁, coefIndex, coefIndex, hsame₂.regs_eq _ hindexReg]
  have hsame₃ : SameFir regs table s₁ (c.spiRead s₂ (firReg rx 4#32)).2 :=
    hsame₂.trans (hc.same_spiRead _ _)
  refine ⟨(c.spiRead s₂ (firReg rx 4#32)).2, ?_, ?_, ?_⟩
  · rw [readCoefs]
    dsimp only
    rw [hs₁, hs₂, (spiRead_coef hc hsel₁).1, (spiRead_coef hc hsel₂).2, hindex₁, hindex₂,
      hsame₂.table_eq, htable₁, if_neg (Int.not_lt.mpr (Int.natCast_nonneg _)),
      if_neg (Int.not_lt.mpr (Int.natCast_nonneg _))]
    rw [← coef_join, Vector.set_set, get_set_self]
  · intro a ha h
    rw [hsame₃.regs_eq a ha, hregs₁ a ha h]
  · rw [hsame₃.table_eq, htable₁]

theorem readCoefs_spec (hc : c.KeepsFir regs table) (l : List (Fin 128)) (coef : Vector Int16 128)
    (s : σ) (hsel : Selects regs s rx ch) :
    (readCoefs c rx l coef s).1 = 0 ∧
    (∀ j : Fin 128, (j ∈ l → (readCoefs c rx l coef s).2.1.get j =
      Int16.ofBitVec (table s rx ch (BitVec.ofNat 7 j))) ∧
      (j ∉ l → (readCoefs c rx l coef s).2.1.get j = coef.get j)) ∧
    (∀ a, FirReg a → a ≠ firAddr rx 0#32 → regs (readCoefs c rx l coef s).2.2 a = regs s a) ∧
    table (readCoefs c rx l coef s).2.2 = table s := by
  induction l generalizing coef s with
  | nil =>
    exact ⟨rfl, fun j => ⟨fun h => absurd h List.not_mem_nil, fun _ => rfl⟩, fun _ _ _ => rfl, rfl⟩
  | cons i l ih =>
    obtain ⟨s', hstep, hregs', htable'⟩ := readCoefs_cons hc i l coef s hsel
    have hsel' : Selects regs s' rx ch := by
      unfold Selects
      rw [hregs' _ (by cases rx <;> decide) (by cases rx <;> decide)]
      exact hsel
    obtain ⟨hret, hcoef, hregs, htable⟩ :=
      ih (coef.set i (Int16.ofBitVec (table s rx ch (BitVec.ofNat 7 i))) i.isLt) s' hsel'
    rw [hstep]
    refine ⟨hret, ?_, ?_, ?_⟩
    · intro j
      obtain ⟨hmem, hnot⟩ := hcoef j
      rw [htable'] at hmem
      constructor
      · intro hj
        by_cases hjl : j ∈ l
        · exact hmem hjl
        · obtain rfl : j = i := (List.mem_cons.mp hj).resolve_right hjl
          rw [hnot hjl, get_set_self]
      · intro hj
        rw [List.mem_cons, not_or] at hj
        rw [hnot hj.2, get_set_of_ne _ _ (Ne.symm hj.1)]
    · intro a ha h
      rw [hregs a ha h, hregs' a ha h]
    · rw [htable, htable']

/-! ### The configurations -/

/-- `RX1` and `RX2`, or `TX1` and `TX2` -/
def channel (ch : Bool) : UInt8 := if ch then 1 else 0

/-- What the device sees of a configuration while one channel is read, and afterwards. -/
theorem select_bits : ∀ (b : Byte) (ch : Bool),
    let conf := b.setWidth 32 &&& ~~~firSelect 3#32 |||
      (firSelect ((channel ch + 1).toBitVec.setWidth 32) ||| firStartClk)
    (conf.setWidth 8).getLsbD (channelBit ch) = true ∧
    (conf.setWidth 8).getLsbD (channelBit !ch) = false ∧
    (conf.setWidth 8).getLsbD 2 = b.getLsbD 2 ∧
    ((conf &&& ~~~firStartClk).setWidth 8).getLsbD 2 = b.getLsbD 2 ∧
    coefSizeOf (((conf &&& ~~~firStartClk).setWidth 8).setWidth 32) =
      coefSizeOf (b.setWidth 32) ∧
    ((conf &&& ~~~firStartClk).setWidth 8).setWidth 32 &&& txFirGain6dB =
      b.setWidth 32 &&& txFirGain6dB := by
  decide +kernel

theorem readTable_spec (hc : c.KeepsFir regs table) (hquiet : Quiet regs s) (phy : FirPhy)
    (rx ch : Bool) (coef : Vector Int16 128) :
    ∃ s', readTable c rx ((regs s (firAddr rx 5#32)).setWidth 32) (channel ch + 1) coef s =
        (0, Vector.ofFn ((firBank regs table phy s rx).coef ch), s') ∧
      firBank regs table phy s' = firBank regs table phy s ∧ Quiet regs s' := by
  obtain ⟨hsel, hother, hwrite, hwrite', hsize, hgain⟩ :=
    select_bits (regs s (firAddr rx 5#32)) ch
  unfold readTable
  dsimp only
  generalize (regs s (firAddr rx 5#32)).setWidth 32 &&& ~~~firSelect 3#32 |||
    (firSelect ((channel ch + 1).toBitVec.setWidth 32) ||| firStartClk) = conf at *
  have hconf : ∀ rx, FirReg (firAddr rx 5#32) := by decide
  have hnever : ∀ rx', firAddr rx' 5#32 ≠ firAddr rx 0#32 := by cases rx <;> decide
  have hother' : ∀ rx', rx' ≠ rx → firAddr rx' 5#32 ≠ (firReg rx 5#32).setWidth 10 :=
    fun rx' hne h => hne (firAddr_injective h)
  -- the channel is selected
  generalize hs₁ : (c.spiWrite s (firReg rx 5#32) conf).2 = s₁
  have hconf₁ : regs s₁ (firAddr rx 5#32) = conf.setWidth 8 := by
    rw [← hs₁]
    exact regs_spiWrite hc (hconf rx)
  have hregs₁ : ∀ a, FirReg a → a ≠ firAddr rx 5#32 → regs s₁ a = regs s a := by
    intro a ha h
    rw [← hs₁]
    exact regs_spiWrite_of_ne hc ha h
  have htable₁ : table s₁ = table s := by
    rw [← hs₁]
    exact table_spiWrite hc fun _ _ => hwrite.trans (hquiet rx)
  have hsel₁ : Selects regs s₁ rx ch := by
    unfold Selects
    rw [hconf₁]
    exact ⟨hsel, hother⟩
  -- the coefficients are read
  obtain ⟨hret, hcoef, hregs₂, htable₂⟩ := readCoefs_spec hc (List.finRange 128) coef s₁ hsel₁
  rw [hret, if_neg (Int.lt_irrefl 0)]
  generalize (readCoefs c rx (List.finRange 128) coef s₁).2.2 = s₂ at *
  -- the clock is stopped
  generalize hs₃ : (c.spiWrite s₂ (firReg rx 5#32) (conf &&& ~~~firStartClk)).2 = s₃
  have hconf₃ : regs s₃ (firAddr rx 5#32) = (conf &&& ~~~firStartClk).setWidth 8 := by
    rw [← hs₃]
    exact regs_spiWrite hc (hconf rx)
  have hregs₃ : ∀ a, FirReg a → a ≠ firAddr rx 5#32 → a ≠ firAddr rx 0#32 →
      regs s₃ a = regs s a := by
    intro a ha h h0
    rw [← hs₃, regs_spiWrite_of_ne hc ha h, hregs₂ a ha h0, hregs₁ a ha h]
  have htable₃ : table s₃ = table s := by
    rw [← hs₃, table_spiWrite hc fun _ _ => hwrite'.trans (hquiet rx), htable₂, htable₁]
  refine ⟨s₃, ?_, ?_, ?_⟩
  · have hread : (readCoefs c rx (List.finRange 128) coef s₁).2.1 =
        Vector.ofFn ((firBank regs table phy s rx).coef ch) := by
      ext j hj
      have hj' := (hcoef ⟨j, hj⟩).1 (List.mem_finRange _)
      rw [htable₁] at hj'
      rw [Vector.getElem_ofFn]
      exact hj'
    rw [hread]
  · funext rx'
    have hgainReg : regs s₃ 0x0F6#10 = regs s 0x0F6#10 :=
      hregs₃ _ (by decide) (by cases rx <;> decide) (by cases rx <;> decide)
    unfold firBank
    rw [htable₃, hgainReg]
    by_cases hrx : rx' = rx
    · subst hrx
      rw [hconf₃, hsize]
      unfold gainOf
      rw [hgain]
    · rw [hregs₃ _ (hconf rx') (hother' rx' hrx) (hnever rx')]
  · intro rx'
    by_cases hrx : rx' = rx
    · subst hrx
      rw [hconf₃]
      exact hwrite'.trans (hquiet rx')
    · rw [hregs₃ _ (hconf rx') (hother' rx' hrx) (hnever rx')]
      exact hquiet rx'

/-- What is returned of a filter of the receivers; the rest stays as it is. -/
def FirBank.toRx (b : FirBank) (ch : Bool) (cfg : RXFIRConfig) : RXFIRConfig :=
  { cfg with
    rx := (channel ch + 1).toUInt32
    rxGain := Int32.ofInt b.gain
    rxDec := b.ratio.toUInt32
    rxCoef := Vector.ofFn (b.coef ch)
    rxCoefSize := b.coefSize }

def FirBank.toTx (b : FirBank) (ch : Bool) (cfg : TXFIRConfig) : TXFIRConfig :=
  { cfg with
    tx := (channel ch + 1).toUInt32
    txGain := Int32.ofInt b.gain
    txInt := b.ratio.toUInt32
    txCoef := Vector.ofFn (b.coef ch)
    txCoefSize := b.coefSize }

/-- A register is read. -/
theorem exists_spiRead (hc : c.KeepsFir regs table) (s : σ) {reg : BitVec 32}
    (hreg : FirReg (reg.setWidth 10)) :
    ∃ ret s', c.spiRead s reg = (ret, s') ∧ ¬ ret < 0 ∧
      BitVec.ofInt 32 ret = (regs s (reg.setWidth 10)).setWidth 32 ∧ SameFir regs table s s' := by
  refine ⟨(c.spiRead s reg).1, (c.spiRead s reg).2, rfl, ?_, ?_, hc.same_spiRead s reg⟩
  · rw [(hc.spiRead hreg).1]
    exact Int.not_lt.mpr (Int.natCast_nonneg _)
  · rw [(hc.spiRead hreg).1, ofInt_byte]

theorem getRxFirConfig_of_ok {ret ret' : Int} {s₁ s₂ s₃ : σ} {coef : Vector Int16 128}
    {rxCh : UInt8} {cfg : RXFIRConfig}
    (hconf : c.spiRead s (firReg true 5#32) = (ret, s₁)) (hret : ¬ ret < 0)
    (hgain : c.spiRead s₁ regRxFilterGain = (ret', s₂)) (hret' : ¬ ret' < 0)
    (hread : readTable c true (BitVec.ofInt 32 ret) (rxCh + 1) cfg.rxCoef s₂ = (0, coef, s₃)) :
    getRxFirConfig c phy s rxCh cfg =
      (0, { cfg with
        rx := (rxCh + 1).toUInt32
        rxGain := Int32.ofInt (-6 * ((BitVec.ofInt 32 ret' &&& 3#32).toNat : Int) + 6)
        rxDec := phy.rxFirDec.toUInt32
        rxCoef := coef
        rxCoefSize := coefSizeOf (BitVec.ofInt 32 ret) }, s₃) := by
  unfold getRxFirConfig
  simp only [hconf, hret, hgain, hret', hread, if_false, Int.lt_irrefl]

theorem getTxFirConfig_of_ok {ret : Int} {s₁ s₃ : σ} {coef : Vector Int16 128} {txCh : UInt8}
    {cfg : TXFIRConfig} (hconf : c.spiRead s (firReg false 5#32) = (ret, s₁)) (hret : ¬ ret < 0)
    (hread : readTable c false (BitVec.ofInt 32 ret) (txCh + 1) cfg.txCoef s₁ = (0, coef, s₃)) :
    getTxFirConfig c phy s txCh cfg =
      (0, { cfg with
        tx := (txCh + 1).toUInt32
        txGain := Int32.ofInt (-6 * ((BitVec.ofInt 32 ret &&& txFirGain6dB).toNat : Int))
        txInt := phy.txFirInt.toUInt32
        txCoef := coef
        txCoefSize := coefSizeOf (BitVec.ofInt 32 ret) }, s₃) := by
  unfold getTxFirConfig
  simp only [hconf, hret, hread, if_false, Int.lt_irrefl]

theorem getRxFirConfig_spec (hc : c.KeepsFir regs table) (hquiet : Quiet regs s) (phy : FirPhy)
    (ch : Bool) (cfg : RXFIRConfig) :
    ∃ s', getRxFirConfig c phy s (channel ch) cfg =
        (0, (firBank regs table phy s true).toRx ch cfg, s') ∧
      firBank regs table phy s' = firBank regs table phy s ∧ Quiet regs s' := by
  obtain ⟨ret, s₁, hconf, hret, hval, hsame₁⟩ := exists_spiRead hc s
    (show FirReg ((firReg true 5#32).setWidth 10) by decide)
  obtain ⟨ret', s₂, hgain, hret', hval', hsame₂⟩ := exists_spiRead hc s₁
    (show FirReg (regRxFilterGain.setWidth 10) by decide)
  have hsame := hsame₁.trans hsame₂
  obtain ⟨s₃, hread, hbank, hquiet'⟩ :=
    readTable_spec hc (hsame.quiet hquiet) phy true ch cfg.rxCoef
  have hreg : regs s₂ (firAddr true 5#32) = regs s ((firReg true 5#32).setWidth 10) :=
    hsame.regs_eq _ (by decide)
  rw [hreg, ← hval] at hread
  refine ⟨s₃, ?_, hbank.trans (hsame.firBank rfl rfl), hquiet'⟩
  rw [getRxFirConfig_of_ok hconf hret hgain hret' hread, hval, hval', hsame.firBank rfl rfl,
    hsame₁.regs_eq _ (by decide)]
  rfl

theorem getTxFirConfig_spec (hc : c.KeepsFir regs table) (hquiet : Quiet regs s) (phy : FirPhy)
    (ch : Bool) (cfg : TXFIRConfig) :
    ∃ s', getTxFirConfig c phy s (channel ch) cfg =
        (0, (firBank regs table phy s false).toTx ch cfg, s') ∧
      firBank regs table phy s' = firBank regs table phy s ∧ Quiet regs s' := by
  obtain ⟨ret, s₁, hconf, hret, hval, hsame⟩ := exists_spiRead hc s
    (show FirReg ((firReg false 5#32).setWidth 10) by decide)
  obtain ⟨s₃, hread, hbank, hquiet'⟩ :=
    readTable_spec hc (hsame.quiet hquiet) phy false ch cfg.txCoef
  have hreg : regs s₁ (firAddr false 5#32) = regs s ((firReg false 5#32).setWidth 10) :=
    hsame.regs_eq _ (by decide)
  rw [hreg, ← hval] at hread
  refine ⟨s₃, ?_, hbank.trans (hsame.firBank rfl rfl), hquiet'⟩
  rw [getTxFirConfig_of_ok hconf hret hread, hval, hsame.firBank rfl rfl]
  rfl

end Reading

/-! ## Runs -/

namespace FirLoad

def ofRx (cfg : RXFIRConfig) : FirLoad :=
  ⟨cfg.rx.toBitVec ||| firIsRx, cfg.rxGain.toInt, cfg.rxCoefSize.toNat, cfg.rxCoef⟩

def ofTx (cfg : TXFIRConfig) : FirLoad :=
  ⟨cfg.tx.toBitVec, cfg.txGain.toInt, cfg.txCoefSize.toNat, cfg.txCoef⟩

/-- What is stored of a coefficient. -/
def coef? (l : FirLoad) (rx ch : Bool) (i : Fin 128) : Option Int16 :=
  if l.isRx = rx ∧ ¬ l.Rejected ∧ isDest l.dest ch ∧ i < l.ntaps then some (l.coef.get i) else none

end FirLoad

/-- The ratio is recorded before the configuration is looked at. -/
def setBanks (b : Bool → FirBank) (rx : Bool) (ratio : UInt8) (l : FirLoad) : Bool → FirBank :=
  let b := Function.update b rx { b rx with ratio := ratio }
  Function.update b l.isRx ((b l.isRx).load l)

/-- The driver and the device. -/
structure FirSystem (σ : Type*) where
  phy : FirPhy
  chip : σ

/-- Anything that leaves the filters alone. -/
structure LeavesFir (regs : σ → BitVec 10 → Byte) (table : σ → Coefs) where
  run : σ → σ
  same : ∀ s, SameFir regs table s (run s)

/-- A program sets or reads a configuration, or something else happens. -/
inductive FirEvent (regs : σ → BitVec 10 → Byte) (table : σ → Coefs) where
  | setRx (cfg : RXFIRConfig)
  | setTx (cfg : TXFIRConfig)
  | getRx (ch : Bool) (cfg : RXFIRConfig)
  | getTx (ch : Bool) (cfg : TXFIRConfig)
  | elsewhere (f : LeavesFir regs table) (phy : EnsmPhy)

namespace FirEvent

variable {c : Chip σ} {regs : σ → BitVec 10 → Byte} {table : σ → Coefs}

def exec (c : Chip σ) (x : FirSystem σ) : FirEvent regs table → FirSystem σ
  | setRx cfg =>
    let (_, phy, chip) := setRxFirConfig c x.phy x.chip cfg
    ⟨phy, chip⟩
  | setTx cfg =>
    let (_, phy, chip) := setTxFirConfig c x.phy x.chip cfg
    ⟨phy, chip⟩
  | getRx ch cfg => ⟨x.phy, (getRxFirConfig c x.phy x.chip (channel ch) cfg).2.2⟩
  | getTx ch cfg => ⟨x.phy, (getTxFirConfig c x.phy x.chip (channel ch) cfg).2.2⟩
  | elsewhere f phy => ⟨{ x.phy with toEnsmPhy := phy }, f.run x.chip⟩

/-- What an event makes of the two filters. -/
def banks (b : Bool → FirBank) : FirEvent regs table → Bool → FirBank
  | setRx cfg => setBanks b true cfg.rxDec.toUInt8 (.ofRx cfg)
  | setTx cfg => setBanks b false cfg.txInt.toUInt8 (.ofTx cfg)
  | _ => b

def load? : FirEvent regs table → Option FirLoad
  | setRx cfg => some (.ofRx cfg)
  | setTx cfg => some (.ofTx cfg)
  | _ => none

def coef? (e : FirEvent regs table) (rx ch : Bool) (i : Fin 128) : Option Int16 :=
  e.load?.bind (·.coef? rx ch i)

end FirEvent

section Runs

variable {c : Chip σ} {regs : σ → BitVec 10 → Byte} {table : σ → Coefs} {s : σ} {x : FirSystem σ}
  {es : List (FirEvent regs table)}

theorem setBanks_coef (b : Bool → FirBank) (rx' : Bool) (ratio : UInt8) (l : FirLoad)
    (rx ch : Bool) (i : Fin 128) :
    (setBanks b rx' ratio l rx).coef ch i = (l.coef? rx ch i).getD ((b rx).coef ch i) := by
  have hratio : ∀ d, (Function.update b rx' { b rx' with ratio := ratio } d).coef =
      (b d).coef := by
    intro d
    by_cases hd : d = rx'
    · subst hd
      rw [Function.update_self]
    · rw [Function.update_of_ne hd]
  unfold setBanks FirLoad.coef?
  by_cases hrx : l.isRx = rx
  · subst hrx
    rw [Function.update_self, FirBank.load]
    by_cases hn : l.Rejected
    · rw [if_pos hn, if_neg fun h => h.2.1 hn, hratio]
      rfl
    · rw [if_neg hn]
      dsimp only
      rw [hratio]
      simp only [true_and, hn, not_false_eq_true]
      split <;> rfl
  · rw [Function.update_of_ne (Ne.symm hrx), if_neg fun h => hrx h.1, hratio]
    rfl

/-- **Of every coefficient it is the last configuration that counts**, of those that are accepted,
are for its channel and have as many taps. -/
theorem FirEvent.banks_coef (b : Bool → FirBank) (es : List (FirEvent regs table)) (rx ch : Bool)
    (i : Fin 128) :
    (es.foldl FirEvent.banks b rx).coef ch i =
      (es.filterMap (·.coef? rx ch i)).getLast?.getD ((b rx).coef ch i) := by
  induction es using List.reverseRecOn with
  | nil => rfl
  | append_singleton es e ih =>
    have hstep : (e.banks (es.foldl FirEvent.banks b) rx).coef ch i =
        (e.coef? rx ch i).getD ((es.foldl FirEvent.banks b rx).coef ch i) := by
      cases e with
      | setRx cfg => exact setBanks_coef ..
      | setTx cfg => exact setBanks_coef ..
      | _ => rfl
    rw [List.foldl_append, List.foldl_cons, List.foldl_nil, hstep, List.filterMap_append]
    cases he : e.coef? rx ch i with
    | none => simpa [he] using ih
    | some v => simp [he]

theorem firBank_setRatio (phy : FirPhy) (s : σ) (ratio : UInt8) :
    firBank regs table { phy with rxFirDec := ratio } s = Function.update
      (firBank regs table phy s) true { firBank regs table phy s true with ratio := ratio } ∧
    firBank regs table { phy with txFirInt := ratio } s = Function.update
      (firBank regs table phy s) false { firBank regs table phy s false with ratio := ratio } := by
  constructor <;> funext rx <;> cases rx <;> rfl

/-- One event does to the filters what it says, and leaves no coefficient waiting. -/
theorem FirEvent.exec_spec (hc : c.KeepsFir regs table) (x : FirSystem σ)
    (hquiet : Quiet regs x.chip) (e : FirEvent regs table) :
    firBank regs table (e.exec c x).phy (e.exec c x).chip =
      e.banks (firBank regs table x.phy x.chip) ∧ Quiet regs (e.exec c x).chip := by
  cases e with
  | setRx cfg =>
    obtain ⟨-, hbank, hkeeps⟩ :=
      loadFirFilterCoef_spec hc { x.phy with rxFirDec := cfg.rxDec.toUInt8 } x.chip (.ofRx cfg)
    rw [(firBank_setRatio x.phy x.chip cfg.rxDec.toUInt8).1] at hbank
    exact ⟨hbank, hkeeps hquiet⟩
  | setTx cfg =>
    obtain ⟨-, hbank, hkeeps⟩ :=
      loadFirFilterCoef_spec hc { x.phy with txFirInt := cfg.txInt.toUInt8 } x.chip (.ofTx cfg)
    rw [(firBank_setRatio x.phy x.chip cfg.txInt.toUInt8).2] at hbank
    exact ⟨hbank, hkeeps hquiet⟩
  | getRx ch cfg =>
    obtain ⟨s', hget, hbank, hkeeps⟩ := getRxFirConfig_spec hc hquiet x.phy ch cfg
    rw [exec, hget]
    exact ⟨hbank, hkeeps⟩
  | getTx ch cfg =>
    obtain ⟨s', hget, hbank, hkeeps⟩ := getTxFirConfig_spec hc hquiet x.phy ch cfg
    rw [exec, hget]
    exact ⟨hbank, hkeeps⟩
  | elsewhere f phy => exact ⟨(f.same x.chip).firBank rfl rfl, (f.same x.chip).quiet hquiet⟩

theorem FirEvent.run_spec (hc : c.KeepsFir regs table) (x : FirSystem σ)
    (hquiet : Quiet regs x.chip) (es : List (FirEvent regs table)) :
    firBank regs table (es.foldl (FirEvent.exec c) x).phy (es.foldl (FirEvent.exec c) x).chip =
      es.foldl FirEvent.banks (firBank regs table x.phy x.chip) ∧
    Quiet regs (es.foldl (FirEvent.exec c) x).chip := by
  induction es generalizing x with
  | nil => exact ⟨rfl, hquiet⟩
  | cons e es ih =>
    obtain ⟨hbank, hkeeps⟩ := FirEvent.exec_spec hc x hquiet e
    rw [List.foldl_cons, List.foldl_cons, ← hbank]
    exact ih _ hkeeps

/-- **What is read of a filter is what was loaded**, after any run: the number of taps, the gain and
the ratio, and of each coefficient the last that was stored. -/
theorem getFirConfig_run (hc : c.KeepsFir regs table) (hquiet : Quiet regs x.chip)
    (es : List (FirEvent regs table)) (ch : Bool) :
    let y := es.foldl (FirEvent.exec c) x
    let b := es.foldl FirEvent.banks (firBank regs table x.phy x.chip)
    (∀ cfg, (getRxFirConfig c y.phy y.chip (channel ch) cfg).1 = 0 ∧
      (getRxFirConfig c y.phy y.chip (channel ch) cfg).2.1 = (b true).toRx ch cfg) ∧
    (∀ cfg, (getTxFirConfig c y.phy y.chip (channel ch) cfg).1 = 0 ∧
      (getTxFirConfig c y.phy y.chip (channel ch) cfg).2.1 = (b false).toTx ch cfg) ∧
    ∀ rx i, (b rx).coef ch i = (es.filterMap (·.coef? rx ch i)).getLast?.getD
      ((firBank regs table x.phy x.chip rx).coef ch i) := by
  obtain ⟨hbank, hkeeps⟩ := FirEvent.run_spec hc x hquiet es
  dsimp only
  rw [← hbank]
  refine ⟨fun cfg => ?_, fun cfg => ?_, fun rx i => ?_⟩
  · obtain ⟨s', hget, -⟩ := getRxFirConfig_spec hc hkeeps
      (es.foldl (FirEvent.exec c) x).phy ch cfg
    rw [hget]
    exact ⟨rfl, rfl⟩
  · obtain ⟨s', hget, -⟩ := getTxFirConfig_spec hc hkeeps
      (es.foldl (FirEvent.exec c) x).phy ch cfg
    rw [hget]
    exact ⟨rfl, rfl⟩
  · rw [hbank, FirEvent.banks_coef]

end Runs

/-! ## A device -/

/-- The registers and the tables. -/
abbrev FirFile := (BitVec 10 → Byte) × Coefs

/-- What is read at an address: of the channel that is selected, a byte of the coefficient. -/
def FirFile.read (s : FirFile) (a : BitVec 10) : Byte :=
  let selected (rx : Bool) :=
    s.2 rx ((s.1 (firAddr rx 5#32)).getLsbD (channelBit true)) (coefIndex s.1 rx)
  if a = firAddr false 3#32 then (selected false).setWidth 8
  else if a = firAddr false 4#32 then (selected false >>> 8).setWidth 8
  else if a = firAddr true 3#32 then (selected true).setWidth 8
  else if a = firAddr true 4#32 then (selected true >>> 8).setWidth 8
  else s.1 a

/-- Nothing is stored by what is written in several bytes. -/
def FirFile.store (s : FirFile) (addr : BitVec 10) : List Byte → FirFile
  | [b] => (stored addr [b] s.1, storesCoef addr b s.1 s.2)
  | data => (stored addr data s.1, s.2)

def firFile : Chip FirFile where
  transfer s txbuf num :=
    match txbuf with
    | hi :: lo :: data =>
      if (decode hi lo).write then (txbuf.length, s.store (decode hi lo).addr data, []) else
      (num + 2, s, (List.range num).map fun i => s.read ((decode hi lo).addr - BitVec.ofNat 10 i))
    | _ => (-einval, s, [])

section FirFile

variable {s : FirFile} {hi lo : Byte} {rx ch : Bool}

theorem firFile_read (h : (decode hi lo).write = false) (num : Nat) :
    firFile.transfer s [hi, lo] num =
      ((num : Int) + 2, s,
        (List.range num).map fun i => s.read ((decode hi lo).addr - BitVec.ofNat 10 i)) := by
  have hnot : ¬ (decode hi lo).write = true := by simp [h]
  exact if_neg hnot

theorem firFile_write (h : (decode hi lo).write = true) (data : List Byte) :
    firFile.transfer s (hi :: lo :: data) 0 =
      (((hi :: lo :: data).length : Int), s.store (decode hi lo).addr data, []) :=
  if_pos h

theorem FirFile.read_of_firReg {a : BitVec 10} (ha : FirReg a) : s.read a = s.1 a := by
  have hne : ∀ rx, a ≠ firAddr rx 3#32 ∧ a ≠ firAddr rx 4#32 := by
    intro rx
    constructor <;> rintro rfl <;> revert ha <;> cases rx <;> decide
  unfold FirFile.read
  dsimp only
  rw [if_neg (hne false).1, if_neg (hne false).2, if_neg (hne true).1, if_neg (hne true).2]

theorem FirFile.store_fst (addr : BitVec 10) (data : List Byte) :
    (s.store addr data).1 = stored addr data s.1 := by
  unfold FirFile.store
  split <;> rfl

theorem FirFile.read_coef
    (hsel : (s.1 (firAddr rx 5#32)).getLsbD (channelBit ch) = true)
    (hother : (s.1 (firAddr rx 5#32)).getLsbD (channelBit !ch) = false) :
    s.read (firAddr rx 3#32) = (s.2 rx ch (coefIndex s.1 rx)).setWidth 8 ∧
    s.read (firAddr rx 4#32) = (s.2 rx ch (coefIndex s.1 rx) >>> 8).setWidth 8 := by
  have hch : (s.1 (firAddr rx 5#32)).getLsbD (channelBit true) = ch := by
    cases ch
    · exact hother
    · exact hsel
  cases rx <;>
    exact ⟨by simp [FirFile.read, firAddr, firReg, hch.symm],
      by simp [FirFile.read, firAddr, firReg, hch.symm]⟩

theorem firFile_keeps : firFile.KeepsFir Prod.fst Prod.snd where
  read_ok s hi lo h := by
    rw [firFile_read h]
    show 0 ≤ ((decode hi lo).count : Int) + 2
    omega
  read_keeps s hi lo h a _ := by rw [firFile_read h]
  read_bytes s hi lo h i hi' ha := by
    rw [firFile_read h]
    simp [hi', FirFile.read_of_firReg ha]
  write_ok s hi lo data h _ := by
    rw [firFile_write h]
    exact Int.natCast_nonneg _
  write_stores s hi lo data h _ a _ := by
    rw [firFile_write h, FirFile.store_fst]
  read_table s hi lo h := by rw [firFile_read h]
  write_table s hi lo b h _ := by
    rw [firFile_write h]
    rfl
  read_coef s hi lo rx ch h _ hsel hother := by
    obtain ⟨hlow, hhigh⟩ := FirFile.read_coef hsel hother
    rw [firFile_read h]
    refine ⟨fun haddr => ?_, fun haddr => ?_⟩
    · simp [haddr, hlow]
    · simp [haddr, hhigh]

end FirFile

/-- Nothing is loaded yet. -/
def emptyStart : FirSystem FirFile where
  phy := { tddPhy with rxFirDec := 1, txFirInt := 1, rxFirNtaps := 0, txFirNtaps := 0 }
  chip := (fun _ => 0#8, fun _ _ _ => 0#16)

/-- 32 taps for both channels, then 16 for the first one. -/
def shorterRun : List (FirEvent (Prod.fst : FirFile → _) Prod.snd) :=
  [.setRx { (default : RXFIRConfig) with
      rx := 3, rxDec := 2, rxCoef := Vector.replicate 128 1, rxCoefSize := 32 },
    .setTx { (default : TXFIRConfig) with
      tx := 3, txInt := 4, txCoef := Vector.replicate 128 5, txCoefSize := 64 },
    .getRx true default,
    .setRx { (default : RXFIRConfig) with
      rx := 1, rxDec := 4, rxGain := -6, rxCoef := Vector.replicate 128 2, rxCoefSize := 16 },
    .setRx { (default : RXFIRConfig) with
      rx := 1, rxDec := 4, rxCoef := Vector.replicate 128 3, rxCoefSize := 24 }]

theorem getFirConfig_run_shorterRun :
    let y := shorterRun.foldl (FirEvent.exec firFile) emptyStart
    let cfg := (getRxFirConfig firFile y.phy y.chip (channel false) default).2.1
    cfg.rxCoefSize = 16 ∧ cfg.rxGain = -6 ∧ cfg.rxDec = 4 ∧ cfg.rxCoef[15] = 2 ∧
      cfg.rxCoef[16] = 1 := by
  have hquiet : Quiet Prod.fst emptyStart.chip := by
    intro rx
    cases rx <;> decide
  have h := (getFirConfig_run firFile_keeps hquiet shorterRun false).1 default
  dsimp only at h ⊢
  rw [h.2]
  decide +kernel

end ModemFhss.Ad9361
