import ModemFhss.Ad9361.Ensm
import ModemFhss.Ad9361.Fir

/-!
# The tables of the filters (`ad9361_load_fir_filter_coef`)

The device has a filter for each direction, and of each a table of 128 coefficients for each of two
channels. The tables are behind registers: one has the number of a coefficient, two have what is to
be written, two what is read, and one more says which channel it is, how many taps there are, and
that the coefficient is to be stored now. That the device works like this is asked of it by
`Chip.KeepsFir`.

* `storeFilter_spec` — the loop over the coefficients stores them for the channels that are
  selected, and leaves the others and the other direction alone.
-/

namespace ModemFhss.Ad9361

open Errno

variable {σ : Type*}

/-! ## The driver -/

/-- `FIR_IS_RX` -/
def firIsRx : BitVec 32 := 0x80#32

def txFirGain6dB : BitVec 32 := 1#32

def firStartClk : BitVec 32 := 1#32 <<< 1

def firWrite : BitVec 32 := 1#32 <<< 2

def firSelect (x : BitVec 32) : BitVec 32 := (x &&& 3#32) <<< 3

def firNumTaps (x : BitVec 32) : BitVec 32 := (x &&& 7#32) <<< 5

/-- `REG_TX_FILTER_COEF_ADDR`, or `REG_RX_FILTER_COEF_ADDR`; the others follow it. -/
def firReg (rx : Bool) (k : BitVec 32) : BitVec 32 := (if rx then 0x0F0#32 else 0x060#32) + k

def regRxFilterGain : BitVec 32 := 0x0F6#32

/-- Of `struct ad9361_rf_phy`. -/
structure FirPhy extends EnsmPhy where
  rxFirDec : UInt8
  txFirInt : UInt8
  rxFirNtaps : UInt8
  txFirNtaps : UInt8

/-- What is written for one coefficient. -/
def coefBytes (rx : Bool) (conf : BitVec 32) (val : Nat) (coef : Int16) :
    List (BitVec 32 × BitVec 32) :=
  let x := coef.toBitVec.signExtend 32
  [(firReg rx 0#32, BitVec.ofNat 32 val), (firReg rx 1#32, x &&& 0xFF#32),
    (firReg rx 2#32, x.sshiftRight 8), (firReg rx 5#32, conf ||| firWrite), (firReg rx 4#32, 0#32),
    (firReg rx 4#32, 0#32)]

/-- `fir_conf` before the loop. -/
def firConf (gain : BitVec 32) (ntaps : Nat) (dest : BitVec 32) : BitVec 32 :=
  gain ||| (firNumTaps (BitVec.ofNat 32 (ntaps / 16 - 1)) ||| firSelect dest ||| firStartClk)

/-- The number of taps that a configuration says. -/
def coefSizeOf (conf : BitVec 32) : UInt8 :=
  UInt8.ofBitVec (((((conf &&& firNumTaps 7#32) >>> 5) + 1#32) * 16#32).setWidth 8)

/-- What is written of the gain: of the receivers in a register, of the others in a bit. -/
def rxGainVal (gainDb : Int) : BitVec 32 := BitVec.ofInt 32 (3 - (gainDb + 12).tdiv 6) &&& 3#32

def txGainBit (gainDb : Int) : BitVec 32 := if gainDb = -6 then txFirGain6dB else 0#32

/-- `REG_RX_ENABLE_FILTER_CTRL`, or `REG_TX_ENABLE_FILTER_CTRL` -/
def regEnableFilterCtrl (rx : Bool) : BitVec 32 := if rx then 0x003#32 else 0x002#32

def ratioVal (ratio : UInt8) : BitVec 32 :=
  if ratio = 4 then 3#32 else ratio.toBitVec.setWidth 32

def storeCoefs (c : Chip σ) (s : σ) (rx : Bool) (conf : BitVec 32) (coef : Nat → Int16)
    (ntaps : Nat) : σ :=
  (List.range ntaps).foldl (fun s val => spiWrites c s (coefBytes rx conf val (coef val))) s

/-- From the first write of the configuration to the last. -/
def storeFilter (c : Chip σ) (s : σ) (rx : Bool) (conf : BitVec 32) (coef : Nat → Int16)
    (ntaps : Nat) : σ :=
  let s := (c.spiWrite s (firReg rx 5#32) conf).2
  let s := storeCoefs c s rx conf coef ntaps
  let s := (c.spiWrite s (firReg rx 5#32) conf).2
  (c.spiWrite s (firReg rx 5#32) (conf &&& ~~~firStartClk)).2

def loadFirFilterCoef (c : Chip σ) (phy : FirPhy) (s : σ) (dest : BitVec 32) (gainDb : Int)
    (ntaps : Nat) (coef : Vector Int16 128) : Int × FirPhy × σ :=
  if ntaps = 0 ∨ ntaps > 128 ∨ ntaps % 16 ≠ 0 then (-einval, phy, s) else
  let (ensm, s) := ensmForceState c phy.toEnsmPhy s ensmStateAlert
  let rx := decide (dest &&& firIsRx ≠ 0#32)
  let s := if rx then (c.spiWrite s regRxFilterGain (rxGainVal gainDb)).2 else s
  let phy : FirPhy :=
    if rx then { phy with toEnsmPhy := ensm, rxFirNtaps := UInt8.ofNat ntaps }
    else { phy with toEnsmPhy := ensm, txFirNtaps := UInt8.ofNat ntaps }
  let (ret, s) := c.spiReadf s (regEnableFilterCtrl rx) 3#32
  let ratio := if rx then phy.rxFirDec else phy.txFirInt
  let s := (c.spiWritef s (regEnableFilterCtrl rx) 3#32 (ratioVal ratio)).2
  let conf := firConf (if rx then 0#32 else txGainBit gainDb) ntaps dest
  let s := storeFilter c s rx conf (fun i => coef.toList.getD i 0) ntaps
  let s := (c.spiWritef s (regEnableFilterCtrl rx) 3#32 (BitVec.ofInt 32 ret)).2
  (0, phy, ensmRestorePrevState c phy.toEnsmPhy s)

def setRxFirConfig (c : Chip σ) (phy : FirPhy) (s : σ) (cfg : RXFIRConfig) : Int × FirPhy × σ :=
  loadFirFilterCoef c { phy with rxFirDec := cfg.rxDec.toUInt8 } s (cfg.rx.toBitVec ||| firIsRx)
    cfg.rxGain.toInt cfg.rxCoefSize.toNat cfg.rxCoef

def setTxFirConfig (c : Chip σ) (phy : FirPhy) (s : σ) (cfg : TXFIRConfig) : Int × FirPhy × σ :=
  loadFirFilterCoef c { phy with txFirInt := cfg.txInt.toUInt8 } s cfg.tx.toBitVec
    cfg.txGain.toInt cfg.txCoefSize.toNat cfg.txCoef

/-! ## The device -/

/-- The registers that are only written by the driver; the coefficients are read elsewhere. -/
def FirReg (a : BitVec 10) : Prop :=
  a ∈ [0x060#10, 0x061#10, 0x062#10, 0x065#10, 0x0F0#10, 0x0F1#10, 0x0F2#10, 0x0F5#10, 0x0F6#10]

instance (a : BitVec 10) : Decidable (FirReg a) := inferInstanceAs (Decidable (_ ∈ _))

def firAddr (rx : Bool) (k : BitVec 32) : BitVec 10 := (firReg rx k).setWidth 10

/-- Coefficients by direction, channel and number; the channels are `false` and `true`. -/
abbrev Coefs := Bool → Bool → BitVec 7 → BitVec 16

/-- The bit of a channel in the configuration. -/
def channelBit (ch : Bool) : Nat := if ch then 4 else 3

/-- The number in the register for it. -/
def coefIndex (r : BitVec 10 → Byte) (rx : Bool) : BitVec 7 := (r (firAddr rx 0#32)).setWidth 7

/-- A write to the configuration with `FIR_WRITE` stores a coefficient for the channels in it. -/
def storesCoef (addr : BitVec 10) (b : Byte) (r : BitVec 10 → Byte) (t : Coefs) : Coefs :=
  fun rx ch i =>
    if addr = firAddr rx 5#32 ∧ b.getLsbD 2 ∧ b.getLsbD (channelBit ch) ∧ i = coefIndex r rx then
      r (firAddr rx 2#32) ++ r (firAddr rx 1#32)
    else t rx ch i

/-- The device follows its instructions, keeps the registers of the filters, and has the tables that
the driver takes it to have. -/
structure Chip.KeepsFir (c : Chip σ) (regs : σ → BitVec 10 → Byte) (table : σ → Coefs) : Prop
    extends Chip.Keeps c regs FirReg where
  read_table : ∀ s hi lo, (decode hi lo).write = false →
    table (c.transfer s [hi, lo] (decode hi lo).count).2.1 = table s
  write_table : ∀ s hi lo b, (decode hi lo).write = true → (decode hi lo).count = 1 →
    table (c.transfer s [hi, lo, b] 0).2.1 = storesCoef (decode hi lo).addr b (regs s) (table s)
  /-- The two bytes of the coefficient of a channel that is selected, and the other is not. -/
  read_coef : ∀ s hi lo rx ch, (decode hi lo).write = false → (decode hi lo).count = 1 →
    (regs s (firAddr rx 5#32)).getLsbD (channelBit ch) = true →
    (regs s (firAddr rx 5#32)).getLsbD (channelBit !ch) = false →
    ((decode hi lo).addr = firAddr rx 3#32 → (c.transfer s [hi, lo] 1).2.2[0]? =
      some ((table s rx ch (coefIndex (regs s) rx)).setWidth 8)) ∧
    ((decode hi lo).addr = firAddr rx 4#32 → (c.transfer s [hi, lo] 1).2.2[0]? =
      some ((table s rx ch (coefIndex (regs s) rx) >>> 8).setWidth 8))

section Device

variable {c : Chip σ} {regs : σ → BitVec 10 → Byte} {table : σ → Coefs} {s s' s'' : σ}
  {reg mask val : BitVec 32} {a : BitVec 10} {rx ch : Bool} {phy : EnsmPhy}

theorem Chip.KeepsFir.spiWrite_table (hc : c.KeepsFir regs table) :
    table (c.spiWrite s reg val).2 =
      storesCoef (reg.setWidth 10) (val.setWidth 8) (regs s) (table s) := by
  obtain ⟨hi, lo, hbytes⟩ := exists_instruction (head true 1 ||| adAddr reg)
  have hdecode := decode_head (by decide) (by decide) hbytes
  have hok := hc.write_ok s hi lo [val.setWidth 8] (by rw [hdecode]) (by rw [hdecode]; rfl)
  have htable := hc.write_table s hi lo (val.setWidth 8) (by rw [hdecode]) (by rw [hdecode])
  rw [hdecode] at htable
  have hcall : c.spiWrite s reg val = (0, (c.transfer s [hi, lo, val.setWidth 8] 0).2.1) := by
    have hcmd : instruction (adWrite ||| adCnt 1#32 ||| adAddr reg) = [hi, lo] := hbytes
    unfold Chip.spiWrite
    rw [hcmd]
    exact if_neg (Int.not_lt.mpr hok)
  rw [hcall, htable]

/-- A byte is read; the tables stay as they are. -/
theorem Chip.KeepsFir.spiReadm_one (hc : c.KeepsFir regs table) (s : σ) (reg : BitVec 32) :
    (c.spiReadm s reg 1).1 = 0 ∧ table (c.spiReadm s reg 1).2.1 = table s ∧
    ∀ rx ch, (regs s (firAddr rx 5#32)).getLsbD (channelBit ch) = true →
      (regs s (firAddr rx 5#32)).getLsbD (channelBit !ch) = false →
      (reg.setWidth 10 = firAddr rx 3#32 → (c.spiReadm s reg 1).2.2.headD 0#8 =
        (table s rx ch (coefIndex (regs s) rx)).setWidth 8) ∧
      (reg.setWidth 10 = firAddr rx 4#32 → (c.spiReadm s reg 1).2.2.headD 0#8 =
        (table s rx ch (coefIndex (regs s) rx) >>> 8).setWidth 8) := by
  obtain ⟨hi, lo, hbytes⟩ := exists_instruction (head false 1 ||| adAddr reg)
  have hdecode := decode_head (by decide) (by decide) hbytes
  have hok := hc.read_ok s hi lo (by rw [hdecode])
  have htable := hc.read_table s hi lo (by rw [hdecode])
  have hcoef := fun rx ch => hc.read_coef s hi lo rx ch (by rw [hdecode]) (by rw [hdecode])
  rw [hdecode] at hok htable hcoef
  have hcall : c.spiReadm s reg 1 =
      (0, (c.transfer s [hi, lo] 1).2.1, (c.transfer s [hi, lo] 1).2.2) := by
    have hcmd : instruction (adRead ||| adCnt (BitVec.ofNat 32 1) ||| adAddr reg) = [hi, lo] :=
      hbytes
    unfold Chip.spiReadm
    rw [if_neg (by decide), hcmd]
    exact if_neg (Int.not_lt.mpr hok)
  rw [hcall]
  refine ⟨rfl, htable, fun rx ch hsel hother => ?_⟩
  obtain ⟨hlow, hhigh⟩ := hcoef rx ch hsel hother
  simp only [List.headD_eq_head?_getD, List.head?_eq_getElem?]
  exact ⟨fun h => by rw [hlow h]; rfl, fun h => by rw [hhigh h]; rfl⟩

/-- Nothing of the filters has changed. -/
structure SameFir (regs : σ → BitVec 10 → Byte) (table : σ → Coefs) (s s' : σ) : Prop where
  regs_eq : ∀ a, FirReg a → regs s' a = regs s a
  table_eq : table s' = table s

theorem SameFir.refl : SameFir regs table s s := ⟨fun _ _ => rfl, rfl⟩

theorem SameFir.trans (h : SameFir regs table s s') (h' : SameFir regs table s' s'') :
    SameFir regs table s s'' :=
  ⟨fun a ha => (h'.regs_eq a ha).trans (h.regs_eq a ha), h'.table_eq.trans h.table_eq⟩

/-- A write elsewhere. -/
theorem Chip.KeepsFir.same_spiWrite (hc : c.KeepsFir regs table) (s : σ) (val : BitVec 32)
    (hreg : ¬ FirReg (reg.setWidth 10)) : SameFir regs table s (c.spiWrite s reg val).2 where
  regs_eq a ha := by
    rw [(hc.spiWrite s reg val).2 a ha]
    have hne : a ≠ reg.setWidth 10 := by
      rintro rfl
      exact hreg ha
    exact Function.update_of_ne hne _ _
  table_eq := by
    rw [hc.spiWrite_table]
    funext rx ch i
    have hconf : FirReg (firAddr rx 5#32) := by
      cases rx <;> decide
    exact if_neg fun h => hreg (by rw [h.1]; exact hconf)

theorem Chip.KeepsFir.same_spiReadm (hc : c.KeepsFir regs table) (s : σ) (reg : BitVec 32) :
    SameFir regs table s (c.spiReadm s reg 1).2.1 where
  regs_eq := (hc.spiReadm (by decide) (by decide) s reg).2.1
  table_eq := (hc.spiReadm_one s reg).2.1

theorem Chip.KeepsFir.same_spiRead (hc : c.KeepsFir regs table) (s : σ) (reg : BitVec 32) :
    SameFir regs table s (c.spiRead s reg).2 := by
  have hsame := hc.same_spiReadm s reg
  unfold Chip.spiRead
  dsimp only
  split <;> exact hsame

theorem Chip.KeepsFir.same_spiReadf (hc : c.KeepsFir regs table) (s : σ) (reg mask : BitVec 32) :
    SameFir regs table s (c.spiReadf s reg mask).2 := by
  have hsame := hc.same_spiReadm s reg
  unfold Chip.spiReadf
  split
  · exact .refl
  · dsimp only
    split <;> exact hsame

theorem Chip.KeepsFir.same_spiWritef (hc : c.KeepsFir regs table) (s : σ) (mask val : BitVec 32)
    (hreg : ¬ FirReg (reg.setWidth 10)) :
    SameFir regs table s (c.spiWritef s reg mask val).2 := by
  have hsame := hc.same_spiReadm s reg
  unfold Chip.spiWritef
  split
  · exact .refl
  · dsimp only
    split
    · exact hsame
    · exact hsame.trans (hc.same_spiWrite _ _ hreg)

theorem Chip.KeepsFir.same_ensmForceState (hc : c.KeepsFir regs table) (phy : EnsmPhy) (s : σ)
    (ensmState : Byte) :
    SameFir regs table s (ensmForceState c phy s ensmState).2 := by
  have hreg : ¬ FirReg (regEnsmConfig1.setWidth 10) := by decide
  have hsame := hc.same_spiReadf s regState ensmStateMask
  have hsame' := hsame.trans (hc.same_spiRead _ regEnsmConfig1)
  unfold ensmForceState
  dsimp only
  split
  · exact hsame
  · split
    · exact hsame'
    · exact (hsame'.trans (hc.same_spiWrite _ _ hreg)).trans (hc.same_spiWrite _ _ hreg)

theorem Chip.KeepsFir.same_ensmRestorePrevState (hc : c.KeepsFir regs table) (s : σ) :
    SameFir regs table s (ensmRestorePrevState c phy s) := by
  have hreg : ¬ FirReg (regEnsmConfig1.setWidth 10) := by decide
  have hsame := hc.same_spiRead s regEnsmConfig1
  unfold ensmRestorePrevState
  dsimp only
  split
  · exact hsame
  · next val _ =>
    have hsame' := (hsame.trans (hc.same_spiWrite _ (toAlert ||| forceAlertState) hreg)).trans
      (hc.same_spiWrite _ val hreg)
    split
    · exact hsame'
    · split
      · exact hsame'.trans (hc.same_spiWrite _ _ hreg)
      · exact hsame'

end Device

/-! ## Loading -/

section Bits

/-- The channel is among those of a configuration. -/
def isDest (dest : BitVec 32) (ch : Bool) : Bool := dest.getLsbD (if ch then 1 else 0)

theorem and_three (x : BitVec 32) : x &&& 3#32 = (x.setWidth 2).setWidth 32 := by
  apply BitVec.eq_of_getLsbD_eq
  intro i hi
  have hlow : (3#32).getLsbD i = decide (i < 2) := by
    show (2 ^ 2 - 1).testBit i = _
    exact Nat.testBit_two_pow_sub_one ..
  rw [BitVec.getLsbD_and, hlow, BitVec.getLsbD_setWidth, BitVec.getLsbD_setWidth]
  simp [hi, Bool.and_comm]

theorem firSelect_eq (dest : BitVec 32) :
    firSelect dest = firSelect ((dest.setWidth 2).setWidth 32) := by
  unfold firSelect
  rw [← and_three, BitVec.and_assoc, BitVec.and_self]

theorem isDest_eq (dest : BitVec 32) (ch : Bool) :
    isDest dest ch = (dest.setWidth 2).getLsbD (if ch then 1 else 0) := by
  unfold isDest
  rw [BitVec.getLsbD_setWidth]
  cases ch <;> simp

/-- What the device sees in the configuration while coefficients are stored, and afterwards. -/
theorem firConf_bits {ntaps : Nat} (h0 : ntaps ≠ 0) (h128 : ntaps ≤ 128) (h16 : ntaps % 16 = 0)
    (gain : Bool) (dest : BitVec 32) (ch : Bool) :
    let conf := firConf (if gain then txFirGain6dB else 0#32) ntaps dest
    (conf.setWidth 8).getLsbD 2 = false ∧
    ((conf ||| firWrite).setWidth 8).getLsbD 2 = true ∧
    ((conf ||| firWrite).setWidth 8).getLsbD (channelBit ch) = isDest dest ch ∧
    ((conf &&& ~~~firStartClk).setWidth 8).getLsbD 2 = false ∧
    coefSizeOf (((conf &&& ~~~firStartClk).setWidth 8).setWidth 32) = UInt8.ofNat ntaps ∧
    ((conf &&& ~~~firStartClk).setWidth 8).getLsbD 0 = gain := by
  obtain ⟨k, hk, rfl⟩ : ∃ k < 8, ntaps = 16 * (k + 1) := ⟨ntaps / 16 - 1, by omega, by omega⟩
  have hdiv : 16 * (k + 1) / 16 - 1 = k := by omega
  have hall : ∀ k < 8, ∀ (d : BitVec 2) (gain ch : Bool),
      let conf := (if gain then txFirGain6dB else 0#32) |||
        (firNumTaps (BitVec.ofNat 32 k) ||| firSelect (d.setWidth 32) ||| firStartClk)
      (conf.setWidth 8).getLsbD 2 = false ∧
      ((conf ||| firWrite).setWidth 8).getLsbD 2 = true ∧
      ((conf ||| firWrite).setWidth 8).getLsbD (channelBit ch) =
        d.getLsbD (if ch then 1 else 0) ∧
      ((conf &&& ~~~firStartClk).setWidth 8).getLsbD 2 = false ∧
      coefSizeOf (((conf &&& ~~~firStartClk).setWidth 8).setWidth 32) =
        UInt8.ofNat (16 * (k + 1)) ∧
      ((conf &&& ~~~firStartClk).setWidth 8).getLsbD 0 = gain := by
    decide +kernel
  unfold firConf
  rw [hdiv, firSelect_eq, isDest_eq]
  exact hall k hk (dest.setWidth 2) gain ch

theorem coefBytes_append (x : BitVec 16) :
    ((x.signExtend 32).sshiftRight 8).setWidth 8 ++ (x.signExtend 32 &&& 0xFF#32).setWidth 8 =
      x := by
  have hhigh : ((x.signExtend 32).sshiftRight 8).setWidth 8 = (x >>> 8).setWidth 8 := by
    apply BitVec.eq_of_getLsbD_eq
    intro i hi
    rw [BitVec.getLsbD_setWidth, BitVec.getLsbD_sshiftRight, BitVec.getLsbD_setWidth,
      BitVec.getLsbD_ushiftRight, if_pos (by omega), BitVec.getLsbD_signExtend,
      if_pos (by omega)]
    simp [hi, show 8 + i < 32 by omega, show ¬ 32 ≤ i by omega]
  have hlow : (x.signExtend 32 &&& 0xFF#32).setWidth 8 = (x &&& 0xFF#16).setWidth 8 := by
    apply BitVec.eq_of_getLsbD_eq
    intro i hi
    have h32 : (0xFF#32).getLsbD i = decide (i < 8) := by
      show (2 ^ 8 - 1).testBit i = _
      exact Nat.testBit_two_pow_sub_one ..
    have h16 : (0xFF#16).getLsbD i = decide (i < 8) := by
      show (2 ^ 8 - 1).testBit i = _
      exact Nat.testBit_two_pow_sub_one ..
    rw [BitVec.getLsbD_setWidth, BitVec.getLsbD_and, h32, BitVec.getLsbD_setWidth,
      BitVec.getLsbD_and, h16, BitVec.getLsbD_signExtend]
    simp [hi, show i < 32 by omega, show i < 16 by omega]
  rw [hhigh, hlow, append_bytes]

theorem ofNat_setWidth_seven (val : Nat) :
    ((BitVec.ofNat 32 val).setWidth 8).setWidth 7 = BitVec.ofNat 7 val := by
  apply BitVec.eq_of_toNat_eq
  simp only [BitVec.toNat_setWidth, BitVec.toNat_ofNat]
  omega

end Bits

section Load

variable {c : Chip σ} {regs : σ → BitVec 10 → Byte} {table : σ → Coefs} {s : σ}
  {reg val conf dest : BitVec 32} {a : BitVec 10} {rx ch : Bool} {phy : FirPhy} {n ntaps : Nat}
  {coef : Nat → Int16}

theorem regs_spiWrite (hc : c.KeepsFir regs table) (hreg : FirReg (reg.setWidth 10)) :
    regs (c.spiWrite s reg val).2 (reg.setWidth 10) = val.setWidth 8 :=
  ((hc.spiWrite s reg val).2 _ hreg).trans (Function.update_self ..)

theorem regs_spiWrite_of_ne (hc : c.KeepsFir regs table) (ha : FirReg a)
    (h : a ≠ reg.setWidth 10) : regs (c.spiWrite s reg val).2 a = regs s a :=
  ((hc.spiWrite s reg val).2 _ ha).trans (Function.update_of_ne h _ _)

/-- Only a write to a configuration with its bit stores anything. -/
theorem table_spiWrite (hc : c.KeepsFir regs table)
    (h : ∀ rx, reg.setWidth 10 = firAddr rx 5#32 → (val.setWidth 8).getLsbD 2 = false) :
    table (c.spiWrite s reg val).2 = table s := by
  rw [hc.spiWrite_table]
  funext rx ch i
  refine if_neg fun hstores => ?_
  have := hstores.2.1
  rw [h rx hstores.1] at this
  exact Bool.false_ne_true this

/-- The registers that change while coefficients are stored. -/
def Storing (rx : Bool) (a : BitVec 10) : Prop :=
  a ∈ [firAddr rx 0#32, firAddr rx 1#32, firAddr rx 2#32, firAddr rx 5#32]

instance (rx : Bool) (a : BitVec 10) : Decidable (Storing rx a) :=
  inferInstanceAs (Decidable (_ ∈ _))

theorem firAddr_injective {rx rx' : Bool} (h : firAddr rx 5#32 = firAddr rx' 5#32) : rx = rx' := by
  revert rx rx'
  decide

/-- What the registers have before the coefficient is stored. -/
theorem regs_before (hc : c.KeepsFir regs table) (s : σ) (rx : Bool) (conf : BitVec 32) (n : Nat)
    (x : Int16) :
    let s' := spiWrites c s ((coefBytes rx conf n x).take 3)
    regs s' (firAddr rx 0#32) = (BitVec.ofNat 32 n).setWidth 8 ∧
    regs s' (firAddr rx 1#32) = (x.toBitVec.signExtend 32 &&& 0xFF#32).setWidth 8 ∧
    regs s' (firAddr rx 2#32) = ((x.toBitVec.signExtend 32).sshiftRight 8).setWidth 8 := by
  dsimp only
  refine ⟨?_, ?_, ?_⟩
  all_goals
    rw [spiWrites_spec hc.toKeeps _ (by cases rx <;> decide)]
    cases rx <;> rfl

/-- One coefficient is stored, for the channels in the configuration. -/
theorem spiWrites_coefBytes (hc : c.KeepsFir regs table) (s : σ) (rx : Bool) (n : Nat)
    (hwrite : ((conf ||| firWrite).setWidth 8).getLsbD 2 = true) (x : Int16) :
    (∀ a, FirReg a → ¬ Storing rx a →
      regs (spiWrites c s (coefBytes rx conf n x)) a = regs s a) ∧
    table (spiWrites c s (coefBytes rx conf n x)) = fun rx' ch i =>
      if rx' = rx ∧ ((conf ||| firWrite).setWidth 8).getLsbD (channelBit ch) = true ∧
        i = BitVec.ofNat 7 n then x.toBitVec else table s rx' ch i := by
  have hreg0 : FirReg (firAddr rx 0#32) := by cases rx <;> decide
  have hreg1 : FirReg (firAddr rx 1#32) := by cases rx <;> decide
  have hreg2 : FirReg (firAddr rx 2#32) := by cases rx <;> decide
  constructor
  · intro a ha hnot
    simp only [Storing, List.mem_cons, List.not_mem_nil, or_false, not_or] at hnot
    obtain ⟨h0, h1, h2, h5⟩ := hnot
    have h4 : a ≠ (firReg rx 4#32).setWidth 10 := by
      rintro rfl
      revert ha
      cases rx <;> decide
    simp only [coefBytes, spiWrites, List.foldl_cons, List.foldl_nil]
    rw [regs_spiWrite_of_ne hc ha h4, regs_spiWrite_of_ne hc ha h4, regs_spiWrite_of_ne hc ha h5,
      regs_spiWrite_of_ne hc ha h2, regs_spiWrite_of_ne hc ha h1, regs_spiWrite_of_ne hc ha h0]
  · -- the configuration is written to after the number and the two bytes
    have hkeeps : ∀ (s : σ) (v : BitVec 32) {k : BitVec 32}, firAddr rx k ≠ firAddr true 5#32 →
        firAddr rx k ≠ firAddr false 5#32 →
        table (c.spiWrite s (firReg rx k) v).2 = table s := by
      intro s v k htrue hfalse
      refine table_spiWrite hc fun rx' h => ?_
      cases rx'
      · exact absurd h hfalse
      · exact absurd h htrue
    have h0 := fun s v => hkeeps s v (k := 0#32) (by cases rx <;> decide) (by cases rx <;> decide)
    have h1 := fun s v => hkeeps s v (k := 1#32) (by cases rx <;> decide) (by cases rx <;> decide)
    have h2 := fun s v => hkeeps s v (k := 2#32) (by cases rx <;> decide) (by cases rx <;> decide)
    have h4 := fun s v => hkeeps s v (k := 4#32) (by cases rx <;> decide) (by cases rx <;> decide)
    obtain ⟨hindex, hlow, hhigh⟩ := regs_before hc s rx conf n x
    simp only [coefBytes, spiWrites, List.take_succ_cons, List.take_zero, List.foldl_cons,
      List.foldl_nil] at hindex hlow hhigh ⊢
    rw [h4, h4, hc.spiWrite_table, h2, h1, h0]
    funext rx' ch i
    unfold storesCoef
    by_cases hrx : rx' = rx
    · subst hrx
      rw [coefIndex, hindex, ofNat_setWidth_seven, hhigh, hlow, coefBytes_append]
      simp only [firAddr, hwrite, true_and]
    · have hne : firAddr rx 5#32 ≠ firAddr rx' 5#32 :=
        fun h => hrx (firAddr_injective h).symm
      rw [if_neg fun h => hne h.1, if_neg fun h => hrx h.1]

/-- The loop: of the channels in the configuration, the first coefficients are stored. -/
theorem storeCoefs_spec (hc : c.KeepsFir regs table)
    (hwrite : ((conf ||| firWrite).setWidth 8).getLsbD 2 = true) (h128 : ntaps ≤ 128) :
    (∀ a, FirReg a → ¬ Storing rx a → regs (storeCoefs c s rx conf coef ntaps) a = regs s a) ∧
    table (storeCoefs c s rx conf coef ntaps) = fun rx' ch i =>
      if rx' = rx ∧ ((conf ||| firWrite).setWidth 8).getLsbD (channelBit ch) = true ∧
        i.toNat < ntaps then (coef i.toNat).toBitVec else table s rx' ch i := by
  induction ntaps with
  | zero =>
    refine ⟨fun _ _ _ => rfl, ?_⟩
    funext rx' ch i
    rw [if_neg fun h => Nat.not_lt_zero _ h.2.2]
    rfl
  | succ n ih =>
    obtain ⟨hregs, htable⟩ := ih (Nat.le_of_succ_le h128)
    obtain ⟨hregs', htable'⟩ :=
      spiWrites_coefBytes hc (storeCoefs c s rx conf coef n) rx n hwrite (coef n)
    have hlast : storeCoefs c s rx conf coef (n + 1) =
        spiWrites c (storeCoefs c s rx conf coef n) (coefBytes rx conf n (coef n)) := by
      unfold storeCoefs
      rw [List.range_succ, List.foldl_append, List.foldl_cons, List.foldl_nil]
    rw [hlast]
    refine ⟨fun a ha hnot => (hregs' a ha hnot).trans (hregs a ha hnot), ?_⟩
    rw [htable', htable]
    funext rx' ch i
    dsimp only
    have hi : i = BitVec.ofNat 7 n ↔ i.toNat = n := by
      rw [← BitVec.toNat_inj, BitVec.toNat_ofNat, Nat.mod_eq_of_lt (by omega)]
    by_cases hsel : rx' = rx ∧ ((conf ||| firWrite).setWidth 8).getLsbD (channelBit ch) = true
    · simp only [hsel.1, hsel.2, true_and, hi]
      by_cases hin : i.toNat = n
      · rw [if_pos hin, if_pos (by omega), hin]
      · rw [if_neg hin]
        by_cases hlt : i.toNat < n
        · rw [if_pos hlt, if_pos (by omega)]
        · rw [if_neg hlt, if_neg (by omega)]
    · rw [if_neg fun h => hsel ⟨h.1, h.2.1⟩, if_neg fun h => hsel ⟨h.1, h.2.1⟩,
        if_neg fun h => hsel ⟨h.1, h.2.1⟩]

theorem storeFilter_spec (s : σ) (rx : Bool) (coef : Nat → Int16) (hc : c.KeepsFir regs table)
    (hwrite : ((conf ||| firWrite).setWidth 8).getLsbD 2 = true)
    (hconf : (conf.setWidth 8).getLsbD 2 = false)
    (hlast : ((conf &&& ~~~firStartClk).setWidth 8).getLsbD 2 = false) (h128 : ntaps ≤ 128) :
    regs (storeFilter c s rx conf coef ntaps) (firAddr rx 5#32) =
      (conf &&& ~~~firStartClk).setWidth 8 ∧
    (∀ a, FirReg a → ¬ Storing rx a → regs (storeFilter c s rx conf coef ntaps) a = regs s a) ∧
    table (storeFilter c s rx conf coef ntaps) = fun rx' ch i =>
      if rx' = rx ∧ ((conf ||| firWrite).setWidth 8).getLsbD (channelBit ch) = true ∧
        i.toNat < ntaps then (coef i.toNat).toBitVec else table s rx' ch i := by
  have hreg : FirReg ((firReg rx 5#32).setWidth 10) := by cases rx <;> decide
  obtain ⟨hregs, htable⟩ := storeCoefs_spec (s := (c.spiWrite s (firReg rx 5#32) conf).2)
    hc hwrite h128
  unfold storeFilter
  refine ⟨regs_spiWrite hc hreg, ?_, ?_⟩
  · intro a ha hnot
    have hne : a ≠ (firReg rx 5#32).setWidth 10 := by
      rintro rfl
      exact hnot (by simp [Storing, firAddr])
    rw [regs_spiWrite_of_ne hc ha hne, regs_spiWrite_of_ne hc ha hne, hregs a ha hnot,
      regs_spiWrite_of_ne hc ha hne]
  · rw [table_spiWrite hc fun _ _ => hlast, table_spiWrite hc fun _ _ => hconf, htable,
      table_spiWrite hc fun _ _ => hconf]

end Load

end ModemFhss.Ad9361
