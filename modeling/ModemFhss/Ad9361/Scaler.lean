import ModemFhss.Ad9361.Spi

/-!
# The scalers of the clocks (`ad9361_get_clk_scaler`, `ad9361_set_clk_scaler`)

The clocks that are derived from another one by a factor have it in a field of a register, as a
code. Fourteen fields in seven registers serve thirteen clocks. What `ad9361_set_clk_scaler` accepts
it writes as a code, and `ad9361_get_clk_scaler` makes a factor of the code again; `readBack` says
what is accepted and what comes out of it.
-/

namespace ModemFhss.Ad9361

open Errno Fields

variable {σ : Type*}

/-! ## The fields -/

inductive ScalerField where
  | refFreqScaler
  | rxRefDividerMsb
  | rxRefDividerLsb
  | txRefDivider
  | bbpllDivider
  | dacDivider
  | dec3EnableDecimation
  | rhb2En
  | rhb1En
  | rxFirEnableDecimation
  | thb3EnableInterp
  | thb2En
  | thb1En
  | txFirEnableInterpolation
  deriving DecidableEq

def ScalerField.at : ScalerField → RegField
  | refFreqScaler => ⟨0x045#10, 0x03#8, by decide⟩
  | rxRefDividerMsb => ⟨0x2AB#10, 0x01#8, by decide⟩
  | rxRefDividerLsb => ⟨0x2AC#10, 0x80#8, by decide⟩
  | txRefDivider => ⟨0x2AC#10, 0x0C#8, by decide⟩
  | bbpllDivider => ⟨0x00A#10, 0x07#8, by decide⟩
  | dacDivider => ⟨0x00A#10, 0x08#8, by decide⟩
  | dec3EnableDecimation => ⟨0x003#10, 0x30#8, by decide⟩
  | rhb2En => ⟨0x003#10, 0x08#8, by decide⟩
  | rhb1En => ⟨0x003#10, 0x04#8, by decide⟩
  | rxFirEnableDecimation => ⟨0x003#10, 0x03#8, by decide⟩
  | thb3EnableInterp => ⟨0x002#10, 0x30#8, by decide⟩
  | thb2En => ⟨0x002#10, 0x08#8, by decide⟩
  | thb1En => ⟨0x002#10, 0x04#8, by decide⟩
  | txFirEnableInterpolation => ⟨0x002#10, 0x03#8, by decide⟩

def ScalerField.all : List ScalerField :=
  [refFreqScaler, rxRefDividerMsb, rxRefDividerLsb, txRefDivider, bbpllDivider, dacDivider,
    dec3EnableDecimation, rhb2En, rhb1En, rxFirEnableDecimation, thb3EnableInterp, thb2En, thb1En,
    txFirEnableInterpolation]

theorem ScalerField.mem_all (i : ScalerField) : i ∈ all := by
  cases i <;> decide

theorem ScalerField.apart (i j : ScalerField) (hij : i ≠ j) :
    (i.at).field.Apart (j.at).field := by
  have hall : ∀ i ∈ all, ∀ j ∈ all, i ≠ j → (i.at).field.Apart (j.at).field := by decide
  exact hall i i.mem_all j j.mem_all hij

namespace Chip

/-- `tmp = ad9361_spi_readf(..)` -/
def readf (c : Chip σ) (s : σ) (f : ScalerField) : BitVec 32 × σ :=
  let (ret, s) := c.spiReadf s f.at.reg32 f.at.mask32
  (BitVec.ofInt 32 ret, s)

def writef (c : Chip σ) (s : σ) (f : ScalerField) (val : BitVec 32) : Int × σ :=
  c.spiWritef s f.at.reg32 f.at.mask32 val

end Chip

section Access

variable {c : Chip σ} {regs : σ → BitVec 10 → Byte} {s s' : σ} {f g : ScalerField} {v : BitVec 32}

/-- What a field holds. -/
def held (regs : σ → BitVec 10 → Byte) (s : σ) (f : ScalerField) : BitVec 32 :=
  (f.at.field.read (regs s)).setWidth 32

theorem held_congr (h : ∀ a, Holding ScalerField.at a → regs s' a = regs s a) :
    held regs s' f = held regs s f := by
  unfold held BitField.read
  rw [RegField.field_addr, h _ (holding f)]

/-- The device follows its instructions, and keeps the registers with the fields. -/
abbrev KeepsScalers (c : Chip σ) (regs : σ → BitVec 10 → Byte) : Prop :=
  c.Keeps regs (Holding ScalerField.at)

theorem readf_fst (hc : KeepsScalers c regs) : (c.readf s f).1 = held regs s f := by
  show BitVec.ofInt 32 (c.spiReadf s f.at.reg32 f.at.mask32).1 = held regs s f
  rw [(hc.spiReadf (holding f)).1, BitVec.ofInt_natCast]
  exact BitVec.eq_of_toNat_eq (by rw [held, BitVec.toNat_ofNat, BitVec.toNat_setWidth])

theorem held_readf (hc : KeepsScalers c regs) : held regs (c.readf s f).2 g = held regs s g :=
  held_congr (hc.spiReadf (holding f)).2

theorem held_spiRead (hc : KeepsScalers c regs) :
    held regs (c.spiRead s f.at.reg32).2 g = held regs s g :=
  held_congr (hc.spiRead (by rw [RegField.setWidth_reg32]; exact holding f)).2

theorem writef_fst (hc : KeepsScalers c regs) : (c.writef s f v).1 = 0 :=
  (hc.spiWritef (holding f)).1

theorem held_writef (hc : KeepsScalers c regs) :
    held regs (c.writef s f v).2 f = (f.at.field.clip (v.setWidth 8)).setWidth 32 := by
  unfold held BitField.read Chip.writef
  rw [RegField.field_addr, (hc.spiWritef (holding f)).2 _ (holding f)]
  exact congrArg _ BitField.read_write

theorem held_writef_of_ne (hc : KeepsScalers c regs) (h : f ≠ g) :
    held regs (c.writef s f v).2 g = held regs s g := by
  unfold held BitField.read Chip.writef
  rw [RegField.field_addr, (hc.spiWritef (holding f)).2 _ (holding g)]
  exact congrArg _ (BitField.read_write_of_apart (f.apart g h))

/-- The field keeps all numbers below `n`. -/
def FitsBelow (f : ScalerField) (n : Nat) : Prop :=
  ∀ v < n, (f.at.field.clip ((BitVec.ofNat 32 v).setWidth 8)).setWidth 32 = BitVec.ofNat 32 v

instance (f : ScalerField) (n : Nat) : Decidable (FitsBelow f n) :=
  inferInstanceAs (Decidable (∀ _ < n, _))

theorem held_writef_of_lt (hc : KeepsScalers c regs) {n : Nat} (hf : FitsBelow f n)
    (hv : v.toNat < n) : held regs (c.writef s f v).2 f = v := by
  have hv' := hf v.toNat hv
  rw [BitVec.ofNat_toNat, BitVec.setWidth_eq] at hv'
  rw [held_writef hc, hv']

end Access

/-! ## The clocks -/

/-- `enum ad9361_clocks` -/
inductive Clock where
  | bbRefclk
  | rxRefclk
  | txRefclk
  | bbpllClk
  | adcClk
  | r2Clk
  | r1Clk
  | clkrfClk
  | rxSamplClk
  | dacClk
  | t2Clk
  | t1Clk
  | clktfClk
  | txSamplClk
  | rxRfpllInt
  | txRfpllInt
  | rxRfpllDummy
  | txRfpllDummy
  | rxRfpll
  | txRfpll
  deriving DecidableEq

/-- A clock with its factor. -/
structure RefclkScale where
  source : Clock
  mult : BitVec 32
  div : BitVec 32

/-- The members of `struct ad9361_rf_phy` that say whether the filters are used. -/
structure FirBypass where
  bypassRxFir : Bool
  bypassTxFir : Bool

namespace RefclkScale

def setMuldiv (p : RefclkScale) (mul div : BitVec 32) : Int × RefclkScale :=
  (0, { p with mult := mul, div := div })

/-- The last part of `ad9361_get_clk_scaler`, for a reference clock with this code. -/
def refclkScaler (p : RefclkScale) (tmp : BitVec 32) : Int × RefclkScale :=
  if tmp = 0 then p.setMuldiv 1 1 else
  if tmp = 1 then p.setMuldiv 1 2 else
  if tmp = 2 then p.setMuldiv 1 4 else
  if tmp = 3 then p.setMuldiv 2 1 else (-einval, p)

def getDivider (c : Chip σ) (s : σ) (p : RefclkScale) (f : ScalerField) : (Int × RefclkScale) × σ :=
  let (tmp, s) := c.readf s f
  (p.setMuldiv 1 (tmp + 1), s)

/-- The factor of a clock behind a filter. -/
def firScaler (p : RefclkScale) (tmp : BitVec 32) : Int × RefclkScale :=
  -- a filter that is bypassed changes nothing
  p.setMuldiv 1 (if tmp = 0 then 1 else 1#32 <<< (tmp - 1).toNat)

def getFir (c : Chip σ) (s : σ) (p : RefclkScale) (f : ScalerField) : (Int × RefclkScale) × σ :=
  let (tmp, s) := c.readf s f
  (p.firScaler tmp, s)

def getClkScaler (c : Chip σ) (s : σ) (p : RefclkScale) : (Int × RefclkScale) × σ :=
  match p.source with
  | .bbRefclk =>
    let (tmp, s) := c.spiRead s ScalerField.refFreqScaler.at.reg32
    (p.refclkScaler (BitVec.ofInt 32 tmp &&& 0x3#32), s)
  | .rxRefclk =>
    let (tmp, s) := c.readf s .rxRefDividerMsb
    let (tmp1, s) := c.readf s .rxRefDividerLsb
    (p.refclkScaler ((tmp <<< 1) ||| tmp1), s)
  | .txRefclk =>
    let (tmp, s) := c.readf s .txRefDivider
    (p.refclkScaler tmp, s)
  | .adcClk =>
    let (tmp, s) := c.spiRead s ScalerField.bbpllDivider.at.reg32
    (p.setMuldiv 1 (1#32 <<< (BitVec.ofInt 32 tmp &&& 0x7#32).toNat), s)
  | .r2Clk => p.getDivider c s .dec3EnableDecimation
  | .r1Clk => p.getDivider c s .rhb2En
  | .clkrfClk => p.getDivider c s .rhb1En
  | .rxSamplClk => p.getFir c s .rxFirEnableDecimation
  | .dacClk => p.getDivider c s .dacDivider
  | .t2Clk => p.getDivider c s .thb3EnableInterp
  | .t1Clk => p.getDivider c s .thb2En
  | .clktfClk => p.getDivider c s .thb1En
  | .txSamplClk => p.getFir c s .txFirEnableInterpolation
  | _ => ((-einval, p), s)

def toRefclkScaler (p : RefclkScale) : Int :=
  let factor := ((p.mult &&& 0xF#32) <<< 4) ||| (p.div &&& 0xF#32)
  if factor = 0x11#32 then 0 else
  if factor = 0x12#32 then 1 else
  if factor = 0x14#32 then 2 else
  if factor = 0x21#32 then 3 else -einval

/-- The code of a reference clock, written to one field if `set`. -/
def setRefclk (c : Chip σ) (s : σ) (p : RefclkScale) (set : Bool) (f : ScalerField) : Int × σ :=
  let ret := p.toRefclkScaler
  if ret < 0 then (ret, s) else
  if set then c.writef s f (BitVec.ofInt 32 ret) else (0, s)

/-- The code of a divider from 1 to `max`, written to its field if `set`. -/
def setDivider (c : Chip σ) (s : σ) (p : RefclkScale) (set : Bool) (max : BitVec 32)
    (f : ScalerField) : Int × σ :=
  if p.mult ≠ 1 ∨ p.div > max ∨ p.div < 1 then (-einval, s) else
  if set then c.writef s f (p.div - 1) else (0, s)

/-- The code of a filter that divides by 1, 2 or 4. -/
def setFir (c : Chip σ) (s : σ) (p : RefclkScale) (set bypass : Bool) (f : ScalerField) : Int × σ :=
  if p.mult ≠ 1 ∨ p.div > 4 ∨ p.div < 1 ∨ p.div = 3 then (-einval, s) else
  let tmp := if bypass then 0 else ilog2 p.div + 1
  if set then c.writef s f tmp else (0, s)

def setClkScaler (phy : FirBypass) (c : Chip σ) (s : σ) (p : RefclkScale) (set : Bool) : Int × σ :=
  match p.source with
  | .bbRefclk => p.setRefclk c s set .refFreqScaler
  | .rxRefclk =>
    let ret := p.toRefclkScaler
    if ret < 0 then (ret, s) else
    if set then
      let tmp := BitVec.ofInt 32 ret
      let (ret, s) := c.writef s .rxRefDividerMsb (tmp >>> 1)
      let (ret', s) := c.writef s .rxRefDividerLsb (tmp &&& 1)
      ((BitVec.ofInt 32 ret ||| BitVec.ofInt 32 ret').toInt, s)
    else (0, s)
  | .txRefclk => p.setRefclk c s set .txRefDivider
  | .adcClk =>
    -- the divider is taken as a `uint8_t`
    let tmp := ilog2 ((p.div.setWidth 8).setWidth 32)
    if p.mult ≠ 1 ∨ tmp > 6 ∨ tmp < 1 then (-einval, s) else
    if set then c.writef s .bbpllDivider tmp else (0, s)
  | .r2Clk => p.setDivider c s set 3 .dec3EnableDecimation
  | .r1Clk => p.setDivider c s set 2 .rhb2En
  | .clkrfClk => p.setDivider c s set 2 .rhb1En
  | .rxSamplClk => p.setFir c s set phy.bypassRxFir .rxFirEnableDecimation
  | .dacClk => p.setDivider c s set 2 .dacDivider
  | .t2Clk => p.setDivider c s set 3 .thb3EnableInterp
  | .t1Clk => p.setDivider c s set 2 .thb2En
  | .clktfClk => p.setDivider c s set 2 .thb1En
  | .txSamplClk => p.setFir c s set phy.bypassTxFir .txFirEnableInterpolation
  | _ => (-einval, s)

/-! ## Which fields belong to which clock -/

def fields : Clock → List ScalerField
  | .bbRefclk => [.refFreqScaler]
  | .rxRefclk => [.rxRefDividerMsb, .rxRefDividerLsb]
  | .txRefclk => [.txRefDivider]
  | .adcClk => [.bbpllDivider]
  | .r2Clk => [.dec3EnableDecimation]
  | .r1Clk => [.rhb2En]
  | .clkrfClk => [.rhb1En]
  | .rxSamplClk => [.rxFirEnableDecimation]
  | .dacClk => [.dacDivider]
  | .t2Clk => [.thb3EnableInterp]
  | .t1Clk => [.thb2En]
  | .clktfClk => [.thb1En]
  | .txSamplClk => [.txFirEnableInterpolation]
  | _ => []

/-- The clock that a field belongs to. -/
def owner : ScalerField → Clock
  | .refFreqScaler => .bbRefclk
  | .rxRefDividerMsb => .rxRefclk
  | .rxRefDividerLsb => .rxRefclk
  | .txRefDivider => .txRefclk
  | .bbpllDivider => .adcClk
  | .dacDivider => .dacClk
  | .dec3EnableDecimation => .r2Clk
  | .rhb2En => .r1Clk
  | .rhb1En => .clkrfClk
  | .rxFirEnableDecimation => .rxSamplClk
  | .thb3EnableInterp => .t2Clk
  | .thb2En => .t1Clk
  | .thb1En => .clktfClk
  | .txFirEnableInterpolation => .txSamplClk

theorem owner_of_mem {k : Clock} {f : ScalerField} (h : f ∈ fields k) : owner f = k := by
  have hall : ∀ k, ∀ f ∈ fields k, owner f = k := by
    intro k
    cases k <;> decide
  exact hall k f h

/-- What is accepted for a clock, with the factor that the clock then has. -/
def readBack (phy : FirBypass) (p : RefclkScale) : Option (BitVec 32 × BitVec 32) :=
  let refclk : Option (BitVec 32 × BitVec 32) :=
    if p.toRefclkScaler < 0 then none else some (p.mult &&& 0xF#32, p.div &&& 0xF#32)
  let divider (max : BitVec 32) : Option (BitVec 32 × BitVec 32) :=
    if p.mult ≠ 1 ∨ p.div > max ∨ p.div < 1 then none else some (1, p.div)
  let fir (bypass : Bool) : Option (BitVec 32 × BitVec 32) :=
    if p.mult ≠ 1 ∨ p.div > 4 ∨ p.div < 1 ∨ p.div = 3 then none else
    some (1, if bypass then 1 else p.div)
  match p.source with
  | .bbRefclk | .rxRefclk | .txRefclk => refclk
  | .adcClk =>
    let tmp := ilog2 ((p.div.setWidth 8).setWidth 32)
    if p.mult ≠ 1 ∨ tmp > 6 ∨ tmp < 1 then none else some (1, BitVec.ofNat 32 (2 ^ tmp.toNat))
  | .r2Clk | .t2Clk => divider 3
  | .r1Clk | .clkrfClk | .dacClk | .t1Clk | .clktfClk => divider 2
  | .rxSamplClk => fir phy.bypassRxFir
  | .txSamplClk => fir phy.bypassTxFir
  | _ => none

/-! ## What the calls leave alone -/

variable {c : Chip σ} {regs : σ → BitVec 10 → Byte} {s s' : σ} {phy : FirBypass}
  {p q : RefclkScale} {set bypass : Bool} {f g : ScalerField} {v max : BitVec 32}

/-- A call leaves the device as it is, or writes to fields of its clock. -/
theorem setClkScaler_induct {motive : σ → Prop} (hs : motive s)
    (hw : ∀ s, ∀ f ∈ fields p.source, ∀ v, motive s → motive (c.writef s f v).2) :
    motive (p.setClkScaler phy c s set).2 := by
  have hite (f : ScalerField) (v : BitVec 32) (hf : f ∈ fields p.source) :
      motive (if set then c.writef s f v else (0, s)).2 := by
    cases set with
    | false => exact hs
    | true => exact hw s f hf v hs
  have hrefclk (f : ScalerField) (hf : f ∈ fields p.source) : motive (p.setRefclk c s set f).2 := by
    unfold setRefclk
    dsimp only
    split
    · exact hs
    · exact hite f _ hf
  have hdivider (max : BitVec 32) (f : ScalerField) (hf : f ∈ fields p.source) :
      motive (p.setDivider c s set max f).2 := by
    unfold setDivider
    split
    · exact hs
    · exact hite f _ hf
  have hfir (bypass : Bool) (f : ScalerField) (hf : f ∈ fields p.source) :
      motive (p.setFir c s set bypass f).2 := by
    unfold setFir
    split
    · exact hs
    · exact hite f _ hf
  unfold setClkScaler
  cases hsource : p.source
  all_goals rw [hsource] at hw hite hrefclk hdivider hfir
  case bbRefclk | txRefclk => exact hrefclk _ (by decide)
  case r2Clk | r1Clk | clkrfClk | dacClk | t2Clk | t1Clk | clktfClk =>
    exact hdivider _ _ (by decide)
  case rxSamplClk | txSamplClk => exact hfir _ _ (by decide)
  case rxRefclk =>
    dsimp only
    split
    · exact hs
    · cases set with
      | false => exact hs
      | true => exact hw _ _ (by decide) _ (hw _ _ (by decide) _ hs)
  case adcClk =>
    dsimp only
    split
    · exact hs
    · exact hite _ _ (by decide)
  all_goals exact hs

/-- A clock's factor is written to its own fields. -/
theorem held_setClkScaler_of_notMem (hc : KeepsScalers c regs) (h : f ∉ fields p.source) :
    held regs (p.setClkScaler phy c s set).2 f = held regs s f := by
  apply setClkScaler_induct (motive := fun s' => held regs s' f = held regs s f) rfl
  intro s' g hg v hs'
  have hne : g ≠ f := by
    rintro rfl
    exact h hg
  rw [held_writef_of_ne hc hne, hs']

theorem held_getClkScaler (hc : KeepsScalers c regs) :
    held regs (q.getClkScaler c s).2 g = held regs s g := by
  unfold getClkScaler
  cases q.source
  case bbRefclk => exact held_spiRead (f := .refFreqScaler) hc
  case adcClk => exact held_spiRead (f := .bbpllDivider) hc
  case rxRefclk =>
    exact (held_readf (f := .rxRefDividerLsb) hc).trans (held_readf (f := .rxRefDividerMsb) hc)
  case txRefclk => exact held_readf (f := .txRefDivider) hc
  case r2Clk => exact held_readf (f := .dec3EnableDecimation) hc
  case r1Clk => exact held_readf (f := .rhb2En) hc
  case clkrfClk => exact held_readf (f := .rhb1En) hc
  case dacClk => exact held_readf (f := .dacDivider) hc
  case t2Clk => exact held_readf (f := .thb3EnableInterp) hc
  case t1Clk => exact held_readf (f := .thb2En) hc
  case clktfClk => exact held_readf (f := .thb1En) hc
  case rxSamplClk => exact held_readf (f := .rxFirEnableDecimation) hc
  case txSamplClk => exact held_readf (f := .txFirEnableInterpolation) hc
  all_goals rfl

/-! ## What is read -/

/-- The factor that the fields stand for. -/
def factor (q : RefclkScale) (h : ScalerField → BitVec 32) : Int × RefclkScale :=
  match q.source with
  | .bbRefclk => q.refclkScaler (h .refFreqScaler)
  | .rxRefclk => q.refclkScaler ((h .rxRefDividerMsb <<< 1) ||| h .rxRefDividerLsb)
  | .txRefclk => q.refclkScaler (h .txRefDivider)
  | .adcClk => q.setMuldiv 1 (1#32 <<< (h .bbpllDivider).toNat)
  | .r2Clk => q.setMuldiv 1 (h .dec3EnableDecimation + 1)
  | .r1Clk => q.setMuldiv 1 (h .rhb2En + 1)
  | .clkrfClk => q.setMuldiv 1 (h .rhb1En + 1)
  | .rxSamplClk => q.firScaler (h .rxFirEnableDecimation)
  | .dacClk => q.setMuldiv 1 (h .dacDivider + 1)
  | .t2Clk => q.setMuldiv 1 (h .thb3EnableInterp + 1)
  | .t1Clk => q.setMuldiv 1 (h .thb2En + 1)
  | .clktfClk => q.setMuldiv 1 (h .thb1En + 1)
  | .txSamplClk => q.firScaler (h .txFirEnableInterpolation)
  | _ => (-einval, q)

theorem getDivider_fst (hc : KeepsScalers c regs) :
    (q.getDivider c s f).1 = q.setMuldiv 1 (held regs s f + 1) := by
  unfold getDivider
  dsimp only
  rw [readf_fst hc]

theorem getFir_fst (hc : KeepsScalers c regs) :
    (q.getFir c s f).1 = q.firScaler (held regs s f) := by
  unfold getFir
  dsimp only
  rw [readf_fst hc]

/-- Two clocks have their field at the bottom of a register that is read as a whole. -/
theorem spiRead_and (hc : KeepsScalers c regs) (hoffset : findFirstBit f.at.mask32 = 0) :
    BitVec.ofInt 32 (c.spiRead s f.at.reg32).1 &&& f.at.mask32 = held regs s f := by
  have hreg : Holding ScalerField.at (f.at.reg32.setWidth 10) := by
    rw [RegField.setWidth_reg32]
    exact holding f
  rw [(hc.spiRead hreg).1, BitVec.ofInt_natCast, RegField.setWidth_reg32]
  unfold held BitField.read Fields.get RegField.field
  dsimp only
  rw [hoffset]
  apply BitVec.eq_of_getLsbD_eq
  intro i hi
  simp [RegField.mask32, hi]

theorem getClkScaler_fst (hc : KeepsScalers c regs) :
    (q.getClkScaler c s).1 = q.factor (held regs s) := by
  unfold getClkScaler factor
  cases q.source
  case bbRefclk => exact congrArg q.refclkScaler (spiRead_and hc (f := .refFreqScaler) (by decide))
  case adcClk =>
    exact congrArg (fun tmp : BitVec 32 => q.setMuldiv 1 (1#32 <<< tmp.toNat))
      (spiRead_and hc (f := .bbpllDivider) (by decide))
  case rxRefclk =>
    dsimp only
    rw [readf_fst hc, readf_fst hc, held_readf hc]
  case txRefclk =>
    dsimp only
    rw [readf_fst hc]
  case r2Clk | r1Clk | clkrfClk | dacClk | t2Clk | t1Clk | clktfClk => exact getDivider_fst hc
  case rxSamplClk | txSamplClk => exact getFir_fst hc
  all_goals rfl

/-- A clock's factor depends on its own fields. -/
theorem factor_congr {h h' : ScalerField → BitVec 32} (heq : ∀ f ∈ fields q.source, h' f = h f) :
    q.factor h' = q.factor h := by
  unfold factor
  cases hsource : q.source
  all_goals simp only [hsource, fields, List.forall_mem_cons, List.not_mem_nil, false_imp_iff,
    implies_true, and_true] at heq
  case rxRefclk =>
    dsimp only
    rw [heq.1, heq.2]
  all_goals simp only [heq]

/-! ## What is accepted -/

theorem toRefclkScaler_of_neg (h : p.toRefclkScaler < 0) : p.toRefclkScaler = -einval := by
  unfold toRefclkScaler at h ⊢
  dsimp only at h ⊢
  split_ifs at h ⊢ <;> first | rfl | omega

theorem of_ite_eq_none {P : Prop} [Decidable P] {α : Type*} {x : α}
    (h : (if P then none else some x) = none) : P := by
  by_contra hP
  rw [if_neg hP] at h
  cases h

theorem setRefclk_of_neg (h : p.toRefclkScaler < 0) : p.setRefclk c s set f = (-einval, s) := by
  unfold setRefclk
  rw [toRefclkScaler_of_neg h]
  rfl

/-- **What is not accepted is not written.** -/
theorem setClkScaler_of_none (h : readBack phy p = none) :
    p.setClkScaler phy c s set = (-einval, s) := by
  unfold readBack at h
  unfold setClkScaler
  cases hsource : p.source
  all_goals rw [hsource] at h
  all_goals dsimp only at h ⊢
  case bbRefclk | txRefclk => exact setRefclk_of_neg (of_ite_eq_none h)
  case rxRefclk =>
    rw [if_pos (of_ite_eq_none h), toRefclkScaler_of_neg (of_ite_eq_none h)]
  case r2Clk | r1Clk | clkrfClk | dacClk | t2Clk | t1Clk | clktfClk =>
    exact if_pos (of_ite_eq_none h)
  case adcClk | rxSamplClk | txSamplClk => exact if_pos (of_ite_eq_none h)

/-! ## What is read back -/

theorem nibbles (m d : BitVec 32) :
    (((m &&& 0xF#32) <<< 4) ||| (d &&& 0xF#32)) >>> 4 = m &&& 0xF#32 ∧
      (((m &&& 0xF#32) <<< 4) ||| (d &&& 0xF#32)) &&& 0xF#32 = d &&& 0xF#32 := by
  have hlow : ∀ i, (0xF#32).getLsbD i = decide (i < 4) := fun i =>
    Nat.testBit_two_pow_sub_one 4 i
  constructor
  · apply BitVec.eq_of_getLsbD_eq
    intro i hi
    simp only [BitVec.getLsbD_ushiftRight, BitVec.getLsbD_or, BitVec.getLsbD_shiftLeft,
      BitVec.getLsbD_and, hlow]
    by_cases h : i < 4
    · simp [show 4 + i < 32 by omega, show ¬ 4 + i < 4 by omega, h, show 4 + i - 4 = i by omega]
    · simp [show ¬ 4 + i < 4 by omega, h, show 4 + i - 4 = i by omega]
  · apply BitVec.eq_of_getLsbD_eq
    intro i hi
    simp only [BitVec.getLsbD_or, BitVec.getLsbD_shiftLeft, BitVec.getLsbD_and, hlow]
    by_cases h : i < 4
    · simp [h]
    · simp [h]

theorem factor_eq {k : BitVec 32}
    (h : ((p.mult &&& 0xF#32) <<< 4) ||| (p.div &&& 0xF#32) = k) :
    p.mult &&& 0xF#32 = k >>> 4 ∧ p.div &&& 0xF#32 = k &&& 0xF#32 := by
  obtain ⟨hmult, hdiv⟩ := nibbles p.mult p.div
  rw [h] at hmult hdiv
  exact ⟨hmult.symm, hdiv.symm⟩

/-- The code of a reference clock, and the factor that it is made into. -/
theorem toRefclkScaler_spec (h : 0 ≤ p.toRefclkScaler) :
    ∃ c < 4, p.toRefclkScaler = (c : Nat) ∧ ∀ q : RefclkScale,
      q.refclkScaler (BitVec.ofNat 32 c) =
        q.setMuldiv (p.mult &&& 0xF#32) (p.div &&& 0xF#32) := by
  unfold toRefclkScaler at h ⊢
  dsimp only at h ⊢
  by_cases h11 : ((p.mult &&& 0xF#32) <<< 4) ||| (p.div &&& 0xF#32) = 0x11#32
  · rw [if_pos h11, (factor_eq h11).1, (factor_eq h11).2]
    exact ⟨0, by decide, rfl, fun _ => rfl⟩
  by_cases h12 : ((p.mult &&& 0xF#32) <<< 4) ||| (p.div &&& 0xF#32) = 0x12#32
  · rw [if_neg h11, if_pos h12, (factor_eq h12).1, (factor_eq h12).2]
    exact ⟨1, by decide, rfl, fun _ => rfl⟩
  by_cases h14 : ((p.mult &&& 0xF#32) <<< 4) ||| (p.div &&& 0xF#32) = 0x14#32
  · rw [if_neg h11, if_neg h12, if_pos h14, (factor_eq h14).1, (factor_eq h14).2]
    exact ⟨2, by decide, rfl, fun _ => rfl⟩
  by_cases h21 : ((p.mult &&& 0xF#32) <<< 4) ||| (p.div &&& 0xF#32) = 0x21#32
  · rw [if_neg h11, if_neg h12, if_neg h14, if_pos h21, (factor_eq h21).1, (factor_eq h21).2]
    exact ⟨3, by decide, rfl, fun _ => rfl⟩
  · rw [if_neg h11, if_neg h12, if_neg h14, if_neg h21] at h
    cases h


theorem of_ite_eq_some {P : Prop} [Decidable P] {α : Type*} {x y : α}
    (h : (if P then none else some x) = some y) : ¬P ∧ x = y := by
  split_ifs at h with hP
  exact ⟨hP, Option.some_inj.mp h⟩

/-- A call that is accepted succeeds, and without `set` it changes nothing. -/
theorem setClkScaler_of_some (hc : KeepsScalers c regs) {x : BitVec 32 × BitVec 32}
    (h : readBack phy p = some x) (set : Bool) :
    (p.setClkScaler phy c s set).1 = 0 ∧ (p.setClkScaler phy c s false).2 = s := by
  have hite (f v) : (if set then c.writef s f v else (0, s)).1 = 0 := by
    cases set with
    | false => rfl
    | true => exact writef_fst hc
  unfold readBack at h
  unfold setClkScaler
  cases hsource : p.source
  all_goals rw [hsource] at h
  all_goals dsimp only at h ⊢
  case bbRefclk | txRefclk =>
    unfold setRefclk
    dsimp only
    rw [if_neg (of_ite_eq_some h).1, if_neg (of_ite_eq_some h).1]
    exact ⟨hite _ _, rfl⟩
  case rxRefclk =>
    rw [if_neg (of_ite_eq_some h).1, if_neg (of_ite_eq_some h).1]
    refine ⟨?_, rfl⟩
    cases set with
    | false => rfl
    | true =>
      rw [if_pos rfl, writef_fst hc, writef_fst hc]
      rfl
  case r2Clk | r1Clk | clkrfClk | dacClk | t2Clk | t1Clk | clktfClk =>
    unfold setDivider
    rw [if_neg (of_ite_eq_some h).1, if_neg (of_ite_eq_some h).1]
    exact ⟨hite _ _, rfl⟩
  case rxSamplClk | txSamplClk =>
    unfold setFir
    rw [if_neg (of_ite_eq_some h).1, if_neg (of_ite_eq_some h).1]
    exact ⟨hite _ _, rfl⟩
  case adcClk =>
    rw [if_neg (of_ite_eq_some h).1, if_neg (of_ite_eq_some h).1]
    exact ⟨hite _ _, rfl⟩
  all_goals cases h

theorem setDivider_spec (hc : KeepsScalers c regs) (hf : FitsBelow f max.toNat)
    (h : ¬(p.mult ≠ 1 ∨ p.div > max ∨ p.div < 1)) :
    held regs (p.setDivider c s true max f).2 f + 1 = p.div := by
  unfold setDivider
  rw [if_neg h, if_pos rfl]
  simp only [not_or, not_not, gt_iff_lt, BitVec.not_lt] at h
  obtain ⟨-, hle, hpos⟩ := h
  rw [held_writef_of_lt hc hf (by bv_omega), BitVec.sub_add_cancel]

theorem setFir_spec (hc : KeepsScalers c regs) (hf : FitsBelow f 4)
    (h : ¬(p.mult ≠ 1 ∨ p.div > 4 ∨ p.div < 1 ∨ p.div = 3)) (q : RefclkScale) :
    q.firScaler (held regs (p.setFir c s true bypass f).2 f) =
      q.setMuldiv 1 (if bypass then 1 else p.div) := by
  unfold setFir
  rw [if_neg h]
  dsimp only
  rw [if_pos rfl]
  simp only [not_or, not_not, gt_iff_lt, BitVec.not_lt] at h
  obtain ⟨-, hle, hpos, hne⟩ := h
  cases bypass with
  | true =>
    rw [if_pos rfl, if_pos rfl, held_writef_of_lt hc hf (by decide), firScaler, if_pos rfl]
  | false =>
    rw [if_neg Bool.false_ne_true, if_neg Bool.false_ne_true]
    obtain hdiv | hdiv | hdiv : p.div = 1#32 ∨ p.div = 2#32 ∨ p.div = 4#32 := by bv_omega
    all_goals
      rw [hdiv, held_writef_of_lt hc hf (by decide), firScaler, if_neg (by decide)]
      exact congrArg _ (by decide)

theorem setRefclk_spec (hc : KeepsScalers c regs) (hf : FitsBelow f 4) (h : ¬p.toRefclkScaler < 0)
    (q : RefclkScale) : q.refclkScaler (held regs (p.setRefclk c s true f).2 f) =
      q.setMuldiv (p.mult &&& 0xF#32) (p.div &&& 0xF#32) := by
  obtain ⟨n, hn, hcode, hback⟩ := toRefclkScaler_spec (Int.not_lt.mp h)
  have hlt : (BitVec.ofNat 32 n).toNat < 4 := Nat.lt_of_le_of_lt (Nat.mod_le n _) hn
  unfold setRefclk
  dsimp only
  rw [if_neg h, if_pos rfl, hcode, BitVec.ofInt_natCast, held_writef_of_lt hc hf hlt, hback]

/-- The code of the receiver's reference clock is in two fields of one bit. -/
theorem held_rxRefclk (hc : KeepsScalers c regs) {n : Nat} (hn : n < 4) :
    let s' := (c.writef (c.writef s .rxRefDividerMsb (BitVec.ofNat 32 n >>> 1)).2 .rxRefDividerLsb
      (BitVec.ofNat 32 n &&& 1)).2
    (held regs s' .rxRefDividerMsb <<< 1) ||| held regs s' .rxRefDividerLsb =
      BitVec.ofNat 32 n := by
  have hbits : ∀ n < 4, (BitVec.ofNat 32 n >>> 1).toNat < 2 ∧ (BitVec.ofNat 32 n &&& 1).toNat < 2 ∧
      ((BitVec.ofNat 32 n >>> 1) <<< 1) ||| (BitVec.ofNat 32 n &&& 1) = BitVec.ofNat 32 n := by
    decide
  obtain ⟨hmsb, hlsb, heq⟩ := hbits n hn
  dsimp only
  rw [held_writef_of_ne hc (by decide), held_writef_of_lt (n := 2) hc (by decide) hmsb,
    held_writef_of_lt (n := 2) hc (by decide) hlsb, heq]

theorem one_shiftLeft {n : Nat} : 1#32 <<< n = BitVec.ofNat 32 (2 ^ n) := by
  apply BitVec.eq_of_toNat_eq
  rw [BitVec.toNat_shiftLeft, BitVec.toNat_ofNat, BitVec.toNat_ofNat, Nat.shiftLeft_eq]
  simp

/-- **An accepted factor is read back** as `readBack` says. -/
theorem factor_setClkScaler (hc : KeepsScalers c regs) {m d : BitVec 32}
    (h : readBack phy p = some (m, d)) (hq : q.source = p.source) :
    q.factor (held regs (p.setClkScaler phy c s true).2) = q.setMuldiv m d := by
  unfold readBack at h
  unfold factor setClkScaler
  rw [hq]
  cases hsource : p.source
  all_goals rw [hsource] at h
  all_goals dsimp only at h ⊢
  case r2Clk | r1Clk | clkrfClk | dacClk | t2Clk | t1Clk | clktfClk =>
    obtain ⟨hok, hb⟩ := of_ite_eq_some h
    cases hb
    rw [setDivider_spec hc (by decide) hok]
  case rxSamplClk | txSamplClk =>
    obtain ⟨hok, hb⟩ := of_ite_eq_some h
    cases hb
    exact setFir_spec hc (by decide) hok q
  case bbRefclk | txRefclk =>
    obtain ⟨hok, hb⟩ := of_ite_eq_some h
    cases hb
    exact setRefclk_spec hc (by decide) hok q
  case rxRefclk =>
    obtain ⟨hok, hb⟩ := of_ite_eq_some h
    cases hb
    obtain ⟨n, hn, hcode, hback⟩ := toRefclkScaler_spec (Int.not_lt.mp hok)
    rw [if_neg hok, if_pos rfl, hcode, BitVec.ofInt_natCast, held_rxRefclk hc hn, hback]
  case adcClk =>
    obtain ⟨hok, hb⟩ := of_ite_eq_some h
    cases hb
    rw [if_neg hok, if_pos rfl]
    simp only [not_or, not_not, gt_iff_lt, BitVec.not_lt] at hok
    obtain ⟨-, hle, hpos⟩ := hok
    rw [held_writef_of_lt (n := 7) hc (by decide) (by bv_omega), one_shiftLeft]
  all_goals cases h

/-! ## Any sequence of calls -/

end RefclkScale

inductive ScalerOp where
  | get (q : RefclkScale)
  | set (phy : FirBypass) (p : RefclkScale) (b : Bool)

namespace ScalerOp

open RefclkScale

variable {c : Chip σ} {regs : σ → BitVec 10 → Byte} {s : σ}

def exec (c : Chip σ) (s : σ) : ScalerOp → σ
  | get q => (q.getClkScaler c s).2
  | set phy p b => (p.setClkScaler phy c s b).2

/-- The factor that a call gives to a clock. -/
def effect : ScalerOp → Option (Clock × (BitVec 32 × BitVec 32))
  | get _ => none
  | set phy p b => if b then (readBack phy p).map fun x => (p.source, x) else none

theorem exec_of_none (hc : KeepsScalers c regs) {op : ScalerOp} (h : op.effect = none)
    (f : ScalerField) : held regs (op.exec c s) f = held regs s f := by
  cases op with
  | get q => exact held_getClkScaler hc
  | set phy p b =>
    rw [exec]
    cases hback : readBack phy p with
    | none => rw [setClkScaler_of_none hback]
    | some x =>
      cases b with
      | true => simp [effect, hback] at h
      | false => rw [(setClkScaler_of_some hc hback false).2]

/-- **Scalers behave as variables**: over a device that follows its instructions,
`ad9361_get_clk_scaler` gives for each clock what `ad9361_set_clk_scaler` last accepted for it,
whatever was tried, read and set for the others in between. -/
theorem getClkScaler_run (hc : KeepsScalers c regs) (ops : List ScalerOp) (q : RefclkScale) :
    (q.getClkScaler c (ops.foldl (exec c) s)).1 =
      match Assignments.last q.source (ops.filterMap effect) with
      | some (m, d) => q.setMuldiv m d
      | none => (q.getClkScaler c s).1 := by
  rw [getClkScaler_fst hc, getClkScaler_fst hc]
  induction ops using List.reverseRecOn with
  | nil => rfl
  | append_singleton ops op ih =>
    rw [List.foldl_append, List.foldl_cons, List.foldl_nil, List.filterMap_append]
    cases heffect : op.effect with
    | none =>
      rw [List.filterMap_cons_none heffect, List.filterMap_nil, List.append_nil, ← ih]
      exact factor_congr fun f _ => exec_of_none hc heffect f
    | some e =>
      obtain ⟨k, m, d⟩ := e
      rw [List.filterMap_cons_some heffect, List.filterMap_nil, Assignments.last_append_singleton]
      -- only `set` with something accepted has an effect
      obtain ⟨phy, p, rfl, hback, rfl⟩ :
          ∃ phy p, op = set phy p true ∧ readBack phy p = some (m, d) ∧ k = p.source := by
        cases op with
        | get q => cases heffect
        | set phy p b =>
          cases b with
          | false => cases heffect
          | true =>
            simp only [effect, if_true, Option.map_eq_some_iff, Prod.mk.injEq] at heffect
            obtain ⟨x, hback, hsource, rfl⟩ := heffect
            exact ⟨phy, p, rfl, hback, hsource.symm⟩
      by_cases hq : p.source = q.source
      · rw [if_pos hq]
        exact factor_setClkScaler hc hback hq.symm
      · rw [if_neg hq, ← ih]
        apply factor_congr
        intro f hf
        apply held_setClkScaler_of_notMem hc
        intro hmem
        exact hq ((owner_of_mem hmem).symm.trans (owner_of_mem hf))

/-- The divider of the ADC's clock is set after that of the DAC's, in the same register. -/
def rateOps : List ScalerOp :=
  [.set ⟨false, true⟩ ⟨.dacClk, 1, 2⟩ true, .set ⟨false, true⟩ ⟨.adcClk, 1, 48⟩ true,
    .get ⟨.rxSamplClk, 0, 0⟩, .set ⟨false, true⟩ ⟨.adcClk, 1, 1⟩ true,
    .set ⟨false, true⟩ ⟨.adcClk, 1, 4⟩ false]

theorem getClkScaler_run_rateOps :
    (RefclkScale.getClkScaler registerFile (rateOps.foldl (exec registerFile) fun _ => 0xFF#8)
      ⟨.adcClk, 0, 0⟩).1 = (0, ⟨.adcClk, 1, 32⟩) :=
  (getClkScaler_run (registerFile_keeps _) rateOps _).trans rfl

end ScalerOp

end ModemFhss.Ad9361
