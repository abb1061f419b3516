import ModemFhss.Library.Fractional
import ModemFhss.Ad9361.ClockChain

/-!
# The PLLs (`ad9361_bbpll_set_rate`, `ad9361_calc_rfpll_int_divder` and the others)

The base band PLL and the two of the carriers multiply a reference by a word in registers, made as
in `Fractional`. The PLL of a carrier runs between 6 and 12 GHz, and its output is divided by a
power of 2.

* `bbpll_recalc_set` — what is read of the base band PLL is the rate that it was set to, rounded.
* `exists_divider` — the dividers that are calculated for a carrier are read as its rate, up to the
  rounding; `synth_writeRfpll_of_ne` — those of the other one stay, though they share a register.
-/

namespace ModemFhss.Ad9361

open Errno

variable {σ : Type*}

def bbpllModulus : Nat := 2088960

/-- `DIV_ROUND_CLOSEST` of two `uint32_t` -/
def divRoundClosest (x divisor : Nat) : Nat := (x + divisor / 2) % 2 ^ 32 / divisor

/-! ## The base band PLL -/

def regIntegerBbFreqWord : BitVec 32 := 0x044#32

def regFractBbFreqWord1 : BitVec 32 := 0x041#32

def regFractBbFreqWord2 : BitVec 32 := 0x042#32

def regFractBbFreqWord3 : BitVec 32 := 0x043#32

/-- The loop of `ad9361_check_cal_done`, with so many more tries. -/
def checkCalDone (c : Chip σ) (reg mask doneState : BitVec 32) : Nat → σ → Int × σ
  | 0, s =>
    let (state, s) := c.spiReadf s reg mask
    if BitVec.ofInt 32 state = doneState then (0, s) else (-etimedout, s)
  | timeout + 1, s =>
    let (state, s) := c.spiReadf s reg mask
    if BitVec.ofInt 32 state = doneState then (0, s)
    else checkCalDone c reg mask doneState timeout s

/-- The word that is read, a byte of the integer part and three of the other. -/
def bbpllWord (buf : List Byte) : Fractional.Word where
  integer := (buf.getD 0 0#8).toNat
  fract := ((buf.getD 3 0#8).setWidth 32 <<< 16 ||| (buf.getD 2 0#8).setWidth 32 <<< 8 |||
    (buf.getD 1 0#8).setWidth 32).toNat

def bbpllRecalcRate (c : Chip σ) (s : σ) (parentRate : Nat) : Nat × σ :=
  let (_, s, buf) := c.spiReadm s regIntegerBbFreqWord 4
  (Fractional.rate bbpllModulus parentRate (bbpllWord buf) % 2 ^ 32, s)

def bbpllRoundRate (rate prate : Nat) : Nat :=
  if rate > maxBbpllFreq then maxBbpllFreq else
  if rate < minBbpllFreq then minBbpllFreq else
  Fractional.rate bbpllModulus prate (Fractional.word bbpllModulus prate rate)

/-- The charge pump's current. -/
def icpVal (rate parentRate : Nat) : Int :=
  let tmp := (rate >>> 7) * 150 / ((parentRate >>> 7) * 32)
  max (min ((divRoundClosest (tmp % 2 ^ 32) 25 : Int) - 1) 64) 1

def bbpllSetRate (c : Chip σ) (s : σ) (rate parentRate : Nat) : Int × σ :=
  let s := (c.spiWrite s 0x046#32 (BitVec.ofInt 32 (icpVal rate parentRate))).2
  let s := (c.spiWritem s 0x04A#32 [0x35#8, 0x5B#8, 0xE8#8]).2
  let s := (c.spiWrite s 0x04B#32 (1#32 <<< 7 ||| 3#32 <<< 5)).2
  let s := (c.spiWrite s 0x04E#32 0x10#32).2
  let w := Fractional.word bbpllModulus parentRate rate
  let integer := BitVec.ofNat 32 w.integer
  let fract := BitVec.ofNat 32 w.fract
  let s := (c.spiWrite s regIntegerBbFreqWord integer).2
  let s := (c.spiWrite s regFractBbFreqWord3 fract).2
  let s := (c.spiWrite s regFractBbFreqWord2 (fract >>> 8)).2
  let s := (c.spiWrite s regFractBbFreqWord1 (fract >>> 16)).2
  let s := (c.spiWrite s 0x03F#32 (1#32 <<< 2 ||| 1#32)).2
  let s := (c.spiWrite s 0x03F#32 1#32).2
  let s := (c.spiWrite s 0x04C#32 0x86#32).2
  let s := (c.spiWrite s 0x04D#32 0x01#32).2
  let s := (c.spiWrite s 0x04D#32 0x05#32).2
  checkCalDone c 0x05E#32 (1#32 <<< 7) 1#32 5000 s

section Bbpll

variable {c : Chip σ} {regs : σ → BitVec 10 → Byte} {kept : BitVec 10 → Prop} {s : σ}
  {rate parentRate : Nat} {a : BitVec 10}

/-- Single bytes, written one after the other. -/
def spiWrites (c : Chip σ) (s : σ) (l : List (BitVec 32 × BitVec 32)) : σ :=
  l.foldl (fun s e => (c.spiWrite s e.1 e.2).2) s

theorem spiWrites_spec (hc : c.Keeps regs kept) (l : List (BitVec 32 × BitVec 32)) (ha : kept a) :
    regs (spiWrites c s l) a =
      (Assignments.last a (l.map fun e => (e.1.setWidth 10, e.2.setWidth 8))).getD (regs s a) := by
  induction l using List.reverseRecOn with
  | nil => rfl
  | append_singleton l e ih =>
    rw [spiWrites, List.foldl_append, List.foldl_cons, List.foldl_nil, List.map_append,
      List.map_singleton, Assignments.last_append_singleton, (hc.spiWrite _ _ _).2 a ha]
    by_cases h : e.1.setWidth 10 = a
    · rw [h, Function.update_self, if_pos rfl, Option.getD_some]
    · rw [Function.update_of_ne (Ne.symm h), if_neg h]
      exact ih

theorem spiReadf_keeps (hc : c.Keeps regs kept) (s : σ) (reg mask : BitVec 32) (ha : kept a) :
    regs (c.spiReadf s reg mask).2 a = regs s a := by
  have hkeeps := (hc.spiReadm (by decide : 0 < 1) (by decide : 1 ≤ maxMbyteSpi) s reg).2.1 a ha
  unfold Chip.spiReadf
  split
  · rfl
  · dsimp only
    split <;> exact hkeeps

/-- Waiting changes nothing. -/
theorem checkCalDone_keeps (hc : c.Keeps regs kept) (reg mask doneState : BitVec 32) (timeout : Nat)
    (ha : kept a) : regs (checkCalDone c reg mask doneState timeout s).2 a = regs s a := by
  induction timeout generalizing s with
  | zero =>
    rw [checkCalDone]
    dsimp only
    split <;> exact spiReadf_keeps hc s reg mask ha
  | succ timeout ih =>
    rw [checkCalDone]
    dsimp only
    split
    · exact spiReadf_keeps hc s reg mask ha
    · rw [ih, spiReadf_keeps hc s reg mask ha]

/-- The bytes that are written after the loop filter. -/
def bbpllBytes (w : Fractional.Word) : List (BitVec 32 × BitVec 32) :=
  let integer := BitVec.ofNat 32 w.integer
  let fract := BitVec.ofNat 32 w.fract
  [(0x04B#32, 1#32 <<< 7 ||| 3#32 <<< 5), (0x04E#32, 0x10#32), (regIntegerBbFreqWord, integer),
    (regFractBbFreqWord3, fract), (regFractBbFreqWord2, fract >>> 8),
    (regFractBbFreqWord1, fract >>> 16), (0x03F#32, 1#32 <<< 2 ||| 1#32), (0x03F#32, 1#32),
    (0x04C#32, 0x86#32), (0x04D#32, 0x01#32), (0x04D#32, 0x05#32)]

/-- The registers with the word of the PLL. -/
def BbpllReg (a : BitVec 10) : Prop := a ∈ [0x044#10, 0x043#10, 0x042#10, 0x041#10]

instance : Decidable (BbpllReg a) := inferInstanceAs (Decidable (_ ∈ _))

theorem bbpllSetRate_regs (hc : c.Keeps regs kept) (ha : kept a)
    (hclear : a ∉ [0x046#10, 0x04A#10, 0x049#10, 0x048#10]) :
    regs (bbpllSetRate c s rate parentRate).2 a =
      (Assignments.last a ((bbpllBytes (Fractional.word bbpllModulus parentRate rate)).map
        fun e => (e.1.setWidth 10, e.2.setWidth 8))).getD (regs s a) := by
  have hsplit : bbpllSetRate c s rate parentRate = checkCalDone c 0x05E#32 (1#32 <<< 7) 1#32 5000
      (spiWrites c (c.spiWritem (c.spiWrite s 0x046#32 (BitVec.ofInt 32 (icpVal rate parentRate))).2
        0x04A#32 [0x35#8, 0x5B#8, 0xE8#8]).2
          (bbpllBytes (Fractional.word bbpllModulus parentRate rate))) := rfl
  simp only [List.mem_cons, List.not_mem_nil, or_false, not_or] at hclear
  rw [hsplit, checkCalDone_keeps hc _ _ _ _ ha, spiWrites_spec hc _ ha]
  congr 1
  have hlen : 3 ≤ (0x04A#10 - a).toNat := by bv_omega
  rw [(hc.spiWritem (by decide) (by decide)).2 a ha, stored, List.getD_eq_getElem?_getD,
    List.getElem?_eq_none hlen, Option.getD_none, (hc.spiWrite _ _ _).2 a ha]
  exact Function.update_of_ne hclear.1 _ _

/-- Three bytes make a number of 24 bits again. -/
theorem bytes_toNat (x : BitVec 32) (hx : x.toNat < 2 ^ 24) :
    ((((x >>> 16).setWidth 8).setWidth 32 <<< 16 ||| ((x >>> 8).setWidth 8).setWidth 32 <<< 8) |||
      (x.setWidth 8).setWidth 32).toNat = x.toNat := by
  congr 1
  apply BitVec.eq_of_getLsbD_eq
  intro i hi
  have hhigh : 24 ≤ i → x.getLsbD i = false := fun h =>
    Nat.testBit_lt_two_pow (Nat.lt_of_lt_of_le hx (Nat.pow_le_pow_right (by decide) h))
  simp only [BitVec.getLsbD_or, BitVec.getLsbD_shiftLeft, BitVec.getLsbD_setWidth,
    BitVec.getLsbD_ushiftRight]
  by_cases h8 : i < 8
  · simp [h8, hi, show i < 16 by omega]
  by_cases h16 : i < 16
  · simp [h8, h16, show i - 8 < 8 by omega, show i - 8 < 32 by omega,
      show 8 + (i - 8) = i by omega, hi]
  by_cases h24 : i < 24
  · simp [h8, h16, show i - 16 < 8 by omega, show 16 + (i - 16) = i by omega, hi,
      show ¬ i - 8 < 8 by omega, show i - 16 < 32 by omega]
  · simp [h8, h16, show ¬ i - 16 < 8 by omega, show ¬ i - 8 < 8 by omega, hhigh (by omega)]

/-- **The rate that is read is the one that was set**, rounded as the word is. -/
theorem bbpll_recalc_set (hc : c.Keeps regs kept) (hkept : ∀ a, BbpllReg a → kept a)
    (hp : 0 < parentRate) (hinteger : rate / parentRate < 256) :
    (bbpllRecalcRate c (bbpllSetRate c s rate parentRate).2 parentRate).1 =
      Fractional.rate bbpllModulus parentRate (Fractional.word bbpllModulus parentRate rate) %
        2 ^ 32 := by
  have hfract : (Fractional.word bbpllModulus parentRate rate).fract < 2 ^ 24 :=
    Nat.lt_of_le_of_lt (Fractional.word_fract_le hp) (by decide)
  obtain ⟨-, -, hread⟩ := hc.spiReadm (by decide : 0 < 4) (by decide : 4 ≤ maxMbyteSpi)
    (bbpllSetRate c s rate parentRate).2 regIntegerBbFreqWord
  have hbyte (i : Nat) (hi : i < 4) (hreg : BbpllReg (0x044#10 - BitVec.ofNat 10 i))
      (hclear : 0x044#10 - BitVec.ofNat 10 i ∉ [0x046#10, 0x04A#10, 0x049#10, 0x048#10]) :=
    (hread i hi (hkept _ hreg)).trans
      (congrArg some (bbpllSetRate_regs (s := s) hc (hkept _ hreg) hclear))
  generalize hs : bbpllSetRate c s rate parentRate = r at hread hbyte ⊢
  generalize hw : Fractional.word bbpllModulus parentRate rate = w at *
  have hint : w.integer = rate / parentRate := by rw [← hw]; rfl
  have h0 : (c.spiReadm r.2 regIntegerBbFreqWord 4).2.2[0]? =
      some ((BitVec.ofNat 32 w.integer).setWidth 8) := hbyte 0 (by decide) (by decide) (by decide)
  have h1 : (c.spiReadm r.2 regIntegerBbFreqWord 4).2.2[1]? =
      some ((BitVec.ofNat 32 w.fract).setWidth 8) := hbyte 1 (by decide) (by decide) (by decide)
  have h2 : (c.spiReadm r.2 regIntegerBbFreqWord 4).2.2[2]? =
      some ((BitVec.ofNat 32 w.fract >>> 8).setWidth 8) :=
    hbyte 2 (by decide) (by decide) (by decide)
  have h3 : (c.spiReadm r.2 regIntegerBbFreqWord 4).2.2[3]? =
      some ((BitVec.ofNat 32 w.fract >>> 16).setWidth 8) :=
    hbyte 3 (by decide) (by decide) (by decide)
  have hword : bbpllWord (c.spiReadm r.2 regIntegerBbFreqWord 4).2.2 = w := by
    have hfract32 : (BitVec.ofNat 32 w.fract).toNat = w.fract := by
      rw [BitVec.toNat_ofNat, Nat.mod_eq_of_lt (Nat.lt_trans hfract (by decide))]
    unfold bbpllWord
    simp only [List.getD_eq_getElem?_getD, h0, h1, h2, h3, Option.getD_some]
    rw [bytes_toNat _ (by rwa [hfract32]), hfract32, BitVec.toNat_setWidth, BitVec.toNat_ofNat]
    have hmod : w.integer % 2 ^ 32 % 2 ^ 8 = w.integer := by omega
    rw [hmod]
  unfold bbpllRecalcRate
  dsimp only
  rw [hword]

/-- **Setting a rounded rate gives that rate**, which differs from the one that was asked for by
half a unit of the word and the rounding. -/
theorem bbpll_recalc_round (hc : c.Keeps regs kept) (hkept : ∀ a, BbpllReg a → kept a)
    (hp : maxBbpllFreq < 255 * parentRate) (hp32 : parentRate < 2 ^ 32)
    (hmin : minBbpllFreq ≤ rate) (hmax : rate ≤ maxBbpllFreq) :
    let set := (bbpllRecalcRate c
      (bbpllSetRate c s (bbpllRoundRate rate parentRate) parentRate).2 parentRate).1
    set = bbpllRoundRate rate parentRate ∧
      2 * (bbpllModulus * set) ≤ 2 * (bbpllModulus * rate) + parentRate ∧
      2 * (bbpllModulus * rate) ≤ 2 * (bbpllModulus * set) + parentRate + 2 * bbpllModulus := by
  have hmax' : rate ≤ 1430000000 := hmax
  have hp' : 1430000000 < 255 * parentRate := hp
  have hp0 : 0 < parentRate := by omega
  have hround : bbpllRoundRate rate parentRate =
      Fractional.rate bbpllModulus parentRate (Fractional.word bbpllModulus parentRate rate) := by
    rw [bbpllRoundRate, if_neg (Nat.not_lt.mpr hmax), if_neg (Nat.not_lt.mpr hmin)]
  have hle := Fractional.rate_word_le (m := bbpllModulus) (f := rate) hp0
  have hge := Fractional.le_rate_word (m := bbpllModulus) (f := rate) (by decide) hp0
  have htwice := Fractional.rate_word_rate (m := bbpllModulus) (p := parentRate) (by decide)
    (show 2 * 2088960 ≤ parentRate by omega) (Fractional.word bbpllModulus parentRate rate)
  rw [← hround] at hle hge htwice
  have hbound : bbpllRoundRate rate parentRate ≤ 1430000000 + parentRate / 4177920 := by
    have : 2 * (2088960 * bbpllRoundRate rate parentRate) ≤ 2 * (2088960 * rate) + parentRate := hle
    omega
  have hset : (bbpllRecalcRate c
      (bbpllSetRate c s (bbpllRoundRate rate parentRate) parentRate).2 parentRate).1 = _ :=
    bbpll_recalc_set hc hkept hp0 (Nat.div_lt_of_lt_mul (by omega))
  rw [htwice, Nat.mod_eq_of_lt (by omega)] at hset
  dsimp only
  rw [hset]
  exact ⟨rfl, hle, hge⟩

example : (bbpllRecalcRate registerFile (bbpllSetRate registerFile (fun _ => 0#8)
    (bbpllRoundRate 983040000 40000000) 40000000).2 40000000).1 = 983040000 := by
  decide +kernel

end Bbpll

/-! ## The PLLs of the carriers -/

def rfpllModulus : Nat := 8388593

def minVcoFreqHz : Nat := 6000000000

def maxCarrierFreqHz : Nat := 6000000000

def minCarrierFreqHz : Nat := 70000000

def ad9363aMaxCarrierFreqHz : Nat := 3800000000

def ad9363aMinCarrierFreqHz : Nat := 325000000

/-- `enum dev_id` -/
inductive DevId where
  | ad9361
  | ad9364
  | ad9363a
  deriving DecidableEq

def validateRfpll (devSel : DevId) (freq : Nat) : Int :=
  match devSel with
  | .ad9363a =>
    if freq > ad9363aMaxCarrierFreqHz ∨ freq < ad9363aMinCarrierFreqHz then -einval else 0
  | _ => if freq > maxCarrierFreqHz ∨ freq < minCarrierFreqHz then -einval else 0

/-- The loop that doubles the frequency until it is above the lower limit of the VCO, in so many
rounds at most. -/
def vcoLoop : Nat → Nat → Int → Option (Nat × Int)
  | 0, freq, div => if freq ≤ minVcoFreqHz then none else some (freq, div)
  | fuel + 1, freq, div =>
    if freq ≤ minVcoFreqHz then vcoLoop fuel (freq * 2 % 2 ^ 64) (div + 1) else some (freq, div)

structure RfpllDivider where
  integer : Nat
  fract : Nat
  vcoDiv : Int
  vcoFreq : Nat

/-- `none` where the loop does not end in so many rounds. -/
def calcRfpllIntDivder (devSel : DevId) (freq parentRate fuel : Nat) :
    Option (Except Int RfpllDivider) :=
  let ret := validateRfpll devSel freq
  if ret ≠ 0 then some (.error ret) else
  (vcoLoop fuel freq (-1)).map fun (freq, div) =>
    let w := Fractional.word rfpllModulus parentRate freq
    .ok ⟨w.integer % 2 ^ 32, w.fract % 2 ^ 32, div, freq⟩

def calcRfpllIntFreq (parentRate integer fract vcoDiv : Nat) : Nat :=
  Fractional.rate rfpllModulus parentRate ⟨integer, fract⟩ >>> (vcoDiv + 1)

def toClk (freq : Nat) : Nat := (freq >>> 1) % 2 ^ 32

def fromClk (freq : Nat) : Nat := freq <<< 1

/-- From a frequency that enough doublings bring above the limit, the loop ends within the octave
above it. -/
theorem vcoLoop_spec (n : Nat) {f : Nat} {d : Int} (hn : minVcoFreqHz < f * 2 ^ n)
    (hf : f ≤ 2 * minVcoFreqHz) :
    ∃ k ≤ n, vcoLoop n f d = some (f * 2 ^ k, d + k) ∧ minVcoFreqHz < f * 2 ^ k ∧
      f * 2 ^ k ≤ 2 * minVcoFreqHz ∧ (f ≤ minVcoFreqHz → 1 ≤ k) := by
  induction n generalizing f d with
  | zero =>
    rw [Nat.pow_zero, Nat.mul_one] at hn
    refine ⟨0, Nat.le_refl 0, ?_, by simpa using hn, by simpa using hf, by omega⟩
    rw [vcoLoop, if_neg (Nat.not_le.mpr hn)]
    simp
  | succ n ih =>
    rw [vcoLoop]
    by_cases hle : f ≤ minVcoFreqHz
    · have hmod : f * 2 % 2 ^ 64 = f * 2 := by
        have hle' : f ≤ 6000000000 := hle
        omega
      rw [if_pos hle, hmod]
      obtain ⟨k, hk, heq, hmin, hmax, -⟩ := ih (f := f * 2) (d := d + 1)
        (by rwa [Nat.mul_assoc, ← Nat.pow_succ']) (by omega)
      rw [Nat.mul_assoc, ← Nat.pow_succ'] at heq hmin hmax
      refine ⟨k + 1, by omega, ?_, hmin, hmax, fun _ => by omega⟩
      rw [heq]
      congr 2
      omega
    · rw [if_neg hle]
      exact ⟨0, by omega, by simp, by omega, by omega, by omega⟩

/-- The words fit into their fields: 11 bits, 23 bits and 4 bits. -/
structure RfpllDivider.Fits (d : RfpllDivider) : Prop where
  integer : d.integer < 2 ^ 11
  fract : d.fract < 2 ^ 23
  vcoDiv_nonneg : 0 ≤ d.vcoDiv
  vcoDiv : d.vcoDiv < 16

theorem le_of_validateRfpll {devSel : DevId} {freq : Nat} (h : validateRfpll devSel freq = 0) :
    minCarrierFreqHz ≤ freq ∧ freq ≤ maxCarrierFreqHz := by
  have hmin : minCarrierFreqHz ≤ ad9363aMinCarrierFreqHz := by decide
  have hmax : ad9363aMaxCarrierFreqHz ≤ maxCarrierFreqHz := by decide
  unfold validateRfpll at h
  split at h
  all_goals
    split at h
    · cases h
    · omega

/-- Half a unit of the reference, divided down with the rest, stays below it. -/
theorem shiftRight_bounds {f r e k : Nat} (hle : r ≤ f * 2 ^ k + e) (hge : f * 2 ^ k ≤ r + e + 1) :
    r >>> k ≤ f + e ∧ f ≤ r >>> k + e + 2 := by
  have hpos : 0 < 2 ^ k := Nat.two_pow_pos k
  have hmul : e ≤ e * 2 ^ k := Nat.le_mul_of_pos_right e hpos
  rw [Nat.shiftRight_eq_div_pow]
  constructor
  · apply Nat.le_of_lt_succ
    apply Nat.div_lt_of_lt_mul
    calc r ≤ f * 2 ^ k + e * 2 ^ k := by omega
      _ = 2 ^ k * (f + e) := by ring
      _ < 2 ^ k * (f + e + 1) := Nat.mul_lt_mul_of_pos_left (Nat.lt_succ_self _) hpos
  · have hdiv := Nat.div_add_mod r (2 ^ k)
    have hmod := Nat.mod_lt r hpos
    apply Nat.le_of_mul_le_mul_right _ hpos
    calc f * 2 ^ k ≤ 2 ^ k * (r / 2 ^ k) + 2 ^ k + (e + 1) * 2 ^ k := by
          rw [Nat.succ_mul]
          omega
      _ = (r / 2 ^ k + e + 2) * 2 ^ k := by ring

/-- **The dividers of a carrier**: for every frequency that is allowed the loop ends, with the VCO
in its octave and words that fit into their fields, and they stand for this frequency up to the
rounding. -/
theorem calcRfpllIntDivder_spec {devSel : DevId} {freq parentRate fuel : Nat}
    (hvalid : validateRfpll devSel freq = 0) (hp : 2 * minVcoFreqHz < 2048 * parentRate)
    (hfuel : 7 ≤ fuel) : ∃ d : RfpllDivider,
      calcRfpllIntDivder devSel freq parentRate fuel = some (.ok d) ∧ d.Fits ∧
      minVcoFreqHz < d.vcoFreq ∧ d.vcoFreq ≤ 2 * minVcoFreqHz ∧
      d.vcoFreq = freq * 2 ^ (d.vcoDiv.toNat + 1) ∧
      calcRfpllIntFreq parentRate d.integer d.fract d.vcoDiv.toNat ≤
        freq + parentRate / (2 * rfpllModulus) ∧
      freq ≤ calcRfpllIntFreq parentRate d.integer d.fract d.vcoDiv.toNat +
        parentRate / (2 * rfpllModulus) + 2 := by
  obtain ⟨hmin, hmax⟩ := le_of_validateRfpll hvalid
  have hmin' : 70000000 ≤ freq := hmin
  have hmax' : freq ≤ 6000000000 := hmax
  have hp' : 2 * 6000000000 < 2048 * parentRate := hp
  have hp0 : 0 < parentRate := by omega
  have hstart : minVcoFreqHz < freq * 2 ^ fuel :=
    Nat.lt_of_lt_of_le (show 6000000000 < 70000000 * 2 ^ 7 by decide)
      (Nat.mul_le_mul hmin (Nat.pow_le_pow_right (by decide) hfuel))
  obtain ⟨k, -, hloop, hlow, hhigh, hone⟩ :=
    vcoLoop_spec fuel (d := -1) hstart (Nat.le_trans hmax (by decide))
  have hk1 : 1 ≤ k := hone hmax
  have hk7 : k ≤ 7 := by
    by_contra hk
    have h8 : 70000000 * 2 ^ 8 ≤ freq * 2 ^ k :=
      Nat.mul_le_mul hmin (Nat.pow_le_pow_right (by decide) (by omega))
    exact absurd (Nat.le_trans h8 hhigh) (by decide)
  have hfract := Fractional.word_fract_le (m := rfpllModulus) (f := freq * 2 ^ k) hp0
  have hfract' : (Fractional.word rfpllModulus parentRate (freq * 2 ^ k)).fract ≤ 8388593 := hfract
  have hinteger : (Fractional.word rfpllModulus parentRate (freq * 2 ^ k)).integer < 2048 :=
    Nat.div_lt_of_lt_mul (Nat.lt_of_le_of_lt hhigh (by rwa [Nat.mul_comm parentRate]))
  have hle := Fractional.rate_word_le (m := rfpllModulus) (f := freq * 2 ^ k) hp0
  have hge := Fractional.le_rate_word (m := rfpllModulus) (f := freq * 2 ^ k) (by decide) hp0
  generalize hw : Fractional.word rfpllModulus parentRate (freq * 2 ^ k) = w at *
  have hbounds := shiftRight_bounds (f := freq) (k := k)
    (r := Fractional.rate rfpllModulus parentRate w) (e := parentRate / (2 * rfpllModulus))
    (by simp only [rfpllModulus] at *; omega) (by simp only [rfpllModulus] at *; omega)
  have hvco : (-1 + (k : Int)).toNat + 1 = k := by omega
  refine ⟨⟨w.integer, w.fract, -1 + k, freq * 2 ^ k⟩, ?_, ⟨hinteger, ?_, ?_, ?_⟩, hlow, hhigh, ?_,
    ?_⟩
  · unfold calcRfpllIntDivder
    dsimp only
    rw [if_neg (by simp [hvalid]), hloop, Option.map_some, hw, Nat.mod_eq_of_lt (by omega),
      Nat.mod_eq_of_lt (by omega)]
  · show w.fract < 2 ^ 23
    omega
  · show 0 ≤ -1 + (k : Int)
    omega
  · show -1 + (k : Int) < 16
    omega
  · show freq * 2 ^ k = freq * 2 ^ ((-1 + (k : Int)).toNat + 1)
    rw [hvco]
  · unfold calcRfpllIntFreq
    dsimp only
    rw [hvco]
    exact hbounds

/-! ### Their registers -/

/-- `REG_TX_FRACT_BYTE_2` and `REG_RX_FRACT_BYTE_2` -/
def fractByte2 (tx : Bool) : BitVec 10 := if tx then 0x275#10 else 0x235#10

/-- `buf` of `ad9361_rfpll_int_set_rate`. The upper bits of the fourth byte are the old ones. -/
def synthBytes (integer fract old : BitVec 32) : List Byte :=
  [((fract >>> 16) &&& 0x7F#32).setWidth 8, (fract >>> 8).setWidth 8,
    (fract &&& 0xFF#32).setWidth 8,
    (((integer >>> 8) &&& 0x7#32) ||| (~~~0x7#32 &&& old)).setWidth 8,
    (integer &&& 0xFF#32).setWidth 8]

/-- What `ad9361_rfpll_int_set_rate` writes for the dividers. -/
def writeRfpll (c : Chip σ) (s : σ) (tx : Bool) (d : RfpllDivider) : σ :=
  let reg := (fractByte2 tx).setWidth 32
  let (old, s) := c.spiRead s (reg - 3#32)
  let buf := synthBytes (BitVec.ofNat 32 d.integer) (BitVec.ofNat 32 d.fract) (BitVec.ofInt 32 old)
  let s := (c.spiWritem s reg buf).2
  (c.spiWritef s (vcoDivider tx).reg32 (vcoDivider tx).mask32 (BitVec.ofInt 32 d.vcoDiv)).2

/-- `ad9361_rfpll_int_recalc_rate`, with no fast lock profile in use. -/
def rfpllIntRecalcRate (c : Chip σ) (s : σ) (tx : Bool) (parentRate : Nat) : Nat × σ :=
  let (_, s, buf) := c.spiReadm s ((fractByte2 tx).setWidth 32) 5
  let (vcoDiv, s) := c.spiReadf s (vcoDivider tx).reg32 (vcoDivider tx).mask32
  let byte (i : Nat) : BitVec 32 := (buf.getD i 0#8).setWidth 32
  let fract := ((byte 0 &&& 0x7F#32) <<< 16) ||| (byte 1 <<< 8) ||| byte 2
  let integer := ((byte 3 &&& 0x7#32) <<< 8) ||| byte 4
  (toClk (calcRfpllIntFreq parentRate integer.toNat fract.toNat (BitVec.ofInt 32 vcoDiv).toNat), s)

section Rfpll

variable {c : Chip σ} {regs : σ → BitVec 10 → Byte} {kept : BitVec 10 → Prop} {s : σ}
  {tx tx' : Bool} {r r' : BitVec 10 → Byte} {d : RfpllDivider} {parentRate : Nat}

/-- The register with byte `i` of a carrier. -/
def synthReg (tx : Bool) (i : Nat) : BitVec 10 := fractByte2 tx - BitVec.ofNat 10 i

/-- The registers of both carriers. -/
def RfpllReg (a : BitVec 10) : Prop :=
  a = 0x005#10 ∨ ∃ tx, ∃ i < 5, a = synthReg tx i

/-- What the registers of a carrier say: the two words and the divider. -/
def synth (r : BitVec 10 → Byte) (tx : Bool) : Nat × Nat × Nat :=
  let byte (i : Nat) : BitVec 32 := (r (synthReg tx i)).setWidth 32
  ((((byte 3 &&& 0x7#32) <<< 8) ||| byte 4).toNat,
    (((byte 0 &&& 0x7F#32) <<< 16) ||| (byte 1 <<< 8) ||| byte 2).toNat,
    ((vcoDivider tx).field.read r).toNat)

theorem synth_congr (hsynth : ∀ i < 5, r (synthReg tx i) = r' (synthReg tx i))
    (hdiv : (vcoDivider tx).field.read r = (vcoDivider tx).field.read r') :
    synth r tx = synth r' tx := by
  unfold synth
  dsimp only
  rw [hsynth 0 (by decide), hsynth 1 (by decide), hsynth 2 (by decide), hsynth 3 (by decide),
    hsynth 4 (by decide), hdiv]

theorem vcoDivider_addr : (vcoDivider tx).addr = 0x005#10 := by cases tx <;> rfl

theorem rfpllReg_vcoDivider : RfpllReg (vcoDivider tx).addr := .inl vcoDivider_addr

theorem rfpllReg_synthReg {i : Nat} (hi : i < 5) : RfpllReg (synthReg tx i) :=
  .inr ⟨tx, i, hi, rfl⟩

theorem setWidth_fractByte2 : ((fractByte2 tx).setWidth 32).setWidth 10 = fractByte2 tx := by
  cases tx <;> rfl

theorem synthReg_ne_vcoDivider {i : Nat} (hi : i < 5) : synthReg tx i ≠ (vcoDivider tx').addr := by
  have hall : ∀ tx, ∀ i < 5, synthReg tx i ≠ 0x005#10 := by decide
  rw [vcoDivider_addr]
  exact hall tx i hi

theorem recalc_keeps (hc : c.Keeps regs kept) {a : BitVec 10} (ha : kept a) :
    regs (rfpllIntRecalcRate c s tx parentRate).2 a = regs s a :=
  (spiReadf_keeps hc _ _ _ ha).trans
    ((hc.spiReadm (by decide : 0 < 5) (by decide : 5 ≤ maxMbyteSpi) s _).2.1 a ha)

theorem recalc_eq (hc : c.Keeps regs kept) (hkept : ∀ a, RfpllReg a → kept a) :
    (rfpllIntRecalcRate c s tx parentRate).1 = toClk (calcRfpllIntFreq parentRate
      (synth (regs s) tx).1 (synth (regs s) tx).2.1 (synth (regs s) tx).2.2) := by
  obtain ⟨-, hkeeps, hread⟩ := hc.spiReadm (by decide : 0 < 5) (by decide : 5 ≤ maxMbyteSpi) s
    ((fractByte2 tx).setWidth 32)
  have hdiv := (hc.spiReadf (s := (c.spiReadm s ((fractByte2 tx).setWidth 32) 5).2.1)
    (hkept (vcoDivider tx).addr rfpllReg_vcoDivider)).1
  have hsame : (vcoDivider tx).field.read
      (regs (c.spiReadm s ((fractByte2 tx).setWidth 32) 5).2.1) =
        (vcoDivider tx).field.read (regs s) := by
    unfold Fields.BitField.read
    rw [RegField.field_addr, hkeeps _ (hkept _ rfpllReg_vcoDivider)]
  have hbyte : ∀ i < 5, (c.spiReadm s ((fractByte2 tx).setWidth 32) 5).2.2.getD i 0#8 =
      regs s (synthReg tx i) := by
    intro i hi
    have hreg : ((fractByte2 tx).setWidth 32).setWidth 10 - BitVec.ofNat 10 i = synthReg tx i := by
      rw [setWidth_fractByte2]
      rfl
    have hi' := hread i hi (hreg ▸ hkept _ (rfpllReg_synthReg hi))
    rw [List.getD_eq_getElem?_getD, hi', Option.getD_some, hreg]
  unfold rfpllIntRecalcRate
  dsimp only
  rw [hdiv, hsame, hbyte 0 (by decide), hbyte 1 (by decide), hbyte 2 (by decide),
    hbyte 3 (by decide), hbyte 4 (by decide), BitVec.ofInt_natCast, BitVec.toNat_ofNat,
    Nat.mod_eq_of_lt (Nat.lt_trans (BitVec.isLt _) (by decide))]
  rfl

theorem write_congr {f : Fields.BitField (BitVec 10) 8} {v : Byte} {a : BitVec 10} (ha : r a = r' a)
    (haddr : r f.addr = r' f.addr) : f.write v r a = f.write v r' a := by
  unfold Fields.BitField.write
  by_cases h : a = f.addr
  · subst h
    rw [Function.update_self, Function.update_self, haddr]
  · rw [Function.update_of_ne h, Function.update_of_ne h, ha]

theorem stored_congr {addr a : BitVec 10} {data : List Byte} (h : r a = r' a) :
    stored addr data r a = stored addr data r' a := by
  unfold stored
  rw [h]

/-- The registers after the dividers of a carrier were written. -/
theorem writeRfpll_regs (s : σ) (tx : Bool) (d : RfpllDivider) (hc : c.Keeps regs kept)
    (hkept : ∀ a, RfpllReg a → kept a) :
    ∃ old, ∀ a, kept a → regs (writeRfpll c s tx d) a =
      (vcoDivider tx).field.write ((BitVec.ofInt 32 d.vcoDiv).setWidth 8)
        (stored (fractByte2 tx)
          (synthBytes (BitVec.ofNat 32 d.integer) (BitVec.ofNat 32 d.fract) old) (regs s)) a := by
  have hreg : ((fractByte2 tx).setWidth 32 - 3#32).setWidth 10 = synthReg tx 3 := by
    cases tx <;> rfl
  have hread := (hc.spiRead (s := s) (hreg ▸ hkept _ (rfpllReg_synthReg (by decide)))).2
  refine ⟨BitVec.ofInt 32 (c.spiRead s ((fractByte2 tx).setWidth 32 - 3#32)).1, ?_⟩
  unfold writeRfpll
  dsimp only
  generalize c.spiRead s ((fractByte2 tx).setWidth 32 - 3#32) = old at hread ⊢
  have hstored : ∀ a, kept a → regs (c.spiWritem old.2 ((fractByte2 tx).setWidth 32)
      (synthBytes (BitVec.ofNat 32 d.integer) (BitVec.ofNat 32 d.fract)
        (BitVec.ofInt 32 old.1))).2 a = _ :=
    (hc.spiWritem (by simp [synthBytes]) (by simp [synthBytes, maxMbyteSpi])).2
  have haddr := hkept (vcoDivider tx).addr rfpllReg_vcoDivider
  intro a ha
  rw [(hc.spiWritef haddr).2 a ha]
  apply write_congr
  · rw [hstored a ha, setWidth_fractByte2]
    exact stored_congr (hread a ha)
  · rw [RegField.field_addr, hstored _ haddr, setWidth_fractByte2]
    exact stored_congr (hread _ haddr)

/-- The bits that the words are made of come back. -/
theorem synthBytes_words (integer fract old : BitVec 32) (hinteger : integer.toNat < 2 ^ 11)
    (hfract : fract.toNat < 2 ^ 23) :
    let byte (i : Nat) : BitVec 32 := ((synthBytes integer fract old).getD i 0#8).setWidth 32
    (((byte 3 &&& 0x7#32) <<< 8) ||| byte 4) = integer ∧
      (((byte 0 &&& 0x7F#32) <<< 16) ||| (byte 1 <<< 8) ||| byte 2) = fract := by
  have h3 (i) : (0x7#32).getLsbD i = decide (i < 3) := Nat.testBit_two_pow_sub_one 3 i
  have h7 (i) : (0x7F#32).getLsbD i = decide (i < 7) := Nat.testBit_two_pow_sub_one 7 i
  have h8 (i) : (0xFF#32).getLsbD i = decide (i < 8) := Nat.testBit_two_pow_sub_one 8 i
  constructor
  · apply BitVec.eq_of_getLsbD_eq
    intro i hi
    have hhigh : 11 ≤ i → integer.getLsbD i = false := fun h =>
      Nat.testBit_lt_two_pow (Nat.lt_of_lt_of_le hinteger (Nat.pow_le_pow_right (by decide) h))
    by_cases hlow : i < 8
    · simp [synthBytes, h8, hlow, hi]
    by_cases hmid : i < 11
    · -- of the upper bits only those outside of the mask are the old ones
      obtain rfl | rfl | rfl : i = 8 ∨ i = 9 ∨ i = 10 := by omega
      all_goals simp [synthBytes]
    · simp [synthBytes, h3, hlow, show ¬ i - 8 < 3 by omega, hhigh (by omega)]
  · apply BitVec.eq_of_getLsbD_eq
    intro i hi
    have hhigh : 23 ≤ i → fract.getLsbD i = false := fun h =>
      Nat.testBit_lt_two_pow (Nat.lt_of_lt_of_le hfract (Nat.pow_le_pow_right (by decide) h))
    by_cases hlow : i < 8
    · simp [synthBytes, h8, hlow, hi, show i < 16 by omega]
    by_cases hmid : i < 16
    · simp [synthBytes, hlow, hmid, hi, show i - 8 < 8 by omega,
        show i - 8 < 32 by omega, show 8 + (i - 8) = i by omega]
    by_cases hup : i < 23
    · simp [synthBytes, h7, hlow, hmid, hi, show i - 16 < 7 by omega, show i - 16 < 8 by omega,
        show i - 16 < 32 by omega, show ¬ i - 8 < 8 by omega, show 16 + (i - 16) = i by omega]
    · simp [synthBytes, h7, hlow, hmid, show ¬ i - 16 < 7 by omega, show ¬ i - 8 < 8 by omega,
        hhigh (by omega)]

/-- A byte of the buffer is at its register. -/
theorem stored_synthReg {data : List Byte} (hlen : data.length = 5) {i : Nat} (hi : i < 5) :
    stored (fractByte2 tx) data r (synthReg tx i) = data.getD i 0#8 := by
  have hsub : (fractByte2 tx - synthReg tx i).toNat = i := by
    have hall : ∀ tx, ∀ i < 5, (fractByte2 tx - synthReg tx i).toNat = i := by decide
    exact hall tx i hi
  rw [stored, hsub, List.getD_eq_getElem?_getD, List.getD_eq_getElem?_getD,
    List.getElem?_eq_getElem (by rwa [hlen]), Option.getD_some, Option.getD_some]

theorem stored_of_ne {data : List Byte} (hlen : data.length = 5) (hne : tx ≠ tx') {i : Nat}
    (hi : i < 5) : stored (fractByte2 tx) data r (synthReg tx' i) = r (synthReg tx' i) := by
  have hsub : 5 ≤ (fractByte2 tx - synthReg tx' i).toNat := by
    have hall : ∀ tx tx', tx ≠ tx' → ∀ i < 5, 5 ≤ (fractByte2 tx - synthReg tx' i).toNat := by
      decide
    exact hall tx tx' hne i hi
  rw [stored, List.getD_eq_getElem?_getD, List.getElem?_eq_none (by rwa [hlen]), Option.getD_none]

theorem stored_vcoDivider {data : List Byte} (hlen : data.length = 5) :
    stored (fractByte2 tx) data r (vcoDivider tx').addr = r (vcoDivider tx').addr := by
  have hsub : 5 ≤ (fractByte2 tx - (vcoDivider tx').addr).toNat := by
    cases tx <;> cases tx' <;> decide
  rw [stored, List.getD_eq_getElem?_getD, List.getElem?_eq_none (by rwa [hlen]), Option.getD_none]

theorem vcoDivider_apart : ∀ tx tx', tx ≠ tx' →
    (vcoDivider tx).field.Apart (vcoDivider tx').field := by decide

theorem vcoDivider_clip : ∀ n < 16, (((vcoDivider tx).field.clip
    ((BitVec.ofNat 32 n).setWidth 8)).toNat = n) := by
  cases tx <;> decide

theorem synth_writeRfpll (hc : c.Keeps regs kept) (hkept : ∀ a, RfpllReg a → kept a) (hd : d.Fits) :
    synth (regs (writeRfpll c s tx d)) tx = (d.integer, d.fract, d.vcoDiv.toNat) := by
  obtain ⟨old, hregs⟩ := writeRfpll_regs s tx d hc hkept
  have hbyte : ∀ i < 5, regs (writeRfpll c s tx d) (synthReg tx i) =
      (synthBytes (BitVec.ofNat 32 d.integer) (BitVec.ofNat 32 d.fract) old).getD i 0#8 := by
    intro i hi
    rw [hregs _ (hkept _ (rfpllReg_synthReg hi)), Fields.BitField.write_apply_of_ne
      (synthReg_ne_vcoDivider hi), stored_synthReg rfl hi]
  have hdiv : (vcoDivider tx).field.read (regs (writeRfpll c s tx d)) =
      (vcoDivider tx).field.clip ((BitVec.ofInt 32 d.vcoDiv).setWidth 8) := by
    rw [← Fields.BitField.read_write]
    unfold Fields.BitField.read
    rw [RegField.field_addr, hregs _ (hkept _ rfpllReg_vcoDivider)]
  have hinteger : (BitVec.ofNat 32 d.integer).toNat = d.integer := by
    rw [BitVec.toNat_ofNat, Nat.mod_eq_of_lt (Nat.lt_trans hd.integer (by decide))]
  have hfract : (BitVec.ofNat 32 d.fract).toNat = d.fract := by
    rw [BitVec.toNat_ofNat, Nat.mod_eq_of_lt (Nat.lt_trans hd.fract (by decide))]
  have hvco : BitVec.ofInt 32 d.vcoDiv = BitVec.ofNat 32 d.vcoDiv.toNat := by
    rw [← BitVec.ofInt_natCast, Int.toNat_of_nonneg hd.vcoDiv_nonneg]
  obtain ⟨h1, h2⟩ := synthBytes_words (BitVec.ofNat 32 d.integer) (BitVec.ofNat 32 d.fract) old
    (by rw [hinteger]; exact hd.integer) (by rw [hfract]; exact hd.fract)
  unfold synth
  dsimp only at h1 h2 ⊢
  rw [hbyte 0 (by decide), hbyte 1 (by decide), hbyte 2 (by decide), hbyte 3 (by decide),
    hbyte 4 (by decide), h1, h2, hinteger, hfract, hdiv, hvco,
    vcoDivider_clip _ (by have := hd.vcoDiv; omega)]

/-- One carrier's dividers leave the other's alone. -/
theorem synth_writeRfpll_of_ne (hc : c.Keeps regs kept) (hkept : ∀ a, RfpllReg a → kept a)
    (hne : tx ≠ tx') : synth (regs (writeRfpll c s tx d)) tx' = synth (regs s) tx' := by
  obtain ⟨old, hregs⟩ := writeRfpll_regs s tx d hc hkept
  apply synth_congr
  · intro i hi
    rw [hregs _ (hkept _ (rfpllReg_synthReg hi)), Fields.BitField.write_apply_of_ne
      (synthReg_ne_vcoDivider hi), stored_of_ne rfl hne hi]
  · have hsame : (vcoDivider tx').field.read (regs (writeRfpll c s tx d)) =
        (vcoDivider tx').field.read ((vcoDivider tx).field.write
          ((BitVec.ofInt 32 d.vcoDiv).setWidth 8) (stored (fractByte2 tx)
            (synthBytes (BitVec.ofNat 32 d.integer) (BitVec.ofNat 32 d.fract) old) (regs s))) := by
      unfold Fields.BitField.read
      rw [RegField.field_addr, hregs _ (hkept _ rfpllReg_vcoDivider)]
    rw [hsame, Fields.BitField.read_write_of_apart (vcoDivider_apart tx tx' hne)]
    unfold Fields.BitField.read
    rw [RegField.field_addr, stored_vcoDivider rfl]

/-- What a carrier's registers say after it was set. -/
def Meets (r : BitVec 10 → Byte) (tx : Bool) (rate parentRate : Nat) : Prop :=
  let freq := calcRfpllIntFreq parentRate (synth r tx).1 (synth r tx).2.1 (synth r tx).2.2
  2 * rate ≤ maxCarrierFreqHz ∧ freq ≤ 2 * rate + parentRate / (2 * rfpllModulus) ∧
    2 * rate ≤ freq + parentRate / (2 * rfpllModulus) + 2

/-- The dividers of a rate are the same for both carriers. -/
theorem exists_divider {devSel : DevId} {rate : Nat} (hc : c.Keeps regs kept)
    (hkept : ∀ a, RfpllReg a → kept a) (hvalid : validateRfpll devSel (fromClk rate) = 0)
    (hp : 2 * minVcoFreqHz < 2048 * parentRate) :
    ∃ d, calcRfpllIntDivder devSel (fromClk rate) parentRate 7 = some (.ok d) ∧
      ∀ s tx, Meets (regs (writeRfpll c s tx d)) tx rate parentRate := by
  obtain ⟨d, hcalc, hfits, -, -, -, hle, hge⟩ :=
    calcRfpllIntDivder_spec hvalid hp (Nat.le_refl 7)
  have hmax := (le_of_validateRfpll hvalid).2
  rw [fromClk, Nat.shiftLeft_eq, Nat.pow_one, Nat.mul_comm] at hle hge hmax
  refine ⟨d, hcalc, fun s tx => ?_⟩
  unfold Meets
  rw [synth_writeRfpll hc hkept hfits]
  exact ⟨hmax, hle, hge⟩

theorem meets_writeRfpll_of_ne {rate : Nat} (hc : c.Keeps regs kept)
    (hkept : ∀ a, RfpllReg a → kept a) (hne : tx ≠ tx') (h : Meets (regs s) tx' rate parentRate) :
    Meets (regs (writeRfpll c s tx d)) tx' rate parentRate := by
  unfold Meets
  rw [synth_writeRfpll_of_ne hc hkept hne]
  exact h

end Rfpll

end ModemFhss.Ad9361
