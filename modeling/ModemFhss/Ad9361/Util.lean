import Mathlib.Data.Nat.Sqrt
import Mathlib.Tactic.Ring

/-!
# Integer arithmetic of the transceiver driver (`util.c`)

A square root by digits, and two searches by halving: for the highest bit of a word (`ilog2`) and
for the lowest (`find_first_bit`). Both searches look at halves of 16, 8, 4, 2 and 1 bits, and each
of these rounds is the same code with another width.
-/

namespace ModemFhss.Ad9361

/-! ## `int_sqrt` -/

/-- The loop of `int_sqrt`. -/
def intSqrtLoop (x y m : UInt32) : UInt32 :=
  if _h : m = 0 then y
  else
    let b := y + m
    let y := y >>> 1
    if x ≥ b then intSqrtLoop (x - b) (y + m) (m >>> 2) else intSqrtLoop x y (m >>> 2)
termination_by m.toNat
decreasing_by
  all_goals
    have hm : m.toNat ≠ 0 := fun h0 => _h (UInt32.toNat_inj.mp h0)
    rw [UInt32.toNat_shiftRight]
    show m.toNat >>> 2 < m.toNat
    rw [Nat.shiftRight_eq_div_pow]
    omega

def intSqrt (x : UInt32) : UInt32 := if x ≤ 1 then x else intSqrtLoop x 0 ((1 : UInt32) <<< 30)

/-- The digits `s` of the root of `n` that are known, when `4 ^ (k - 1)` is tried next: `x` is what
is left of `n`, and `y` is what the next digit multiplies, moved to its place. -/
structure SqrtInv (n : Nat) (x y : UInt32) (k s : Nat) : Prop where
  left : x.toNat + s ^ 2 = n
  moved : y.toNat = s * 2 ^ k
  above : n < (s + 2 ^ k) ^ 2
  room : s + 2 ^ k ≤ 2 ^ 16

variable {n k s : Nat} {x y m : UInt32}

/-- A round: the next digit is 1 if its square still fits. -/
theorem SqrtInv.round (h : SqrtInv n x y (k + 1) s) (hm : m.toNat = 4 ^ k) :
    if x ≥ y + m then SqrtInv n (x - (y + m)) (y >>> 1 + m) k (s + 2 ^ k)
    else SqrtInv n x (y >>> 1) k s := by
  have hroom : s + 2 ^ k + 2 ^ k ≤ 2 ^ 16 := by
    have := h.room
    rw [Nat.pow_succ] at this
    omega
  have hsquare : (4 : Nat) ^ k = 2 ^ k * 2 ^ k := by rw [← Nat.mul_pow]
  have hnext : (s + 2 ^ k) ^ 2 = s ^ 2 + 2 * (s * 2 ^ k) + 2 ^ k * 2 ^ k := by ring
  have hmoved : y.toNat = 2 * (s * 2 ^ k) := by rw [h.moved, Nat.pow_succ]; ring
  have hpos : 0 < 2 ^ k := Nat.two_pow_pos k
  -- the sums stay below `2 ^ 32`, as the next root is below `2 ^ 16`
  have hfit : (s + 2 ^ k) ^ 2 ≤ (2 ^ 16 - 1) ^ 2 := Nat.pow_le_pow_left (by omega) 2
  have hb : (y + m).toNat = 2 * (s * 2 ^ k) + 2 ^ k * 2 ^ k := by
    rw [UInt32.toNat_add, hmoved, hm, hsquare]
    exact Nat.mod_eq_of_lt (by omega)
  have hhalf : (y >>> 1).toNat = s * 2 ^ k := by
    rw [UInt32.toNat_shiftRight, hmoved]
    show (2 * (s * 2 ^ k)) >>> 1 = s * 2 ^ k
    rw [Nat.shiftRight_eq_div_pow]
    omega
  have hleft := h.left
  split
  case isTrue hge =>
    rw [ge_iff_le, UInt32.le_iff_toNat_le, hb] at hge
    refine ⟨?_, ?_, ?_, by omega⟩
    · rw [UInt32.toNat_sub_of_le _ _ (UInt32.le_iff_toNat_le.mpr (by omega)), hb, hnext]
      omega
    · rw [UInt32.toNat_add, hhalf, hm, hsquare, Nat.add_mul]
      exact Nat.mod_eq_of_lt (by omega)
    · have := h.above
      rwa [Nat.pow_succ 2 k, Nat.mul_two, ← Nat.add_assoc] at this
  case isFalse hlt =>
    rw [ge_iff_le, UInt32.le_iff_toNat_le, hb] at hlt
    refine ⟨hleft, hhalf, ?_, by omega⟩
    rw [hnext]
    omega

theorem SqrtInv.loop (h : SqrtInv n x y k s) (hm : m.toNat = 4 ^ k / 4) :
    (intSqrtLoop x y m).toNat = n.sqrt := by
  induction k generalizing x y m s with
  | zero =>
    have hzero : m = 0 := UInt32.toNat_inj.mp hm
    have hy : y.toNat = s := by rw [h.moved, Nat.pow_zero, Nat.mul_one]
    rw [intSqrtLoop, dif_pos hzero, hy]
    apply Nat.eq_sqrt'.mpr
    constructor
    · have := h.left
      omega
    · simpa using h.above
  | succ k ih =>
    have hm' : m.toNat = 4 ^ k := by rw [hm, Nat.pow_succ, Nat.mul_div_cancel _ (by decide)]
    have hne : m ≠ 0 := by
      intro hzero
      rw [hzero] at hm'
      have : 0 < 4 ^ k := Nat.pow_pos (by decide)
      have : (0 : UInt32).toNat = 0 := rfl
      omega
    have hnext : (m >>> 2).toNat = 4 ^ k / 4 := by
      rw [UInt32.toNat_shiftRight, hm']
      exact Nat.shiftRight_eq_div_pow ..
    have hround := h.round hm'
    rw [intSqrtLoop, dif_neg hne]
    split at hround
    case isTrue hge => rw [if_pos hge]; exact ih hround hnext
    case isFalse hlt => rw [if_neg hlt]; exact ih hround hnext

/-- **The square root is exact**, rounded down, for every word. -/
theorem intSqrt_toNat (x : UInt32) : (intSqrt x).toNat = x.toNat.sqrt := by
  unfold intSqrt
  split
  case isTrue hle =>
    have hle' : x.toNat ≤ 1 := UInt32.le_iff_toNat_le.mp hle
    apply Nat.eq_sqrt'.mpr
    rcases Nat.le_one_iff_eq_zero_or_eq_one.mp hle' with h | h <;> rw [h] <;> decide
  case isFalse =>
    have hinv : SqrtInv x.toNat x 0 16 0 :=
      ⟨rfl, rfl, by have := x.toNat_lt; omega, by decide⟩
    exact hinv.loop rfl

/-! ## `ilog2` -/

/-- `!(!x)` -/
def truth (x : BitVec 32) : BitVec 32 := if x = 0#32 then 0#32 else 1#32

/-- A round of `ilog2`: what lies above the lowest `k` bits if anything does, else all of it. The
`A` of the round comes first. -/
def upper (k : Nat) (x : BitVec 32) : BitVec 32 × BitVec 32 :=
  let A := truth (x.sshiftRight k)
  (A, ((~~~A + 1#32) &&& x.sshiftRight k) + (~~~(~~~A + 1#32) &&& x))

def ilog2 (x : BitVec 32) : BitVec 32 :=
  let (A, x) := upper 16 x
  let count := A <<< 4
  let (A, x) := upper 8 x
  let count := count + (A <<< 3)
  let (A, x) := upper 4 x
  let count := count + (A <<< 2)
  let (A, x) := upper 2 x
  let count := count + (A <<< 1)
  count + truth (x.sshiftRight 1)

section Ilog2

theorem log2_div_two_pow (h : n / 2 ^ k ≠ 0) : n.log2 = k + (n / 2 ^ k).log2 := by
  have hn : n ≠ 0 := by
    rintro rfl
    simp at h
  obtain ⟨hle, hlt⟩ := (Nat.log2_eq_iff h).mp rfl
  rw [Nat.log2_eq_iff hn]
  constructor
  · rw [Nat.add_comm, Nat.pow_add]
    exact (Nat.le_div_iff_mul_le (Nat.two_pow_pos k)).mp hle
  · rw [Nat.add_assoc, Nat.add_comm, Nat.pow_add]
    exact (Nat.div_lt_iff_lt_mul (Nat.two_pow_pos k)).mp hlt

variable {x : BitVec 32}

theorem upper_of_eq_zero (h : x.sshiftRight k = 0#32) : upper k x = (0#32, x) := by
  have hones : 4294967295#32 &&& x = x := BitVec.allOnes_and
  simp [upper, truth, h, hones]

theorem upper_of_ne_zero (h : x.sshiftRight k ≠ 0#32) : upper k x = (1#32, x.sshiftRight k) := by
  have hones : 4294967295#32 &&& x.sshiftRight k = x.sshiftRight k := BitVec.allOnes_and
  simp [upper, truth, h, hones]

/-- The shift of a negative number is negative again. -/
theorem upper_of_msb (h : x.msb = true) :
    upper k x = (1#32, x.sshiftRight k) ∧ (x.sshiftRight k).msb = true := by
  have hmsb : (x.sshiftRight k).msb = true := by rw [BitVec.msb_sshiftRight, h]
  refine ⟨upper_of_ne_zero ?_, hmsb⟩
  intro hzero
  rw [hzero] at hmsb
  cases hmsb

/-- A round halves the place where the highest bit can be, and counts what it moved it by. -/
theorem upper_spec (hx : x.toNat < 2 ^ 31) (hk : x.toNat < 2 ^ (2 * k)) :
    ∃ b : Bool, (upper k x).1 = (BitVec.ofBool b).setWidth 32 ∧ (upper k x).2.toNat < 2 ^ 31 ∧
      (upper k x).2.toNat < 2 ^ k ∧
      x.toNat.log2 = k * b.toNat + (upper k x).2.toNat.log2 := by
  have hmsb : x.msb = false := by rw [BitVec.msb_eq_false_iff_two_mul_lt]; omega
  have hshift : (x.sshiftRight k).toNat = x.toNat / 2 ^ k := by
    rw [BitVec.toNat_sshiftRight_of_msb_false hmsb, Nat.shiftRight_eq_div_pow]
  by_cases hzero : x.sshiftRight k = 0#32
  · refine ⟨false, ?_⟩
    have hlow : x.toNat / 2 ^ k = 0 := by rw [← hshift, hzero]; rfl
    rw [upper_of_eq_zero hzero]
    exact ⟨rfl, hx, (Nat.div_eq_zero_iff_lt (Nat.two_pow_pos k)).mp hlow, by simp⟩
  · refine ⟨true, ?_⟩
    have hne : x.toNat / 2 ^ k ≠ 0 := by
      intro h
      rw [← hshift] at h
      exact hzero (BitVec.eq_of_toNat_eq h)
    rw [upper_of_ne_zero hzero]
    refine ⟨rfl, ?_, ?_, ?_⟩
    · rw [hshift]
      exact Nat.lt_of_le_of_lt (Nat.div_le_self ..) hx
    · rw [hshift]
      apply Nat.div_lt_of_lt_mul
      rwa [← Nat.pow_add, ← Nat.two_mul]
    · show x.toNat.log2 = k * 1 + (x.sshiftRight k).toNat.log2
      rw [hshift, Nat.mul_one, log2_div_two_pow hne]

theorem ilog2_of_msb (h : x.msb = true) : ilog2 x = 31#32 := by
  obtain ⟨h16, hmsb16⟩ := upper_of_msb (k := 16) h
  obtain ⟨h8, hmsb8⟩ := upper_of_msb (k := 8) hmsb16
  obtain ⟨h4, hmsb4⟩ := upper_of_msb (k := 4) hmsb8
  obtain ⟨h2, hmsb2⟩ := upper_of_msb (k := 2) hmsb4
  obtain ⟨h1, -⟩ := upper_of_msb (k := 1) hmsb2
  have hlast : truth (((((x.sshiftRight 16).sshiftRight 8).sshiftRight 4).sshiftRight 2).sshiftRight
      1) = 1#32 := congrArg Prod.fst h1
  unfold ilog2
  simp only [h16, h8, h4, h2, hlast]
  decide

/-- **The logarithm is exact**, rounded down, for every word taken as an unsigned number, and that
of zero is zero. -/
theorem ilog2_toNat (x : BitVec 32) : (ilog2 x).toNat = x.toNat.log2 := by
  cases hmsb : x.msb with
  | true =>
    have hge : 2 ^ 31 ≤ x.toNat := by
      have := BitVec.msb_eq_true_iff_two_mul_ge.mp hmsb
      omega
    rw [ilog2_of_msb hmsb]
    exact ((Nat.log2_eq_iff (by omega)).mpr ⟨hge, x.isLt⟩).symm
  | false =>
    have hlt : x.toNat < 2 ^ 31 := by
      have := BitVec.msb_eq_false_iff_two_mul_lt.mp hmsb
      omega
    obtain ⟨b16, h16, hlt16, hs16, hlog16⟩ := upper_spec (k := 16) hlt (by omega)
    obtain ⟨b8, h8, hlt8, hs8, hlog8⟩ := upper_spec (k := 8) hlt16 hs16
    obtain ⟨b4, h4, hlt4, hs4, hlog4⟩ := upper_spec (k := 4) hlt8 hs8
    obtain ⟨b2, h2, hlt2, hs2, hlog2⟩ := upper_spec (k := 2) hlt4 hs4
    obtain ⟨b1, h1, -, hs1, hlog1⟩ := upper_spec (k := 1) hlt2 hs2
    have hrest : ∀ r : Nat, r < 2 ^ 1 → r.log2 = 0 := by decide
    rw [hlog16, hlog8, hlog4, hlog2, hlog1, hrest _ hs1]
    have hlast : truth ((upper 2 (upper 4 (upper 8 (upper 16 x).2).2).2).2.sshiftRight 1) =
        (BitVec.ofBool b1).setWidth 32 := h1
    unfold ilog2
    simp only [h16, h8, h4, h2, hlast]
    clear * -
    revert b16 b8 b4 b2 b1
    decide

end Ilog2

/-! ## `find_first_bit` -/

/-- A round of `find_first_bit`: the lowest `k` bits are skipped if none of them is set. -/
def skip (k : Nat) (num : Nat) (word : BitVec 32) : Nat × BitVec 32 :=
  if word &&& BitVec.ofNat 32 (2 ^ k - 1) = 0#32 then (num + k, word >>> k) else (num, word)

def findFirstBit (word : BitVec 32) : Nat :=
  let (num, word) := skip 16 0 word
  let (num, word) := skip 8 num word
  let (num, word) := skip 4 num word
  let (num, word) := skip 2 num word
  (skip 1 num word).1

section FindFirstBit

variable {word rest : BitVec 32} {num : Nat}

/-- The lowest `num` bits of the word are skipped, `rest` remains, and one of its lowest `k` bits is
set. -/
structure Skipped (word : BitVec 32) (k num : Nat) (rest : BitVec 32) : Prop where
  rest_eq : rest = word >>> num
  clear : ∀ i < num, word.getLsbD i = false
  set : ∃ i < k, rest.getLsbD i = true

theorem and_low_eq_zero_iff (hk : k ≤ 32) :
    rest &&& BitVec.ofNat 32 (2 ^ k - 1) = 0#32 ↔ ∀ i < k, rest.getLsbD i = false := by
  constructor
  · intro h i hi
    have hi32 : i < 32 := Nat.lt_of_lt_of_le hi hk
    have hbit : (rest &&& BitVec.ofNat 32 (2 ^ k - 1)).getLsbD i = false := by
      rw [h, BitVec.getLsbD_zero]
    rw [BitVec.getLsbD_and, BitVec.getLsbD_ofNat, Nat.testBit_two_pow_sub_one] at hbit
    simp only [hi, hi32, decide_true, Bool.and_true] at hbit
    exact hbit
  · intro h
    apply BitVec.eq_of_getLsbD_eq
    intro i hi
    by_cases hik : i < k
    · simp [h i hik]
    · simp [BitVec.getLsbD_ofNat, Nat.testBit_two_pow_sub_one, hik]

theorem Skipped.skip (h : Skipped word (2 * k) num rest) (hk : k ≤ 32) :
    Skipped word k (skip k num rest).1 (skip k num rest).2 := by
  obtain ⟨i, hi, hset⟩ := h.set
  unfold Ad9361.skip
  split
  case isTrue hzero =>
    have hlow := (and_low_eq_zero_iff hk).mp hzero
    have hik : k ≤ i := by
      by_contra hlt
      rw [hlow i (by omega)] at hset
      cases hset
    refine ⟨?_, ?_, i - k, by omega, ?_⟩
    · rw [h.rest_eq, ← BitVec.shiftRight_add]
    · intro j hj
      by_cases hjn : j < num
      · exact h.clear j hjn
      · have := hlow (j - num) (by omega)
        rwa [h.rest_eq, BitVec.getLsbD_ushiftRight, Nat.add_sub_of_le (by omega)] at this
    · rwa [BitVec.getLsbD_ushiftRight, Nat.add_sub_of_le hik]
  case isFalse hne =>
    rw [and_low_eq_zero_iff hk] at hne
    push Not at hne
    obtain ⟨j, hj, hjset⟩ := hne
    exact ⟨h.rest_eq, h.clear, j, hj, by simpa using hjset⟩

/-- **The lowest bit**: it is set, and no bit below it is. -/
theorem findFirstBit_spec (h : word ≠ 0#32) :
    word.getLsbD (findFirstBit word) = true ∧
      ∀ i < findFirstBit word, word.getLsbD i = false := by
  have hstart : Skipped word (2 * 16) 0 word := by
    refine ⟨by simp, by simp, ?_⟩
    by_contra hnone
    push Not at hnone
    exact h (BitVec.eq_of_getLsbD_eq fun i hi => by simpa using hnone i hi)
  obtain ⟨hrest, hclear, i, hi, hset⟩ :=
    ((((hstart.skip (k := 16) (by decide)).skip (k := 8) (by decide)).skip (k := 4)
      (by decide)).skip (k := 2) (by decide)).skip (k := 1) (by decide)
  refine ⟨?_, hclear⟩
  rw [hrest, BitVec.getLsbD_ushiftRight] at hset
  obtain rfl : i = 0 := by omega
  exact hset

theorem findFirstBit_spec_mask : (0x70#32).getLsbD (findFirstBit 0x70#32) = true ∧
    ∀ i < findFirstBit 0x70#32, (0x70#32).getLsbD i = false :=
  findFirstBit_spec (by decide)

/-- Of a word with no bit set, all 31 places are skipped. -/
example : findFirstBit 0#32 = 31 := by decide

end FindFirstBit

end ModemFhss.Ad9361
