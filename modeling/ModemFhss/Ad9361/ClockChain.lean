import Mathlib.Tactic.IntervalCases
import Mathlib.Tactic.Ring
import ModemFhss.Ad9361.Scaler

/-!
# The rates for a sample rate (`ad9361_calculate_rf_clock_chain`)

From the sample rate up to the BBPLL the receiver's and the transmitter's clocks are each a multiple
of the one below. The factors are two rows of a table: one is the first row with a rate that the ADC
can run at, the other is found from it, by the ratio of the two filters, as so many rows further up
or down. Where that leads out of the table, it is tried again from the next row on.

* `calculateRfClockChain_spec` — every rate is in its range, and the receiver gets exactly the rate
  in question; so does the transmitter, if its filter's factor is near enough to the receiver's.
* `calculate_ok_iff` — which sample rates are accepted, for filters with the same factor.
-/

namespace ModemFhss.Ad9361

def minBbpllFreq : Nat := 715000000

def maxBbpllFreq : Nat := 1430000000

def maxBbpllDiv : Nat := 64

def minBbpllDiv : Nat := 2

def minAdcClk : Nat := 25000000

def maxAdcClk : Nat := 640000000

def maxDacClk : Nat := maxAdcClk / 2

/-- A product of two `uint32_t`. -/
def mul32 (a b : Nat) : Nat := a * b % 2 ^ 32

theorem mul32_of_lt {a b : Nat} (h : a * b < 2 ^ 32) : mul32 a b = a * b := Nat.mod_eq_of_lt h

/-- A row of `clk_dividers`: the factor from the sample rate of the filter to the converter, and the
three that it is made of. -/
structure Dividers where
  all : Nat
  div2 : Nat
  div1 : Nat
  div0 : Nat

def clkDividers : List Dividers :=
  [⟨12, 3, 2, 2⟩, ⟨8, 2, 2, 2⟩, ⟨6, 3, 1, 2⟩, ⟨4, 2, 2, 1⟩, ⟨3, 3, 1, 1⟩, ⟨2, 2, 1, 1⟩,
    ⟨1, 1, 1, 1⟩]

def row (i : Nat) : Dividers := clkDividers.getD i ⟨1, 1, 1, 1⟩

/-- The members of `struct ad9361_rf_phy` that the rates depend on. -/
structure RatePhy extends FirBypass where
  rxFirDec : Nat
  txFirInt : Nat
  rxEq2tx : Bool

namespace RatePhy

def rxIntdec (phy : RatePhy) : Nat := if phy.bypassRxFir then 1 else phy.rxFirDec

def txIntdec (phy : RatePhy) : Nat := if phy.bypassTxFir then 1 else phy.txFirInt

def rxMul (phy : RatePhy) : Nat := if phy.rxEq2tx then 2 else 1

def clkrf (phy : RatePhy) (txSampleRate : Nat) : Nat :=
  mul32 (mul32 txSampleRate phy.rxIntdec) phy.rxMul

def clktf (phy : RatePhy) (txSampleRate : Nat) : Nat := mul32 txSampleRate phy.txIntdec

/-- The nominal rates are asked for, but the second row is too slow for the ADC. -/
def Low (phy : RatePhy) (txSampleRate rateGov : Nat) : Prop :=
  rateGov = 1 ∧ mul32 (mul32 phy.rxIntdec txSampleRate) 8 < minAdcClk

instance {phy : RatePhy} {txSampleRate rateGov : Nat} : Decidable (phy.Low txSampleRate rateGov) :=
  inferInstanceAs (Decidable (_ ∧ _))

/-- The row that the loop starts with. -/
def start (phy : RatePhy) (txSampleRate rateGov : Nat) : Nat :=
  if phy.Low txSampleRate rateGov then 0 else rateGov

end RatePhy

/-- `rx_path_clks` or `tx_path_clks`; the second has the DAC, T2, T1 and CLKTF in these places. -/
structure PathClks where
  bbpll : Nat
  adc : Nat
  r2 : Nat
  r1 : Nat
  clkrf : Nat
  sampl : Nat
  deriving DecidableEq

def pathRates (bbpllRate rate : Nat) (d : Dividers) (intdec : Nat) : PathClks :=
  let r2 := rate / d.div2
  let r1 := r2 / d.div1
  let clk := r1 / d.div0
  ⟨bbpllRate, rate, r2, r1, clk, clk / intdec⟩

/-- What is written to the log when `-EINVAL` is returned, if anything. -/
inductive Unsuitable where
  | rate
  | adcBelowLimit
  | bbpllAboveLimit
  deriving DecidableEq

/-- What a row comes to: the rates and the two indices. -/
structure Candidate where
  adcRate : Nat
  dacRate : Nat
  indexRx : Int
  indexTx : Int

/-- One round of the loop over the rows, in the range of the ADC. -/
def candidate (clkrf clktf i : Nat) : Option Candidate :=
  let adcRate := mul32 clkrf (row i).all
  let dacRate := mul32 clktf (row i).all
  if adcRate ≤ maxAdcClk ∧ adcRate ≥ minAdcClk then
    let tmp : Int :=
      if dacRate > adcRate then -(dacRate / adcRate : Nat) else (adcRate / dacRate : Nat)
    let back : Int := if tmp = 1 then 0 else tmp
    if adcRate ≤ maxDacClk then
      some ⟨adcRate, adcRate, i, i - back⟩
    else
      -- for the row of 3 there is none with half of it
      let indexTx : Int := if i = 4 ∧ tmp ≥ 0 then 7 else
        (i + if i = 5 ∧ tmp ≥ 0 then 1 else 2) - back
      some ⟨adcRate, adcRate / 2, i, indexTx⟩
  else none

/-- The loop. Where no row is left, the rate of the ADC is that of the last one tried. -/
def firstCandidate (clkrf clktf adcRate : Nat) : List Nat → Candidate
  | [] => ⟨adcRate, 0, -1, -1⟩
  | i :: l =>
    match candidate clkrf clktf i with
    | some c => c
    | none => firstCandidate clkrf clktf (mul32 clkrf (row i).all) l

namespace Candidate

/-- Both indices are in the table. -/
def Valid (c : Candidate) : Prop := ¬(c.indexTx < 0 ∨ c.indexTx > 6 ∨ c.indexRx < 0 ∨ c.indexRx > 6)

instance (c : Candidate) : Decidable c.Valid := inferInstanceAs (Decidable (¬_))

end Candidate

/-- The target rate of the BBPLL. -/
def bbpllRate (adcRate div : Nat) : Nat :=
  if maxBbpllFreq < adcRate * div ∧ minBbpllDiv ≤ div / 2 then bbpllRate adcRate (div / 2) else
  adcRate * div
termination_by div
decreasing_by
  simp only [minBbpllDiv] at *
  omega

/-- Both paths, for two rows of the table. -/
def paths (phy : RatePhy) (c : Candidate) : PathClks × PathClks :=
  let rate := bbpllRate c.adcRate maxBbpllDiv
  (pathRates rate c.adcRate (row c.indexRx.toNat) phy.rxIntdec,
    pathRates rate c.dacRate (row c.indexTx.toNat) phy.txIntdec)

def calculateRfClockChain (phy : RatePhy) (txSampleRate rateGov : Nat) :
    Except Unsuitable (PathClks × PathClks) :=
  if txSampleRate > 61440000 then .error .rate else
  let c := firstCandidate (phy.clkrf txSampleRate) (phy.clktf txSampleRate) 0
    ((List.range 7).drop (phy.start txSampleRate rateGov))
  if c.Valid then .ok (paths phy c) else
  -- where the governor was set to 0, the next row is not tried
  if rateGov < 7 ∧ ¬phy.Low txSampleRate rateGov then
    calculateRfClockChain phy txSampleRate (rateGov + 1)
  else .error (if c.adcRate < minAdcClk then .adcBelowLimit else .bbpllAboveLimit)
termination_by 7 - rateGov

/-! ## The search -/

variable {phy : RatePhy} {fs gov clkrf clktf a i : Nat} {c : Candidate} {l : List Nat}

/-- A row that the search does not stop at for good. -/
def Rejects (clkrf clktf i : Nat) : Prop := ∀ c, candidate clkrf clktf i = some c → ¬c.Valid

/-- The candidate is that of the first row in range. -/
theorem exists_of_firstCandidate (h : (firstCandidate clkrf clktf a l).Valid) :
    ∃ l₁ i l₂, l = l₁ ++ i :: l₂ ∧ (∀ j ∈ l₁, candidate clkrf clktf j = none) ∧
      candidate clkrf clktf i = some (firstCandidate clkrf clktf a l) := by
  induction l generalizing a with
  | nil => exact absurd (Or.inl (by decide : (-1 : Int) < 0)) h
  | cons i l ih =>
    rw [firstCandidate] at h ⊢
    cases hi : candidate clkrf clktf i with
    | some c => exact ⟨[], i, l, rfl, by simp, hi⟩
    | none =>
      rw [hi] at h
      obtain ⟨l₁, j, l₂, rfl, hnone, hj⟩ := ih h
      exact ⟨i :: l₁, j, l₂, rfl, List.forall_mem_cons.mpr ⟨hi, hnone⟩, hj⟩

theorem drop_range (hi : i < 7) : (List.range 7).drop i = i :: (List.range 7).drop (i + 1) := by
  rw [List.drop_eq_getElem_cons (by simpa using hi), List.getElem_range]

/-- Where the first candidate from a row on is not valid, the row itself has none. -/
theorem rejects_of_firstCandidate (hi : i < 7)
    (h : ¬(firstCandidate clkrf clktf a ((List.range 7).drop i)).Valid) :
    Rejects clkrf clktf i := by
  intro c hc
  rw [drop_range hi, firstCandidate, hc] at h
  exact h

theorem lt_of_drop_range {l₁ l₂ : List Nat} {k : Nat} (h : (List.range 7).drop k = l₁ ++ i :: l₂) :
    i < 7 := by
  have hmem : i ∈ (List.range 7).drop k := by simp [h]
  exact List.mem_range.mp (List.mem_of_mem_drop hmem)

/-- Rows that are passed over are no candidates. -/
theorem rejects_of_append {l₁ l₂ : List Nat} {j k : Nat} (h : (List.range 7).drop k = l₁ ++ i :: l₂)
    (hnone : ∀ j ∈ l₁, candidate clkrf clktf j = none) (hkj : k ≤ j) (hji : j < i) :
    Rejects clkrf clktf j := by
  have hi : i < 7 := lt_of_drop_range h
  have hsorted : (l₁ ++ i :: l₂).Pairwise (· < ·) := h ▸ List.pairwise_lt_range.drop
  have hmem : j ∈ l₁ ++ i :: l₂ := by
    rw [← h, List.mem_drop_iff_getElem]
    exact ⟨j - k, by simp; omega, by simp; omega⟩
  intro c hc
  rcases List.mem_append.mp hmem with hj | hj
  · rw [hnone j hj] at hc
    cases hc
  · rcases List.mem_cons.mp hj with rfl | hj
    · omega
    · have := List.rel_of_pairwise_cons (List.pairwise_append.mp hsorted).2.1 hj
      omega

/-- **What is found is the first row that will do.** -/
theorem exists_of_calculate_ok {p : PathClks × PathClks}
    (h : calculateRfClockChain phy fs gov = .ok p) : fs ≤ 61440000 ∧ ∃ i < 7, ∃ c,
      candidate (phy.clkrf fs) (phy.clktf fs) i = some c ∧ c.Valid ∧ p = paths phy c ∧
      ∀ j, gov ≤ j → j < i → Rejects (phy.clkrf fs) (phy.clktf fs) j := by
  fun_induction calculateRfClockChain phy fs gov with
  | case1 gov hfs => cases h
  | case2 gov hfs c hvalid =>
    cases h
    obtain ⟨l₁, i, l₂, hdrop, hnone, hi⟩ := exists_of_firstCandidate hvalid
    refine ⟨Nat.le_of_not_lt hfs, i, lt_of_drop_range hdrop, c, hi, hvalid, rfl, ?_⟩
    intro j hj
    exact rejects_of_append hdrop hnone (Nat.le_trans (by unfold RatePhy.start; split <;> omega) hj)
  | case3 gov hfs c hvalid hnext ih =>
    obtain ⟨hle, i, hi, c', hc, hcvalid, hp, hrejects⟩ := ih h
    refine ⟨hle, i, hi, c', hc, hcvalid, hp, ?_⟩
    intro j hj hji
    rcases Nat.eq_or_lt_of_le hj with rfl | hlt
    · unfold c at hvalid
      rw [RatePhy.start, if_neg hnext.2] at hvalid
      exact rejects_of_firstCandidate hnext.1 hvalid
    · exact hrejects j hlt hji
  | case4 gov hfs c hvalid hlast => cases h

/-- Where nothing is found, no row will do, or only the first was tried. -/
theorem rejects_of_calculate_error {e : Unsuitable}
    (h : calculateRfClockChain phy fs gov = .error e) (hfs : fs ≤ 61440000) (hgov : gov ≤ 7) :
    ¬phy.Low fs gov ∧ (∀ j, gov ≤ j → j < 7 → Rejects (phy.clkrf fs) (phy.clktf fs) j) ∨
      gov ≤ 1 ∧ mul32 (mul32 phy.rxIntdec fs) 8 < minAdcClk ∧
        Rejects (phy.clkrf fs) (phy.clktf fs) 0 := by
  fun_induction calculateRfClockChain phy fs gov with
  | case1 gov hlt => omega
  | case2 gov _ c hvalid => cases h
  | case3 gov _ c hvalid hnext ih =>
    unfold c at hvalid
    rw [RatePhy.start, if_neg hnext.2] at hvalid
    have hfirst := rejects_of_firstCandidate hnext.1 hvalid
    rcases ih h (by omega) with ⟨-, hall⟩ | ⟨hone, hlow, hzero⟩
    · refine .inl ⟨hnext.2, ?_⟩
      intro j hj hj7
      rcases Nat.eq_or_lt_of_le hj with rfl | hlt
      · exact hfirst
      · exact hall j hlt hj7
    · exact .inr ⟨by omega, hlow, hzero⟩
  | case4 gov _ c hvalid hlast =>
    unfold c at hvalid
    by_cases hlow : phy.Low fs gov
    · rw [RatePhy.start, if_pos hlow] at hvalid
      exact .inr ⟨Nat.le_of_eq hlow.1, hlow.2, rejects_of_firstCandidate (by decide) hvalid⟩
    · refine .inl ⟨hlow, ?_⟩
      intro j hj hj7
      exact absurd ⟨Nat.lt_of_le_of_lt hj hj7, hlow⟩ hlast

/-! ## The rates of a row -/

theorem row_all (i : Nat) : (row i).all = (row i).div2 * (row i).div1 * (row i).div0 := by
  have hrows : ∀ d ∈ clkDividers, d.all = d.div2 * d.div1 * d.div0 := by decide
  unfold row
  rw [List.getD_eq_getElem?_getD]
  cases hi : clkDividers[i]? with
  | none => rfl
  | some d => exact hrows d (List.mem_of_getElem? hi)

theorem row_mem (hi : i < 7) : row i ∈ clkDividers := by
  unfold row
  rw [List.getD_eq_getElem?_getD, List.getElem?_eq_getElem hi, Option.getD_some]
  exact List.getElem_mem hi

/-- The divisions of a path, from the converter down, leave no remainder. -/
structure PathClks.Exact (p : PathClks) (d : Dividers) (intdec : Nat) : Prop where
  r2 : p.adc = p.r2 * d.div2
  r1 : p.r2 = p.r1 * d.div1
  clkrf : p.r1 = p.clkrf * d.div0
  sampl : p.clkrf = p.sampl * intdec

theorem pathRates_exact (rate : Nat) {sampl intdec : Nat} {d : Dividers} (hd : d ∈ clkDividers)
    (hintdec : 0 < intdec) (h : a = sampl * intdec * (d.div2 * d.div1 * d.div0)) :
    (pathRates rate a d intdec).sampl = sampl ∧ (pathRates rate a d intdec).Exact d intdec := by
  have hrows : ∀ d ∈ clkDividers, 0 < d.div2 ∧ 0 < d.div1 ∧ 0 < d.div0 := by decide
  obtain ⟨h2, h1, h0⟩ := hrows d hd
  have hr2 : a / d.div2 = sampl * intdec * d.div0 * d.div1 := by
    rw [h]
    exact Nat.div_eq_of_eq_mul_left h2 (by ring)
  have hr1 : a / d.div2 / d.div1 = sampl * intdec * d.div0 := by
    rw [hr2, Nat.mul_div_cancel _ h1]
  have hclk : a / d.div2 / d.div1 / d.div0 = sampl * intdec := by
    rw [hr1, Nat.mul_div_cancel _ h0]
  have hsampl : a / d.div2 / d.div1 / d.div0 / intdec = sampl := by
    rw [hclk, Nat.mul_div_cancel _ hintdec]
  refine ⟨hsampl, ?_, ?_, ?_, ?_⟩
  · show a = a / d.div2 * d.div2
    rw [hr2, h]
    ring
  · show a / d.div2 = a / d.div2 / d.div1 * d.div1
    rw [hr1, hr2]
  · show a / d.div2 / d.div1 = a / d.div2 / d.div1 / d.div0 * d.div0
    rw [hclk, hr1]
  · show a / d.div2 / d.div1 / d.div0 = a / d.div2 / d.div1 / d.div0 / intdec * intdec
    rw [hsampl, hclk]

/-- Halving from a power of 2 stops in the upper half of the range of the BBPLL. -/
theorem bbpllRate_spec (k : Nat) (htwo : a * 2 ≤ maxBbpllFreq)
    (hhigh : maxBbpllFreq < a * 2 ^ (k + 1) * 2) :
    minBbpllFreq ≤ bbpllRate a (2 ^ (k + 1)) ∧ bbpllRate a (2 ^ (k + 1)) ≤ maxBbpllFreq ∧
      ∃ j, 1 ≤ j ∧ j ≤ k + 1 ∧ bbpllRate a (2 ^ (k + 1)) = a * 2 ^ j := by
  have hhalf : minBbpllFreq * 2 = maxBbpllFreq := rfl
  induction k with
  | zero =>
    rw [bbpllRate, if_neg (by simp [minBbpllDiv])]
    exact ⟨by omega, htwo, 1, by omega, by omega, rfl⟩
  | succ k ih =>
    have hdiv : 2 ^ (k + 1 + 1) / 2 = 2 ^ (k + 1) := by
      rw [Nat.pow_succ, Nat.mul_div_cancel _ two_pos]
    have hmul : a * 2 ^ (k + 1 + 1) = a * 2 ^ (k + 1) * 2 := by rw [Nat.pow_succ, Nat.mul_assoc]
    rw [bbpllRate, hdiv]
    split
    · next hagain =>
      obtain ⟨hmin, hmax, j, hj, hjk, heq⟩ := ih (hmul ▸ hagain.1)
      exact ⟨hmin, hmax, j, hj, by omega, heq⟩
    · next hlast =>
      have htwo' : minBbpllDiv ≤ 2 ^ (k + 1) := Nat.le_self_pow (by omega) 2
      have hle : a * 2 ^ (k + 1 + 1) ≤ maxBbpllFreq :=
        Nat.le_of_not_lt fun hlt => hlast ⟨hlt, htwo'⟩
      exact ⟨by omega, hle, k + 1 + 1, by omega, by omega, rfl⟩

/-! ## The usual factors -/

/-- The factors of the two filters, with the one of the receiver doubled where it gets twice the
rate. -/
structure RatePhy.Usual (phy : RatePhy) : Prop where
  rx : phy.rxIntdec * phy.rxMul ∈ [1, 2, 4]
  tx : phy.txIntdec ∈ [1, 2, 4]

/-- How many rows the transmitter's one is above that of the receiver, by the factors. -/
def back (r t : Nat) : Int :=
  let tmp : Int := if t > r then -(t / r : Nat) else (r / t : Nat)
  if tmp = 1 then 0 else tmp

/-- The transmitter's row where the DAC gets half the rate of the ADC. -/
def halfIndex (i r t : Nat) : Int :=
  if i = 4 ∧ t ≤ r then 7 else (i + if i = 5 ∧ t ≤ r then 1 else 2) - back r t

variable {r t : Nat}

theorem row_all_le (i : Nat) : (row i).all ≤ 12 := by
  have hrows : ∀ d ∈ clkDividers, d.all ≤ 12 := by decide
  unfold row
  rw [List.getD_eq_getElem?_getD]
  cases hi : clkDividers[i]? with
  | none => decide
  | some d => exact hrows d (List.mem_of_getElem? hi)

theorem le_four (hr : r ∈ [1, 2, 4]) : r ≤ 4 := by
  revert r
  decide

/-- With the usual factors nothing overflows. -/
theorem mul32_row (hfs : fs ≤ 61440000) (hr : r ∈ [1, 2, 4]) (i : Nat) :
    mul32 (fs * r) (row i).all = fs * r * (row i).all := by
  have hle : fs * r * (row i).all ≤ 61440000 * 4 * 12 :=
    Nat.mul_le_mul (Nat.mul_le_mul hfs (le_four hr)) (row_all_le i)
  exact mul32_of_lt (by omega)

theorem tmp_nonneg_iff (hr : r ∈ [1, 2, 4]) (ht : t ∈ [1, 2, 4]) :
    (if t > r then -((t / r : Nat) : Int) else ((r / t : Nat) : Int)) ≥ 0 ↔ t ≤ r := by
  have hall : ∀ r ∈ [1, 2, 4], ∀ t ∈ [1, 2, 4],
      ((if t > r then -((t / r : Nat) : Int) else ((r / t : Nat) : Int)) ≥ 0 ↔ t ≤ r) := by
    decide
  exact hall r hr t ht

/-- Only the ratio of the factors counts for the indices. -/
theorem candidate_eq (hfs : fs ≤ 61440000) (hr : r ∈ [1, 2, 4]) (ht : t ∈ [1, 2, 4]) (i : Nat) :
    candidate (fs * r) (fs * t) i =
      if fs * r * (row i).all ≤ maxAdcClk ∧ fs * r * (row i).all ≥ minAdcClk then
        if fs * r * (row i).all ≤ maxDacClk then
          some ⟨fs * r * (row i).all, fs * r * (row i).all, i, i - back r t⟩
        else some ⟨fs * r * (row i).all, fs * r * (row i).all / 2, i, halfIndex i r t⟩
      else none := by
  unfold candidate
  rw [mul32_row hfs hr, mul32_row hfs ht]
  by_cases hrange : fs * r * (row i).all ≤ maxAdcClk ∧ fs * r * (row i).all ≥ minAdcClk
  · have hpos : 0 < fs * (row i).all := by
      apply Nat.pos_of_ne_zero
      intro hzero
      have hmin : fs * r * (row i).all = 0 := by rw [Nat.mul_right_comm, hzero, Nat.zero_mul]
      have := hrange.2
      rw [hmin] at this
      exact absurd this (by decide)
    have hgt : fs * t * (row i).all > fs * r * (row i).all ↔ t > r := by
      rw [Nat.mul_right_comm fs t, Nat.mul_right_comm fs r]
      exact Nat.mul_lt_mul_left hpos
    have hdiv (x y : Nat) : fs * x * (row i).all / (fs * y * (row i).all) = x / y := by
      rw [Nat.mul_right_comm fs x, Nat.mul_right_comm fs y, Nat.mul_div_mul_left _ _ hpos]
    have hsign : ((if t > r then -((t / r : Nat) : Int) else ((r / t : Nat) : Int)) ≥ 0) ↔ t ≤ r :=
      tmp_nonneg_iff hr ht
    dsimp only
    rw [if_pos hrange, if_pos hrange]
    simp only [hgt, hdiv, hsign]
    rfl
  · rw [if_neg hrange, if_neg hrange]

theorem clkrf_eq (hphy : phy.Usual) (hfs : fs ≤ 61440000) :
    phy.clkrf fs = fs * (phy.rxIntdec * phy.rxMul) := by
  have hmul : 0 < phy.rxMul := by
    unfold RatePhy.rxMul
    split <;> decide
  have hprod : fs * (phy.rxIntdec * phy.rxMul) ≤ 61440000 * 4 :=
    Nat.mul_le_mul hfs (le_four hphy.rx)
  have hone : fs * phy.rxIntdec ≤ fs * (phy.rxIntdec * phy.rxMul) :=
    Nat.mul_le_mul_left fs (Nat.le_mul_of_pos_right _ hmul)
  unfold RatePhy.clkrf
  rw [mul32_of_lt (a := fs) (by omega), mul32_of_lt (by rw [Nat.mul_assoc]; omega), Nat.mul_assoc]

theorem clktf_eq (hphy : phy.Usual) (hfs : fs ≤ 61440000) :
    phy.clktf fs = fs * phy.txIntdec := by
  have hprod : fs * phy.txIntdec ≤ 61440000 * 4 := Nat.mul_le_mul hfs (le_four hphy.tx)
  exact mul32_of_lt (by omega)

/-- What is found, for the usual factors. -/
theorem exists_row (hphy : phy.Usual) {p : PathClks × PathClks}
    (h : calculateRfClockChain phy fs gov = .ok p) :
    let r := phy.rxIntdec * phy.rxMul
    let t := phy.txIntdec
    fs ≤ 61440000 ∧ ∃ i < 7, ∃ c, candidate (fs * r) (fs * t) i = some c ∧ c.Valid ∧
      p = paths phy c ∧ ∀ j, gov ≤ j → j < i → Rejects (fs * r) (fs * t) j := by
  obtain ⟨hfs, hrow⟩ := exists_of_calculate_ok h
  rw [clkrf_eq hphy hfs, clktf_eq hphy hfs] at hrow
  exact ⟨hfs, hrow⟩

/-- The rate of the ADC, and the half of it where that is what the DAC gets. -/
theorem candidate_rates (hfs : fs ≤ 61440000) (hr : r ∈ [1, 2, 4]) (ht : t ∈ [1, 2, 4]) (hi : i < 7)
    (h : candidate (fs * r) (fs * t) i = some c) :
    c.indexRx = i ∧ c.adcRate = fs * r * (row i).all ∧ minAdcClk ≤ c.adcRate ∧
      c.adcRate ≤ maxAdcClk ∧
      (c.adcRate ≤ maxDacClk ∧ c.dacRate = c.adcRate ∧ c.indexTx = i - back r t ∨
        maxDacClk < c.adcRate ∧ c.dacRate * 2 = c.adcRate ∧ c.indexTx = halfIndex i r t) := by
  rw [candidate_eq hfs hr ht] at h
  split at h
  · next hrange =>
    split at h
    · next hlow =>
      cases h
      exact ⟨rfl, rfl, hrange.2, hrange.1, .inl ⟨hlow, rfl, rfl⟩⟩
    · next hhigh =>
      cases h
      refine ⟨rfl, rfl, hrange.2, hrange.1, .inr ⟨Nat.lt_of_not_le hhigh, ?_, rfl⟩⟩
      -- an odd factor comes with a filter that makes it even
      have heven : ∀ i < 7, ∀ r ∈ [1, 2, 4], ¬ 61440000 * r * (row i).all ≤ maxDacClk →
          2 ∣ r * (row i).all := by
        decide
      have hbig : ¬ 61440000 * r * (row i).all ≤ maxDacClk := by
        intro hle
        apply hhigh
        exact Nat.le_trans (Nat.mul_le_mul_right _ (Nat.mul_le_mul_right r hfs)) hle
      have hdvd : 2 ∣ fs * r * (row i).all := by
        rw [Nat.mul_assoc]
        exact Dvd.dvd.mul_left (heven i hi r hr hbig) fs
      exact Nat.div_mul_cancel hdvd
  · cases h

/-- **All rates are in range, and the receiver gets its sample rate**: what is calculated has the
BBPLL, the ADC and the DAC within their limits, each a power of 2 or the half of the other, and
divides down to the rate in question without remainder. -/
theorem calculate_ok (hphy : phy.Usual) {rx tx : PathClks}
    (h : calculateRfClockChain phy fs gov = .ok (rx, tx)) :
    minBbpllFreq ≤ rx.bbpll ∧ rx.bbpll ≤ maxBbpllFreq ∧ tx.bbpll = rx.bbpll ∧
      (∃ j, 1 ≤ j ∧ j ≤ 6 ∧ rx.bbpll = rx.adc * 2 ^ j) ∧
      minAdcClk ≤ rx.adc ∧ rx.adc ≤ maxAdcClk ∧ tx.adc ≤ maxDacClk ∧
      (tx.adc = rx.adc ∨ tx.adc * 2 = rx.adc) ∧
      rx.sampl = fs * phy.rxMul ∧ ∃ d ∈ clkDividers, rx.Exact d phy.rxIntdec := by
  obtain ⟨hfs, i, hi, c, hc, hvalid, hp, -⟩ := exists_row hphy h
  obtain ⟨hindex, hadc, hmin, hmax, hdac⟩ := candidate_rates hfs hphy.rx hphy.tx hi hc
  obtain ⟨rfl, rfl⟩ := Prod.mk.inj hp
  have hbbpll := bbpllRate_spec (a := c.adcRate) 5
    (Nat.le_trans (Nat.mul_le_mul_right 2 hmax) (by decide))
    (Nat.lt_of_lt_of_le (by decide) (Nat.mul_le_mul_right 2 (Nat.mul_le_mul_right _ hmin)))
  have hintdec : 0 < phy.rxIntdec := by
    apply Nat.pos_of_ne_zero
    intro hzero
    have := hphy.rx
    rw [hzero, Nat.zero_mul] at this
    exact absurd this (by decide)
  have hexact := pathRates_exact (bbpllRate c.adcRate maxBbpllDiv) (row_mem hi) hintdec
    (show c.adcRate = fs * phy.rxMul * phy.rxIntdec * _ by rw [hadc, row_all]; ring)
  have hrow : row c.indexRx.toNat = row i := by rw [hindex, Int.toNat_natCast]
  refine ⟨hbbpll.1, hbbpll.2.1, rfl, hbbpll.2.2, hmin, hmax, ?_, ?_, ?_⟩
  · rcases hdac with ⟨hle, heq, -⟩ | ⟨-, heq, -⟩
    · exact heq ▸ hle
    · show c.dacRate ≤ maxDacClk
      simp only [maxDacClk]
      omega
  · rcases hdac with ⟨-, heq, -⟩ | ⟨-, heq, -⟩
    · exact .inl heq
    · exact .inr heq
  · rw [hrow]
    exact ⟨hexact.1, row i, row_mem hi, hexact.2⟩

/-- The receiver's filter halves the rate, the transmitter's does nothing. -/
def halfPhy : RatePhy where
  bypassRxFir := false
  bypassTxFir := true
  rxFirDec := 2
  txFirInt := 4
  rxEq2tx := false

def halfRates : PathClks × PathClks :=
  (⟨983040000, 491520000, 245760000, 122880000, 61440000, 30720000⟩,
    ⟨983040000, 245760000, 122880000, 61440000, 30720000, 30720000⟩)

theorem calculate_halfPhy : calculateRfClockChain halfPhy 30720000 0 = .ok halfRates := by
  decide +kernel

/-! ### The transmitter -/

/-- A row that is found in range and with a valid index is not passed over. -/
theorem not_rejects (hfs : fs ≤ 61440000) (hr : r ∈ [1, 2, 4]) (ht : t ∈ [1, 2, 4]) (hi : i < 7)
    (hmin : minAdcClk ≤ fs * r * (row i).all) (hmax : fs * r * (row i).all ≤ maxAdcClk)
    (hlow : fs * r * (row i).all ≤ maxDacClk → 0 ≤ i - back r t ∧ i - back r t ≤ 6)
    (hhigh : maxDacClk < fs * r * (row i).all → 0 ≤ halfIndex i r t ∧ halfIndex i r t ≤ 6) :
    ¬Rejects (fs * r) (fs * t) i := by
  intro hrejects
  have heq := candidate_eq hfs hr ht i
  rw [if_pos ⟨hmax, hmin⟩] at heq
  by_cases hle : fs * r * (row i).all ≤ maxDacClk
  · rw [if_pos hle] at heq
    have := hlow hle
    apply hrejects _ heq
    simp only [Candidate.Valid]
    omega
  · rw [if_neg hle] at heq
    have := hhigh (Nat.lt_of_not_le hle)
    apply hrejects _ heq
    simp only [Candidate.Valid]
    omega

/-- The transmitter's row has the factor that its filter leaves, but for the ends of the table. -/
theorem row_low : ∀ i : Nat, i < 7 → ∀ r ∈ [1, 2, 4], ∀ t ∈ [1, 2, 4],
    (r = t ∨ r * t = 2) ∧ ¬(r = 1 ∧ t = 2 ∧ i = 4) ∧ ¬(r = 2 ∧ t = 1 ∧ i = 6) ∧
      0 ≤ (i : Int) - back r t ∧ (i : Int) - back r t ≤ 6 →
    t * (row ((i : Int) - back r t).toNat).all = r * (row i).all := by
  decide

theorem row_half : ∀ i : Nat, i < 7 → ∀ r ∈ [1, 2, 4], ∀ t ∈ [1, 2, 4],
    (r = t ∨ r * t = 2) ∧ ¬(r = 1 ∧ t = 2 ∧ i = 2) ∧ ¬(r = 2 ∧ t = 1 ∧ i = 5) ∧
      0 ≤ halfIndex i r t ∧ halfIndex i r t ≤ 6 →
    t * (row (halfIndex i r t).toNat).all * 2 = r * (row i).all := by
  decide

/-- At the ends of the table a row further up would have been found first. -/
theorem ends_low (hfs : fs ≤ 61440000) (hmin : minAdcClk ≤ fs * r * (row i).all)
    (hrejects : ∀ j, 1 ≤ j → j < i → Rejects (fs * r) (fs * t) j) :
    ¬(r = 1 ∧ t = 2 ∧ i = 4) ∧ ¬(r = 2 ∧ t = 1 ∧ i = 6) := by
  constructor
  · rintro ⟨rfl, rfl, rfl⟩
    have hmin' : 25000000 ≤ fs * 1 * 3 := hmin
    refine not_rejects hfs (by decide) (by decide) (by decide) ?_ ?_ ?_ ?_
      (hrejects 3 (by decide) (by decide))
    · show 25000000 ≤ fs * 1 * 4
      omega
    · show fs * 1 * 4 ≤ 640000000
      omega
    · intro _
      decide
    · intro hlt
      have hlt' : 320000000 < fs * 1 * 4 := hlt
      omega
  · rintro ⟨rfl, rfl, rfl⟩
    have hmin' : 25000000 ≤ fs * 2 * 1 := hmin
    refine not_rejects hfs (by decide) (by decide) (by decide) ?_ ?_ ?_ ?_
      (hrejects 5 (by decide) (by decide))
    · show 25000000 ≤ fs * 2 * 2
      omega
    · show fs * 2 * 2 ≤ 640000000
      omega
    · intro _
      decide
    · intro _
      decide

theorem ends_half (hfs : fs ≤ 61440000) (hlt : maxDacClk < fs * r * (row i).all)
    (hrejects : ∀ j, 1 ≤ j → j < i → Rejects (fs * r) (fs * t) j) :
    ¬(r = 1 ∧ t = 2 ∧ i = 2) ∧ ¬(r = 2 ∧ t = 1 ∧ i = 5) := by
  constructor
  · rintro ⟨rfl, rfl, rfl⟩
    have hlt' : 320000000 < fs * 1 * 6 := hlt
    refine not_rejects hfs (by decide) (by decide) (by decide) ?_ ?_ ?_ ?_
      (hrejects 1 (by decide) (by decide))
    · show 25000000 ≤ fs * 1 * 8
      omega
    · show fs * 1 * 8 ≤ 640000000
      omega
    · intro _
      decide
    · intro _
      decide
  · rintro ⟨rfl, rfl, rfl⟩
    have hlt' : 320000000 < fs * 2 * 2 := hlt
    omega

/-- The transmitter gets its sample rate too, without remainder, if the two factors are the same or
1 and 2. -/
theorem calculate_tx (hphy : phy.Usual) (hgov : gov ≤ 1)
    (hnear : phy.rxIntdec * phy.rxMul = phy.txIntdec ∨
      phy.rxIntdec * phy.rxMul * phy.txIntdec = 2) {rx tx : PathClks}
    (h : calculateRfClockChain phy fs gov = .ok (rx, tx)) :
    tx.sampl = fs ∧ ∃ d ∈ clkDividers, tx.Exact d phy.txIntdec := by
  obtain ⟨hfs, i, hi, c, hc, hvalid, hp, hrejects⟩ := exists_row hphy h
  obtain ⟨hindex, hadc, hmin, hmax, hdac⟩ := candidate_rates hfs hphy.rx hphy.tx hi hc
  obtain ⟨rfl, rfl⟩ := Prod.mk.inj hp
  have hr := hphy.rx
  have ht := hphy.tx
  generalize phy.rxIntdec * phy.rxMul = r at *
  have htpos : 0 < phy.txIntdec := by
    have hall : ∀ t ∈ [1, 2, 4], 0 < t := by decide
    exact hall _ ht
  have hrow : row c.indexTx.toNat ∈ clkDividers := by
    apply row_mem
    simp only [Candidate.Valid] at hvalid
    omega
  simp only [Candidate.Valid, not_or, Int.not_lt, gt_iff_lt] at hvalid
  have hrejects' : ∀ j, 1 ≤ j → j < i → Rejects (fs * r) (fs * phy.txIntdec) j :=
    fun j hj => hrejects j (Nat.le_trans hgov hj)
  have hrate : c.dacRate = fs * (phy.txIntdec * (row c.indexTx.toNat).all) := by
    rcases hdac with ⟨hle, heq, htx⟩ | ⟨hlt, heq, htx⟩
    · obtain ⟨hup, hdown⟩ := ends_low hfs (hadc ▸ hmin) hrejects'
      rw [htx] at hvalid ⊢
      rw [heq, hadc, Nat.mul_assoc,
        row_low i hi r hr _ ht ⟨hnear, hup, hdown, hvalid.1, hvalid.2.1⟩]
    · obtain ⟨hup, hdown⟩ := ends_half hfs (hadc ▸ hlt) hrejects'
      rw [htx] at hvalid ⊢
      have hrow := row_half i hi r hr _ ht ⟨hnear, hup, hdown, hvalid.1, hvalid.2.1⟩
      rw [hadc, Nat.mul_assoc, ← hrow, ← Nat.mul_assoc] at heq
      exact Nat.eq_of_mul_eq_mul_right two_pos heq
  have hexact := pathRates_exact (a := c.dacRate) (bbpllRate c.adcRate maxBbpllDiv) hrow htpos
    (by rw [hrate, row_all]; ring)
  exact ⟨hexact.1, _, hrow, hexact.2⟩

/-- **What is calculated can be set**: the rates are in their ranges, and each is the one above it
divided by what its divider can do, down to the sample rate. -/
theorem calculateRfClockChain_spec (hphy : phy.Usual) {rx tx : PathClks}
    (h : calculateRfClockChain phy fs gov = .ok (rx, tx)) :
    (minBbpllFreq ≤ rx.bbpll ∧ rx.bbpll ≤ maxBbpllFreq ∧ tx.bbpll = rx.bbpll ∧
      minAdcClk ≤ rx.adc ∧ rx.adc ≤ maxAdcClk ∧ tx.adc ≤ maxDacClk) ∧
    (∃ j, 1 ≤ j ∧ j ≤ 6 ∧ rx.bbpll = rx.adc * 2 ^ j) ∧
    (tx.adc = rx.adc ∨ tx.adc * 2 = rx.adc) ∧
    (rx.sampl = fs * phy.rxMul ∧ ∃ d ∈ clkDividers, rx.Exact d phy.rxIntdec) ∧
    (gov ≤ 1 → (phy.rxIntdec * phy.rxMul = phy.txIntdec ∨
        phy.rxIntdec * phy.rxMul * phy.txIntdec = 2) →
      tx.sampl = fs ∧ ∃ d ∈ clkDividers, tx.Exact d phy.txIntdec) := by
  obtain ⟨hmin, hmax, hsame, hbbpll, hadc, hadc', hdac, hhalf, hrx⟩ := calculate_ok hphy h
  exact ⟨⟨hmin, hmax, hsame, hadc, hadc', hdac⟩, hbbpll, hhalf, hrx,
    fun hgov hnear => calculate_tx hphy hgov hnear h⟩

theorem calculateRfClockChain_spec_halfPhy : minAdcClk ≤ halfRates.1.adc ∧
    halfRates.1.sampl = 30720000 * halfPhy.rxMul ∧ halfRates.2.sampl = 30720000 :=
  have h := calculateRfClockChain_spec ⟨by decide, by decide⟩ calculate_halfPhy
  ⟨h.1.2.2.2.1, h.2.2.2.1.1, (h.2.2.2.2 (by decide) (.inr rfl)).1⟩

/-- With 4 and 2 the rate of the transmitter can be another one. -/
example : (calculateRfClockChain { halfPhy with rxFirDec := 4, bypassTxFir := false, txFirInt := 2 }
    61440000 1).toOption.map (·.2.sampl) = some 40960000 := by
  decide +kernel

/-! ### Which rates are accepted -/

theorem back_self (hr : r ∈ [1, 2, 4]) : back r r = 0 := by
  revert r
  decide

/-- With one factor for both, a row does unless it is that of 3 with half the rate for the DAC. -/
theorem not_rejects_self (hfs : fs ≤ 61440000) (hr : r ∈ [1, 2, 4]) (hi : i < 7)
    (hmin : minAdcClk ≤ fs * r * (row i).all) (hmax : fs * r * (row i).all ≤ maxAdcClk)
    (hhigh : maxDacClk < fs * r * (row i).all → i ≠ 4 ∧ i ≠ 6) : ¬Rejects (fs * r) (fs * r) i := by
  refine not_rejects hfs hr hr hi hmin hmax ?_ ?_
  · intro _
    rw [back_self hr]
    omega
  · intro hlt
    obtain ⟨h4, h6⟩ := hhigh hlt
    rw [halfIndex, back_self hr, if_neg fun h => h4 h.1]
    split <;> omega

/-- One of four rows does. -/
theorem exists_not_rejects (hfs : fs ≤ 61440000) (hr : r ∈ [1, 2, 4])
    (hmin : minAdcClk ≤ fs * r * 12) :
    (fs * r * 8 < minAdcClk ∧ ¬Rejects (fs * r) (fs * r) 0) ∨
      ∃ i, 1 ≤ i ∧ i < 7 ∧ ¬Rejects (fs * r) (fs * r) i := by
  have hle : fs * r ≤ 61440000 * 4 := Nat.mul_le_mul hfs (le_four hr)
  have hmin' : 25000000 ≤ fs * r * 12 := hmin
  rcases Nat.lt_or_ge (fs * r * 8) minAdcClk with hlow | h8
  · have hlow' : fs * r * 8 < 25000000 := hlow
    refine .inl ⟨hlow, not_rejects_self hfs hr (by decide) hmin ?_ ?_⟩
    · show fs * r * 12 ≤ 640000000
      omega
    · intro _
      decide
  · right
    rcases Nat.lt_or_ge maxAdcClk (fs * r * 8) with h8' | h8'
    · have hlt : 640000000 < fs * r * 8 := h8'
      rcases Nat.lt_or_ge maxAdcClk (fs * r * 4) with h4 | h4
      · -- too fast for the row of 4, so it is half the rate for the DAC with the row of 2
        have hlt' : 640000000 < fs * r * 4 := h4
        refine ⟨5, by decide, by decide,
          not_rejects_self hfs hr (by decide) ?_ ?_ fun _ => by decide⟩
        · show 25000000 ≤ fs * r * 2
          omega
        · show fs * r * 2 ≤ 640000000
          omega
      · refine ⟨3, by decide, by decide,
          not_rejects_self hfs hr (by decide) ?_ h4 fun _ => by decide⟩
        show 25000000 ≤ fs * r * 4
        omega
    · exact ⟨1, by decide, by decide,
        not_rejects_self hfs hr (by decide) h8 h8' fun _ => by decide⟩

/-- **Which sample rates are accepted**, where both filters have the same factor: those that the row
of 12 brings up to what the ADC can run at, up to 61.44 MSPS. -/
theorem calculate_ok_iff (hphy : phy.Usual) (hgov : gov ≤ 1)
    (hsame : phy.rxIntdec * phy.rxMul = phy.txIntdec) :
    (∃ p, calculateRfClockChain phy fs gov = .ok p) ↔
      minAdcClk ≤ fs * phy.txIntdec * 12 ∧ fs ≤ 61440000 := by
  constructor
  · rintro ⟨p, h⟩
    obtain ⟨hfs, i, hi, c, hc, -, -, -⟩ := exists_row hphy h
    obtain ⟨-, hadc, hmin, -⟩ := candidate_rates hfs hphy.rx hphy.tx hi hc
    rw [hadc, hsame] at hmin
    exact ⟨Nat.le_trans hmin (Nat.mul_le_mul_left _ (row_all_le i)), hfs⟩
  · rintro ⟨hmin, hfs⟩
    cases h : calculateRfClockChain phy fs gov with
    | ok p => exact ⟨p, rfl⟩
    | error e =>
      exfalso
      have hall := rejects_of_calculate_error h hfs (by omega)
      rw [clkrf_eq hphy hfs, clktf_eq hphy hfs, hsame] at hall
      have hr := hphy.tx
      have hmul : phy.rxMul = 1 ∨ phy.rxMul = 2 := by
        unfold RatePhy.rxMul
        split
        · exact .inr rfl
        · exact .inl rfl
      have hone : phy.rxIntdec * fs ≤ fs * phy.txIntdec := by
        rw [Nat.mul_comm, ← hsame]
        exact Nat.mul_le_mul_left fs (Nat.le_mul_of_pos_right _ (by omega))
      have htwo : fs * phy.txIntdec ≤ phy.rxIntdec * fs * 2 := by
        rw [← hsame, ← Nat.mul_assoc, Nat.mul_comm fs]
        exact Nat.mul_le_mul_left _ (by omega)
      have hle : fs * phy.txIntdec ≤ 61440000 * 4 := Nat.mul_le_mul hfs (le_four hr)
      have hlow8 : mul32 (mul32 phy.rxIntdec fs) 8 = phy.rxIntdec * fs * 8 := by
        rw [mul32_of_lt (b := fs) (by omega), mul32_of_lt (by omega)]
      rcases hall with ⟨hlow, hall⟩ | ⟨-, hlow, hzero⟩
      · rcases exists_not_rejects hfs hr hmin with ⟨h8, hzero⟩ | ⟨i, hi, hi7, hnot⟩
        · -- the nominal rates are not asked for, or the governor would have been set to 0
          have hgov0 : gov = 0 := by
            by_contra hne
            exact hlow ⟨by omega, by omega⟩
          exact hzero (hall 0 (by omega) (by decide))
        · exact hnot (hall i (by omega) hi7)
      · have hlow' : phy.rxIntdec * fs * 8 < 25000000 := hlow8 ▸ hlow
        refine not_rejects_self (i := 0) hfs hr (by decide) hmin ?_ (fun _ => by decide) hzero
        show fs * phy.txIntdec * 12 ≤ 640000000
        omega

/-- A filter of 4 for both, for a rate that its row of 12 just brings up to 25 MHz. -/
theorem calculate_ok_iff_quarter :
    ∃ p, calculateRfClockChain ⟨⟨false, false⟩, 4, 4, false⟩ 520834 1 = .ok p :=
  (calculate_ok_iff ⟨by decide, by decide⟩ (by decide)
    rfl).mpr (by decide)

end ModemFhss.Ad9361
