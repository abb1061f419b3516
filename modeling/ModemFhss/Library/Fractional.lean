import Mathlib.Algebra.Order.Ring.Nat
import Mathlib.Tactic.Ring

/-!
# A fractional divider

A rate `f` is made of a reference `p` by a word of two numbers: how often `p` goes into it, and the
rest in units of `p / m`, rounded to the nearest. `rate` is what a word stands for, rounded down.

* `rate_word_le`, `le_rate_word` — the rate of the word of `f` differs from `f` by half a unit and
  the rounding.
* `rate_word_rate` — with a reference of at least `2 * m`, a rate that a word stands for is met
  exactly.
-/

namespace Fractional

structure Word where
  integer : Nat
  fract : Nat
  deriving DecidableEq

variable {m p f q : Nat}

def word (m p f : Nat) : Word := ⟨f / p, (f % p * m + p / 2) / p⟩

def rate (m p : Nat) (w : Word) : Nat := p * w.fract / m + p * w.integer

theorem word_fract_le (hp : 0 < p) : (word m p f).fract ≤ m := by
  have hmod : f % p * m + m ≤ p * m := by
    rw [← Nat.succ_mul]
    exact Nat.mul_le_mul_right m (Nat.mod_lt f hp)
  apply Nat.le_of_lt_succ
  apply Nat.div_lt_of_lt_mul
  rw [Nat.mul_succ]
  omega

theorem word_fract_bounds (hp : 0 < p) :
    p * (word m p f).fract ≤ f % p * m + p / 2 ∧
      f % p * m + p / 2 < p * (word m p f).fract + p := by
  have hdiv := Nat.div_add_mod (f % p * m + p / 2) p
  have hmod := Nat.mod_lt (f % p * m + p / 2) hp
  simp only [word]
  omega

/-! ## The difference -/

theorem mul_rate_le (w : Word) : m * rate m p w ≤ p * w.fract + m * (p * w.integer) := by
  rw [rate, Nat.mul_add]
  exact Nat.add_le_add_right (Nat.mul_div_le _ _) _

theorem lt_mul_rate (hm : 0 < m) (w : Word) :
    p * w.fract + m * (p * w.integer) < m * rate m p w + m := by
  rw [rate, Nat.mul_add]
  have hdiv := Nat.div_add_mod (p * w.fract) m
  have hmod := Nat.mod_lt (p * w.fract) hm
  omega

theorem mul_eq : m * f = f % p * m + m * (p * (word m p f).integer) := by
  have hdiv := Nat.div_add_mod f p
  calc m * f = m * (p * (f / p) + f % p) := by rw [hdiv]
    _ = f % p * m + m * (p * (f / p)) := by ring

theorem rate_word_le (hp : 0 < p) : 2 * (m * rate m p (word m p f)) ≤ 2 * (m * f) + p := by
  have hle := mul_rate_le (m := m) (p := p) (word m p f)
  have hfract := (word_fract_bounds (m := m) (f := f) hp).1
  have hmul := mul_eq (m := m) (p := p) (f := f)
  omega

theorem le_rate_word (hm : 0 < m) (hp : 0 < p) :
    2 * (m * f) ≤ 2 * (m * rate m p (word m p f)) + p + 2 * m := by
  have hlt := lt_mul_rate (p := p) hm (word m p f)
  have hfract := (word_fract_bounds (m := m) (f := f) hp).2
  have hmul := mul_eq (m := m) (p := p) (f := f)
  omega

/-! ## Rates of words -/

theorem word_add (hp : 0 < p) {g : Nat} (hg : g < p) :
    word m p (g + p * q) = ⟨q, (g * m + p / 2) / p⟩ := by
  unfold word
  rw [Nat.add_mul_div_left _ _ hp, Nat.div_eq_of_lt hg, Nat.zero_add, Nat.add_mul_mod_self_left,
    Nat.mod_eq_of_lt hg]

/-- A rest of more than the whole reference is carried. -/
theorem rate_carry (hm : 0 < m) (w : Word) :
    rate m p w = p * (w.fract % m) / m + p * (w.integer + w.fract / m) := by
  have hsplit : p * w.fract = p * (w.fract % m) + m * (p * (w.fract / m)) := by
    calc p * w.fract = p * (m * (w.fract / m) + w.fract % m) := by rw [Nat.div_add_mod]
      _ = p * (w.fract % m) + m * (p * (w.fract / m)) := by ring
  rw [rate, hsplit, Nat.add_mul_div_left _ _ hm, Nat.mul_add]
  omega

theorem rate_word_rate (hm : 0 < m) (hp : 2 * m ≤ p) (w : Word) :
    rate m p (word m p (rate m p w)) = rate m p w := by
  have hp0 : 0 < p := by omega
  rw [rate_carry hm w]
  generalize w.integer + w.fract / m = q
  have hlt := Nat.mod_lt w.fract hm
  generalize w.fract % m = k at hlt ⊢
  have hg : p * k / m < p := by
    apply Nat.div_lt_of_lt_mul
    rw [Nat.mul_comm m]
    exact Nat.mul_lt_mul_of_pos_left hlt hp0
  -- the unit is at least 2, so rounding down loses less than half of it
  have hback : (p * k / m * m + p / 2) / p = k := by
    have hdiv := Nat.div_add_mod (p * k) m
    have hmod := Nat.mod_lt (p * k) hm
    have hcomm : p * k / m * m = m * (p * k / m) := Nat.mul_comm _ _
    apply Nat.div_eq_of_lt_le
    · rw [Nat.mul_comm k p]
      omega
    · rw [Nat.succ_mul, Nat.mul_comm k p]
      omega
  rw [word_add hp0 hg, hback, rate]

end Fractional
