import Mathlib.Data.List.Basic

/-!
# Hexadecimal text

Numbers as `std::hex` prints them: lower-case digits, no leading zeros, `0` for zero. Reading goes
the other way, over digits of that kind.
-/

namespace Hex

/-- The digits of a number. -/
def digits (n : Nat) : List Char := Nat.toDigits 16 n

/-- The text of a number. -/
def text (n : Nat) : String := String.ofList (digits n)

/-- `[a-f0-9]` -/
def isDigit (c : Char) : Bool := ('0' ≤ c && c ≤ '9') || ('a' ≤ c && c ≤ 'f')

/-- The value of one digit. -/
def digitValue (c : Char) : Nat := if c ≤ '9' then c.toNat - '0'.toNat else c.toNat - 'a'.toNat + 10

/-- The number written in `cs`. -/
def value (cs : List Char) : Nat := cs.foldl (fun n c => 16 * n + digitValue c) 0

variable {n d : Nat} {c : Char} {cs : List Char}

theorem digitChar_of_lt (h : d < 16) : digitValue d.digitChar = d ∧ isDigit d.digitChar = true := by
  have hall : ∀ d < 16, digitValue d.digitChar = d ∧ isDigit d.digitChar = true := by decide
  exact hall d h

theorem value_concat : value (cs ++ [c]) = 16 * value cs + digitValue c := by
  simp [value]

/-- **What was printed is read back.** -/
theorem value_digits (n : Nat) : value (digits n) = n := by
  induction n using Nat.strongRecOn with
  | ind n ih =>
    unfold digits
    rcases Nat.lt_or_ge n 16 with hlt | hge
    · rw [Nat.toDigits_of_lt_base hlt]
      exact (Nat.zero_add _).trans (digitChar_of_lt hlt).1
    · rw [Nat.toDigits_of_base_le (by decide) hge, value_concat,
        (digitChar_of_lt (Nat.mod_lt n (by decide))).1]
      have hsmaller := ih (n / 16) (Nat.div_lt_self (by omega) (by decide))
      unfold digits at hsmaller
      rw [hsmaller]
      exact Nat.div_add_mod n 16

theorem isDigit_of_mem_digits (h : c ∈ digits n) : isDigit c = true := by
  induction n using Nat.strongRecOn with
  | ind n ih =>
    unfold digits at h
    rcases Nat.lt_or_ge n 16 with hlt | hge
    · rw [Nat.toDigits_of_lt_base hlt, List.mem_singleton] at h
      rw [h]
      exact (digitChar_of_lt hlt).2
    · rw [Nat.toDigits_of_base_le (by decide) hge] at h
      rcases List.mem_append.mp h with hmem | hlast
      · exact ih (n / 16) (Nat.div_lt_self (by omega) (by decide)) hmem
      · rw [List.mem_singleton.mp hlast]
        exact (digitChar_of_lt (Nat.mod_lt n (by decide))).2

end Hex
