import Mathlib.Data.List.Basic
import Mathlib.Logic.Function.Basic

/-!
# Filling a table in order

Each place of a table has a rule that gives its entry from the others. The rules are applied along a
list, one after the other. If each one looks only at places that come before in the list, or not in
it at all, then every entry follows its rule in the end (`fill_spec`), whatever was there before.
-/

namespace Fill

variable {ι β : Type*} [DecidableEq ι] {rule : ι → (ι → β) → β} {r r' : ι → β} {l : List ι}
  {i j : ι}

def fill (rule : ι → (ι → β) → β) (l : List ι) (r : ι → β) : ι → β :=
  l.foldl (fun r i => Function.update r i (rule i r)) r

@[simp] theorem fill_nil : fill rule [] r = r := rfl

@[simp] theorem fill_cons :
    fill rule (i :: l) r = fill rule l (Function.update r i (rule i r)) := rfl

theorem fill_of_notMem (h : i ∉ l) : fill rule l r i = r i := by
  induction l generalizing r with
  | nil => rfl
  | cons j l ih =>
    rw [List.mem_cons, not_or] at h
    rw [fill_cons, ih h.2, Function.update_of_ne h.1]

/-- The rule of a place looks at none that comes later, and not at the place itself. -/
def Ordered (rule : ι → (ι → β) → β) : List ι → Prop
  | [] => True
  | i :: l => i ∉ l ∧ (∀ r r', (∀ j, j ∉ i :: l → r j = r' j) → rule i r = rule i r') ∧
      Ordered rule l

/-- **In the end every entry follows its rule.** -/
theorem fill_spec (h : Ordered rule l) (hi : i ∈ l) :
    fill rule l r i = rule i (fill rule l r) := by
  induction l generalizing r with
  | nil => cases hi
  | cons j l ih =>
    obtain ⟨hj, hrule, hl⟩ := h
    rcases List.mem_cons.mp hi with rfl | hi
    · rw [fill_cons, fill_of_notMem hj, Function.update_self]
      apply hrule
      intro k hk
      rw [List.mem_cons, not_or] at hk
      rw [fill_of_notMem hk.2, Function.update_of_ne hk.1]
    · exact ih hl hi

end Fill
