import Mathlib.Data.List.Induction

/-!
# Properties of a log

A log only grows at its end. `Always Q log` says of each entry that it was allowed by what stood
before it; it is checked one entry at a time (`always_concat`), and a log that violates it does so
for good (`Always.of_append`). `Since Q log` says of each entry what has come of it since
(`since_concat`).
-/

namespace Log

variable {α : Type*} {Q : List α → α → Prop} {log later : List α} {a : α}

/-- An entry of a log that has grown is one from before, or the new one. -/
theorem split_concat {P : List α → α → List α → Prop} :
    (∀ before b after, log ++ [a] = before ++ b :: after → P before b after) ↔
      (∀ before b after, log = before ++ b :: after → P before b (after ++ [a])) ∧ P log a [] := by
  constructor
  · intro h
    refine ⟨fun before b after heq => h before b (after ++ [a]) ?_, h log a [] rfl⟩
    rw [heq, List.append_assoc, List.cons_append]
  · rintro ⟨h, ha⟩ before b after heq
    rcases List.eq_nil_or_concat after with rfl | ⟨after, c, rfl⟩
    · obtain ⟨rfl, hb⟩ := List.append_inj' heq rfl
      cases hb
      exact ha
    · rw [List.concat_eq_append, ← List.cons_append, ← List.append_assoc] at heq
      obtain ⟨hlog, hc⟩ := List.append_inj' heq rfl
      cases hc
      rw [List.concat_eq_append]
      exact h before b after hlog

/-- Every entry satisfies `Q`, given the entries before it. -/
def Always (Q : List α → α → Prop) (log : List α) : Prop :=
  ∀ before a after, log = before ++ a :: after → Q before a

theorem always_nil : Always Q [] := by
  intro before a after h
  simp at h

theorem always_concat : Always Q (log ++ [a]) ↔ Always Q log ∧ Q log a :=
  split_concat (P := fun before b _ => Q before b)

theorem Always.of_append (h : Always Q (log ++ later)) : Always Q log := by
  intro before a after heq
  apply h before a (after ++ later)
  rw [heq, List.append_assoc, List.cons_append]

/-- Every entry satisfies `Q`, given the entries after it. -/
def Since (Q : α → List α → Prop) (log : List α) : Prop :=
  ∀ before a after, log = before ++ a :: after → Q a after

theorem since_nil {Q : α → List α → Prop} : Since Q [] := by
  intro before a after h
  simp at h

theorem since_concat {Q : α → List α → Prop} :
    Since Q (log ++ [a]) ↔ Since (fun b after => Q b (after ++ [a])) log ∧ Q a [] :=
  split_concat (P := fun _ b after => Q b after)

theorem Since.imp {Q Q' : α → List α → Prop} (h : Since Q log)
    (himp : ∀ a after, Q a after → Q' a after) : Since Q' log :=
  fun before a after heq => himp a after (h before a after heq)

/-- What never happens twice happens at most once. -/
theorem count_le_one [BEq α] [LawfulBEq α]
    (h : Always (fun before b => b = a → a ∉ before) log) : log.count a ≤ 1 := by
  induction log using List.reverseRecOn with
  | nil => exact Nat.zero_le _
  | append_singleton log b ih =>
    obtain ⟨hlog, hb⟩ := always_concat.mp h
    rw [List.count_append]
    by_cases hab : b = a
    · subst hab
      rw [List.count_eq_zero_of_not_mem (hb rfl)]
      simp
    · rw [List.count_eq_zero_of_not_mem (l := [b]) (by simpa using Ne.symm hab)]
      exact ih hlog

end Log
