import Mathlib.Data.List.Basic
import Mathlib.Data.List.Induction
import Mathlib.Logic.Function.Basic

/-!
# Assignments in a row

A list of assignments, each with the place it goes to and what goes there. The last one at a place
counts.

* `last a l` — what is assigned to `a` last.
* `assign put g l` — what the assignments make of `g`; each place converts what it gets.
* `own φ l` — the assignments of which `φ` knows the place by its name.
* `inherited φ key l` — the same if an assignment to an unknown name goes where the one before went.
-/

namespace Assignments

variable {α β κ : Type*} {γ : α → Type*} {φ : κ → Option α} {a b : α} {v : β} {k : κ}
variable {key : Option α} {l : List (α × β)}

/-! ## The last one -/

section
variable [DecidableEq α]

def last (a : α) (l : List (α × β)) : Option β := (l.reverse.find? fun e => e.1 = a).map Prod.snd

@[simp] theorem last_nil : last a ([] : List (α × β)) = none := rfl

@[simp] theorem last_append_singleton :
    last a (l ++ [(b, v)]) = if b = a then some v else last a l := by
  unfold last
  rw [List.reverse_append, List.reverse_singleton, List.singleton_append, List.find?_cons]
  by_cases hba : b = a <;> simp [hba]

theorem last_eq_none_iff : last a l = none ↔ ∀ e ∈ l, e.1 ≠ a := by
  simp [last]

def assign (put : (a : α) → β → γ a) (g : (a : α) → γ a) (l : List (α × β)) : (a : α) → γ a :=
  l.foldl (fun g e => Function.update g e.1 (put e.1 e.2)) g

theorem assign_apply (put : (a : α) → β → γ a) (g : (a : α) → γ a) (l : List (α × β)) (a : α) :
    assign put g l a = ((last a l).map (put a)).getD (g a) := by
  induction l using List.reverseRecOn with
  | nil => rfl
  | append_singleton l e ih =>
    obtain ⟨b, v⟩ := e
    unfold assign at ih ⊢
    rw [List.foldl_append, List.foldl_cons, List.foldl_nil, last_append_singleton]
    by_cases hba : b = a
    · subst hba
      simp
    · rw [Function.update_of_ne (Ne.symm hba), ih, if_neg hba]

end

/-! ## Places by name -/

def own (φ : κ → Option α) (l : List (κ × β)) : List (α × β) :=
  l.filterMap fun e => (φ e.1).map fun a => (a, e.2)

def inherited (φ : κ → Option α) : Option α → List (κ × β) → List (α × β)
  | _, [] => []
  | key, (k, v) :: l =>
    match (φ k).or key with
    | some a => (a, v) :: inherited φ (some a) l
    | none => inherited φ none l

variable {l : List (κ × β)}

@[simp] theorem own_nil : own φ ([] : List (κ × β)) = [] := rfl

theorem own_cons_of_none (h : φ k = none) : own φ ((k, v) :: l) = own φ l := by
  simp [own, h]

theorem own_cons_of_some (h : φ k = some a) : own φ ((k, v) :: l) = (a, v) :: own φ l := by
  simp [own, h]

theorem inherited_cons_of_or_eq_some (h : (φ k).or key = some a) :
    inherited φ key ((k, v) :: l) = (a, v) :: inherited φ (some a) l := by
  simp [inherited, h]

theorem inherited_cons_of_or_eq_none (h : (φ k).or key = none) :
    inherited φ key ((k, v) :: l) = inherited φ none l := by
  simp [inherited, h]

theorem inherited_cons_of_some (h : φ k = some a) :
    inherited φ key ((k, v) :: l) = (a, v) :: inherited φ (some a) l :=
  inherited_cons_of_or_eq_some (by rw [h, Option.some_or])

/-- Only one name is that of a place. -/
theorem last_own [DecidableEq α] [DecidableEq κ] (hφ : ∀ k', φ k' = some a ↔ k' = k) :
    last a (own φ l) = last k l := by
  induction l using List.reverseRecOn with
  | nil => rfl
  | append_singleton l e ih =>
    obtain ⟨k', v⟩ := e
    rw [last_append_singleton, own, List.filterMap_append, ← own]
    cases hk' : φ k' with
    | none =>
      have hne : k' ≠ k := by
        intro heq
        rw [(hφ k').mpr heq] at hk'
        cases hk'
      simp [hk', hne, ih]
    | some b =>
      have hiff : b = a ↔ k' = k := by rw [← hφ, hk', Option.some_inj]
      simp [hk', hiff, ih]

/-- Where all names are known, nothing is inherited. -/
theorem inherited_eq_own (h : ∀ e ∈ l, (φ e.1).isSome) : inherited φ key l = own φ l := by
  induction l generalizing key with
  | nil => rfl
  | cons e l ih =>
    obtain ⟨k, v⟩ := e
    obtain ⟨a, hk⟩ := Option.isSome_iff_exists.mp (h _ List.mem_cons_self)
    rw [inherited_cons_of_some hk, own_cons_of_some hk]
    congr 1
    exact ih fun e he => h e (List.mem_cons_of_mem _ he)

/-- The known names alone make the same assignments. -/
theorem own_filter : own φ (l.filter fun e => (φ e.1).isSome) = own φ l := by
  unfold own
  rw [List.filterMap_filter]
  congr 1
  funext e
  cases φ e.1 <;> rfl

theorem own_subset_inherited : own φ l ⊆ inherited φ key l := by
  induction l generalizing key with
  | nil => exact List.Subset.refl _
  | cons e l ih =>
    obtain ⟨k, v⟩ := e
    cases hk : φ k with
    | none =>
      rw [own_cons_of_none hk]
      cases key with
      | none =>
        rw [inherited_cons_of_or_eq_none (by rw [hk, Option.none_or])]
        exact ih
      | some a =>
        rw [inherited_cons_of_or_eq_some (by rw [hk, Option.none_or])]
        exact List.subset_cons_of_subset _ ih
    | some a =>
      rw [own_cons_of_some hk, inherited_cons_of_some hk]
      exact List.cons_subset_cons _ ih

/-- Only a place that was known gets more. -/
theorem fst_of_mem_inherited {e : α × β} (h : e ∈ inherited φ key l) :
    key = some e.1 ∨ ∃ e' ∈ own φ l, e'.1 = e.1 := by
  induction l generalizing key with
  | nil => cases h
  | cons e' l ih =>
    obtain ⟨k, v⟩ := e'
    cases hk : φ k with
    | none =>
      -- an unknown name: what it assigns goes to `key`, if to any place
      rw [own_cons_of_none hk]
      cases key with
      | none =>
        rw [inherited_cons_of_or_eq_none (by rw [hk, Option.none_or])] at h
        exact ih h
      | some a =>
        rw [inherited_cons_of_or_eq_some (by rw [hk, Option.none_or])] at h
        rcases List.mem_cons.mp h with rfl | h
        · exact .inl rfl
        · exact ih h
    | some a =>
      rw [own_cons_of_some hk]
      rw [inherited_cons_of_some hk] at h
      right
      rcases List.mem_cons.mp h with rfl | h
      · exact ⟨_, List.mem_cons_self, rfl⟩
      · rcases ih h with hkey | ⟨e', he', hfst⟩
        · exact ⟨_, List.mem_cons_self, Option.some_inj.mp hkey⟩
        · exact ⟨e', List.mem_cons_of_mem _ he', hfst⟩

theorem last_inherited_eq_none_iff [DecidableEq α] :
    last a (inherited φ none l) = none ↔ last a (own φ l) = none := by
  rw [last_eq_none_iff, last_eq_none_iff]
  constructor
  · intro h e he
    exact h e (own_subset_inherited he)
  · intro h e he
    rcases fst_of_mem_inherited he with hkey | ⟨e', he', hfst⟩
    · cases hkey
    · exact hfst ▸ h e' he'

end Assignments
