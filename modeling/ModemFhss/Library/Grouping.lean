import Mathlib.Data.List.Induction
import Mathlib.Data.List.Nodup

/-!
# Grouping by key

Values are collected under their keys one at a time: a value goes to the end of its key's group, and
a key not seen before gets a group of its own after the others. A group then has the values of its
key in the order in which they came (`eq_of_mem_collect`), and there is one group for each key
(`nodup_keys_collect`, `mem_keys_collect`), in the order in which the keys came first
(`keys_collect`). Taken apart, the groups are what was collected (`flatten_collect`).
-/

namespace Grouping

variable {κ α : Type*} [DecidableEq κ]

/-- Put a value into the first group of its key. -/
def add (k : κ) (v : α) : List (κ × List α) → List (κ × List α)
  | [] => [(k, [v])]
  | g :: gs => if g.1 = k then (g.1, g.2 ++ [v]) :: gs else g :: add k v gs

/-- The groups of a list of keys and values. -/
def collect (xs : List (κ × α)) : List (κ × List α) := xs.foldl (fun gs x => add x.1 x.2 gs) []

variable {k : κ} {v : α} {g : κ × List α} {gs : List (κ × List α)} {x : κ × α} {xs : List (κ × α)}

theorem collect_concat : collect (xs ++ [x]) = add x.1 x.2 (collect xs) := by
  simp [collect]

theorem keys_add : (add k v gs).map Prod.fst =
    if k ∈ gs.map Prod.fst then gs.map Prod.fst else gs.map Prod.fst ++ [k] := by
  induction gs with
  | nil => rfl
  | cons g gs ih =>
    unfold add
    by_cases hk : g.1 = k
    · simp [hk]
    · rw [if_neg hk, List.map_cons, ih, List.map_cons]
      by_cases hmem : k ∈ gs.map Prod.fst
      · rw [if_pos hmem, if_pos (List.mem_cons_of_mem _ hmem)]
      · rw [if_neg hmem, if_neg (by simpa [Ne.symm hk] using hmem), List.cons_append]

theorem mem_keys_collect : k ∈ (collect xs).map Prod.fst ↔ k ∈ xs.map Prod.fst := by
  induction xs using List.reverseRecOn with
  | nil => rfl
  | append_singleton xs x ih =>
    rw [collect_concat, keys_add, List.map_append, List.mem_append, ← ih]
    split
    · next hmem =>
      refine ⟨.inl, ?_⟩
      rintro (hold | hx)
      · exact hold
      · rw [List.map_singleton, List.mem_singleton] at hx
        rw [hx]
        exact hmem
    · exact List.mem_append

theorem nodup_keys_collect : ((collect xs).map Prod.fst).Nodup := by
  induction xs using List.reverseRecOn with
  | nil => exact List.nodup_nil
  | append_singleton xs x ih =>
    rw [collect_concat, keys_add]
    split
    · exact ih
    · next hmem =>
      rw [← List.concat_eq_append]
      exact ih.concat hmem

/-- Where a group comes from when a value is added: another key's group is as it was, the group of
the key has the value at its end. -/
theorem mem_add (hnodup : (gs.map Prod.fst).Nodup) (h : g ∈ add k v gs) :
    (g.1 ≠ k ∧ g ∈ gs) ∨ (g.1 = k ∧ ∃ vs, g.2 = vs ++ [v] ∧
      ((k, vs) ∈ gs ∨ vs = [] ∧ k ∉ gs.map Prod.fst)) := by
  induction gs with
  | nil =>
    cases List.mem_singleton.mp h
    exact .inr ⟨rfl, [], rfl, .inr ⟨rfl, List.not_mem_nil⟩⟩
  | cons g' gs ih =>
    obtain ⟨hfresh, hnodup'⟩ := List.nodup_cons.mp hnodup
    unfold add at h
    split at h
    · next hk =>
      rcases List.mem_cons.mp h with rfl | hmem
      · exact .inr ⟨hk, g'.2, rfl, .inl (hk ▸ List.mem_cons_self)⟩
      · refine .inl ⟨fun heq => hfresh ?_, List.mem_cons_of_mem _ hmem⟩
        rw [hk, ← heq]
        exact List.mem_map_of_mem hmem
    · next hk =>
      rcases List.mem_cons.mp h with rfl | hmem
      · exact .inl ⟨hk, List.mem_cons_self⟩
      · rcases ih hnodup' hmem with ⟨hne, hold⟩ | ⟨heq, vs, hvs, hold | ⟨hnil, hnew⟩⟩
        · exact .inl ⟨hne, List.mem_cons_of_mem _ hold⟩
        · exact .inr ⟨heq, vs, hvs, .inl (List.mem_cons_of_mem _ hold)⟩
        · refine .inr ⟨heq, vs, hvs, .inr ⟨hnil, fun hk' => ?_⟩⟩
          rcases List.mem_cons.mp hk' with hk' | hk'
          · exact hk hk'.symm
          · exact hnew hk'

/-- **A group has the values of its key**, in order. -/
theorem eq_of_mem_collect (h : g ∈ collect xs) :
    g.2 = (xs.filter fun x => x.1 = g.1).map Prod.snd := by
  induction xs using List.reverseRecOn generalizing g with
  | nil => cases h
  | append_singleton xs x ih =>
    rw [collect_concat] at h
    rw [List.filter_append, List.map_append]
    rcases mem_add nodup_keys_collect h with ⟨hne, hold⟩ | ⟨heq, vs, hvs, hold | ⟨rfl, hnew⟩⟩
    · rw [ih hold, List.filter_singleton]
      simp [Ne.symm hne]
    · have hvalues : vs = (xs.filter fun y => y.1 = x.1).map Prod.snd := ih hold
      rw [hvs, hvalues, heq, List.filter_singleton]
      simp
    · have hnone : xs.filter (fun x => x.1 = g.1) = [] := by
        rw [List.filter_eq_nil_iff]
        intro y hy
        rw [mem_keys_collect] at hnew
        simp only [decide_eq_true_eq]
        intro hkey
        rw [heq] at hkey
        exact hnew (hkey ▸ List.mem_map_of_mem hy)
      rw [hvs, hnone, List.filter_singleton]
      simp [heq]

/-- The groups are in the order in which their keys came first. -/
theorem keys_collect [BEq κ] [LawfulBEq κ] :
    (collect xs).map Prod.fst = (xs.map Prod.fst).eraseDups := by
  induction xs using List.reverseRecOn with
  | nil => rfl
  | append_singleton xs x ih =>
    rw [collect_concat, keys_add, ih, List.map_append, List.map_singleton, List.eraseDups_append]
    by_cases hmem : x.1 ∈ xs.map Prod.fst
    · rw [if_pos (List.mem_eraseDups.mpr hmem)]
      simp [List.removeAll, hmem]
    · rw [if_neg (fun h => hmem (List.mem_eraseDups.mp h))]
      simp [List.removeAll, hmem, List.eraseDups_cons]

/-! ## Nothing is lost -/

/-- The values of the groups, each with its key again. -/
def flatten (gs : List (κ × List α)) : List (κ × α) := gs.flatMap fun g => g.2.map (Prod.mk g.1)

omit [DecidableEq κ] in
theorem flatten_cons : flatten (g :: gs) = g.2.map (Prod.mk g.1) ++ flatten gs := List.flatMap_cons

theorem flatten_add : (flatten (add k v gs)).Perm (flatten gs ++ [(k, v)]) := by
  induction gs with
  | nil => exact List.Perm.refl _
  | cons g gs ih =>
    unfold add
    split
    · next hk =>
      rw [flatten_cons, flatten_cons, List.map_append, List.map_singleton, hk, List.append_assoc,
        List.append_assoc]
      apply List.Perm.append_left
      exact List.perm_append_comm
    · rw [flatten_cons, flatten_cons, List.append_assoc]
      apply List.Perm.append_left
      exact ih

/-- **The groups hold what was collected**, as often as it was. -/
theorem flatten_collect : (flatten (collect xs)).Perm xs := by
  induction xs using List.reverseRecOn with
  | nil => exact List.Perm.refl _
  | append_singleton xs x ih =>
    rw [collect_concat]
    apply flatten_add.trans
    exact ih.append_right _

end Grouping
