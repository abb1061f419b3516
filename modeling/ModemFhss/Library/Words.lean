import Mathlib.Data.List.Basic

/-!
# Words between separators

A list is cut at each occurrence of a separator, as a loop over `find` does it: from a position on,
where is the next separator, and what stands before it is a word (`find_eq_some`, `find_eq_none`).
The words are those of `List.splitOn` (`splitOn_drop`).

`pieces` leaves out the last word if it is empty. Words that are joined with single separators are
then cut into the same words if and only if none of them contains the separator and the last one is
not empty (`pieces_intercalate_iff`).
-/

namespace Words

variable {α : Type*} [DecidableEq α] {sep : α} {l : List α} {w : List α}
  {ws : List (List α)} {start stop : Nat}

/-- The first separator at or after `start`. -/
def find (sep : α) (l : List α) (start : Nat) : Option Nat :=
  ((l.drop start).findIdx? (· == sep)).map (start + ·)

/-- The words, without the last if that is empty. -/
def pieces (sep : α) (l : List α) : List (List α) :=
  if (l.splitOn sep).getLast? = some [] then (l.splitOn sep).dropLast else l.splitOn sep

/-! ## Finding the next separator -/

theorem find_eq_none (h : find sep l start = none) : sep ∉ l.drop start := by
  unfold find at h
  rw [Option.map_eq_none_iff, List.findIdx?_eq_none_iff] at h
  intro hmem
  exact absurd (h sep hmem) (by simp)

/-- Where `find` stops, it has passed a word without separators. -/
theorem find_eq_some (h : find sep l start = some stop) :
    start ≤ stop ∧ stop < l.length ∧ sep ∉ (l.drop start).take (stop - start) ∧
      l.drop start = (l.drop start).take (stop - start) ++ sep :: l.drop (stop + 1) := by
  unfold find at h
  obtain ⟨k, hk, rfl⟩ := Option.map_eq_some_iff.mp h
  obtain ⟨hlt, hat, hbefore⟩ := List.findIdx?_eq_some_iff_getElem.mp hk
  rw [List.length_drop] at hlt
  refine ⟨Nat.le_add_right _ _, by omega, ?_, ?_⟩
  · rw [Nat.add_sub_cancel_left]
    intro hmem
    obtain ⟨j, hj, heq⟩ := List.getElem_of_mem hmem
    rw [List.length_take, List.length_drop] at hj
    apply hbefore j (by omega)
    rw [List.getElem_take] at heq
    exact beq_iff_eq.mpr heq
  · rw [Nat.add_sub_cancel_left]
    conv_lhs => rw [← List.take_append_drop k (l.drop start)]
    rw [List.drop_drop, List.drop_eq_getElem_cons (by omega : start + k < l.length)]
    rw [List.getElem_drop] at hat
    rw [beq_iff_eq.mp hat]

/-- A round of the loop: a word, and the words of the rest. -/
theorem splitOn_drop (h : find sep l start = some stop) : (l.drop start).splitOn sep =
    (l.drop start).take (stop - start) :: (l.drop (stop + 1)).splitOn sep := by
  obtain ⟨-, -, hword, hsplit⟩ := find_eq_some h
  conv_lhs => rw [hsplit, List.splitOn_append_cons_self_of_not_mem hword]

/-! ## The words of a list -/

/-- No word contains the separator, and all that is in a word is in the list. -/
theorem of_mem_splitOn (h : w ∈ l.splitOn sep) : sep ∉ w ∧ ∀ c ∈ w, c ∈ l := by
  induction l generalizing w with
  | nil =>
    rw [List.splitOn_nil, List.mem_singleton] at h
    simp [h]
  | cons d l ih =>
    rw [List.splitOn_cons_eq_if_modifyHead] at h
    obtain ⟨first, rest, hsplit⟩ := List.exists_cons_of_ne_nil (List.splitOn_ne_nil sep l)
    have hrest : ∀ u ∈ first :: rest, sep ∉ u ∧ ∀ c ∈ u, c ∈ l := by
      intro u hu
      exact ih (hsplit ▸ hu)
    rw [hsplit] at h
    by_cases hd : (d == sep) = true
    · rw [if_pos hd] at h
      rcases List.mem_cons.mp h with rfl | hmem
      · simp
      · obtain ⟨hsep, hchars⟩ := hrest w hmem
        exact ⟨hsep, fun c hc => List.mem_cons_of_mem d (hchars c hc)⟩
    · rw [if_neg hd, List.modifyHead_cons] at h
      rcases List.mem_cons.mp h with rfl | hmem
      · obtain ⟨hsep, hchars⟩ := hrest first List.mem_cons_self
        constructor
        · intro hmem
          rcases List.mem_cons.mp hmem with rfl | hmem
          · exact hd (beq_self_eq_true sep)
          · exact hsep hmem
        · intro c hc
          rcases List.mem_cons.mp hc with rfl | hc
          · exact List.mem_cons_self
          · exact List.mem_cons_of_mem d (hchars c hc)
      · obtain ⟨hsep, hchars⟩ := hrest w (List.mem_cons_of_mem first hmem)
        exact ⟨hsep, fun c hc => List.mem_cons_of_mem d (hchars c hc)⟩

omit [DecidableEq α] in
/-- What is in words that are joined is in one of them, but for the separators. -/
theorem of_mem_intercalate {c : α} (h : c ∈ [sep].intercalate ws) :
    c = sep ∨ ∃ w ∈ ws, c ∈ w := by
  induction ws with
  | nil =>
    rw [List.intercalate_nil] at h
    cases h
  | cons w rest ih =>
    cases rest with
    | nil =>
      rw [List.intercalate_singleton] at h
      exact .inr ⟨w, List.mem_cons_self, h⟩
    | cons w' rest =>
      rw [List.intercalate_cons_cons, List.mem_append, List.mem_append] at h
      rcases h with (h | h) | h
      · exact .inr ⟨w, List.mem_cons_self, h⟩
      · exact .inl (List.mem_singleton.mp h)
      · rcases ih h with heq | ⟨u, hu, hc⟩
        · exact .inl heq
        · exact .inr ⟨u, List.mem_cons_of_mem w hu, hc⟩

theorem mem_splitOn_of_mem_pieces (h : w ∈ pieces sep l) : w ∈ l.splitOn sep := by
  unfold pieces at h
  split at h
  · exact List.dropLast_subset _ h
  · exact h

/-- **Joined and cut again**: the same words, if none contains the separator and the last one is not
empty. -/
theorem pieces_intercalate_iff (hws : ws ≠ []) :
    pieces sep ([sep].intercalate ws) = ws ↔ (∀ w ∈ ws, sep ∉ w) ∧ ws.getLast? ≠ some [] := by
  constructor
  · intro h
    have hplain : ∀ w ∈ ws, sep ∉ w := by
      intro w hw
      rw [← h] at hw
      exact (of_mem_splitOn (mem_splitOn_of_mem_pieces hw)).1
    refine ⟨hplain, ?_⟩
    intro hlast
    rw [pieces, List.splitOn_intercalate sep hplain hws, if_pos hlast] at h
    have hlength := congrArg List.length h
    rw [List.length_dropLast] at hlength
    have := List.length_pos_iff.mpr hws
    omega
  · rintro ⟨hplain, hlast⟩
    rw [pieces, List.splitOn_intercalate sep hplain hws, if_neg hlast]

end Words
