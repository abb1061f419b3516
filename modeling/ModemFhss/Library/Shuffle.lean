import Mathlib.Algebra.Order.Ring.Nat
import Mathlib.Data.List.Nodup
import Mathlib.Data.List.Perm.Subperm
import Mathlib.Data.List.Range
import Mathlib.Logic.Equiv.Basic

/-!
# The shuffle of Fisher and Yates

From the last place down to the second, the entry of each place is swapped with that of a place that
is drawn, which is not behind it. Every arrangement comes out of exactly one sequence of draws
(`existsUnique_arrange`), so that draws that are equally likely give arrangements that are.
-/

namespace Shuffle

variable {α : Type*} {n i k : Nat} {items f : Nat → α}

/-- `draw i` is what is drawn for the place `i`. -/
def shuffle (draw : Nat → Nat) : Nat → (Nat → α) → Nat → α
  | 0, items => items
  | i + 1, items => shuffle draw i (items ∘ Equiv.swap (draw (i + 1)) (i + 1))

/-- Which place each entry comes from. -/
def arrange (draw : Nat → Nat) (n : Nat) : Nat → Nat := shuffle draw n id

/-- What is drawn for the places up to `n`. -/
@[ext] structure Draws (n : Nat) where
  draw : Nat → Nat
  le : ∀ i, draw i ≤ i
  eq_zero : ∀ i, n < i → draw i = 0

theorem shuffle_comp (draw : Nat → Nat) {β : Type*} (g : α → β) :
    shuffle draw n (g ∘ items) = g ∘ shuffle draw n items := by
  induction n generalizing items with
  | zero => rfl
  | succ n ih => exact ih

/-- The shuffle moves the entries and does not look at them. -/
theorem shuffle_eq (draw : Nat → Nat) : shuffle draw n items = items ∘ arrange draw n :=
  shuffle_comp draw items

theorem arrange_succ (draw : Nat → Nat) :
    arrange draw (n + 1) = Equiv.swap (draw (n + 1)) (n + 1) ∘ arrange draw n := by
  show shuffle draw n (id ∘ Equiv.swap (draw (n + 1)) (n + 1)) = _
  exact shuffle_eq draw

variable {draw draw' : Nat → Nat}

theorem arrange_injective : Function.Injective (arrange draw n) := by
  induction n with
  | zero => exact Function.injective_id
  | succ n ih =>
    rw [arrange_succ]
    exact (Equiv.injective _).comp ih

/-- The places behind `n` are left alone. -/
theorem arrange_of_lt (hdraw : ∀ i, draw i ≤ i) (h : n < k) : arrange draw n k = k := by
  induction n with
  | zero => rfl
  | succ n ih =>
    have hle := hdraw (n + 1)
    rw [arrange_succ, Function.comp_apply, ih (by omega)]
    exact Equiv.swap_apply_of_ne_of_ne (by omega) (by omega)

/-- The last place gets the entry that was drawn for it. -/
theorem arrange_last (hdraw : ∀ i, draw i ≤ i) :
    arrange draw (n + 1) (n + 1) = draw (n + 1) := by
  rw [arrange_succ, Function.comp_apply, arrange_of_lt hdraw (Nat.lt_succ_self n)]
  exact Equiv.swap_apply_right _ _

theorem arrange_congr (h : ∀ i, 0 < i → i ≤ n → draw i = draw' i) :
    arrange draw n = arrange draw' n := by
  induction n with
  | zero => rfl
  | succ n ih =>
    rw [arrange_succ, arrange_succ, h (n + 1) (Nat.succ_pos n) (Nat.le_refl _),
      ih fun i hi hle => h i hi (Nat.le_succ_of_le hle)]

/-- The draws can be read off the arrangement. -/
theorem eq_of_arrange_eq (hdraw : ∀ i, draw i ≤ i) (hdraw' : ∀ i, draw' i ≤ i)
    (h : arrange draw n = arrange draw' n) (hi : 0 < i) (hn : i ≤ n) : draw i = draw' i := by
  induction n with
  | zero => omega
  | succ n ih =>
    have hlast : draw (n + 1) = draw' (n + 1) := by
      rw [← arrange_last hdraw, h, arrange_last hdraw']
    rcases Nat.lt_or_eq_of_le hn with hlt | rfl
    · rw [arrange_succ, arrange_succ, hlast] at h
      exact ih ((Equiv.injective _).comp_left h) (Nat.le_of_lt_succ hlt)
    · exact hlast

/-- Every arrangement of the places up to `n` can be drawn. -/
theorem exists_arrange {f : Nat → Nat} (hf : Function.Injective f) (hfix : ∀ k, n < k → f k = k) :
    ∃ d : Draws n, arrange d.draw n = f := by
  induction n generalizing f with
  | zero =>
    refine ⟨⟨fun _ => 0, fun _ => Nat.zero_le _, fun _ _ => rfl⟩, ?_⟩
    funext k
    rcases Nat.eq_zero_or_pos k with rfl | hpos
    · by_contra hne
      have hzero : f (f 0) = f 0 := hfix _ (Nat.pos_of_ne_zero (Ne.symm hne))
      exact hne (hf hzero).symm
    · exact (hfix k hpos).symm
  | succ n ih =>
    -- what is at the last place was drawn for it
    have hle : f (n + 1) ≤ n + 1 := by
      by_contra hgt
      have hfixed := hfix _ (Nat.lt_of_not_le hgt)
      have heq := hf hfixed
      omega
    obtain ⟨d, hd⟩ := ih (f := Equiv.swap (f (n + 1)) (n + 1) ∘ f) ((Equiv.injective _).comp hf) (by
      intro k hk
      rw [Function.comp_apply]
      rcases Nat.eq_or_lt_of_le hk with rfl | hlt
      · exact Equiv.swap_apply_left _ _
      · rw [hfix k hlt]
        exact Equiv.swap_apply_of_ne_of_ne (by omega) (by omega))
    refine ⟨⟨Function.update d.draw (n + 1) (f (n + 1)), ?_, ?_⟩, ?_⟩
    · intro i
      rcases eq_or_ne i (n + 1) with rfl | hne
      · rwa [Function.update_self]
      · rw [Function.update_of_ne hne]
        exact d.le i
    · intro i hi
      rw [Function.update_of_ne (by omega)]
      exact d.eq_zero i (by omega)
    · show arrange (Function.update d.draw (n + 1) (f (n + 1))) (n + 1) = f
      rw [arrange_succ, Function.update_self]
      have hbefore : arrange (Function.update d.draw (n + 1) (f (n + 1))) n = arrange d.draw n :=
        arrange_congr fun i _ hi => Function.update_of_ne (by omega) _ _
      rw [hbefore, hd]
      funext k
      exact Equiv.swap_apply_self _ _ _

/-- **Every arrangement comes out of exactly one sequence of draws.** -/
theorem existsUnique_arrange {f : Nat → Nat} (hf : Function.Injective f)
    (hfix : ∀ k, n < k → f k = k) : ∃! d : Draws n, arrange d.draw n = f := by
  obtain ⟨d, hd⟩ := exists_arrange hf hfix
  refine ⟨d, hd, ?_⟩
  intro d' hd'
  ext i
  rcases Nat.eq_zero_or_pos i with rfl | hpos
  · have h := d.le 0
    have h' := d'.le 0
    omega
  · rcases Nat.lt_or_ge n i with hlt | hge
    · rw [d.eq_zero i hlt, d'.eq_zero i hlt]
    · exact eq_of_arrange_eq d'.le d.le (hd'.trans hd.symm) hpos hge

/-! ## Arrangements of the first places -/

theorem le_of_fixes {f : Nat → Nat} (hf : Function.Injective f) (hfix : ∀ k, n < k → f k = k)
    (hi : i ≤ n) : f i ≤ n := by
  by_contra hgt
  have heq := hf (hfix _ (Nat.lt_of_not_le hgt))
  omega

/-- The first places have the first entries, in some order. -/
theorem map_range_perm {f : Nat → Nat} (hf : Function.Injective f) (hfix : ∀ k, n < k → f k = k) :
    ((List.range (n + 1)).map f).Perm (List.range (n + 1)) := by
  apply (List.subperm_of_subset (List.Nodup.map hf List.nodup_range) ?_).perm_of_length_le (by simp)
  intro k hk
  obtain ⟨i, hi, rfl⟩ := List.mem_map.mp hk
  have hle := le_of_fixes hf hfix (Nat.le_of_lt_succ (List.mem_range.mp hi))
  exact List.mem_range.mpr (Nat.lt_succ_of_le hle)

end Shuffle
