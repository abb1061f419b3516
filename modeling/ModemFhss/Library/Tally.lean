import Mathlib.Algebra.BigOperators.Group.Finset.Piecewise
import Mathlib.Algebra.Order.BigOperators.Group.Finset
import ModemFhss.Library.Machine

/-!
# Counting the steps of a run

`tally step f s es` adds up `f`, a weight of each step, over a run. When no step can have more
weight than it raises a potential, and the potential is bounded, so is the tally
(`exists_of_lt_tally`): a run that weighs more has a step outside the rule.

The potential of the last section is a family of counters, one for each kind of event: `bump` counts
an event, and among `n` kinds no more than `n * (limit - 1)` events leave every counter below
`limit`.
-/

namespace Machine

variable {σ ε : Type*}

/-- The weights of the steps of a run, added up. -/
def tally (step : σ → ε → Option σ) (f : σ → ε → Nat) (s : σ) : List ε → Nat
  | [] => 0
  | e :: es =>
    f s e +
      match step s e with
      | none => 0
      | some s' => tally step f s' es

variable {step : σ → ε → Option σ} {f : σ → ε → Nat} {G H : σ → ε → Prop} {s s' : σ} {e : ε}
  {es : List ε}

@[simp] theorem tally_nil : tally step f s [] = 0 := rfl

theorem tally_cons (h : step s e = some s') :
    tally step f s (e :: es) = f s e + tally step f s' es := by
  simp [tally, h]

/-- **A bounded potential**: if every step that satisfies `G` raises `w` by its weight, and `w` is
at most `bound`, then a run heavier than that has a step that fails `G`, and what comes before the
first such step is not heavier. -/
theorem exists_of_lt_tally {I : σ → Prop} {w : σ → Nat} {bound : Nat}
    (hstep : ∀ s e s', I s → H s e → G s e → step s e = some s' → I s' ∧ w s + f s e ≤ w s')
    (hbound : ∀ s, I s → w s ≤ bound) (hs : I s) (hm : Meets step H s es)
    (hr : run step s es = some s') (hheavy : bound < w s + tally step f s es) :
    ∃ es₁ e es₂ t, es = es₁ ++ e :: es₂ ∧ run step s es₁ = some t ∧ I t ∧ ¬ G t e ∧
      w s + tally step f s es₁ ≤ bound := by
  induction es generalizing s with
  | nil => exact absurd (hbound s hs) (by simpa using hheavy)
  | cons e es ih =>
    obtain ⟨t, ht, hr'⟩ := run_cons_eq_some.mp hr
    obtain ⟨hh, hm'⟩ := meets_cons.mp hm
    by_cases hg : G s e
    · obtain ⟨hI, hw⟩ := hstep s e t hs hh hg ht
      rw [tally_cons ht] at hheavy
      obtain ⟨es₁, e', es₂, u, rfl, hu, hIu, hfail, hle⟩ := ih hI (hm' t ht) hr' (by omega)
      refine ⟨e :: es₁, e', es₂, u, rfl, (run_cons ht).trans hu, hIu, hfail, ?_⟩
      rw [tally_cons ht]
      omega
    · exact ⟨[], e, es, s, rfl, run_nil, hs, hg, hbound s hs⟩

/-! ## Counters by kind -/

section Counters

variable {κ : Type*} {kinds : Finset κ} {c : κ → Nat} {k : κ} {limit : Nat}

/-- All events counted, of the given kinds. -/
def counted (kinds : Finset κ) (c : κ → Nat) : Nat := ∑ k ∈ kinds, c k

/-- **Pigeonhole**: while every counter is below the limit, only so many events were counted. -/
theorem counted_le (h : ∀ k, c k < limit) : counted kinds c ≤ kinds.card * (limit - 1) :=
  Finset.sum_le_card_nsmul _ _ _ fun k _ => Nat.le_sub_one_of_lt (h k)

variable [DecidableEq κ]

/-- Count one more event of kind `k`. -/
def bump (c : κ → Nat) (k : κ) : κ → Nat := Function.update c k (c k + 1)

theorem counted_bump (hk : k ∈ kinds) : counted kinds (bump c k) = counted kinds c + 1 := by
  unfold counted bump
  rw [Finset.sum_update_of_mem hk, ← Finset.sum_sdiff (Finset.singleton_subset_iff.mpr hk)]
  rw [Finset.sum_singleton]
  omega

/-- Counting an event keeps every counter below the limit, if its own does not reach it. -/
theorem bump_lt (h : ∀ k, c k < limit) (hk : c k + 1 ≠ limit) (l : κ) : bump c k l < limit := by
  unfold bump
  by_cases hl : l = k
  · have := h k
    rw [hl, Function.update_self]
    omega
  · rw [Function.update_of_ne hl]
    exact h l

end Counters

end Machine
