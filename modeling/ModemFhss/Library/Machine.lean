import Mathlib.Data.List.Basic

/-!
# Runs of a deterministic machine

A machine is a partial step function `step : σ → ε → Option σ`: in state `s` it takes the event `e`
to `step s e`, and `none` says that `e` cannot happen in `s`. Everything nondeterministic (a
scheduler, a medium, a clock) is in the event, so a run is a fold over a list of events and can be
executed: that one ends in a state with a given property is decided by running it.

Two ways of talking about a run:

* `run step s es = some s'` — the events `es`, taken in order from `s`, lead to `s'`. A prefix of a
  run is a run, so a property of the state at the end of *every* run is a property of every state
  passed on the way.
* `Meets step G s es` — every step of the run satisfies `G`, a condition on the state before the
  step and on the event.

The induction rules are `run_invariant` (what one step preserves, a whole run preserves),
`run_invariant_of_meets` (the same for runs whose steps all satisfy a condition) and
`meets_of_invariant` (what the invariant implies of a step, every step of such a run satisfies).
`exists_first_failure` cuts a run that does not meet a condition where it first fails it.
-/

namespace Machine

variable {σ ε : Type*}

/-- Take the events in order, stopping at the first that cannot happen. -/
def run (step : σ → ε → Option σ) (s : σ) : List ε → Option σ
  | [] => some s
  | e :: es =>
    match step s e with
    | none => none
    | some s' => run step s' es

/-- Every step of the run from `s` over `es` satisfies `G`. Nothing is asked of the events after
one that cannot happen. -/
def Meets (step : σ → ε → Option σ) (G : σ → ε → Prop) (s : σ) : List ε → Prop
  | [] => True
  | e :: es =>
    G s e ∧
      match step s e with
      | none => True
      | some s' => Meets step G s' es

variable {step : σ → ε → Option σ} {G H : σ → ε → Prop} {s s' s'' : σ} {e : ε} {es es' : List ε}

/-! ## Unfolding -/

@[simp] theorem run_nil : run step s [] = some s := rfl

@[simp] theorem meets_nil : Meets step G s [] := trivial

theorem run_cons (h : step s e = some s') : run step s (e :: es) = run step s' es := by
  simp [run, h]

theorem run_cons_eq_some :
    run step s (e :: es) = some s'' ↔ ∃ s', step s e = some s' ∧ run step s' es = some s'' := by
  cases h : step s e with
  | none => simp [run, h]
  | some s' => simp [run, h]

theorem run_append (h : run step s es = some s') :
    run step s (es ++ es') = run step s' es' := by
  induction es generalizing s with
  | nil =>
    cases h
    rfl
  | cons e es ih =>
    obtain ⟨t, ht, hr⟩ := run_cons_eq_some.mp h
    rw [List.cons_append, run_cons ht]
    exact ih hr

theorem meets_cons :
    Meets step G s (e :: es) ↔ G s e ∧ ∀ s', step s e = some s' → Meets step G s' es := by
  cases h : step s e with
  | none => simp [Meets, h]
  | some s' => simp [Meets, h]

instance decidableMeets [∀ s e, Decidable (G s e)] : ∀ (s : σ) (es : List ε),
    Decidable (Meets step G s es)
  | _, [] => isTrue trivial
  | s, e :: es =>
    match h : step s e with
    | none => decidable_of_iff (G s e) (by simp [meets_cons, h])
    | some s' =>
      have := decidableMeets s' es
      decidable_of_iff (G s e ∧ Meets step G s' es) (by simp [meets_cons, h])

/-- Whether a run ends in a state with a decidable property is found by running it. -/
instance decidableExistsRun {P : σ → Prop} [DecidablePred P] :
    Decidable (∃ s', run step s es = some s' ∧ P s') :=
  match h : run step s es with
  | none => isFalse (by simp)
  | some s' => decidable_of_iff (P s') (by simp)

theorem exists_of_isSome {P : σ → Prop} (h : (run step s es).isSome = true)
    (hP : ∀ s', run step s es = some s' → P s') : ∃ s', run step s es = some s' ∧ P s' := by
  obtain ⟨s', hs'⟩ := Option.isSome_iff_exists.mp h
  exact ⟨s', hs', hP s' hs'⟩

/-! ## Invariants -/

/-- What every step satisfying `G` preserves, every run whose steps satisfy `G` preserves. -/
theorem run_invariant_of_meets {I : σ → Prop}
    (hstep : ∀ s e s', I s → G s e → step s e = some s' → I s')
    (hs : I s) (hm : Meets step G s es) (hr : run step s es = some s') : I s' := by
  induction es generalizing s with
  | nil => cases hr; exact hs
  | cons e es ih =>
    obtain ⟨t, ht, hr'⟩ := run_cons_eq_some.mp hr
    obtain ⟨hg, hm'⟩ := meets_cons.mp hm
    exact ih (hstep s e t hs hg ht) (hm' t ht) hr'

/-- What every state of such a run allows of the next step, every step of the run satisfies. -/
theorem meets_of_invariant {I : σ → Prop}
    (hstep : ∀ s e s', I s → G s e → step s e = some s' → I s')
    (hH : ∀ s e, I s → G s e → H s e) (hs : I s) (hm : Meets step G s es) :
    Meets step H s es := by
  induction es generalizing s with
  | nil => trivial
  | cons e es ih =>
    obtain ⟨hg, hm'⟩ := meets_cons.mp hm
    exact meets_cons.mpr
      ⟨hH s e hs hg, fun s' hs' => ih (hstep s e s' hs hg hs') (hm' s' hs')⟩

/-- A run that does not meet a condition has a first step that fails it. -/
theorem exists_first_failure (hr : run step s es = some s') (h : ¬ Meets step G s es) :
    ∃ es₁ t e t' es₂, Meets step G s es₁ ∧ run step s es₁ = some t ∧ ¬ G t e ∧
      step t e = some t' ∧ run step t' es₂ = some s' := by
  induction es generalizing s with
  | nil => exact absurd meets_nil h
  | cons e es ih =>
    obtain ⟨t, ht, hr'⟩ := run_cons_eq_some.mp hr
    by_cases hg : G s e
    · have hlater : ¬ Meets step G t es := by
        intro hm
        exact h (meets_cons.mpr ⟨hg, fun t' ht' => by cases ht.symm.trans ht'; exact hm⟩)
      obtain ⟨es₁, u, e', u', es₂, hm, hu, hfail, hstep, hrest⟩ := ih hr' hlater
      refine ⟨e :: es₁, u, e', u', es₂, meets_cons.mpr ⟨hg, fun t' ht' => ?_⟩, ?_, hfail, hstep,
        hrest⟩
      · cases ht.symm.trans ht'
        exact hm
      · rw [run_cons ht, hu]
    · exact ⟨[], s, e, t, es, meets_nil, run_nil, hg, ht, hr'⟩

theorem meets_true : Meets step (fun _ _ => True) s es := by
  induction es generalizing s with
  | nil => trivial
  | cons e es ih => exact meets_cons.mpr ⟨trivial, fun _ _ => ih⟩

/-- The beginning of a run that meets a condition meets it. -/
theorem meets_initial (h : es <+: es') (hm : Meets step G s es') : Meets step G s es := by
  induction es generalizing s es' with
  | nil => trivial
  | cons e es ih =>
    obtain ⟨rest, rfl⟩ := h
    obtain ⟨hg, hm'⟩ := meets_cons.mp hm
    exact meets_cons.mpr ⟨hg, fun t ht => ih (List.prefix_append es rest) (hm' t ht)⟩

/-- Where every step that satisfies `G` can happen and preserves `I`, a run whose steps satisfy `G`
reaches its end. -/
theorem exists_run_of_meets {I : σ → Prop}
    (hstep : ∀ s e, I s → G s e → ∃ s', step s e = some s' ∧ I s')
    (hs : I s) (hm : Meets step G s es) : ∃ s', run step s es = some s' ∧ I s' := by
  induction es generalizing s with
  | nil => exact ⟨s, rfl, hs⟩
  | cons e es ih =>
    obtain ⟨hg, hm'⟩ := meets_cons.mp hm
    obtain ⟨t, ht, hI⟩ := hstep s e hs hg
    obtain ⟨s', hr, hI'⟩ := ih hI (hm' t ht)
    exact ⟨s', (run_cons ht).trans hr, hI'⟩

/-- **A condition on the steps is exactly what a property of the states needs**: the steps that
satisfy `G` preserve an invariant that implies `P`, and every other step leads out of `P` or
nowhere. -/
theorem meets_iff_forall_prefix {I P : σ → Prop}
    (hstep : ∀ s e, I s → G s e → ∃ s', step s e = some s' ∧ I s') (hP : ∀ s, I s → P s)
    (hbreak : ∀ s e s', I s → ¬ G s e → step s e = some s' → ¬ P s') (hs : I s) :
    Meets step G s es ↔ ∀ es', es' <+: es → ∃ s', run step s es' = some s' ∧ P s' := by
  constructor
  · intro hm es' hpre
    obtain ⟨s', hr, hI⟩ := exists_run_of_meets hstep hs (meets_initial hpre hm)
    exact ⟨s', hr, hP s' hI⟩
  · intro hall
    induction es generalizing s with
    | nil => trivial
    | cons e es ih =>
      obtain ⟨t, ht, hPt⟩ := hall [e] (by simp)
      rw [run_cons_eq_some] at ht
      obtain ⟨t', ht', hnil⟩ := ht
      cases hnil
      have hg : G s e := by
        by_contra hng
        exact hbreak s e t hs hng ht' hPt
      obtain ⟨u, hu, hIu⟩ := hstep s e hs hg
      cases ht'.symm.trans hu
      refine meets_cons.mpr ⟨hg, fun u hu => ?_⟩
      cases ht'.symm.trans hu
      refine ih hIu fun es' hpre => ?_
      obtain ⟨v, hv, hPv⟩ := hall (e :: es') (by simpa using hpre)
      exact ⟨v, (run_cons ht').symm.trans hv, hPv⟩

/-- **The same for a property that is lost for good**, such as one of every entry of a log: it holds
at the end of a run if and only if every step of the run meets the condition. -/
theorem meets_iff_of_run {I P : σ → Prop}
    (hstep : ∀ s e s', I s → G s e → step s e = some s' → I s') (hP : ∀ s, I s → P s)
    (hbreak : ∀ s e s', I s → ¬ G s e → step s e = some s' → ¬ P s')
    (hlost : ∀ s e s', ¬ P s → step s e = some s' → ¬ P s')
    (hs : I s) (hr : run step s es = some s') : Meets step G s es ↔ P s' := by
  constructor
  · intro hm
    exact hP s' (run_invariant_of_meets hstep hs hm hr)
  · intro hend
    by_contra hnot
    obtain ⟨es₁, t, e, t', es₂, hm, ht, hfail, hnext, hrest⟩ := exists_first_failure hr hnot
    have hbad := hbreak t e t' (run_invariant_of_meets hstep hs hm ht) hfail hnext
    exact run_invariant_of_meets (I := fun s => ¬ P s) (G := fun _ _ => True)
      (fun s e s' h _ => hlost s e s' h) hbad meets_true hrest hend

theorem meets_and (hG : Meets step G s es) (hH : Meets step H s es) :
    Meets step (fun s e => G s e ∧ H s e) s es := by
  induction es generalizing s with
  | nil => trivial
  | cons e es ih =>
    obtain ⟨hg, hG'⟩ := meets_cons.mp hG
    obtain ⟨hh, hH'⟩ := meets_cons.mp hH
    exact meets_cons.mpr ⟨⟨hg, hh⟩, fun s' hs' => ih (hG' s' hs') (hH' s' hs')⟩

/-- A condition that is on the events alone. -/
theorem meets_of_forall {H : ε → Prop} (h : ∀ e ∈ es, H e) : Meets step (fun _ e => H e) s es := by
  induction es generalizing s with
  | nil => trivial
  | cons e es ih =>
    obtain ⟨he, hes⟩ := List.forall_mem_cons.mp h
    exact meets_cons.mpr ⟨he, fun _ _ => ih hes⟩

/-- What every step preserves, every run preserves. -/
theorem run_invariant {I : σ → Prop} (hstep : ∀ s e s', I s → step s e = some s' → I s')
    (hs : I s) (hr : run step s es = some s') : I s' :=
  run_invariant_of_meets (G := fun _ _ => True) (fun s e s' h _ => hstep s e s' h) hs
    meets_true hr

end Machine
