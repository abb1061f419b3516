import Mathlib.Data.List.Perm.Basic
import Mathlib.Data.List.Count

/-!
# Acquiring and releasing

What a program does with memory, handlers and other resources, as a list of operations: it acquires
a resource it does not hold, releases one it holds, and uses one it holds. `held h ops` are the
resources held after `ops` by one that held `h` before. `Passes I h ops` says that all of `ops` are
legal from there and that what is held satisfies `I` at the beginning, between any two operations
and at the end; with nothing asked of the resources held it is `Legal`.

Both compose over `++`, so a function that acquires or releases something has one lemma, and the
lemma of its caller follows from it.
-/

namespace Resource

variable {ρ : Type*}

inductive Op (ρ : Type*) where
  | acquire (r : ρ)
  | release (r : ρ)
  | use (r : ρ)
  deriving DecidableEq

/-- The resource that an operation names. -/
def Op.on : Op ρ → ρ
  | acquire r => r
  | release r => r
  | use r => r

/-- The same operation on another resource. -/
def Op.map {σ : Type*} (f : ρ → σ) : Op ρ → Op σ
  | acquire r => acquire (f r)
  | release r => release (f r)
  | use r => use (f r)

def Op.Legal (h : List ρ) : Op ρ → Prop
  | acquire r => r ∉ h
  | release r => r ∈ h
  | use r => r ∈ h

section Legal

variable {h : List ρ} {r : ρ}

@[simp] theorem legal_acquire : (Op.acquire r).Legal h ↔ r ∉ h := Iff.rfl

@[simp] theorem legal_release : (Op.release r).Legal h ↔ r ∈ h := Iff.rfl

@[simp] theorem legal_use : (Op.use r).Legal h ↔ r ∈ h := Iff.rfl

end Legal

variable [DecidableEq ρ]

def Op.apply (h : List ρ) : Op ρ → List ρ
  | acquire r => r :: h
  | release r => h.erase r
  | use _ => h

instance (h : List ρ) : (op : Op ρ) → Decidable (op.Legal h)
  | .acquire r => inferInstanceAs (Decidable (r ∉ h))
  | .release r => inferInstanceAs (Decidable (r ∈ h))
  | .use r => inferInstanceAs (Decidable (r ∈ h))

/-- A `switch` whose cases fall through, as its labels and what stands under each of them: entered
at `start`, it runs that case and all after it. -/
def fallThrough {κ : Type*} [DecidableEq κ] (cases : List (κ × List (Op ρ))) (start : κ) :
    List (Op ρ) :=
  ((cases.dropWhile fun c => c.1 ≠ start).map Prod.snd).flatten

/-- What is held after the operations. -/
def held (h : List ρ) (ops : List (Op ρ)) : List ρ := ops.foldl Op.apply h

/-- The operations are legal, and what is held satisfies `I` all the way. -/
def Passes (I : List ρ → Prop) (h : List ρ) : List (Op ρ) → Prop
  | [] => I h
  | op :: ops => I h ∧ op.Legal h ∧ Passes I (op.apply h) ops

/-- Nothing is acquired twice, and nothing is released or used that is not held. -/
def Legal (h : List ρ) (ops : List (Op ρ)) : Prop := Passes (fun _ => True) h ops

instance decidablePasses {I : List ρ → Prop} [DecidablePred I] :
    ∀ (h : List ρ) (ops : List (Op ρ)), Decidable (Passes I h ops)
  | h, [] => inferInstanceAs (Decidable (I h))
  | h, op :: ops =>
    have := decidablePasses (I := I) (op.apply h) ops
    inferInstanceAs (Decidable (I h ∧ op.Legal h ∧ Passes I (op.apply h) ops))

instance (h : List ρ) (ops : List (Op ρ)) : Decidable (Legal h ops) :=
  inferInstanceAs (Decidable (Passes (fun _ => True) h ops))

variable {I J : List ρ → Prop} {h h' f : List ρ} {ops ops' : List (Op ρ)} {op : Op ρ} {r : ρ}

/-! ## One operation after the other -/

@[simp] theorem held_nil : held h [] = h := rfl

@[simp] theorem held_cons : held h (op :: ops) = held (op.apply h) ops := rfl

theorem held_append : held h (ops ++ ops') = held (held h ops) ops' := List.foldl_append

@[simp] theorem apply_acquire : (Op.acquire r).apply h = r :: h := rfl

@[simp] theorem apply_release : (Op.release r).apply h = h.erase r := rfl

@[simp] theorem apply_use : (Op.use r).apply h = h := rfl

@[simp] theorem passes_nil : Passes I h [] ↔ I h := Iff.rfl

@[simp] theorem passes_cons :
    Passes I h (op :: ops) ↔ I h ∧ op.Legal h ∧ Passes I (op.apply h) ops := Iff.rfl

@[simp] theorem Legal.nil : Legal h [] := trivial

@[simp] theorem legal_cons : Legal h (op :: ops) ↔ op.Legal h ∧ Legal (op.apply h) ops := by
  simp [Legal]

theorem Passes.start (hp : Passes I h ops) : I h := by
  cases ops with
  | nil => exact hp
  | cons op ops => exact hp.1

theorem passes_append :
    Passes I h (ops ++ ops') ↔ Passes I h ops ∧ Passes I (held h ops) ops' := by
  induction ops generalizing h with
  | nil => exact ⟨fun hp => ⟨hp.start, hp⟩, fun hp => hp.2⟩
  | cons op ops ih =>
    rw [List.cons_append, passes_cons, passes_cons, ih, held_cons]
    tauto

theorem legal_append : Legal h (ops ++ ops') ↔ Legal h ops ∧ Legal (held h ops) ops' :=
  passes_append

theorem Passes.mono (hp : Passes I h ops) (hIJ : ∀ h, I h → J h) : Passes J h ops := by
  induction ops generalizing h with
  | nil => exact hIJ h hp
  | cons op ops ih => exact ⟨hIJ h hp.1, hp.2.1, ih hp.2.2⟩

theorem Passes.legal (hp : Passes I h ops) : Legal h ops := hp.mono fun _ _ => trivial

/-! ## What a legal list of operations says -/

/-- What holds all the way holds after each part of the way. -/
theorem Passes.prefix {before after : List (Op ρ)} (hp : Passes I h (before ++ after)) :
    I (held h before) := (passes_append.mp hp).2.start

/-- Each operation is legal where it stands. -/
theorem Legal.at {before after : List (Op ρ)} (hl : Legal h (before ++ op :: after)) :
    op.Legal (held h before) := (legal_cons.mp (legal_append.mp hl).2).1

theorem Op.Legal.nodup (hl : op.Legal h) (hn : h.Nodup) : (op.apply h).Nodup := by
  cases op with
  | acquire r => exact List.nodup_cons.mpr ⟨hl, hn⟩
  | release r => exact hn.erase r
  | use r => exact hn

theorem Legal.nodup (hl : Legal h ops) (hn : h.Nodup) : (held h ops).Nodup := by
  induction ops generalizing h with
  | nil => exact hn
  | cons op ops ih =>
    obtain ⟨hop, hops⟩ := legal_cons.mp hl
    exact ih hops (hop.nodup hn)

/-- **Exactly once per acquisition**: what was acquired has been released as often, but for what is
still held. -/
theorem Legal.count (hl : Legal h ops) (r : ρ) :
    h.count r + ops.count (.acquire r) = ops.count (.release r) + (held h ops).count r := by
  induction ops generalizing h with
  | nil => simp
  | cons op ops ih =>
    obtain ⟨hop, hops⟩ := legal_cons.mp hl
    have := ih hops
    rw [held_cons]
    cases op with
    | acquire q =>
      rw [apply_acquire] at this ⊢
      rw [List.count_cons] at this
      by_cases hq : q = r
      · subst hq
        simp only [List.count_cons_self, BEq.rfl, if_true] at this ⊢
        rw [List.count_cons_of_ne (by simp)]
        omega
      · rw [List.count_cons_of_ne (by simpa using hq), List.count_cons_of_ne (by simp)]
        simpa [hq] using this
    | release q =>
      rw [apply_release] at this ⊢
      rw [List.count_cons_of_ne (by simp)]
      by_cases hq : q = r
      · subst hq
        have : 0 < h.count q := List.count_pos_iff.mpr hop
        rw [List.count_erase_self] at *
        rw [List.count_cons_self]
        omega
      · rw [List.count_cons_of_ne (by simpa using hq)]
        rw [List.count_erase_of_ne (by simpa using Ne.symm hq)] at this
        exact this
    | use q =>
      rw [List.count_cons_of_ne (by simp), List.count_cons_of_ne (by simp)]
      exact this

/-! ## What is owned

`Owns ops l` says that `ops`, from the beginning, are legal and leave `l` held, in any order. -/

def Owns (ops : List (Op ρ)) (l : List ρ) : Prop := Legal [] ops ∧ (held [] ops).Perm l

variable {l l' rs : List ρ}

theorem owns_nil : Owns ([] : List (Op ρ)) [] := ⟨trivial, .refl _⟩

theorem Owns.perm (ho : Owns ops l) (hp : l.Perm l') : Owns ops l' := ⟨ho.1, ho.2.trans hp⟩

theorem Owns.held_eq_nil (ho : Owns ops []) : held [] ops = [] := ho.2.eq_nil

theorem Owns.nodup (ho : Owns ops l) : l.Nodup := ho.2.nodup_iff.mp (ho.1.nodup List.nodup_nil)

theorem Owns.concat (ho : Owns ops l) :
    Legal [] (ops ++ [op]) ↔ op.Legal (held [] ops) := by
  simp [legal_append, ho.1]

theorem Owns.acquire (ho : Owns ops l) (hr : r ∉ l) : Owns (ops ++ [.acquire r]) (r :: l) := by
  have hnew : r ∉ held [] ops := fun hmem => hr (ho.2.mem_iff.mp hmem)
  refine ⟨ho.concat.mpr hnew, ?_⟩
  rw [held_append]
  exact ho.2.cons r

theorem Owns.release (ho : Owns ops (r :: l)) : Owns (ops ++ [.release r]) l := by
  have hr : r ∈ held [] ops := ho.2.mem_iff.mpr (List.mem_cons_self ..)
  refine ⟨ho.concat.mpr hr, ?_⟩
  rw [held_append]
  have hperm := ho.2.erase r
  rwa [List.erase_cons_head] at hperm

theorem Owns.use (ho : Owns ops l) (hr : r ∈ l) : Owns (ops ++ [.use r]) l := by
  refine ⟨ho.concat.mpr (ho.2.mem_iff.mpr hr), ?_⟩
  rw [held_append]
  exact ho.2

theorem Owns.uses (ho : Owns ops l) (hrs : ∀ r ∈ rs, r ∈ l) : Owns (ops ++ rs.map .use) l := by
  induction rs generalizing ops with
  | nil => simpa using ho
  | cons r rs ih =>
    obtain ⟨hr, hrs⟩ := List.forall_mem_cons.mp hrs
    have := ih (ho.use hr) hrs
    rwa [List.append_assoc] at this

/-- Operations on a part of the resources, next to others that are owned. -/
theorem Owns.embed {σ : Type*} [DecidableEq σ] {f : σ → ρ} {k : List σ} {part : List (Op σ)}
    (hf : Function.Injective f) (hl : ∀ q, f q ∉ l) (hpart : Legal k part)
    (ho : Owns ops (k.map f ++ l)) :
    Owns (ops ++ part.map (.map f)) ((held k part).map f ++ l) := by
  induction part generalizing k ops with
  | nil => simpa using ho
  | cons op part ih =>
    obtain ⟨hop, hrest⟩ := legal_cons.mp hpart
    have hone : Owns (ops ++ [op.map f]) ((op.apply k).map f ++ l) := by
      cases op with
      | acquire q =>
        have hq : f q ∉ k.map f := fun hmem => hop ((List.mem_map_of_injective hf).mp hmem)
        exact ho.acquire (List.not_mem_append hq (hl q))
      | release q =>
        have hperm : (k.map f).Perm (f q :: (k.erase q).map f) :=
          (List.perm_cons_erase hop).map f
        exact (ho.perm (hperm.append_right l)).release
      | use q => exact ho.use (List.mem_append_left l (List.mem_map_of_mem hop))
    have := ih hrest hone
    rwa [List.append_assoc] at this

/-- What is not owned cannot be released. -/
theorem Owns.not_release (ho : Owns ops l) (hr : r ∉ l) : ¬ Legal [] (ops ++ [.release r]) :=
  fun hl => hr (ho.2.mem_iff.mp (ho.concat.mp hl))

/-- One after the other, each of `rs` is used a last time and released. -/
theorem Owns.releases (ho : Owns ops (rs ++ l)) :
    Owns (ops ++ rs.flatMap fun r => [.use r, .release r]) l := by
  induction rs generalizing ops with
  | nil => simpa using ho
  | cons r rs ih =>
    have hlast := (ho.use (List.mem_cons_self ..)).release
    rw [List.append_assoc] at hlast
    have := ih hlast
    rwa [List.append_assoc, List.append_assoc] at this

/-! ## What a piece of code releases -/

/-- Where `rs` and more is owned, `ops` releases `rs`, and the rest is owned afterwards. -/
def Releases (ops : List (Op ρ)) (rs : List ρ) : Prop :=
  ∀ ⦃before l⦄, Owns before (rs ++ l) → Owns (before ++ ops) l

theorem releases_nil : Releases ([] : List (Op ρ)) [] := by
  intro before l ho
  rwa [List.append_nil]

theorem releases_singleton : Releases [.release r] [r] := fun _ _ ho => ho.release

theorem Releases.perm {rs' : List ρ} (h : Releases ops rs) (hp : rs.Perm rs') :
    Releases ops rs' :=
  fun _ l ho => h (ho.perm (hp.symm.append_right l))

theorem Releases.flatMap {α : Type*} {xs : List α} {f : α → List (Op ρ)} {g : α → List ρ}
    (h : ∀ x ∈ xs, Releases (f x) (g x)) : Releases (xs.flatMap f) (xs.flatMap g) := by
  induction xs with
  | nil => exact releases_nil
  | cons x xs ih =>
    intro before l ho
    rw [List.flatMap_cons, List.append_assoc] at ho
    have hfirst := h x List.mem_cons_self ho
    rw [List.flatMap_cons, ← List.append_assoc]
    exact ih (fun y hy => h y (List.mem_cons_of_mem _ hy)) hfirst

/-- A `switch` releases what the case it is entered at and all cases after it release. -/
theorem releases_fallThrough {κ : Type*} [DecidableEq κ] {cases : List (κ × List (Op ρ))}
    {owned : κ → List ρ} (h : ∀ c ∈ cases, Releases c.2 (owned c.1)) (start : κ) :
    Releases (fallThrough cases start)
      ((cases.dropWhile fun c => c.1 ≠ start).flatMap fun c => owned c.1) :=
  Releases.flatMap fun c hc => h c ((List.dropWhile_sublist _).subset hc)

end Resource
