import Mathlib.Data.List.Nodup
import Mathlib.Logic.Function.Basic

/-!
# Intrusive circular lists

Doubly linked lists in which the links are members of the entries and the list is closed over a head
that is no entry. All lists share one store, `Links`, since an entry moves from one to another. A
link that leads nowhere (that of an entry that was taken out) is `none`.

* `Path f a xs b` — following `f` from `a` leads through `xs` to `b`; it depends on `f` at `a` and
  `xs` only (`Path.congr`).
* `Ring l head xs` — the list at `head` holds the entries `xs`, in this order.

Either direction of a list is a path, so that adding and taking out an entry are each one lemma
about paths (`Path.insert`, `Path.remove`), used for `next` and, on the reversed list, for `prev`.
-/

namespace ListHead

variable {α : Type*} {f g : α → Option α} {a b e n p : α} {xs ys : List α}

/-! ## Paths -/

/-- From `a` through `xs` to `b`. -/
def Path (f : α → Option α) (a : α) : List α → α → Prop
  | [], b => f a = some b
  | x :: xs, b => f a = some x ∧ Path f x xs b

theorem Path.congr (h : Path f a xs b) (hfg : ∀ x ∈ a :: xs, g x = f x) : Path g a xs b := by
  induction xs generalizing a with
  | nil => exact (hfg a List.mem_cons_self).trans h
  | cons x xs ih =>
    refine ⟨(hfg a List.mem_cons_self).trans h.1, ih h.2 fun y hy => ?_⟩
    exact hfg y (List.mem_cons_of_mem _ hy)

/-- The first step of a path. -/
theorem Path.head (h : Path f a xs b) : f a = (xs ++ [b]).head? := by
  cases xs with
  | nil => exact h
  | cons x xs => exact h.1

theorem Path.append (h : Path f a (xs ++ e :: ys) b) : Path f a xs e ∧ Path f e ys b := by
  induction xs generalizing a with
  | nil => exact h
  | cons x xs ih =>
    obtain ⟨h₁, h₂⟩ := ih h.2
    exact ⟨⟨h.1, h₁⟩, h₂⟩

/-- The step from an entry in the middle. -/
theorem Path.next (h : Path f a (xs ++ e :: ys) b) : f e = (ys ++ [b]).head? := h.append.2.head

/-- The last node before a place in the list is the first before it in the reversed one. -/
theorem mem_of_head? (h : (xs.reverse ++ [a]).head? = some p) : p ∈ a :: xs := by
  have hmem := List.mem_of_head? h
  simpa [or_comm] using hmem

theorem head?_reverse_cons (x : α) : ((x :: xs).reverse ++ [a]).head? =
    (xs.reverse ++ [x]).head? := by
  rw [List.reverse_cons, List.head?_append_of_ne_nil _ (by simp)]

variable [DecidableEq α]

/-- Taking an entry out: the node before it skips it. -/
theorem Path.remove (h : Path f a (xs ++ e :: ys) b) (hnd : (a :: (xs ++ e :: ys)).Nodup)
    (hp : (xs.reverse ++ [a]).head? = some p) :
    Path (Function.update f p (f e)) a (xs ++ ys) b := by
  induction xs generalizing a with
  | nil =>
    -- the node before `e` is where the path begins, and the rest does not come back to it
    obtain rfl : a = p := Option.some.inj hp
    have hfirst : Function.update f a (f e) a = f e := Function.update_self ..
    cases ys with
    | nil => exact hfirst.trans h.2
    | cons y ys =>
      refine ⟨hfirst.trans h.2.1, h.2.2.congr fun x hx => Function.update_of_ne ?_ _ _⟩
      rintro rfl
      exact (List.nodup_cons.mp hnd).1 (List.mem_cons_of_mem _ hx)
  | cons x xs ih =>
    obtain ⟨ha, hnd⟩ := List.nodup_cons.mp hnd
    rw [head?_reverse_cons] at hp
    refine ⟨?_, ih h.2 hnd hp⟩
    rw [Function.update_of_ne, h.1]
    rintro rfl
    exact ha (List.mem_append_left (e :: ys) (mem_of_head? hp))

/-- Putting an entry in: the node before it leads to it, and it to where that node led. -/
theorem Path.insert (h : Path f a (xs ++ ys) b) (hnd : (a :: (xs ++ ys)).Nodup)
    (hn : n ∉ a :: (xs ++ ys)) (hp : (xs.reverse ++ [a]).head? = some p) :
    Path (Function.update (Function.update f n (f p)) p (some n)) a (xs ++ n :: ys) b := by
  induction xs generalizing a with
  | nil =>
    obtain rfl : a = p := Option.some.inj hp
    have hne : n ≠ a := fun heq => hn (heq ▸ List.mem_cons_self)
    refine ⟨Function.update_self .., ?_⟩
    have hfirst : Function.update (Function.update f n (f a)) a (some n) n = f a := by
      rw [Function.update_of_ne hne, Function.update_self]
    cases ys with
    | nil => exact hfirst.trans h
    | cons y ys =>
      refine ⟨hfirst.trans h.1, h.2.congr fun x hx => ?_⟩
      have hxa : x ≠ a := by
        rintro rfl
        exact (List.nodup_cons.mp hnd).1 hx
      have hxn : x ≠ n := by
        rintro rfl
        exact hn (List.mem_cons_of_mem _ hx)
      rw [Function.update_of_ne hxa, Function.update_of_ne hxn]
  | cons x xs ih =>
    obtain ⟨ha, hnd⟩ := List.nodup_cons.mp hnd
    rw [head?_reverse_cons] at hp
    refine ⟨?_, ih h.2 hnd (List.not_mem_of_not_mem_cons hn) hp⟩
    have hap : a ≠ p := by
      rintro rfl
      exact ha (List.mem_append_left ys (mem_of_head? hp))
    have han : a ≠ n := fun heq => hn (heq ▸ List.mem_cons_self)
    rw [Function.update_of_ne hap, Function.update_of_ne han, h.1]

/-! ## The store and its operations -/

/-- The `next` and `prev` members of all nodes, heads and entries. -/
structure Links (α : Type*) where
  next : α → Option α
  prev : α → Option α

namespace Links

def setNext (l : Links α) (a b : α) : Links α :=
  { l with next := Function.update l.next a (some b) }

def setPrev (l : Links α) (a b : α) : Links α :=
  { l with prev := Function.update l.prev a (some b) }

/-- Neither link of `a` leads anywhere any more. -/
def poison (l : Links α) (a : α) : Links α where
  next := Function.update l.next a none
  prev := Function.update l.prev a none

/-- The list at `head` is empty. -/
def initListHead (l : Links α) (head : α) : Links α := (l.setNext head head).setPrev head head

/-- Put `new` first in the list at `head`. -/
def listAdd (l : Links α) (new head : α) : Option (Links α) :=
  match l.next head with
  | none => none
  | some next => some ((((l.setPrev next new).setNext new next).setPrev new head).setNext head new)

/-- Take `entry` out of whichever list it is in. -/
def listDel (l : Links α) (entry : α) : Option (Links α) :=
  match l.prev entry, l.next entry with
  | some prev, some next => some (((l.setPrev next prev).setNext prev next).poison entry)
  | _, _ => none

/-- Take `entry` out of whichever list it is in, and make it a list of its own, which is empty. -/
def listDelInit (l : Links α) (entry : α) : Option (Links α) :=
  match l.prev entry, l.next entry with
  | some prev, some next => some (((l.setPrev next prev).setNext prev next).initListHead entry)
  | _, _ => none

/-- The entries that a walk comes to from a link, up to the head or to a link that leads nowhere,
but `n` at most. -/
def entriesFrom (l : Links α) (head : α) : Nat → Option α → List α
  | n + 1, some a => if a = head then [] else a :: l.entriesFrom head n (l.next a)
  | _, _ => []

/-- The entries of the list at `head`, of which there are `n` at most. -/
def entries (l : Links α) (head : α) (n : Nat) : List α := l.entriesFrom head n (l.next head)

end Links

/-! ## Lists -/

/-- The list at `head` holds `xs`. -/
structure Ring (l : Links α) (head : α) (xs : List α) : Prop where
  next : Path l.next head xs head
  prev : Path l.prev head xs.reverse head
  nodup : (head :: xs).Nodup

variable {l l' : Links α} {head new : α}

omit [DecidableEq α] in
/-- A list is where its nodes' links are. -/
theorem Ring.congr (h : Ring l head xs)
    (hl : ∀ x ∈ head :: xs, l'.next x = l.next x ∧ l'.prev x = l.prev x) : Ring l' head xs where
  next := h.next.congr fun x hx => (hl x hx).1
  prev := h.prev.congr fun x hx => (hl x (by simpa using hx)).2
  nodup := h.nodup

theorem ring_initListHead : Ring (l.initListHead head) head [] where
  next := Function.update_self ..
  prev := Function.update_self ..
  nodup := List.nodup_singleton _

omit [DecidableEq α] in
theorem Ring.head_not_mem (h : Ring l head xs) : head ∉ xs := (List.nodup_cons.mp h.nodup).1

omit [DecidableEq α] in
/-- The first entry, or the head of an empty list. -/
theorem Ring.next_head (h : Ring l head xs) : l.next head = (xs ++ [head]).head? := h.next.head

omit [DecidableEq α] in
theorem Ring.nodup_reverse (h : Ring l head xs) : (head :: xs.reverse).Nodup :=
  List.nodup_cons.mpr
    ⟨by simpa using h.head_not_mem, List.nodup_reverse.mpr (List.nodup_cons.mp h.nodup).2⟩

theorem Ring.listAdd (h : Ring l head xs) (hnew : new ∉ head :: xs) :
    ∃ l', l.listAdd new head = some l' ∧ Ring l' head (new :: xs) ∧
      (∀ x ∉ new :: head :: xs, l'.next x = l.next x ∧ l'.prev x = l.prev x) ∧
      ∀ x, x ≠ new → x ≠ head → l'.next x = l.next x := by
  obtain ⟨next, hnext⟩ : ∃ next, (xs ++ [head]).head? = some next :=
    ⟨_, List.head?_eq_some_head (by simp)⟩
  have hmem : next ∈ head :: xs := by
    have := List.mem_of_head? hnext
    simpa [or_comm] using this
  have hne : new ≠ next := fun heq => hnew (heq ▸ hmem)
  have hhead : new ≠ head := fun heq => hnew (heq ▸ List.mem_cons_self)
  refine ⟨_, by rw [Links.listAdd, h.next_head, hnext], ⟨?_, ?_, ?_⟩, ?_, ?_⟩
  · have hpath : Path (Function.update (Function.update l.next new (l.next head)) head (some new))
        head ([] ++ new :: xs) head := Path.insert h.next h.nodup hnew rfl
    rw [h.next_head, hnext] at hpath
    exact hpath
  · -- backwards, the new entry is the last before the head
    have hpath : Path (Function.update (Function.update l.prev new (l.prev next)) next (some new))
        head (xs.reverse ++ [new]) head := Path.insert
      (by rw [List.append_nil]; exact h.prev) (by rw [List.append_nil]; exact h.nodup_reverse)
      (by simpa using hnew) (by rw [List.reverse_reverse]; exact hnext)
    -- what the new entry gets as its `prev` is the head: it led there from the old first entry
    have hback : l.prev next = some head := by
      cases xs with
      | nil =>
        cases hnext
        exact h.prev
      | cons x xs =>
        cases hnext
        have hlast := h.prev
        rw [List.reverse_cons] at hlast
        exact hlast.next
    rw [hback] at hpath
    show Path (Function.update (Function.update l.prev next (some new)) new (some head)) head
      (new :: xs).reverse head
    rw [Function.update_comm hne.symm, List.reverse_cons]
    exact hpath
  · refine List.nodup_cons.mpr ⟨?_, List.nodup_cons.mpr ⟨?_, (List.nodup_cons.mp h.nodup).2⟩⟩
    · intro hin
      rcases List.mem_cons.mp hin with heq | hin
      · exact hhead heq.symm
      · exact h.head_not_mem hin
    · exact List.not_mem_of_not_mem_cons hnew
  · intro x hx
    have hxnew : x ≠ new := fun heq => hx (heq ▸ List.mem_cons_self)
    have hxin : x ∉ head :: xs := List.not_mem_of_not_mem_cons hx
    have hxhead : x ≠ head := fun heq => hxin (heq ▸ List.mem_cons_self)
    have hxnext : x ≠ next := fun heq => hxin (heq ▸ hmem)
    simp [Links.setNext, Links.setPrev, hxnew, hxhead, hxnext]
  · intro x hxnew hxhead
    simp [Links.setNext, Links.setPrev, hxnew, hxhead]

omit [DecidableEq α] in
/-- The neighbours of an entry. -/
theorem Ring.neighbours (h : Ring l head (xs ++ e :: ys)) : ∃ prev next,
    l.prev e = some prev ∧ l.next e = some next ∧
      (xs.reverse ++ [head]).head? = some prev ∧ (ys ++ [head]).head? = some next := by
  obtain ⟨prev, hprev⟩ : ∃ prev, (xs.reverse ++ [head]).head? = some prev :=
    ⟨_, List.head?_eq_some_head (by simp)⟩
  obtain ⟨next, hnext⟩ : ∃ next, (ys ++ [head]).head? = some next :=
    ⟨_, List.head?_eq_some_head (by simp)⟩
  have hback := h.prev
  rw [List.reverse_append, List.reverse_cons, List.append_assoc, List.singleton_append] at hback
  exact ⟨prev, next, hback.next.trans hprev, h.next.next.trans hnext, hprev, hnext⟩

omit [DecidableEq α] in
/-- An entry is in its list once. -/
theorem Ring.not_mem_rest (h : Ring l head (xs ++ e :: ys)) : e ∉ head :: (xs ++ ys) := by
  have hnd := h.nodup
  simp only [List.nodup_cons, List.mem_append, List.mem_cons, List.nodup_append] at hnd ⊢
  grind

/-- Taking an entry out, once its neighbours are known. -/
theorem Ring.unlink (h : Ring l head (xs ++ e :: ys)) (hprev : l.prev e = some p)
    (hnext : l.next e = some n) :
    Ring ((l.setPrev n p).setNext p n) head (xs ++ ys) ∧
      ∀ x ∉ head :: (xs ++ ys),
        ((l.setPrev n p).setNext p n).next x = l.next x ∧
          ((l.setPrev n p).setNext p n).prev x = l.prev x := by
  obtain ⟨p', n', hp', hn', hp, hn⟩ := h.neighbours
  cases (Option.some.inj (hprev.symm.trans hp'))
  cases (Option.some.inj (hnext.symm.trans hn'))
  refine ⟨⟨?_, ?_, ?_⟩, fun x hx => ⟨?_, ?_⟩⟩
  · have hpath := h.next.remove h.nodup hp
    rw [hnext] at hpath
    exact hpath
  · -- backwards, the node before `e` is the one after it
    have hrev : (xs ++ e :: ys).reverse = ys.reverse ++ e :: xs.reverse := by simp
    have hpath := Path.remove (hrev ▸ h.prev) (hrev ▸ h.nodup_reverse)
      (by rw [List.reverse_reverse]; exact hn)
    rw [hprev] at hpath
    show Path (Function.update l.prev n (some p)) head (xs ++ ys).reverse head
    rw [List.reverse_append]
    exact hpath
  · refine List.Nodup.sublist (List.Sublist.cons_cons head ?_) h.nodup
    exact List.Sublist.append (List.Sublist.refl xs) (List.sublist_cons_self e ys)
  · apply Function.update_of_ne
    rintro rfl
    have hin := mem_of_head? hp
    exact hx (by simp only [List.mem_cons, List.mem_append] at hin ⊢; tauto)
  · apply Function.update_of_ne
    rintro rfl
    have hin := List.mem_of_head? hn
    exact hx (by simp only [List.mem_cons, List.mem_append, List.mem_nil_iff] at hin ⊢; tauto)

/-- What is in no list can be poisoned. -/
theorem Ring.poison (h : Ring l head xs) (he : e ∉ head :: xs) : Ring (l.poison e) head xs := by
  apply h.congr
  intro x hx
  have hne : x ≠ e := fun heq => he (heq ▸ hx)
  exact ⟨Function.update_of_ne hne .., Function.update_of_ne hne ..⟩

theorem Ring.listDel (h : Ring l head (xs ++ e :: ys)) :
    ∃ l', l.listDel e = some l' ∧ Ring l' head (xs ++ ys) ∧
      ∀ x ∉ head :: (xs ++ e :: ys), l'.next x = l.next x ∧ l'.prev x = l.prev x := by
  obtain ⟨prev, next, hprev, hnext, -, -⟩ := h.neighbours
  obtain ⟨hring, hframe⟩ := h.unlink hprev hnext
  refine ⟨_, by rw [Links.listDel, hprev, hnext], hring.poison h.not_mem_rest, fun x hx => ?_⟩
  have hxe : x ≠ e := by
    rintro rfl
    exact hx (by simp)
  have hx' : x ∉ head :: (xs ++ ys) := by
    simp only [List.mem_cons, List.mem_append] at hx ⊢
    tauto
  refine ⟨?_, ?_⟩
  · exact (Function.update_of_ne hxe ..).trans (hframe x hx').1
  · exact (Function.update_of_ne hxe ..).trans (hframe x hx').2

theorem Ring.listDelInit (h : Ring l head (xs ++ e :: ys)) :
    ∃ l', l.listDelInit e = some l' ∧ Ring l' head (xs ++ ys) := by
  obtain ⟨prev, next, hprev, hnext, -, -⟩ := h.neighbours
  obtain ⟨hring, -⟩ := h.unlink hprev hnext
  refine ⟨_, by rw [Links.listDelInit, hprev, hnext], hring.congr fun x hx => ?_⟩
  have hne : x ≠ e := fun heq => h.not_mem_rest (heq ▸ hx)
  exact ⟨Function.update_of_ne hne .., Function.update_of_ne hne ..⟩

theorem entriesFrom_path {m : Nat} (h : Path l.next a xs head) (hhead : head ∉ xs)
    (hm : xs.length < m) : l.entriesFrom head m (l.next a) = xs := by
  induction xs generalizing a m with
  | nil =>
    cases m with
    | zero => cases hm
    | succ m =>
      have hnext : l.next a = some head := h
      rw [hnext, Links.entriesFrom, if_pos rfl]
  | cons x xs ih =>
    cases m with
    | zero => cases hm
    | succ m =>
      have hx : x ≠ head := (List.ne_of_not_mem_cons hhead).symm
      have hxs : head ∉ xs := List.not_mem_of_not_mem_cons hhead
      rw [h.1, Links.entriesFrom, if_neg hx, ih h.2 hxs (Nat.lt_of_succ_lt_succ hm)]

theorem Ring.entries {m : Nat} (h : Ring l head xs) (hm : xs.length < m) :
    l.entries head m = xs :=
  entriesFrom_path h.next h.head_not_mem hm

/-! ## Links that stay inside

Every operation links only nodes that it was given or that it found linked. -/

section Inside

variable {P : α → Prop}

/-- Wherever a link leads, `P` holds. -/
def Links.Inside (P : α → Prop) (l : Links α) : Prop :=
  ∀ a b, l.next a = some b ∨ l.prev a = some b → P b

omit [DecidableEq α] in
theorem Links.Inside.next (h : l.Inside P) (hn : l.next a = some b) : P b := h a b (.inl hn)

omit [DecidableEq α] in
theorem Links.Inside.prev (h : l.Inside P) (hp : l.prev a = some b) : P b := h a b (.inr hp)

theorem Links.Inside.setNext (h : l.Inside P) (hb : P b) : (l.setNext a b).Inside P := by
  rintro x y (hy | hy)
  · by_cases hx : x = a
    · subst hx
      cases (Function.update_self ..).symm.trans hy
      exact hb
    · exact h.next ((Function.update_of_ne hx ..).symm.trans hy)
  · exact h.prev hy

theorem Links.Inside.setPrev (h : l.Inside P) (hb : P b) : (l.setPrev a b).Inside P := by
  rintro x y (hy | hy)
  · exact h.next hy
  · by_cases hx : x = a
    · subst hx
      cases (Function.update_self ..).symm.trans hy
      exact hb
    · exact h.prev ((Function.update_of_ne hx ..).symm.trans hy)

theorem Links.Inside.poison (h : l.Inside P) : (l.poison a).Inside P := by
  intro x y hy
  by_cases hx : x = a
  · subst hx
    simp [Links.poison] at hy
  · simp only [Links.poison, Function.update_of_ne hx] at hy
    exact h x y hy

theorem Links.Inside.initListHead (h : l.Inside P) (hhead : P head) :
    (l.initListHead head).Inside P :=
  (h.setNext hhead).setPrev hhead

theorem Links.Inside.listAdd (h : l.Inside P) (hnew : P new) (hhead : P head)
    (hl : l.listAdd new head = some l') : l'.Inside P := by
  unfold Links.listAdd at hl
  split at hl
  · cases hl
  next next hnext =>
    cases hl
    exact (((h.setPrev hnew).setNext (h.next hnext)).setPrev hhead).setNext hnew

theorem Links.Inside.listDel (h : l.Inside P) (hl : l.listDel e = some l') : l'.Inside P := by
  unfold Links.listDel at hl
  split at hl
  next prev next hprev hnext =>
    cases hl
    exact ((h.setPrev (h.prev hprev)).setNext (h.next hnext)).poison
  · cases hl

end Inside

end ListHead
