import ModemFhss.CharDriver.Probe
import ModemFhss.Net.Probe

/-!
# Emptying a kset

`clean_dir` and `destroy_objects` walk over the children of a kset and destroy them as they go. The
link to the next child is read before a child is destroyed, and the walk is over when that link led
to the head. What `kobject_del` and `kobject_put` do is the kernel's: `Kobjects`, of which
`Documented` says what the walk relies on.

Half-way through (`Midway`) the list holds the children that remain, in order; each of the others
was taken out and put, once, and no link of it was touched since. One round takes one child over
(`midway_round`), and so the whole walk all of them (`destroyLoop_midway`).
-/

namespace ModemFhss.Registers

open ListHead Log Resource

/-! ## The kernel -/

/-- What happens in a walk. -/
inductive Call (α : Type*) where
  /-- A link of this node is read, or written. -/
  | link (x : α)
  | kobjectDel (x : α)
  | kobjectPut (x : α)
  | ksetUnregister (head : α)
  deriving DecidableEq

structure Kobjects (α : Type*) where
  /-- The links after `kobject_del`; `none` if it follows a link that leads nowhere. -/
  kobjectDel : Links α → α → Option (Links α)
  /-- The nodes whose links `kobject_del` reads or writes. -/
  touched : Links α → α → List α
  kobjectPut : Links α → α → Links α

variable {α : Type*}

structure Kobjects.Documented (k : Kobjects α) : Prop where
  /-- `kobject_del` takes the object out of the list of its kset. -/
  unlinks : ∀ {l : Links α} {head e : α} {xs ys : List α}, Ring l head (xs ++ e :: ys) →
    ∃ l', k.kobjectDel l e = some l' ∧ Ring l' head (xs ++ ys)
  /-- For that it needs the object and its neighbours. -/
  neighbours : ∀ {l : Links α} {e x : α}, x ∈ k.touched l e →
    x = e ∨ l.next e = some x ∨ l.prev e = some x
  /-- `kobject_put` may free the object, and no other. -/
  frees : ∀ {l : Links α} {e x : α}, x ≠ e →
    (k.kobjectPut l e).next x = l.next x ∧ (k.kobjectPut l e).prev x = l.prev x

/-! ## The walk -/

/-- The links, and what has happened. -/
structure Teardown (α : Type*) where
  links : Links α
  log : List (Call α)

namespace Teardown

/-- `x->next`, read. -/
def readNext (s : Teardown α) (x : α) : Option α × Teardown α :=
  (s.links.next x, { s with log := s.log ++ [.link x] })

def del (k : Kobjects α) (s : Teardown α) (x : α) : Option (Teardown α) :=
  (k.kobjectDel s.links x).map fun links =>
    { links, log := s.log ++ .kobjectDel x :: (k.touched s.links x).map .link }

def put (k : Kobjects α) (s : Teardown α) (x : α) : Teardown α :=
  { links := k.kobjectPut s.links x, log := s.log ++ [.kobjectPut x] }

end Teardown

/-- The body of the loop: `next` and what has become of the list. -/
def destroyRound (k : Kobjects α) (s : Teardown α) (curr : α) : Option (Option α × Teardown α) :=
  let (next, s) := s.readNext curr
  (s.del k curr).map fun s => (next, s.put k curr)

section Walk

variable [DecidableEq α]

/-- The loop, for `fuel` rounds at most. -/
def destroyLoop (k : Kobjects α) (head : α) :
    Nat → Option α → Option α → Teardown α → Option (Teardown α)
  | 0, _, _, _ => none
  | fuel + 1, curr, next, s =>
    if next = some head then
      some s
    else
      match curr with
      | none => none
      | some curr =>
        match destroyRound k s curr with
        | none => none
        | some (next, s) => destroyLoop k head fuel next next s

/-- What the two functions have in common. -/
def destroyChildren (k : Kobjects α) (fuel : Nat) (head : α) (s : Teardown α) :
    Option (Teardown α) :=
  let (first, s) := s.readNext head
  if first ≠ some head then
    let (curr, s) := s.readNext head
    destroyLoop k head fuel curr none s
  else
    some s

/-- `clean_dir` -/
def cleanDir (k : Kobjects α) (fuel : Nat) (dir : Option α) (s : Teardown α) :
    Option (Teardown α) :=
  match dir with
  | none => some s
  | some head => destroyChildren k fuel head s

/-- `destroy_objects`. The links are those that `kset_unregister` finds. -/
def destroyObjects (k : Kobjects α) (fuel : Nat) (pkset : Option α) (s : Teardown α) :
    Option (Teardown α) :=
  match pkset with
  | none => some s
  | some head =>
    (destroyChildren k fuel head s).map fun s => { s with log := s.log ++ [.ksetUnregister head] }

end Walk

/-! ## A log without reads of what was put -/

/-- No link of a node is touched once it was put. -/
def Sound (log : List (Call α)) : Prop :=
  Always (fun before c => ∀ x, c = .link x → .kobjectPut x ∉ before) log

/-- All but the accesses to links. -/
def Call.isCall : Call α → Bool
  | .link _ => false
  | _ => true

/-- What is done to a child. -/
def destroyed (x : α) : List (Call α) := [.kobjectDel x, .kobjectPut x]

variable {k : Kobjects α} {s s' : Teardown α} {links : Links α} {head x y : α} {next : Option α}
  {xs before after touched : List α} {log new : List (Call α)} {c : Call α}

theorem sound_append (h : Sound log) (hnew : ∀ y, .link y ∈ new → .kobjectPut y ∉ log ++ new) :
    Sound (log ++ new) := by
  induction new using List.reverseRecOn with
  | nil => rwa [List.append_nil]
  | append_singleton new c ih =>
    rw [← List.append_assoc]
    refine always_concat.mpr ⟨ih fun y hy => ?_, ?_⟩
    · have hput := hnew y (List.mem_append_left [c] hy)
      rw [← List.append_assoc] at hput
      exact fun hmem => hput (List.mem_append_left [c] hmem)
    · rintro y rfl
      have hput := hnew y (List.mem_append_right new (List.mem_singleton_self _))
      rw [← List.append_assoc] at hput
      exact fun hmem => hput (List.mem_append_left _ hmem)

theorem filter_isCall_link : (touched.map Call.link).filter Call.isCall = [] := by
  rw [List.filter_eq_nil_iff]
  intro c hc
  obtain ⟨y, -, rfl⟩ := List.mem_map.mp hc
  exact Bool.false_ne_true

/-- What was put is in the calls for the children that were destroyed. -/
theorem put_mem_iff (h : log.filter Call.isCall = before.flatMap destroyed) :
    .kobjectPut y ∈ log ↔ y ∈ before := by
  have hcall : Call.kobjectPut y ∈ log ↔ Call.kobjectPut y ∈ log.filter Call.isCall := by
    rw [List.mem_filter]
    exact (and_iff_left rfl).symm
  rw [hcall, h, List.mem_flatMap]
  simp [destroyed]

/-! ## The invariant -/

/-- The children in `before` are destroyed, and those in `after` remain. -/
structure Midway (s : Teardown α) (head : α) (before after : List α) : Prop where
  ring : Ring s.links head after
  calls : s.log.filter Call.isCall = before.flatMap destroyed
  sound : Sound s.log
  nodup : (head :: (before ++ after)).Nodup

/-- Nothing that is still in the list was put. -/
theorem Midway.not_put (h : Midway s head before after) (hy : y ∈ head :: after) :
    .kobjectPut y ∉ s.log := by
  rw [put_mem_iff h.calls]
  intro hbefore
  obtain ⟨hhead, hnodup⟩ := List.nodup_cons.mp h.nodup
  rcases List.mem_cons.mp hy with rfl | hafter
  · exact hhead (List.mem_append_left after hbefore)
  · exact (List.nodup_append.mp hnodup).2.2 y hbefore y hafter rfl

/-! ## One round -/

theorem destroyRound_eq (hdel : k.kobjectDel s.links x = some links) :
    destroyRound k s x = some (s.links.next x,
      { links := k.kobjectPut links x
        log := s.log ++ ([.link x, .kobjectDel x] ++ (k.touched s.links x).map .link) ++
          [.kobjectPut x] }) := by
  simp [destroyRound, Teardown.readNext, Teardown.del, Teardown.put, hdel]

/-- What `kobject_del` touches is still in the list. -/
theorem Midway.of_mem_touched (h : Midway s head before (x :: after)) (hk : k.Documented)
    (hy : y ∈ k.touched s.links x) : y ∈ head :: x :: after := by
  have hring : Ring s.links head ([] ++ x :: after) := h.ring
  obtain ⟨prev, next, hprev, hnext, hp, hn⟩ := hring.neighbours
  rcases hk.neighbours hy with rfl | hy | hy
  · exact List.mem_cons_of_mem head List.mem_cons_self
  · cases hnext.symm.trans hy
    have hmem := List.mem_of_head? hn
    simp only [List.mem_append, List.mem_cons, List.not_mem_nil, or_false] at hmem ⊢
    tauto
  · cases hprev.symm.trans hy
    cases hp
    exact List.mem_cons_self

/-- **One round**: the first child that remains is destroyed, and `next` leads to the one after
it. -/
theorem midway_round (hk : k.Documented) (h : Midway s head before (x :: after)) :
    ∃ s', destroyRound k s x = some ((after ++ [head]).head?, s') ∧
      Midway s' head (before ++ [x]) after := by
  have hring : Ring s.links head ([] ++ x :: after) := h.ring
  obtain ⟨links, hdel, hring'⟩ := hk.unlinks hring
  have hnext : s.links.next x = (after ++ [head]).head? := hring.next.next
  have hx : x ∉ head :: after := hring.not_mem_rest
  refine ⟨_, by rw [destroyRound_eq hdel, hnext], ?_, ?_, ?_, ?_⟩
  · apply hring'.congr
    intro y hy
    exact hk.frees fun heq => hx (heq ▸ hy)
  · simp only [List.filter_append, h.calls, filter_isCall_link, List.flatMap_append]
    rw [List.append_nil, List.append_assoc]
    rfl
  · -- all that is touched is in the list, before the child is put
    refine always_concat.mpr ⟨sound_append h.sound fun y hy => ?_, fun y heq => ?_⟩
    · have hmem : y ∈ head :: x :: after := by
        simp only [List.mem_append, List.mem_cons, List.mem_map, List.not_mem_nil] at hy
        rcases hy with (heq | heq | heq) | ⟨z, hz, heq⟩
        · cases heq
          simp
        · cases heq
        · cases heq
        · cases heq
          exact h.of_mem_touched hk hz
      have hput := h.not_put hmem
      simpa using hput
    · cases heq
  · have hnodup := h.nodup
    rwa [List.append_assoc]

/-- Before the first round only the head was read. -/
theorem midway_start (hring : Ring links head xs) (hlog : ∀ c ∈ log, c = .link head) :
    Midway { links, log } head [] xs where
  ring := hring
  calls := by
    rw [List.flatMap_nil, List.filter_eq_nil_iff]
    intro c hc
    rw [hlog c hc]
    exact Bool.false_ne_true
  sound := by
    have hsound : Sound ([] ++ log) := by
      apply sound_append always_nil
      intro y _ hput
      cases hlog _ hput
    rwa [List.nil_append] at hsound
  nodup := hring.nodup

/-! ## The walk, to its end -/

variable [DecidableEq α]

theorem destroyLoop_succ {fuel : Nat} {next' : Option α} (hnext : next ≠ some head)
    (hround : destroyRound k s x = some (next', s')) :
    destroyLoop k head (fuel + 1) (some x) next s = destroyLoop k head fuel next' next' s' := by
  rw [destroyLoop, if_neg hnext]
  simp only [hround]

/-- The rounds after the first, in which `next` and `curr` are the same. -/
theorem destroyLoop_midway (hk : k.Documented) (h : Midway s head before after) :
    ∃ s', (∀ fuel, after.length < fuel → destroyLoop k head fuel (after ++ [head]).head?
        (after ++ [head]).head? s = some s') ∧ Midway s' head (before ++ after) [] := by
  induction after generalizing before s with
  | nil =>
    refine ⟨s, fun fuel hfuel => ?_, by rwa [List.append_nil]⟩
    obtain ⟨fuel, rfl⟩ := Nat.exists_eq_succ_of_ne_zero (Nat.ne_of_gt hfuel)
    exact if_pos rfl
  | cons x after ih =>
    obtain ⟨s₁, hround, h₁⟩ := midway_round hk h
    obtain ⟨s', hloop, h'⟩ := ih h₁
    have hx : some x ≠ some head := by
      rintro ⟨rfl⟩
      exact h.ring.head_not_mem List.mem_cons_self
    refine ⟨s', fun fuel hfuel => ?_, by rwa [List.append_assoc] at h'⟩
    obtain ⟨fuel, rfl⟩ := Nat.exists_eq_succ_of_ne_zero (Nat.ne_of_gt (Nat.zero_lt_of_lt hfuel))
    show destroyLoop k head (fuel + 1) (some x) (some x) s = some s'
    rw [destroyLoop_succ hx hround]
    exact hloop fuel (Nat.lt_of_succ_lt_succ hfuel)

/-- A whole walk. In the first round `next` is 0. -/
theorem destroyChildren_midway (hk : k.Documented) (hring : Ring links head xs) :
    ∃ s, (∀ fuel, xs.length < fuel →
        destroyChildren k fuel head { links, log := [] } = some s) ∧ Midway s head xs [] := by
  have hfirst := hring.next_head
  cases xs with
  | nil =>
    refine ⟨{ links, log := [.link head] }, fun fuel _ => ?_, midway_start hring (by simp)⟩
    simp [destroyChildren, Teardown.readNext, hfirst]
  | cons x after =>
    have hx : x ≠ head := by
      rintro rfl
      exact hring.head_not_mem List.mem_cons_self
    have hstart : Midway { links, log := [.link head, .link head] } head [] (x :: after) :=
      midway_start hring (by simp)
    obtain ⟨s₁, hround, h₁⟩ := midway_round hk hstart
    obtain ⟨s, hloop, h⟩ := destroyLoop_midway hk h₁
    refine ⟨s, fun fuel hfuel => ?_, h⟩
    obtain ⟨fuel, rfl⟩ := Nat.exists_eq_succ_of_ne_zero (Nat.ne_of_gt (Nat.zero_lt_of_lt hfuel))
    have hwalk : destroyChildren k (fuel + 1) head { links, log := [] } =
        destroyLoop k head (fuel + 1) (some x) none { links, log := [.link head, .link head] } := by
      simp [destroyChildren, Teardown.readNext, hfirst, hx]
    rw [hwalk, destroyLoop_succ (Option.some_ne_none head).symm hround]
    exact hloop fuel (Nat.lt_of_succ_lt_succ hfuel)

/-! ## The two functions -/

/-- The children `xs` of a kset were destroyed, each once and in this order, and then `last`
happened. -/
structure Emptied (s : Teardown α) (head : α) (xs : List α) (last : List (Call α)) : Prop where
  empty : Ring s.links head []
  calls : s.log.filter Call.isCall = xs.flatMap destroyed ++ last
  once : ∀ x ∈ xs, s.log.count (.kobjectDel x) = 1 ∧ s.log.count (.kobjectPut x) = 1
  sound : Sound s.log

theorem count_flatMap_destroyed (x : α) (xs : List α) :
    (xs.flatMap destroyed).count (.kobjectDel x) = xs.count x ∧
      (xs.flatMap destroyed).count (.kobjectPut x) = xs.count x := by
  induction xs with
  | nil => exact ⟨rfl, rfl⟩
  | cons y xs ih =>
    rw [List.flatMap_cons, List.count_append, List.count_append, ih.1, ih.2]
    simp [destroyed, List.count_cons, Nat.add_comm]

theorem Midway.emptied (h : Midway s head xs []) : Emptied s head xs [] where
  empty := h.ring
  calls := by rw [h.calls, List.append_nil]
  once := by
    intro x hx
    have hnodup := (List.nodup_cons.mp h.nodup).2
    rw [List.append_nil] at hnodup
    have hcount := List.count_eq_one_of_mem hnodup hx
    obtain ⟨hdel, hput⟩ := count_flatMap_destroyed x xs
    rw [← h.calls, List.count_filter rfl, hcount] at hdel hput
    exact ⟨hdel, hput⟩
  sound := h.sound

theorem Emptied.ksetUnregister (h : Emptied s head xs []) :
    Emptied { s with log := s.log ++ [.ksetUnregister head] } head xs [.ksetUnregister head] where
  empty := h.empty
  calls := by
    rw [List.filter_append, h.calls, List.append_nil]
    rfl
  once := by
    intro x hx
    rw [List.count_append, List.count_append]
    exact h.once x hx
  sound := always_concat.mpr ⟨h.sound, fun _ heq => by cases heq⟩

/-- **Both functions destroy every child once, in the order of the list, and leave it empty.** -/
theorem destroys_children_once (hk : k.Documented) (hring : Ring links head xs) :
    (∃ s, (∀ fuel, xs.length < fuel →
        cleanDir k fuel (some head) { links, log := [] } = some s) ∧ Emptied s head xs []) ∧
      ∃ s, (∀ fuel, xs.length < fuel →
        destroyObjects k fuel (some head) { links, log := [] } = some s) ∧
          Emptied s head xs [.ksetUnregister head] := by
  obtain ⟨s, hwalk, h⟩ := destroyChildren_midway hk hring
  refine ⟨⟨s, hwalk, h.emptied⟩, ⟨_, fun fuel hfuel => ?_, h.emptied.ksetUnregister⟩⟩
  show (destroyChildren k fuel head { links, log := [] }).map _ = _
  rw [hwalk fuel hfuel]
  rfl

/-- A kernel that poisons the links of what it frees. -/
def poisoning : Kobjects α where
  kobjectDel := Links.listDelInit
  touched := fun l e => e :: ((l.next e).toList ++ (l.prev e).toList)
  kobjectPut := Links.poison

theorem documented_poisoning : (poisoning : Kobjects α).Documented where
  unlinks := Ring.listDelInit
  neighbours := by
    intro l e x hx
    simpa [poisoning, or_comm] using hx
  frees := fun hne => ⟨Function.update_of_ne hne .., Function.update_of_ne hne ..⟩

/-- A kset at 0 with the children 1 and 2. -/
def twoChildren : Links (Fin 3) where
  next := fun x => some (x + 1)
  prev := fun x => some (x + 2)

theorem ring_twoChildren : Ring twoChildren 0 [1, 2] where
  next := ⟨rfl, rfl, rfl⟩
  prev := ⟨rfl, rfl, rfl⟩
  nodup := by decide

theorem destroys_two_children_once :
    (∃ s, (∀ fuel, 2 < fuel →
        cleanDir poisoning fuel (some 0) { links := twoChildren, log := [] } = some s) ∧
          Emptied s 0 [1, 2] []) ∧
      ∃ s, (∀ fuel, 2 < fuel →
        destroyObjects poisoning fuel (some 0) { links := twoChildren, log := [] } = some s) ∧
          Emptied s 0 [1, 2] [.ksetUnregister 0] :=
  destroys_children_once documented_poisoning ring_twoChildren

/-! ## What is released -/

/-- What is done to the resources behind the nodes. -/
def Call.op {R : Type*} (f : α → R) : Call α → Option (Op R)
  | .link _ => none
  | .kobjectDel x => some (.use (f x))
  | .kobjectPut x => some (.release (f x))
  | .ksetUnregister head => some (.release (f head))

omit [DecidableEq α] in
theorem filterMap_op_filter {R : Type*} (f : α → R) :
    (log.filter Call.isCall).filterMap (Call.op f) = log.filterMap (Call.op f) := by
  rw [List.filterMap_filter]
  congr 1
  funext c
  cases c with
  | link x => rfl
  | kobjectDel x => rfl
  | kobjectPut x => rfl
  | ksetUnregister head => rfl

theorem Emptied.ops {R : Type*} {last : List (Call α)} (h : Emptied s head xs last) (f : α → R) :
    s.log.filterMap (Call.op f) =
      ((xs.map f).flatMap fun r => [.use r, .release r]) ++ last.filterMap (Call.op f) := by
  rw [← filterMap_op_filter, h.calls, List.filterMap_append, List.filterMap_flatMap,
    List.flatMap_map]
  rfl

/-- The walk is the one that the network driver's cleanup counts on. -/
theorem Emptied.cleanDir_ops (h : Emptied s head xs []) (f : α → Net.Res) :
    s.log.filterMap (Call.op f) = Net.cleanDir (xs.map f) := by
  rw [h.ops f, List.filterMap_nil, List.append_nil]
  rfl

/-- That of the character driver's, where the children are groups. -/
theorem Emptied.destroyObjects_ops (h : Emptied s head xs [.ksetUnregister head])
    {f : α → CharDriver.Res} {groups : List (Nat × String)}
    (hf : xs.map f = groups.map fun g => .group g.1) :
    s.log.filterMap (Call.op f) = CharDriver.destroyObjects (f head) (some groups) := by
  rw [h.ops f, hf]
  rfl

end ModemFhss.Registers
