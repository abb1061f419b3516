import ModemFhss.Library.Machine
import ModemFhss.Net.Rx

/-!
# No packet is lost

At every moment each packet is in exactly one place: in the pool, in `rx_pkts_list`, with the
tasklet or with the interrupt handler (`Conserved`). What the lists hold is read off the links, and
`Inv` relates them at every step of either side; there is one lemma for each step, which gives the
state it leads to and what the lists hold then.

`list_del` is the one operation that an interrupt must not cut in two (`Unlinking`): its neighbours
are loaded before they are linked with each other. Between its two stores the list is whole only in
one direction, so that `Inv` speaks of the links as they were before the first store.
-/

namespace ModemFhss.Net

open ListHead Machine

namespace Handler

/-- The packet that is neither in the pool nor in the list. -/
def held : Handler → List Nat
  | .got k | .filled k => [k]
  | _ => []

/-- The frame is neither counted as dropped nor in the list. -/
def uncounted : Handler → Nat
  | .entered | .got _ | .filled _ => 1
  | _ => 0

end Handler

namespace Tasklet

/-- The packet that is neither in the list nor in the pool. -/
def held : Tasklet → List Nat
  | .poison k _ | .put k _ => [k]
  | _ => []

/-- The frame is counted, and its packet still in the list. -/
def counted : Tasklet → Nat
  | .del .. | .delPrev .. | .delNext .. => 1
  | _ => 0

/-- `list_del` has loaded the neighbours and not linked them yet. -/
def Unlinking : Tasklet → Prop
  | .delPrev .. | .delNext .. => True
  | _ => False

instance : ∀ t : Tasklet, Decidable t.Unlinking
  | .delPrev .. | .delNext .. => isTrue trivial
  | .idle | .start | .load _ | .body .. | .del .. | .poison .. | .put .. => isFalse id

/-- Where the walk is, in a list that holds `pending`. -/
def Walks (l : Links Node) (pending : List Nat) : Tasklet → Prop
  | .idle | .start => True
  | .load p => p ∈ Node.rxPktsList :: pending.map .pkt
  | .body k n | .del k n => k ∈ pending ∧ l.next (.pkt k) = some n
  | .delPrev k n prev next | .delNext k n prev next =>
    k ∈ pending ∧ l.next (.pkt k) = some n ∧ l.prev (.pkt k) = some prev ∧
      l.next (.pkt k) = some next
  | .poison _ n | .put _ n => n ∈ Node.rxPktsList :: pending.map .pkt

/-- The links, given those before `list_del` started to store. -/
def written (l : Links Node) : Tasklet → Links Node
  | .delNext _ _ prev next => l.setPrev next prev
  | _ => l

variable {t : Tasklet} {l l' : Links Node} {pending pending' : List Nat}

theorem written_of_not (h : ¬ t.Unlinking) : t.written l = l := by
  cases t with
  | delNext k n prev next => exact absurd trivial h
  | _ => rfl

theorem next_written : (t.written l).next = l.next := by
  cases t <;> rfl

/-- The walk is where it was when other packets come in. -/
theorem Walks.mono (h : t.Walks l pending) (ht : ¬ t.Unlinking) (hsub : pending ⊆ pending')
    (hnext : ∀ k ∈ pending, l'.next (.pkt k) = l.next (.pkt k)) : t.Walks l' pending' := by
  have hnode : Node.rxPktsList :: pending.map .pkt ⊆ Node.rxPktsList :: pending'.map .pkt :=
    List.cons_subset_cons _ (List.map_subset _ hsub)
  cases t with
  | idle => trivial
  | start => trivial
  | load p => exact hnode h
  | body k n => exact ⟨hsub h.1, (hnext k h.1).trans h.2⟩
  | del k n => exact ⟨hsub h.1, (hnext k h.1).trans h.2⟩
  | delPrev k n prev next => exact absurd trivial ht
  | delNext k n prev next => exact absurd trivial ht
  | poison k n => exact hnode h
  | put k n => exact hnode h

end Tasklet

namespace Rx

/-- Every packet is in one place, and every interrupt is accounted for. -/
def Conserved (s : Rx) : Prop :=
  ∃ free pending : List Nat,
    Path s.links.next .poolList (free.map .pkt) .poolList ∧
    Path s.links.next .rxPktsList (pending.map .pkt) .rxPktsList ∧
    (free ++ pending ++ s.tasklet.held ++ s.handler.held).Perm (List.range poolSize) ∧
    s.count = free.length ∧
    (s.tasklet = .idle → s.handler = .idle →
      s.interrupts = s.stats.rxPackets + s.stats.rxDropped + pending.length)

/-- An interrupt that finds a packet does not cut a `list_del` in two. -/
def Clear (s : Rx) : RxEvent → Prop
  | .interrupt .. => s.links.next .poolList ≠ some .poolList → ¬ s.tasklet.Unlinking
  | _ => True

structure Inv (s : Rx) (l : Links Node) (free pending : List Nat) : Prop where
  links : s.links = s.tasklet.written l
  lists : Pool.Holds { s.toPool with links := l } free pending
  whole : (free ++ pending ++ s.tasklet.held ++ s.handler.held).Perm (List.range poolSize)
  walks : s.tasklet.Walks l pending
  clear : s.tasklet.Unlinking → s.handler = .idle ∨ s.handler = .entered ∧ free = []
  tally : s.interrupts + s.tasklet.counted =
    s.stats.rxPackets + s.stats.rxDropped + pending.length + s.handler.uncounted

variable {s s' : Rx} {l : Links Node} {free pending : List Nat} {k : Nat} {n p : Node}

theorem Inv.conserved (h : s.Inv l free pending) : s.Conserved := by
  have hnext : s.links.next = l.next := by rw [h.links, Tasklet.next_written]
  refine ⟨free, pending, ?_, ?_, h.whole, h.lists.count, fun ht hh => ?_⟩
  · rw [hnext]
    exact h.lists.poolList.next
  · rw [hnext]
    exact h.lists.rxPktsList.next
  · have htally := h.tally
    rw [ht, hh] at htally
    exact htally

/-- Away from `list_del`, the links are those of two lists. -/
theorem Inv.links_eq (h : s.Inv l free pending) (ht : ¬ s.tasklet.Unlinking) : s.links = l :=
  h.links.trans (Tasklet.written_of_not ht)

theorem Inv.holds (h : s.Inv l free pending) (ht : ¬ s.tasklet.Unlinking) :
    s.toPool.Holds free pending := by
  have hlists := h.lists
  rw [← h.links_eq ht] at hlists
  exact hlists

/-- The four places have no packet in common. -/
theorem Inv.nodup (h : s.Inv l free pending) :
    (free ++ pending ++ s.tasklet.held ++ s.handler.held).Nodup :=
  h.whole.nodup_iff.mpr List.nodup_range

/-- Whatever holds the same packets holds all of them. -/
theorem Inv.regroup {packets : List Nat} (h : s.Inv l free pending)
    (hsame : ∀ a, packets.count a =
      (free ++ pending ++ s.tasklet.held ++ s.handler.held).count a) :
    packets.Perm (List.range poolSize) :=
  (List.perm_iff_count.mpr hsame).trans h.whole

/-- While the handler has a packet, the tasklet is not in the middle of a `list_del`. -/
theorem Inv.not_unlinking (h : s.Inv l free pending) (hh : s.handler.held ≠ []) :
    ¬ s.tasklet.Unlinking := by
  intro ht
  apply hh
  rcases h.clear ht with hidle | ⟨hentered, -⟩
  · rw [hidle]
    rfl
  · rw [hentered]
    rfl

theorem Inv.apart (h : s.Inv l free pending) : ∀ x ∈ pending, x ∉ free := by
  have hnd := h.nodup
  simp only [List.nodup_append] at hnd
  grind

/-! ## The interrupt handler -/

theorem Inv.pool_empty_iff (h : s.Inv l free pending) :
    s.links.next .poolList = some .poolList ↔ free = [] := by
  have hnext : s.links.next .poolList = (free.map Node.pkt ++ [Node.poolList]).head? := by
    rw [h.links, Tasklet.next_written]
    exact h.lists.poolList.next_head
  rw [hnext]
  cases free <;> simp

theorem Inv.interrupt {dstAddr : List UInt8} {dl : Nat} (h : s.Inv l free pending)
    (hh : s.handler = .idle) (hc : s.Clear (.interrupt dstAddr dl)) :
    Inv { s with dstAddr, dl, handler := .entered, interrupts := s.interrupts + 1 } l free pending
    where
  links := h.links
  lists := h.lists
  whole := by
    have hw := h.whole
    rw [hh] at hw
    exact hw
  walks := h.walks
  clear ht := by
    -- in the middle of a `list_del` only an interrupt that finds no packet comes
    right
    refine ⟨rfl, ?_⟩
    by_contra hfree
    exact hc (fun hempty => hfree (h.pool_empty_iff.mp hempty)) ht
  tally := by
    have htally := h.tally
    rw [hh] at htally
    simp only [Handler.uncounted] at htally ⊢
    omega

/-- The pool is empty: the frame is dropped. -/
theorem Inv.drop (h : s.Inv l [] pending) (hh : s.handler = .entered) :
    s.irqRxHandler = some { s with stats.rxDropped := s.stats.rxDropped + 1, handler := .idle } ∧
      Inv { s with stats.rxDropped := s.stats.rxDropped + 1, handler := .idle } l [] pending := by
  have hget := Pool.poolGet_empty (h.pool_empty_iff.mpr rfl)
  refine ⟨by simp only [irqRxHandler, hh, hget], h.links, h.lists, ?_, h.walks, fun _ => .inl rfl,
    ?_⟩
  · have hw := h.whole
    rw [hh] at hw
    exact hw
  · have htally := h.tally
    rw [hh] at htally
    simp only [Handler.uncounted] at htally ⊢
    omega

/-- A packet is taken from the pool. -/
theorem Inv.take (h : s.Inv l (k :: free) pending) (hh : s.handler = .entered) :
    ∃ pool : Pool, pool.pkts = s.pkts ∧
      s.irqRxHandler = some { s with
        toPool := pool
        handler := .got k
        stored := s.stored ++ [s.dstAddr.take s.dl]
        arrival := Function.update s.arrival k s.stored.length } ∧
      Inv { s with
        toPool := pool
        handler := .got k
        stored := s.stored ++ [s.dstAddr.take s.dl]
        arrival := Function.update s.arrival k s.stored.length } pool.links free pending := by
  have hun : ¬ s.tasklet.Unlinking := by
    intro ht
    rcases h.clear ht with hidle | ⟨-, hnil⟩
    · rw [hh] at hidle
      cases hidle
    · cases hnil
  obtain ⟨pool, hget, hholds, hpkts, hnext⟩ := Pool.poolGet_cons (h.holds hun) h.apart
  refine ⟨pool, hpkts, by simp only [irqRxHandler, hh, hget],
    (Tasklet.written_of_not hun).symm, hholds, ?_, ?_, fun ht => absurd ht hun, ?_⟩
  · -- from the pool to the handler
    apply h.regroup
    intro a
    rw [hh]
    simp only [Handler.held, List.count_append, List.count_cons, List.count_nil]
    omega
  · -- the walk reads only the links of packets in the list, and none of those was in the pool
    apply h.walks.mono hun (List.Subset.refl _)
    intro x hx
    rw [← h.links_eq hun]
    exact hnext x (h.apart x hx)
  · have htally := h.tally
    rw [hh] at htally
    exact htally

/-- The packet is filled. -/
theorem Inv.fill (h : s.Inv l free pending) (hh : s.handler = .got k) :
    ∃ pkt, pkt = ⟨true, s.dl, memcpy (s.pkts k).data s.dstAddr s.dl⟩ ∧
      s.irqRxHandler = some { s with
        pkts := Function.update s.pkts k pkt
        handler := .filled k } ∧
      Inv { s with pkts := Function.update s.pkts k pkt, handler := .filled k } l free pending := by
  refine ⟨_, rfl, by simp only [irqRxHandler, hh], h.links,
    ⟨h.lists.poolList, h.lists.rxPktsList, h.lists.count⟩, ?_, h.walks,
    fun ht => absurd ht (h.not_unlinking (by rw [hh]; exact List.cons_ne_nil _ _)), ?_⟩
  · have hw := h.whole
    rw [hh] at hw
    exact hw
  · have htally := h.tally
    rw [hh] at htally
    exact htally

/-- The packet becomes the first of the list. -/
theorem Inv.queue (h : s.Inv l free pending) (hh : s.handler = .filled k) :
    ∃ links, s.irqRxHandler = some { s with links, handler := .queued } ∧
      Inv { s with links, handler := .queued } links free (k :: pending) := by
  have hun : ¬ s.tasklet.Unlinking := h.not_unlinking (by rw [hh]; exact List.cons_ne_nil _ _)
  have hholds := h.holds hun
  have hnd := h.nodup
  rw [hh] at hnd
  simp only [Handler.held, List.nodup_append, List.mem_singleton] at hnd
  have hk : k ∉ pending ∧ k ∉ free := by grind
  have hnew : Node.pkt k ∉ Node.rxPktsList :: pending.map Node.pkt := by simpa using hk.1
  obtain ⟨links, hadd, hring, hframe, hnext⟩ := hholds.rxPktsList.listAdd hnew
  refine ⟨links, by simp only [irqRxHandler, hh, hadd], (Tasklet.written_of_not hun).symm,
    ⟨?_, hring, h.lists.count⟩, ?_, ?_, fun ht => absurd ht hun, ?_⟩
  · -- `list_add` wrote only to the packet, the head and the packets of the list
    refine Pool.ring_of_disjoint hholds.poolList (by simp) (fun x hx => ?_) hframe
    have hxk : x ≠ k := fun heq => hk.2 (heq ▸ hx)
    have hxp : x ∉ pending := fun hxp => h.apart x hxp hx
    simp [hxk, hxp]
  · -- from the handler to the list
    apply h.regroup
    intro a
    rw [hh]
    simp only [Handler.held, List.count_append, List.count_cons, List.count_nil]
    omega
  · -- only the head's `next` changed, which a walk that has begun does not read again
    apply h.walks.mono hun (List.subset_cons_self k pending)
    intro x hx
    have hxk : x ≠ k := fun heq => hk.1 (heq ▸ hx)
    rw [← h.links_eq hun]
    exact hnext (.pkt x) (by simpa using hxk) (by simp)
  · have htally := h.tally
    rw [hh] at htally
    simp only [Handler.uncounted, List.length_cons] at htally ⊢
    omega

theorem Inv.schedule (h : s.Inv l free pending) (hh : s.handler = .queued) :
    s.irqRxHandler = some { s with scheduled := true, handler := .idle } ∧
      Inv { s with scheduled := true, handler := .idle } l free pending := by
  refine ⟨by simp only [irqRxHandler, hh], h.links, h.lists, ?_, h.walks, fun _ => .inl rfl, ?_⟩
  · have hw := h.whole
    rw [hh] at hw
    exact hw
  · have htally := h.tally
    rw [hh] at htally
    exact htally

/-- **The handler always has a next step**, and keeps the packets together. -/
theorem Inv.irqRxHandler (h : s.Inv l free pending) (hh : s.handler ≠ .idle) :
    ∃ s' l' free' pending', s.irqRxHandler = some s' ∧ s'.Inv l' free' pending' := by
  cases hpc : s.handler with
  | idle => exact absurd hpc hh
  | entered =>
    cases free with
    | nil =>
      obtain ⟨hs, hinv⟩ := h.drop hpc
      exact ⟨_, _, _, _, hs, hinv⟩
    | cons k free =>
      obtain ⟨pool, -, hs, hinv⟩ := h.take hpc
      exact ⟨_, _, _, _, hs, hinv⟩
  | got k =>
    obtain ⟨pkt, -, hs, hinv⟩ := h.fill hpc
    exact ⟨_, _, _, _, hs, hinv⟩
  | filled k =>
    obtain ⟨links, hs, hinv⟩ := h.queue hpc
    exact ⟨_, _, _, _, hs, hinv⟩
  | queued =>
    obtain ⟨hs, hinv⟩ := h.schedule hpc
    exact ⟨_, _, _, _, hs, hinv⟩

/-! ## The tasklet -/

/-- A step that only moves the tasklet on. -/
theorem Inv.move (h : s.Inv l free pending) (hh : s.handler = .idle) (t : Tasklet)
    (hlinks : s.links = t.written l) (hheld : t.held = s.tasklet.held)
    (hcounted : t.counted = s.tasklet.counted) (hwalks : t.Walks l pending) :
    Inv { s with tasklet := t } l free pending where
  links := hlinks
  lists := h.lists
  whole := by
    have hw := h.whole
    rw [← hheld] at hw
    exact hw
  walks := hwalks
  clear _ := .inl hh
  tally := by
    have htally := h.tally
    rw [← hcounted] at htally
    exact htally

theorem Inv.start (h : s.Inv l free pending) (hh : s.handler = .idle) (ht : s.tasklet = .idle)
    (hscheduled : s.scheduled = true) (skb : Bool) :
    s.rxPkt skb = some { s with scheduled := false, tasklet := .start } ∧
      Inv { s with scheduled := false, tasklet := .start } l free pending := by
  refine ⟨by simp only [rxPkt, ht, hscheduled, if_true], ?_⟩
  have hinv := h.move hh .start (by rw [h.links, ht]; rfl) (by rw [ht]; rfl) (by rw [ht]; rfl)
    trivial
  exact ⟨hinv.links, hinv.lists, hinv.whole, hinv.walks, hinv.clear, hinv.tally⟩

/-- The walk begins at the first entry, or is over. -/
theorem Inv.first (h : s.Inv l free pending) (hh : s.handler = .idle) (ht : s.tasklet = .start)
    (skb : Bool) :
    ∃ p, (pending.map Node.pkt ++ [Node.rxPktsList]).head? = some p ∧
      s.rxPkt skb = some { s with tasklet := .load p } ∧
      Inv { s with tasklet := .load p } l free pending := by
  obtain ⟨p, hp⟩ : ∃ p, (pending.map Node.pkt ++ [Node.rxPktsList]).head? = some p :=
    ⟨_, List.head?_eq_some_head (by simp)⟩
  have hlinks : s.links = l := by rw [h.links, ht]; rfl
  have hnext : s.links.next .rxPktsList = some p := by
    rw [hlinks]
    exact h.lists.rxPktsList.next_head.trans hp
  refine ⟨p, hp, by simp only [rxPkt, ht, hnext], ?_⟩
  apply h.move hh (.load p) hlinks (by rw [ht]; rfl) (by rw [ht]; rfl)
  have hmem := List.mem_of_head? hp
  simpa [Tasklet.Walks, or_comm] using hmem

/-- The walk is back at the head. -/
theorem Inv.finish (h : s.Inv l free pending) (hh : s.handler = .idle)
    (ht : s.tasklet = .load .rxPktsList) (skb : Bool) :
    s.rxPkt skb = some { s with tasklet := .idle } ∧
      Inv { s with tasklet := .idle } l free pending := by
  have hlinks : s.links = l := by rw [h.links, ht]; rfl
  have hsome : ∃ n, s.links.next .rxPktsList = some n := by
    rw [hlinks, show l.next .rxPktsList = _ from h.lists.rxPktsList.next_head]
    exact ⟨_, List.head?_eq_some_head (by simp)⟩
  obtain ⟨n, hn⟩ := hsome
  exact ⟨by simp only [rxPkt, ht, hn],
    h.move hh .idle hlinks (by rw [ht]; rfl) (by rw [ht]; rfl) trivial⟩

/-- The walk is at a packet. -/
theorem Inv.enter (h : s.Inv l free pending) (hh : s.handler = .idle)
    (ht : s.tasklet = .load (.pkt k)) (skb : Bool) :
    ∃ n, k ∈ pending ∧ s.rxPkt skb = some { s with tasklet := .body k n } ∧
      Inv { s with tasklet := .body k n } l free pending := by
  have hlinks : s.links = l := by rw [h.links, ht]; rfl
  have hwalks := h.walks
  rw [ht] at hwalks
  have hk : k ∈ pending := by simpa [Tasklet.Walks] using hwalks
  obtain ⟨xs, ys, hpending⟩ := List.append_of_mem (List.mem_map_of_mem (f := Node.pkt) hk)
  obtain ⟨-, n, -, hn, -, -⟩ := (hpending ▸ h.lists.rxPktsList).neighbours
  refine ⟨n, hk, by simp only [rxPkt, ht, hlinks, show l.next _ = _ from hn], ?_⟩
  exact h.move hh (.body k n) hlinks (by rw [ht]; rfl) (by rw [ht]; rfl) ⟨hk, hn⟩

/-- A socket buffer is built and handed up, or the frame is dropped. -/
theorem Inv.build (h : s.Inv l free pending) (hh : s.handler = .idle) (ht : s.tasklet = .body k n)
    (skb : Bool) :
    s.rxPkt skb = some (s.build k n skb) ∧ (s.build k n skb).Inv l free pending := by
  have hlinks : s.links = l := by rw [h.links, ht]; rfl
  have hwhole := h.whole
  have hwalks := h.walks
  have htally := h.tally
  rw [ht] at hwhole hwalks htally
  simp only [Tasklet.counted] at htally
  refine ⟨by simp only [rxPkt, ht], ?_⟩
  cases skb with
  | false =>
    refine ⟨hlinks, h.lists, hwhole, hwalks, fun _ => .inl hh, ?_⟩
    simp only [Rx.build, Tasklet.counted]
    omega
  | true =>
    refine ⟨hlinks, h.lists, hwhole, hwalks, fun _ => .inl hh, ?_⟩
    simp only [Rx.build, Tasklet.counted]
    omega

/-- `list_del` loads the neighbours. -/
theorem Inv.del (h : s.Inv l free pending) (hh : s.handler = .idle) (ht : s.tasklet = .del k n)
    (skb : Bool) :
    ∃ prev next, s.rxPkt skb = some { s with tasklet := .delPrev k n prev next } ∧
      Inv { s with tasklet := .delPrev k n prev next } l free pending := by
  have hlinks : s.links = l := by rw [h.links, ht]; rfl
  have hwalks := h.walks
  rw [ht] at hwalks
  obtain ⟨hk, hn⟩ := hwalks
  obtain ⟨xs, ys, hpending⟩ := List.append_of_mem (List.mem_map_of_mem (f := Node.pkt) hk)
  obtain ⟨prev, next, hprev, hnext, -, -⟩ := (hpending ▸ h.lists.rxPktsList).neighbours
  refine ⟨prev, next, by simp only [rxPkt, ht, hlinks, show l.prev _ = _ from hprev,
    show l.next _ = _ from hnext], ?_⟩
  exact h.move hh (.delPrev k n prev next) hlinks (by rw [ht]; rfl) (by rw [ht]; rfl)
    ⟨hk, hn, hprev, hnext⟩

/-- `next->prev = prev` -/
theorem Inv.delPrev {prev next : Node} (h : s.Inv l free pending) (hh : s.handler = .idle)
    (ht : s.tasklet = .delPrev k n prev next) (skb : Bool) :
    s.rxPkt skb = some { s with
      links := s.links.setPrev next prev, tasklet := .delNext k n prev next } ∧
      Inv { s with links := s.links.setPrev next prev, tasklet := .delNext k n prev next }
        l free pending := by
  have hlinks : s.links = l := by rw [h.links, ht]; rfl
  have hwhole := h.whole
  have hwalks := h.walks
  have htally := h.tally
  rw [ht] at hwhole hwalks htally
  refine ⟨by simp only [rxPkt, ht], ?_, h.lists, hwhole, hwalks, fun _ => .inl hh, htally⟩
  show s.links.setPrev next prev = l.setPrev next prev
  rw [hlinks]

/-- `prev->next = next`: the packet is in the list no more. -/
theorem Inv.delNext {prev next : Node} {before after : List Nat}
    (h : s.Inv l free (before ++ k :: after)) (hh : s.handler = .idle)
    (ht : s.tasklet = .delNext k n prev next) (skb : Bool) :
    (after.map Node.pkt ++ [Node.rxPktsList]).head? = some n ∧
    s.rxPkt skb = some { s with links := s.links.setNext prev next, tasklet := .poison k n } ∧
      Inv { s with links := s.links.setNext prev next, tasklet := .poison k n }
        (s.links.setNext prev next) free (before ++ after) := by
  have hlinks : s.links = l.setPrev next prev := by rw [h.links, ht]; rfl
  have hwalks := h.walks
  rw [ht] at hwalks
  obtain ⟨-, hn, hprev, hnext⟩ := hwalks
  have hring : Ring l Node.rxPktsList (before.map .pkt ++ .pkt k :: after.map .pkt) := by
    have hlist := h.lists.rxPktsList
    rw [List.map_append, List.map_cons] at hlist
    exact hlist
  obtain ⟨hunlinked, hframe⟩ := hring.unlink hprev hnext
  -- the entry the walk saved is still the one after the packet
  have hhead : (after.map Node.pkt ++ [Node.rxPktsList]).head? = some n :=
    hring.next.next.symm.trans hn
  rw [← List.map_append] at hunlinked hframe
  refine ⟨hhead, by simp only [rxPkt, ht], rfl, ⟨?_, ?_, h.lists.count⟩, ?_, ?_,
    fun _ => .inl hh, ?_⟩
  · rw [hlinks]
    refine Pool.ring_of_disjoint h.lists.poolList (by simp) (fun x hx => ?_) hframe
    have hxp : x ∉ before ++ k :: after := fun hxp => h.apart x hxp hx
    simp only [List.mem_append, List.mem_cons, not_or] at hxp
    simp [hxp]
  · rw [hlinks]
    exact hunlinked
  · -- from the list to the tasklet
    apply h.regroup
    intro a
    rw [ht, hh]
    simp only [Tasklet.held, Handler.held, List.count_append, List.count_cons, List.count_nil]
    omega
  · have hmem := List.mem_of_head? hhead
    simp only [Tasklet.Walks, List.mem_append, List.map_append, List.mem_cons] at hmem ⊢
    tauto
  · have htally := h.tally
    rw [ht] at htally
    simp only [Tasklet.counted, List.length_append, List.length_cons] at htally ⊢
    omega

theorem Inv.poison (h : s.Inv l free pending) (hh : s.handler = .idle)
    (ht : s.tasklet = .poison k n) (skb : Bool) :
    s.rxPkt skb = some { s with links := s.links.poison (.pkt k), tasklet := .put k n } ∧
      Inv { s with links := s.links.poison (.pkt k), tasklet := .put k n }
        (s.links.poison (.pkt k)) free pending := by
  have hlinks : s.links = l := by rw [h.links, ht]; rfl
  have hwhole := h.whole
  have hwalks := h.walks
  have htally := h.tally
  have hnd := h.nodup
  rw [ht] at hwhole hwalks htally hnd
  simp only [Tasklet.held, List.nodup_append, List.mem_singleton] at hnd
  have hk : k ∉ free ∧ k ∉ pending := by grind
  refine ⟨by simp only [rxPkt, ht], rfl, ⟨?_, ?_, h.lists.count⟩, hwhole, hwalks,
    fun _ => .inl hh, htally⟩
  · rw [hlinks]
    exact h.lists.poolList.poison (by simpa using hk.1)
  · rw [hlinks]
    exact h.lists.rxPktsList.poison (by simpa using hk.2)

theorem Inv.put (h : s.Inv l free pending) (hh : s.handler = .idle) (ht : s.tasklet = .put k n)
    (skb : Bool) :
    ∃ pool : Pool, pool.pkts = Function.update s.pkts k
        ⟨false, 0, memset (s.pkts k).data 0 (s.pkts k).datalen⟩ ∧
      s.rxPkt skb = some { s with toPool := pool, tasklet := .load n } ∧
      Inv { s with toPool := pool, tasklet := .load n } pool.links (k :: free) pending := by
  have hun : ¬ s.tasklet.Unlinking := by rw [ht]; exact id
  have hnd := h.nodup
  rw [ht] at hnd
  simp only [Tasklet.held, List.nodup_append, List.mem_singleton] at hnd
  have hk : k ∉ free ∧ k ∉ pending := by grind
  obtain ⟨pool, hput, hholds, hpkts⟩ := Pool.poolPut_holds (h.holds hun) hk.1 hk.2 h.apart
  have hwalks := h.walks
  have htally := h.tally
  rw [ht] at hwalks htally
  refine ⟨pool, hpkts, by simp only [rxPkt, ht, hput], rfl, hholds, ?_, hwalks, fun _ => .inl hh,
    htally⟩
  apply h.regroup
  intro a
  rw [ht, hh]
  simp only [Tasklet.held, Handler.held, List.count_append, List.count_cons, List.count_nil]
  omega

/-- **The tasklet always has a next step** when it was scheduled or is running, and keeps the
packets together. -/
theorem Inv.rxPkt (h : s.Inv l free pending) (hh : s.handler = .idle)
    (hrun : s.tasklet = .idle → s.scheduled = true) (skb : Bool) :
    ∃ s' l' free' pending', s.rxPkt skb = some s' ∧ s'.Inv l' free' pending' := by
  cases ht : s.tasklet with
  | idle =>
    obtain ⟨hs, hinv⟩ := h.start hh ht (hrun ht) skb
    exact ⟨_, _, _, _, hs, hinv⟩
  | start =>
    obtain ⟨p, -, hs, hinv⟩ := h.first hh ht skb
    exact ⟨_, _, _, _, hs, hinv⟩
  | load p =>
    cases p with
    | poolList =>
      -- a walk stays in its list
      have hwalks := h.walks
      rw [ht] at hwalks
      simp [Tasklet.Walks] at hwalks
    | rxPktsList =>
      obtain ⟨hs, hinv⟩ := h.finish hh ht skb
      exact ⟨_, _, _, _, hs, hinv⟩
    | pkt k =>
      obtain ⟨n, -, hs, hinv⟩ := h.enter hh ht skb
      exact ⟨_, _, _, _, hs, hinv⟩
  | body k n =>
    obtain ⟨hs, hinv⟩ := h.build hh ht skb
    exact ⟨_, _, _, _, hs, hinv⟩
  | del k n =>
    obtain ⟨prev, next, hs, hinv⟩ := h.del hh ht skb
    exact ⟨_, _, _, _, hs, hinv⟩
  | delPrev k n prev next =>
    obtain ⟨hs, hinv⟩ := h.delPrev hh ht skb
    exact ⟨_, _, _, _, hs, hinv⟩
  | delNext k n prev next =>
    have hwalks := h.walks
    rw [ht] at hwalks
    obtain ⟨before, after, rfl⟩ := List.append_of_mem hwalks.1
    obtain ⟨-, hs, hinv⟩ := h.delNext hh ht skb
    exact ⟨_, _, _, _, hs, hinv⟩
  | poison k n =>
    obtain ⟨hs, hinv⟩ := h.poison hh ht skb
    exact ⟨_, _, _, _, hs, hinv⟩
  | put k n =>
    obtain ⟨pool, -, hs, hinv⟩ := h.put hh ht skb
    exact ⟨_, _, _, _, hs, hinv⟩

/-! ## Runs -/

/-- The events that can happen. -/
def Enabled (s : Rx) : RxEvent → Prop
  | .interrupt .. => s.handler = .idle
  | .handler => s.handler ≠ .idle
  | .tasklet _ => s.handler = .idle ∧ (s.tasklet = .idle → s.scheduled = true)

/-- No interrupt cuts a `list_del` in two. -/
def Atomic (s : Rx) : RxEvent → Prop
  | .interrupt .. => ¬ s.tasklet.Unlinking
  | _ => True

instance : ∀ (s : Rx) (e : RxEvent), Decidable (s.Atomic e)
  | s, .interrupt .. => inferInstanceAs (Decidable (¬ s.tasklet.Unlinking))
  | _, .handler => isTrue trivial
  | _, .tasklet _ => isTrue trivial

theorem Atomic.clear {e : RxEvent} (h : s.Atomic e) : s.Clear e := by
  cases e with
  | interrupt dstAddr dl => exact fun _ => h
  | handler => trivial
  | tasklet skb => trivial

variable {e : RxEvent} {es : List RxEvent} {m : Kmalloc ethDataLen} {q pool : Pool}

theorem enabled_of_step (hs : step s e = some s') : s.Enabled e := by
  cases e with
  | interrupt dstAddr dl =>
    simp only [step] at hs
    split at hs
    · next hh => exact hh
    · cases hs
  | handler =>
    intro hh
    simp only [step, irqRxHandler, hh] at hs
    cases hs
  | tasklet skb =>
    simp only [step] at hs
    split at hs
    · next hh =>
      refine ⟨hh, fun ht => ?_⟩
      simp only [rxPkt, ht] at hs
      split at hs
      · next hscheduled => exact hscheduled
      · cases hs
    · cases hs

/-- **Every event that can happen leads on**, and keeps the packets together. -/
theorem Inv.next (h : s.Inv l free pending) (hc : s.Clear e) (he : s.Enabled e) :
    ∃ s' l' free' pending', step s e = some s' ∧ s'.Inv l' free' pending' := by
  cases e with
  | interrupt dstAddr dl => exact ⟨_, _, _, _, if_pos he, h.interrupt he hc⟩
  | handler => exact h.irqRxHandler he
  | tasklet skb =>
    obtain ⟨s', l', free', pending', hs, hinv⟩ := h.rxPkt he.1 he.2 skb
    exact ⟨s', l', free', pending', (if_pos he.1).trans hs, hinv⟩

theorem Inv.step (h : s.Inv l free pending) (hc : s.Clear e) (hs : Rx.step s e = some s') :
    ∃ l' free' pending', s'.Inv l' free' pending' := by
  obtain ⟨t, l', free', pending', ht, hinv⟩ := h.next hc (enabled_of_step hs)
  cases ht.symm.trans hs
  exact ⟨l', free', pending', hinv⟩

theorem probe_holds (h : mfhssnetProbe m q = some (0, pool)) :
    pool.Holds (List.range poolSize).reverse [] ∧
      ∀ k < poolSize, (pool.pkts k).data.length = ethDataLen ∧ (pool.pkts k).datalen = 0 :=
  Pool.poolCreate_holds ring_initListHead h

theorem inv_init (h : mfhssnetProbe m q = some (0, pool)) :
    (init pool).Inv pool.links (List.range poolSize).reverse [] where
  links := rfl
  lists := (probe_holds h).1
  whole := by
    show ((List.range poolSize).reverse ++ [] ++ [] ++ []).Perm _
    simp
  walks := trivial
  clear _ := .inl rfl
  tally := rfl

/-- **No packet is lost and none is in two places**, and no event leaves the driver stuck. -/
theorem run_conserved (hprobe : mfhssnetProbe m q = some (0, pool))
    (hm : Meets Rx.step Atomic (init pool) es) (hr : run Rx.step (init pool) es = some s) :
    s.Conserved ∧ ∀ e, s.Atomic e → s.Enabled e → (Rx.step s e).isSome := by
  obtain ⟨l, free, pending, h⟩ : ∃ l free pending, s.Inv l free pending :=
    run_invariant_of_meets (I := fun s => ∃ l free pending, s.Inv l free pending)
      (fun _ _ _ ⟨_, _, _, h⟩ hg hs => h.step hg.clear hs) ⟨_, _, _, inv_init hprobe⟩ hm hr
  refine ⟨h.conserved, fun e hg he => ?_⟩
  obtain ⟨s', -, -, -, hs, -⟩ := h.next hg.clear he
  exact Option.isSome_iff_exists.mpr ⟨s', hs⟩

/-- There is always memory. -/
def plenty : Kmalloc ethDataLen where
  pkt _ := true
  data _ := some ⟨List.replicate ethDataLen 0, List.length_replicate⟩

/-- Before the module is loaded. -/
def unprobed : Pool where
  links := ⟨fun _ => none, fun _ => none⟩
  pkts _ := ⟨false, 0, []⟩
  count := 0

/-- A run of a driver that was just probed, computed. -/
theorem exists_run {G : Rx → RxEvent → Prop} {Q : Rx → Prop} [∀ s e, Decidable (G s e)]
    [DecidablePred Q] (es : List RxEvent)
    (h : (mfhssnetProbe plenty unprobed).any fun x =>
      decide (x.1 = 0 ∧ Meets Rx.step G (init x.2) es ∧
        ∃ s, run Rx.step (init x.2) es = some s ∧ Q s)) :
    ∃ pool s, mfhssnetProbe plenty unprobed = some (0, pool) ∧
      Meets Rx.step G (init pool) es ∧ run Rx.step (init pool) es = some s ∧ Q s := by
  obtain ⟨⟨err, pool⟩, hprobe, hrun⟩ := (Option.any_eq_true ..).mp h
  obtain ⟨herr, hm, s, hs, hQ⟩ := of_decide_eq_true hrun
  cases herr
  exact ⟨pool, s, hprobe, hm, hs, hQ⟩

/-- One interrupt before the tasklet runs, and one while it builds a socket buffer, for which there
is no memory. -/
def cutIn : List RxEvent :=
  [.interrupt [1] 1, .handler, .handler, .handler, .handler, .tasklet true, .tasklet true,
    .tasklet true, .interrupt [2] 1, .handler, .handler, .handler, .handler, .tasklet false,
    .tasklet true, .tasklet true, .tasklet true, .tasklet true, .tasklet true, .tasklet true]

theorem run_conserved_cutIn : ∃ pool s, mfhssnetProbe plenty unprobed = some (0, pool) ∧
    run Rx.step (init pool) cutIn = some s ∧ s.stats.rxDropped = 1 ∧ s.count = 7 ∧
      s.Conserved := by
  obtain ⟨pool, s, hprobe, hm, hs, hdropped, hcount⟩ := exists_run cutIn (G := Atomic)
    (Q := fun s => s.stats.rxDropped = 1 ∧ s.count = 7) (by decide +kernel)
  exact ⟨pool, s, hprobe, hs, hdropped, hcount, (run_conserved hprobe hm hs).1⟩

end Rx

end ModemFhss.Net
