import Mathlib.Data.List.GetD
import ModemFhss.Net.Conserve

/-!
# Frames are handed up in the order in which they came in

The handler puts each packet at the front of `rx_pkts_list`, where the walk of the tasklet begins,
so that of two packets that wait for the same walk the later one is handed up first. Order is kept
as long as no packet waits when one comes in: the list then holds the packet the walk is at and at
most one in front of it (`Ord`). `Timely` says that of an interrupt, and that it does not cut a
`list_del` in two: that would put the new packet where the second store takes it off the list.

`InOrder` is what the driver has to do, for every way the tasklet and the interrupts take turns.
-/

namespace ModemFhss.Net

open ListHead Machine

namespace Tasklet

/-- The packet the walk is at, while it is in the list. -/
def current : Tasklet → List Nat
  | .load (.pkt k) | .body k _ | .del k _ | .delPrev k .. | .delNext k .. => [k]
  | _ => []

/-- The packet the walk is at, before a socket buffer is asked for. -/
def untried : Tasklet → List Nat
  | .load (.pkt k) | .body k _ => [k]
  | _ => []

/-- The node at which the rest of the walk begins. -/
def upcoming : Tasklet → Node
  | .idle | .start => .rxPktsList
  | .load p => p
  | .body k _ | .del k _ | .delPrev k .. | .delNext k .. => .pkt k
  | .poison _ n | .put _ n => n

end Tasklet

/-- The packet that is filled and not in the list. -/
def Handler.toQueue : Handler → List Nat
  | .filled k => [k]
  | _ => []

namespace Rx

/-- The frames handed up are those for which there were a packet and a socket buffer, each once, in
the order in which they came in; and at rest no frame is left over. -/
structure InOrder (s : Rx) : Prop where
  handed : s.handed = ((List.range s.stored.length).filter fun i => (i, true) ∈ s.tried).map
    fun i => s.stored.getD i []
  settled : s.tasklet = .idle → s.handler = .idle → s.scheduled = false →
    ∀ i < s.stored.length, ∃ skb, (i, skb) ∈ s.tried

/-- The frame is in the DMA buffer, and has room in a packet. -/
def Fits : RxEvent → Prop
  | .interrupt dstAddr dl => dl ≤ ethDataLen ∧ dstAddr.length = mfhssnetDmaSize
  | _ => True

/-- An interrupt that finds a packet does not cut a `list_del` in two, and the list begins where the
rest of the walk does: no packet waits for another walk. -/
def Timely (s : Rx) : RxEvent → Prop
  | .interrupt .. => s.links.next .poolList ≠ some .poolList →
    ¬ s.tasklet.Unlinking ∧ s.links.next .rxPktsList = some s.tasklet.upcoming
  | _ => True

instance : ∀ e : RxEvent, Decidable (Fits e)
  | .interrupt dstAddr dl =>
    inferInstanceAs (Decidable (dl ≤ ethDataLen ∧ dstAddr.length = mfhssnetDmaSize))
  | .handler => isTrue trivial
  | .tasklet _ => isTrue trivial

instance : ∀ (s : Rx) (e : RxEvent), Decidable (s.Timely e)
  | s, .interrupt .. => inferInstanceAs (Decidable (s.links.next .poolList ≠ some .poolList →
      ¬ s.tasklet.Unlinking ∧ s.links.next .rxPktsList = some s.tasklet.upcoming))
  | _, .handler => isTrue trivial
  | _, .tasklet _ => isTrue trivial

theorem Timely.clear {s : Rx} {e : RxEvent} (h : s.Timely e) : s.Clear e := by
  cases e with
  | interrupt dstAddr dl => exact fun hfree => (h hfree).1
  | handler => trivial
  | tasklet skb => trivial

/-! ## The invariant -/

/-- The list holds `waiting` and the packet the walk is at; frames are tried in order. -/
structure Ord (s : Rx) (free waiting : List Nat) : Prop where
  one : waiting.length ≤ 1
  /-- The walk ends after the packet it is at. -/
  last : ∀ k n, s.tasklet = .poison k n ∨ s.tasklet = .put k n → n = .rxPktsList
  /-- Nothing waits while another packet comes in. -/
  room : s.handler.held ≠ [] ∨ s.handler = .entered ∧ free ≠ [] → waiting = []
  order : s.tried.map Prod.fst ++ (s.tasklet.untried ++ waiting ++ s.handler.held).map s.arrival =
    List.range s.stored.length
  filled : ∀ k ∈ s.tasklet.untried ++ waiting ++ s.handler.toQueue,
    (s.pkts k).data.take (s.pkts k).datalen = s.stored.getD (s.arrival k) []
  got : ∀ k, s.handler = .got k → s.stored.getD (s.arrival k) [] = s.dstAddr.take s.dl
  fits : s.handler ≠ .idle → s.dl ≤ s.dstAddr.length
  handed : s.handed = (s.tried.filter Prod.snd).map fun x => s.stored.getD x.1 []
  /-- What waits will be walked over. -/
  awaited : waiting ≠ [] → s.scheduled = true ∨ s.tasklet = .start ∨ s.handler = .queued

variable {s s' : Rx} {l : Links Node} {free waiting : List Nat} {k : Nat} {n : Node}

/-- What a filter selects from an index list, when all that it selects is there in order. -/
theorem filter_range_eq {tried : List (Nat × Bool)} {rest : List Nat} {m : Nat}
    (h : tried.map Prod.fst ++ rest = List.range m) :
    (List.range m).filter (fun i => (i, true) ∈ tried) = (tried.filter Prod.snd).map Prod.fst := by
  have hnd : (tried.map Prod.fst ++ rest).Nodup := h ▸ List.nodup_range
  obtain ⟨hfst, -, hdisj⟩ := List.nodup_append.mp hnd
  have hrest : rest.filter (fun i => (i, true) ∈ tried) = [] := by
    apply List.filter_eq_nil_iff.mpr
    intro i hi htried
    have hmem : i ∈ tried.map Prod.fst := List.mem_map_of_mem (of_decide_eq_true htried)
    exact hdisj i hmem i hi rfl
  rw [← h, List.filter_append, hrest, List.append_nil, List.filter_map]
  congr 1
  apply List.filter_congr
  intro x hx
  cases hskb : x.2 with
  | true =>
    have hx' : (x.1, true) ∈ tried := by rw [← hskb]; exact hx
    simpa using hx'
  | false =>
    -- a frame is tried once
    have hnot : (x.1, true) ∉ tried := by
      intro hx'
      have heq := List.inj_on_of_nodup_map hfst hx hx' rfl
      rw [heq] at hskb
      cases hskb
    simpa using hnot

theorem Ord.inOrder (h : s.Ord free waiting) : s.InOrder where
  handed := by
    rw [filter_range_eq h.order, h.handed, List.map_map]
    rfl
  settled ht hh hscheduled i hi := by
    -- at rest nothing is scheduled, so nothing waits, and every index is of a frame tried
    have hwaiting : waiting = [] := by
      by_contra hne
      rcases h.awaited hne with hsch | hstart | hqueued
      · rw [hscheduled] at hsch
        cases hsch
      · rw [ht] at hstart
        cases hstart
      · rw [hh] at hqueued
        cases hqueued
    have horder := h.order
    rw [ht, hh, hwaiting] at horder
    have hi' : i ∈ s.tried.map Prod.fst := by
      have hmem := List.mem_range.mpr hi
      rw [← horder] at hmem
      simpa [Tasklet.untried, Handler.held] using hmem
    obtain ⟨x, hx, rfl⟩ := List.mem_map.mp hi'
    exact ⟨x.2, hx⟩

/-- A frame that is not tried yet has a packet, and the other way round. -/
theorem Ord.arrival_lt (h : s.Ord free waiting)
    (hk : k ∈ s.tasklet.untried ++ waiting ++ s.handler.held) :
    s.arrival k < s.stored.length := by
  have hmem : s.arrival k ∈ List.range s.stored.length := by
    rw [← h.order]
    exact List.mem_append_right _ (List.mem_map_of_mem hk)
  exact List.mem_range.mp hmem

theorem Ord.tried_lt {x : Nat × Bool} (h : s.Ord free waiting) (hx : x ∈ s.tried) :
    x.1 < s.stored.length := by
  have hmem : x.1 ∈ List.range s.stored.length := by
    rw [← h.order]
    exact List.mem_append_left _ (List.mem_map_of_mem hx)
  exact List.mem_range.mp hmem

/-! ## The interrupt handler -/

/-- If the list begins where the rest of the walk does, nothing waits. -/
theorem Ord.waiting_eq_nil (ho : s.Ord free waiting)
    (h : s.Inv l free (waiting ++ s.tasklet.current))
    (hnext : s.links.next .rxPktsList = some s.tasklet.upcoming) : waiting = [] := by
  cases waiting with
  | nil => rfl
  | cons w ws =>
    have hhead : l.next .rxPktsList = some (.pkt w) := h.lists.rxPktsList.next_head
    rw [h.links, Tasklet.next_written, hhead] at hnext
    have hupcoming : Node.pkt w = s.tasklet.upcoming := Option.some.inj hnext
    have hnd := h.nodup
    -- the first packet would be in the list twice, or the walk would not end
    cases ht : s.tasklet with
    | idle | start =>
      rw [ht] at hupcoming
      cases hupcoming
    | load p =>
      rw [ht] at hupcoming hnd
      cases hupcoming
      simp [Tasklet.current, List.nodup_append] at hnd
    | body k n | del k n | delPrev k n prev next | delNext k n prev next =>
      rw [ht] at hupcoming hnd
      cases hupcoming
      simp [Tasklet.current, List.nodup_append] at hnd
    | poison k n =>
      rw [ht] at hupcoming
      have hn : Node.pkt w = n := hupcoming
      rw [ho.last k n (.inl ht)] at hn
      cases hn
    | put k n =>
      rw [ht] at hupcoming
      have hn : Node.pkt w = n := hupcoming
      rw [ho.last k n (.inr ht)] at hn
      cases hn

theorem Ord.interrupt {dstAddr : List UInt8} {dl : Nat} (ho : s.Ord free waiting)
    (h : s.Inv l free (waiting ++ s.tasklet.current)) (hh : s.handler = .idle)
    (hfits : Fits (.interrupt dstAddr dl)) (htimely : s.Timely (.interrupt dstAddr dl)) :
    Ord { s with dstAddr, dl, handler := .entered, interrupts := s.interrupts + 1 } free waiting
    where
  one := ho.one
  last := ho.last
  room hroom := by
    rcases hroom with hheld | ⟨-, hfree⟩
    · exact absurd rfl hheld
    · have hnext := (htimely fun hempty => hfree (h.pool_empty_iff.mp hempty)).2
      exact ho.waiting_eq_nil h hnext
  order := by
    have horder := ho.order
    rw [hh] at horder
    exact horder
  filled := by
    have hfilled := ho.filled
    rw [hh] at hfilled
    exact hfilled
  got k hk := by cases hk
  fits _ := by
    show dl ≤ dstAddr.length
    rw [hfits.2]
    exact Nat.le_trans hfits.1 (by decide)
  handed := ho.handed
  awaited hwaiting := by
    rcases ho.awaited hwaiting with hscheduled | hstart | hqueued
    · exact .inl hscheduled
    · exact .inr (.inl hstart)
    · rw [hh] at hqueued
      cases hqueued

theorem Ord.drop (ho : s.Ord free waiting) (hh : s.handler = .entered) :
    Ord { s with stats.rxDropped := s.stats.rxDropped + 1, handler := .idle } free waiting where
  one := ho.one
  last := ho.last
  room hroom := by
    rcases hroom with hheld | ⟨hentered, -⟩
    · exact absurd rfl hheld
    · cases hentered
  order := by
    have horder := ho.order
    rw [hh] at horder
    exact horder
  filled := by
    have hfilled := ho.filled
    rw [hh] at hfilled
    exact hfilled
  got k hk := by cases hk
  fits hidle := absurd rfl hidle
  handed := ho.handed
  awaited hwaiting := by
    rcases ho.awaited hwaiting with hscheduled | hstart | hqueued
    · exact .inl hscheduled
    · exact .inr (.inl hstart)
    · rw [hh] at hqueued
      cases hqueued

theorem getD_concat {frames : List Frame} {frame : Frame} {i : Nat} (hi : i < frames.length) :
    (frames ++ [frame]).getD i [] = frames.getD i [] :=
  List.getD_append _ _ _ _ hi

/-- The new frame is the last one that came to a packet. -/
theorem Ord.take {pool : Pool} (ho : s.Ord (k :: free) waiting)
    (h : s.Inv l (k :: free) (waiting ++ s.tasklet.current)) (hh : s.handler = .entered)
    (hpkts : pool.pkts = s.pkts) :
    Ord { s with
      toPool := pool
      handler := .got k
      stored := s.stored ++ [s.dstAddr.take s.dl]
      arrival := Function.update s.arrival k s.stored.length } free waiting := by
  have hwaiting : waiting = [] := ho.room (.inr ⟨hh, List.cons_ne_nil _ _⟩)
  subst hwaiting
  -- the packets of frames not tried yet are in the list, and so keep their arrivals
  have hnew : ∀ x ∈ s.tasklet.untried, x ≠ k := by
    intro x hx heq
    subst heq
    have hx' : x ∈ s.tasklet.current := by
      revert hx
      cases s.tasklet with
      | load p => cases p <;> exact id
      | body k n => exact id
      | _ => exact fun hx => absurd hx List.not_mem_nil
    exact h.apart x hx' List.mem_cons_self
  have hold : ∀ x ∈ s.tasklet.untried,
      Function.update s.arrival k s.stored.length x = s.arrival x :=
    fun x hx => Function.update_of_ne (hnew x hx) ..
  have hlt : ∀ x ∈ s.tasklet.untried, s.arrival x < s.stored.length := by
    intro x hx
    apply ho.arrival_lt
    simp [hx]
  refine ⟨ho.one, ho.last, fun _ => rfl, ?_, fun x hx => ?_, fun x hx => ?_, fun _ => ?_, ?_,
    fun hne => absurd rfl hne⟩
  · have horder := ho.order
    rw [hh] at horder
    simp only [Handler.held, List.append_nil] at horder
    show s.tried.map Prod.fst ++ (s.tasklet.untried ++ [] ++ [k]).map
      (Function.update s.arrival k s.stored.length) = List.range (s.stored ++ [_]).length
    rw [List.append_nil, List.map_append, List.map_congr_left hold, ← List.append_assoc, horder,
      List.length_append, List.length_singleton, List.range_succ, List.map_singleton,
      Function.update_self]
  · have hx' : x ∈ s.tasklet.untried := by simpa [Handler.toQueue] using hx
    have hfilled := ho.filled x (by simp [hx'])
    show (pool.pkts x).data.take (pool.pkts x).datalen =
      (s.stored ++ [_]).getD (Function.update s.arrival k s.stored.length x) []
    rw [hold x hx', getD_concat (hlt x hx'), hpkts]
    exact hfilled
  · cases hx
    show (s.stored ++ [s.dstAddr.take s.dl]).getD
      (Function.update s.arrival k s.stored.length k) [] = s.dstAddr.take s.dl
    rw [Function.update_self]
    simp
  · apply ho.fits
    rw [hh]
    exact Handler.noConfusion
  · -- the frames handed up are older than the new one
    show s.handed = _
    rw [ho.handed]
    apply List.map_congr_left
    intro x hx
    exact (getD_concat (ho.tried_lt (List.mem_filter.mp hx).1)).symm

/-- The packet holds the frame. -/
theorem Ord.fill (ho : s.Ord free waiting) (h : s.Inv l free (waiting ++ s.tasklet.current))
    (hh : s.handler = .got k) :
    Ord { s with
      pkts := Function.update s.pkts k ⟨true, s.dl, memcpy (s.pkts k).data s.dstAddr s.dl⟩
      handler := .filled k } free waiting := by
  have hwaiting : waiting = [] := ho.room (.inl (by rw [hh]; exact List.cons_ne_nil _ _))
  subst hwaiting
  have hfits : s.dl ≤ s.dstAddr.length := by
    apply ho.fits
    rw [hh]
    exact Handler.noConfusion
  have hnd := h.nodup
  rw [hh] at hnd
  simp only [Handler.held, List.nodup_append, List.mem_singleton] at hnd
  have hk : k ∉ s.tasklet.current := by grind
  refine ⟨ho.one, ho.last, fun _ => rfl, ?_, fun x hx => ?_, fun x hx => ?_, fun _ => hfits,
    ho.handed, fun hne => absurd rfl hne⟩
  · have horder := ho.order
    rw [hh] at horder
    exact horder
  · show (Function.update s.pkts k _ x).data.take (Function.update s.pkts k _ x).datalen = _
    by_cases hxk : x = k
    · subst hxk
      rw [Function.update_self]
      exact (take_memcpy hfits).trans (ho.got x hh).symm
    · rw [Function.update_of_ne hxk]
      apply ho.filled
      have hx' : x ∈ s.tasklet.untried := by simpa [Handler.toQueue, hxk] using hx
      simp [hx']
  · cases hx

/-- The packet waits for the next walk. -/
theorem Ord.queue {links : Links Node} (ho : s.Ord free waiting) (hh : s.handler = .filled k) :
    Ord { s with links, handler := .queued } free [k] := by
  have hwaiting : waiting = [] := ho.room (.inl (by rw [hh]; exact List.cons_ne_nil _ _))
  subst hwaiting
  refine ⟨Nat.le_refl 1, ho.last, fun hroom => ?_, ?_, fun x hx => ?_, fun x hx => ?_, fun _ => ?_,
    ho.handed, fun _ => .inr (.inr rfl)⟩
  · rcases hroom with hheld | ⟨hentered, -⟩
    · exact absurd rfl hheld
    · cases hentered
  · have horder := ho.order
    rw [hh] at horder
    simpa [Handler.held] using horder
  · have hfilled := ho.filled
    rw [hh] at hfilled
    apply hfilled
    simpa [Handler.toQueue] using hx
  · cases hx
  · apply ho.fits
    rw [hh]
    exact Handler.noConfusion

theorem Ord.schedule (ho : s.Ord free waiting) (hh : s.handler = .queued) :
    Ord { s with scheduled := true, handler := .idle } free waiting where
  one := ho.one
  last := ho.last
  room hroom := by
    rcases hroom with hheld | ⟨hentered, -⟩
    · exact absurd rfl hheld
    · cases hentered
  order := by
    have horder := ho.order
    rw [hh] at horder
    exact horder
  filled := by
    have hfilled := ho.filled
    rw [hh] at hfilled
    exact hfilled
  got x hx := by cases hx
  fits hidle := absurd rfl hidle
  handed := ho.handed
  awaited _ := .inl rfl

/-! ## The tasklet -/

/-- A step of the walk that tries no frame. -/
theorem Ord.move (ho : s.Ord free waiting) (links : Links Node) (t : Tasklet)
    (huntried : t.untried = s.tasklet.untried)
    (hlast : ∀ k n, t = .poison k n ∨ t = .put k n → n = .rxPktsList)
    (hstart : s.tasklet ≠ .start) : Ord { s with links, tasklet := t } free waiting where
  one := ho.one
  last := hlast
  room := ho.room
  order := by
    have horder := ho.order
    rw [← huntried] at horder
    exact horder
  filled := by
    have hfilled := ho.filled
    rw [← huntried] at hfilled
    exact hfilled
  got := ho.got
  fits := ho.fits
  handed := ho.handed
  awaited hne := by
    rcases ho.awaited hne with hscheduled | hst | hqueued
    · exact .inl hscheduled
    · exact absurd hst hstart
    · exact .inr (.inr hqueued)

theorem Ord.start (ho : s.Ord free waiting) (ht : s.tasklet = .idle) :
    Ord { s with scheduled := false, tasklet := .start } free waiting where
  one := ho.one
  last k n h := by rcases h with h | h <;> cases h
  room := ho.room
  order := by
    have horder := ho.order
    rw [ht] at horder
    exact horder
  filled := by
    have hfilled := ho.filled
    rw [ht] at hfilled
    exact hfilled
  got := ho.got
  fits := ho.fits
  handed := ho.handed
  awaited _ := .inr (.inl rfl)

/-- The walk begins with what waited. -/
theorem Ord.first {p : Node} (ho : s.Ord free waiting) (ht : s.tasklet = .start)
    (hp : ((waiting ++ s.tasklet.current).map Node.pkt ++ [Node.rxPktsList]).head? = some p) :
    waiting ++ s.tasklet.current = (Tasklet.load p).current ∧
      Ord { s with tasklet := .load p } free [] := by
  -- at most one packet waits: the walk is at it, or is over
  have hsplit : waiting = (Tasklet.load p).current ∧ (Tasklet.load p).untried = waiting := by
    rw [ht] at hp
    have hone := ho.one
    cases waiting with
    | nil =>
      cases hp
      exact ⟨rfl, rfl⟩
    | cons w ws =>
      cases hp
      have hlen : ws.length = 0 := Nat.le_zero.mp (Nat.le_of_succ_le_succ hone)
      rw [List.eq_nil_of_length_eq_zero hlen]
      exact ⟨rfl, rfl⟩
  obtain ⟨hcurrent, huntried⟩ := hsplit
  refine ⟨?_, Nat.zero_le _, fun k n h => ?_, fun _ => rfl, ?_, ?_, ho.got, ho.fits, ho.handed,
    fun hne => absurd rfl hne⟩
  · rw [← hcurrent, ht]
    exact List.append_nil _
  · rcases h with h | h <;> cases h
  · have horder := ho.order
    rw [ht] at horder
    show s.tried.map Prod.fst ++ ((Tasklet.load p).untried ++ [] ++ _).map _ = _
    rw [huntried, List.append_nil]
    exact horder
  · have hfilled := ho.filled
    rw [ht] at hfilled
    show ∀ k ∈ (Tasklet.load p).untried ++ [] ++ _, _
    rw [huntried, List.append_nil]
    exact hfilled

/-- The frame that is tried next is the one after those that were tried. -/
theorem Ord.build (ho : s.Ord free waiting) (ht : s.tasklet = .body k n) (skb : Bool) :
    (s.build k n skb).Ord free waiting := by
  have horder := ho.order
  have hfilled := ho.filled
  rw [ht] at horder hfilled
  have hkfilled : (s.pkts k).data.take (s.pkts k).datalen = s.stored.getD (s.arrival k) [] :=
    hfilled k (by simp [Tasklet.untried])
  have hrest : ∀ x ∈ waiting ++ s.handler.toQueue,
      (s.pkts x).data.take (s.pkts x).datalen = s.stored.getD (s.arrival x) [] :=
    fun x hx => hfilled x (by simpa [Tasklet.untried] using Or.inr hx)
  have hawaited : waiting ≠ [] → s.scheduled = true ∨ s.handler = .queued := by
    intro hne
    rcases ho.awaited hne with hscheduled | hst | hqueued
    · exact .inl hscheduled
    · rw [ht] at hst
      cases hst
    · exact .inr hqueued
  have horder' : (s.tried ++ [(s.arrival k, skb)]).map Prod.fst ++
      ([] ++ waiting ++ s.handler.held).map s.arrival = List.range s.stored.length := by
    rw [← horder]
    simp [Tasklet.untried]
  cases skb with
  | false =>
    refine ⟨ho.one, fun j m h => ?_, ho.room, horder', hrest, ho.got, ho.fits, ?_, fun hne => ?_⟩
    · rcases h with h | h <;> cases h
    · show s.handed = _
      rw [ho.handed]
      simp [Rx.build]
    · exact (hawaited hne).imp_right .inr
  | true =>
    refine ⟨ho.one, fun j m h => ?_, ho.room, horder', hrest, ho.got, ho.fits, ?_, fun hne => ?_⟩
    · rcases h with h | h <;> cases h
    · show s.handed ++ [(s.pkts k).data.take (s.pkts k).datalen] = _
      rw [ho.handed, hkfilled]
      simp [Rx.build]
    · exact (hawaited hne).imp_right .inr

/-- The packet given back holds no frame that is still to be tried. -/
theorem Ord.put {pool : Pool} {pkt : MfhssPkt} (ho : s.Ord free waiting)
    (h : s.Inv l free (waiting ++ s.tasklet.current)) (hh : s.handler = .idle)
    (ht : s.tasklet = .put k n) (hpkts : pool.pkts = Function.update s.pkts k pkt) :
    Ord { s with toPool := pool, tasklet := .load n } (k :: free) waiting := by
  have hn : n = .rxPktsList := ho.last k n (.inr ht)
  subst hn
  have hnd := h.nodup
  rw [ht] at hnd
  simp only [Tasklet.held, List.nodup_append, List.mem_singleton, List.mem_append] at hnd
  have hk : k ∉ waiting := by grind
  have horder := ho.order
  have hfilled := ho.filled
  rw [ht, hh] at horder hfilled
  refine ⟨ho.one, fun j m hj => ?_, fun hroom => ?_, ?_, fun x hx => ?_, fun x hx => ?_,
    fun hidle => absurd hh hidle, ho.handed, fun hne => ?_⟩
  · rcases hj with hj | hj <;> cases hj
  · rcases hroom with hheld | ⟨hentered, -⟩
    · exact absurd (by rw [show s.handler = _ from hh]; rfl) hheld
    · cases hh.symm.trans hentered
  · show _ ++ ([] ++ waiting ++ s.handler.held).map s.arrival = _
    rw [hh]
    exact horder
  · -- `pool_put` clears the data of `k` only, which does not wait
    have hx' : x ∈ [] ++ waiting ++ s.handler.toQueue := hx
    rw [hh] at hx'
    have hxk : x ≠ k := by
      rintro rfl
      exact hk (by simpa [Handler.toQueue] using hx')
    show (pool.pkts x).data.take (pool.pkts x).datalen = _
    rw [hpkts, Function.update_of_ne hxk]
    exact hfilled x hx'
  · cases hh.symm.trans hx
  · rcases ho.awaited hne with hscheduled | hst | hqueued
    · exact .inl hscheduled
    · cases ht.symm.trans hst
    · cases hh.symm.trans hqueued

/-! ## Runs -/

/-- Both invariants, of the same lists. -/
def Paced (s : Rx) : Prop :=
  ∃ l free waiting, s.Inv l free (waiting ++ s.tasklet.current) ∧ s.Ord free waiting

theorem Paced.irqRxHandler (h : s.Paced) (hh : s.handler ≠ .idle) :
    ∃ s', s.irqRxHandler = some s' ∧ s'.Paced := by
  obtain ⟨l, free, waiting, h, ho⟩ := h
  cases hpc : s.handler with
  | idle => exact absurd hpc hh
  | entered =>
    cases free with
    | nil =>
      obtain ⟨hs, hinv⟩ := h.drop hpc
      exact ⟨_, hs, l, [], waiting, hinv, ho.drop hpc⟩
    | cons k free =>
      obtain ⟨pool, hpkts, hs, hinv⟩ := h.take hpc
      exact ⟨_, hs, pool.links, free, waiting, hinv, ho.take h hpc hpkts⟩
  | got k =>
    obtain ⟨pkt, rfl, hs, hinv⟩ := h.fill hpc
    exact ⟨_, hs, l, free, waiting, hinv, ho.fill h hpc⟩
  | filled k =>
    have hwaiting : waiting = [] := ho.room (.inl (by rw [hpc]; exact List.cons_ne_nil _ _))
    subst hwaiting
    obtain ⟨links, hs, hinv⟩ := h.queue hpc
    exact ⟨_, hs, links, free, [k], hinv, ho.queue hpc⟩
  | queued =>
    obtain ⟨hs, hinv⟩ := h.schedule hpc
    exact ⟨_, hs, l, free, waiting, hinv, ho.schedule hpc⟩

theorem Paced.rxPkt (h : s.Paced) (hh : s.handler = .idle)
    (hrun : s.tasklet = .idle → s.scheduled = true) (skb : Bool) :
    ∃ s', s.rxPkt skb = some s' ∧ s'.Paced := by
  obtain ⟨l, free, waiting, h, ho⟩ := h
  -- `last` is about the steps that hold a packet only
  have hnone : ∀ t : Tasklet, t.held = [] →
      ∀ k n, t = .poison k n ∨ t = .put k n → n = .rxPktsList := by
    intro t ht k n hkn
    rcases hkn with rfl | rfl <;> cases ht
  cases ht : s.tasklet with
  | idle =>
    obtain ⟨hs, hinv⟩ := h.start hh ht (hrun ht) skb
    rw [ht] at hinv
    exact ⟨_, hs, l, free, waiting, hinv, ho.start ht⟩
  | start =>
    obtain ⟨p, hp, hs, hinv⟩ := h.first hh ht skb
    obtain ⟨hcurrent, ho'⟩ := ho.first ht hp
    rw [hcurrent] at hinv
    exact ⟨_, hs, l, free, [], hinv, ho'⟩
  | load p =>
    cases p with
    | poolList =>
      have hwalks := h.walks
      rw [ht] at hwalks
      simp [Tasklet.Walks] at hwalks
    | rxPktsList =>
      -- what waits now waits for the next walk
      obtain ⟨hs, hinv⟩ := h.finish hh ht skb
      rw [ht] at hinv
      exact ⟨_, hs, l, free, waiting, hinv, ho.move s.links .idle (by rw [ht]; rfl)
        (hnone _ rfl) (by rw [ht]; exact Tasklet.noConfusion)⟩
    | pkt k =>
      obtain ⟨n, -, hs, hinv⟩ := h.enter hh ht skb
      rw [ht] at hinv
      exact ⟨_, hs, l, free, waiting, hinv, ho.move s.links (.body k n) (by rw [ht]; rfl)
        (hnone _ rfl) (by rw [ht]; exact Tasklet.noConfusion)⟩
  | body k n =>
    obtain ⟨hs, hinv⟩ := h.build hh ht skb
    have hcurrent : s.tasklet.current = (s.build k n skb).tasklet.current := by
      rw [ht]
      cases skb <;> rfl
    rw [hcurrent] at hinv
    exact ⟨_, hs, l, free, waiting, hinv, ho.build ht skb⟩
  | del k n =>
    obtain ⟨prev, next, hs, hinv⟩ := h.del hh ht skb
    rw [ht] at hinv
    exact ⟨_, hs, l, free, waiting, hinv, ho.move s.links (.delPrev k n prev next)
      (by rw [ht]; rfl) (hnone _ rfl) (by rw [ht]; exact Tasklet.noConfusion)⟩
  | delPrev k n prev next =>
    obtain ⟨hs, hinv⟩ := h.delPrev hh ht skb
    rw [ht] at hinv
    exact ⟨_, hs, l, free, waiting, hinv, ho.move _ (.delNext k n prev next)
      (by rw [ht]; rfl) (hnone _ rfl) (by rw [ht]; exact Tasklet.noConfusion)⟩
  | delNext k n prev next =>
    rw [ht] at h
    obtain ⟨hn, hs, hinv⟩ := h.delNext hh ht skb
    refine ⟨_, hs, _, free, waiting, hinv, ho.move _ (.poison k n) (by rw [ht]; rfl) ?_
      (by rw [ht]; exact Tasklet.noConfusion)⟩
    -- nothing stands after the packet that was taken out
    intro j m hjm
    rcases hjm with hjm | hjm
    · cases hjm
      exact (Option.some.inj hn).symm
    · cases hjm
  | poison k n =>
    obtain ⟨hs, hinv⟩ := h.poison hh ht skb
    rw [ht] at hinv
    refine ⟨_, hs, _, free, waiting, hinv, ho.move _ (.put k n) (by rw [ht]; rfl) ?_
      (by rw [ht]; exact Tasklet.noConfusion)⟩
    intro j m hjm
    rcases hjm with hjm | hjm
    · cases hjm
    · cases hjm
      exact ho.last k n (.inl ht)
  | put k n =>
    obtain ⟨pool, hpkts, hs, hinv⟩ := h.put hh ht skb
    have hn : n = .rxPktsList := ho.last k n (.inr ht)
    rw [ht, hn] at hinv
    rw [hn] at hs
    subst hn
    exact ⟨_, hs, pool.links, k :: free, waiting, hinv, ho.put h hh ht hpkts⟩

theorem Paced.next {e : RxEvent} (h : s.Paced) (hfits : Fits e) (htimely : s.Timely e)
    (he : s.Enabled e) : ∃ s', step s e = some s' ∧ s'.Paced := by
  cases e with
  | interrupt dstAddr dl =>
    obtain ⟨l, free, waiting, h, ho⟩ := h
    exact ⟨_, if_pos he, l, free, waiting, h.interrupt he htimely.clear,
      ho.interrupt h he hfits htimely⟩
  | handler => exact h.irqRxHandler he
  | tasklet skb =>
    obtain ⟨s', hs, hpaced⟩ := h.rxPkt he.1 he.2 skb
    exact ⟨s', (if_pos he.1).trans hs, hpaced⟩

variable {e : RxEvent} {es : List RxEvent} {m : Kmalloc ethDataLen} {q pool : Pool}

theorem Paced.step (h : s.Paced) (hg : Fits e ∧ s.Timely e) (hs : Rx.step s e = some s') :
    s'.Paced := by
  obtain ⟨t, ht, hpaced⟩ := h.next hg.1 hg.2 (enabled_of_step hs)
  cases ht.symm.trans hs
  exact hpaced

theorem paced_init (h : mfhssnetProbe m q = some (0, pool)) : (init pool).Paced := by
  refine ⟨_, _, [], inv_init h, Nat.zero_le _, fun k n hkn => ?_, fun _ => rfl, rfl, fun x hx => ?_,
    fun x hx => ?_, fun hidle => absurd rfl hidle, rfl, fun hne => absurd rfl hne⟩
  · rcases hkn with hkn | hkn <;> cases hkn
  · cases hx
  · cases hx

/-- **Frames are handed up in order as long as none waits when the next comes in**, and no event
leaves the driver stuck. -/
theorem run_inOrder (hprobe : mfhssnetProbe m q = some (0, pool))
    (hm : Meets Rx.step (fun s e => Fits e ∧ s.Timely e) (init pool) es)
    (hr : run Rx.step (init pool) es = some s) :
    s.InOrder ∧ ∀ e, Fits e → s.Timely e → s.Enabled e → (Rx.step s e).isSome := by
  have h : s.Paced :=
    run_invariant_of_meets (fun _ _ _ h hg hs => h.step hg hs) (paced_init hprobe) hm hr
  refine ⟨?_, fun e hfits htimely he => ?_⟩
  · obtain ⟨l, free, waiting, -, ho⟩ := h
    exact ho.inOrder
  · obtain ⟨s', hs, -⟩ := h.next hfits htimely he
    exact Option.isSome_iff_exists.mpr ⟨s', hs⟩

/-- A frame arrives, and the handler runs. -/
def arrives (frame : Frame) : List RxEvent :=
  .interrupt (memcpy (List.replicate mfhssnetDmaSize 0) frame frame.length) frame.length ::
    List.replicate 4 .handler

/-- The second frame arrives while the tasklet is at the first. -/
def oneByOne : List RxEvent :=
  arrives [1] ++ List.replicate 3 (.tasklet true) ++ arrives [2] ++
    List.replicate 17 (.tasklet true)

theorem run_inOrder_oneByOne : ∃ pool s, mfhssnetProbe plenty unprobed = some (0, pool) ∧
    run Rx.step (init pool) oneByOne = some s ∧ s.handed = [[1], [2]] ∧ s.InOrder := by
  obtain ⟨pool, s, hprobe, hm, hs, hhanded⟩ := exists_run oneByOne
    (G := fun s e => Fits e ∧ s.Timely e) (Q := fun s => s.handed = [[1], [2]])
    (by decide +kernel)
  exact ⟨pool, s, hprobe, hs, hhanded, (run_inOrder hprobe hm hs).1⟩

/-- The second frame arrives while `list_del` is between its loads and its stores. -/
def duringUnlink : List RxEvent :=
  arrives [1] ++ List.replicate 5 (.tasklet true) ++ arrives [2] ++
    List.replicate 8 (.tasklet true)

/-- The other half of `Timely`: the second packet is then in no list, and at rest its frame was
neither handed up nor dropped. -/
example : (mfhssnetProbe plenty unprobed).any fun x =>
    decide (x.1 = 0 ∧ ∃ s, run Rx.step (init x.2) duringUnlink = some s ∧ s.tasklet = .idle ∧
      s.scheduled = false ∧ s.stored = [[1], [2]] ∧ s.tried = [(0, true)]) := by
  decide +kernel

/-- Both frames arrive before the tasklet runs. -/
def twoAtOnce : List RxEvent :=
  arrives [1] ++ arrives [2] ++ List.replicate 17 (.tasklet true)

/-- The second frame is handed up first. -/
theorem twoAtOnce_not_inOrder : ∃ pool s, mfhssnetProbe plenty unprobed = some (0, pool) ∧
    Meets Rx.step (fun _ e => Fits e) (init pool) twoAtOnce ∧
    run Rx.step (init pool) twoAtOnce = some s ∧ s.stored = [[1], [2]] ∧ s.handed = [[2], [1]] ∧
      ¬ s.InOrder := by
  obtain ⟨pool, s, hprobe, hm, hs, hstored, hhanded, hwrong⟩ := exists_run twoAtOnce
    (G := fun _ e => Fits e) (Q := fun s => s.stored = [[1], [2]] ∧ s.handed = [[2], [1]] ∧
      s.handed ≠ ((List.range s.stored.length).filter fun i => (i, true) ∈ s.tried).map
        fun i => s.stored.getD i []) (by decide +kernel)
  exact ⟨pool, s, hprobe, hm, hs, hstored, hhanded, fun h => hwrong h.handed⟩

end Rx

end ModemFhss.Net
