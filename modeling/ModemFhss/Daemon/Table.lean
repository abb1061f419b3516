import Mathlib.Data.List.Nodup
import ModemFhss.Library.Machine

/-!
# The connection table (`selector.cpp`, `master_thread.cpp`)

The master thread accepts connections and queues them; the worker takes them from the queue, adds
them to its `epoll` instance and to `conn_`, and deletes them when the client has closed. As soon
as `close` has returned, the kernel may give the number to the next client, while the old entry is
still in `conn_` and events of the same batch are still to be handled.

`Table` is both threads, each where it is in its loop, and every step of one of them is an event, so
that a run is an interleaving. Connections are numbered in the order in which they are accepted;
`Entry` is a descriptor with a connection. What makes the numbers safe is that only the worker
closes, and that it erases the entry before it takes the next one from the queue (`run_tracked`).
-/

namespace ModemFhss.Daemon

open Machine

/-- A descriptor and the connection that it stands for. -/
abbrev Entry := Nat × Nat

/-- Where the worker thread is. -/
inductive WorkerAt where
  /-- `while (!queue->is_empty())`. -/
  | queue
  /-- In `register_connect`, before `epoll_ctl`. -/
  | popped (x : Entry)
  /-- In `register_connect`, before `insert`. -/
  | added (x : Entry)
  /-- The queue was empty: in `wait_event`, before `epoll_wait`. -/
  | waiting
  /-- Before the next pass of the loop over the events, for these descriptors. -/
  | batch (sockets : List Nat)
  /-- In `data_receive` with the connection found, and these descriptors to follow. -/
  | receiving (x : Entry) (sockets : List Nat)
  /-- In `data_receive`, after `close`. -/
  | closed (x : Entry) (sockets : List Nat)
  /-- `conn_.find` has yielded `end()`, and `second` is read from it. -/
  | undefined
  deriving DecidableEq, Repr

/-- A pass of the loop over the events: the connection found for the descriptor, and the one that is
open under it. -/
structure Report where
  socket : Nat
  found : Option Nat
  now : Option Nat
  deriving DecidableEq, Repr

structure Table where
  /-- The descriptors that are open now. -/
  opened : List Entry
  /-- The descriptors that `epoll` watches. -/
  epoll : List Nat
  queue : List Entry
  /-- `conn_`. -/
  conn : List Entry
  /-- The connection that the master has accepted and not yet queued. -/
  master : Option Entry
  worker : WorkerAt
  accepted : List Entry
  /-- The connections that `insert` has put in `conn_`. -/
  registered : List Entry
  reported : List Report

inductive TableEvent where
  /-- The master's `get_connection`: the kernel gives it a number that is not open. -/
  | accept (socket : Nat)
  /-- The master's `push`. -/
  | push
  /-- `is_empty` is false, and `pop`. -/
  | pop
  /-- `epoll_ctl (EPOLL_CTL_ADD)`. -/
  | add
  /-- `conn_.insert`. -/
  | insert
  /-- `is_empty` is true. -/
  | empty
  /-- `epoll_wait` returns these descriptors. -/
  | wait (ready : List Nat)
  /-- `conn_.find`. -/
  | find
  /-- `recv` has nothing more: `data_receive` handles the blocks and returns. -/
  | more
  /-- `recv` has returned zero: `shutdown` and `close`, which also ends the watch of `epoll`. -/
  | close
  /-- `connection_delete`. -/
  | erase
  /-- No events are left: `write_modem`, `listen_modem`, and the loop begins again. -/
  | again

namespace Table

def init : Table where
  opened := []
  epoll := []
  queue := []
  conn := []
  master := none
  worker := .queue
  accepted := []
  registered := []
  reported := []

/-- `max_events_`. -/
def maxEvents : Nat := 32

/-- `conn_.insert`, which does not replace an entry. -/
def insertConn (s : Table) (x : Entry) : Table :=
  if (s.conn.lookup x.1).isSome then s
  else { s with conn := s.conn ++ [x], registered := s.registered ++ [x] }

/-- `conn_.find`, and what is called with its result. -/
def findConn (s : Table) (socket : Nat) (sockets : List Nat) : Table :=
  let report : Report := ⟨socket, s.conn.lookup socket, s.opened.lookup socket⟩
  let s := { s with reported := s.reported ++ [report] }
  match s.conn.lookup socket with
  | none => { s with worker := .undefined }
  | some tcp => { s with worker := .receiving (socket, tcp) sockets }

def step (s : Table) : TableEvent → Option Table
  | .accept socket =>
    if s.master = none ∧ socket ∉ s.opened.map Prod.fst then
      let x := (socket, s.accepted.length)
      some { s with opened := s.opened ++ [x], accepted := s.accepted ++ [x], master := some x }
    else
      none
  | .push =>
    match s.master with
    | some x => some { s with master := none, queue := s.queue ++ [x] }
    | none => none
  | .pop =>
    match s.worker, s.queue with
    | .queue, x :: queue => some { s with worker := .popped x, queue }
    | _, _ => none
  | .add =>
    match s.worker with
    | .popped x => some { s with worker := .added x, epoll := s.epoll ++ [x.1] }
    | _ => none
  | .insert =>
    match s.worker with
    | .added x => some { s.insertConn x with worker := .queue }
    | _ => none
  | .empty => if s.worker = .queue ∧ s.queue = [] then some { s with worker := .waiting } else none
  | .wait ready =>
    -- `epoll` reports what it watches, each descriptor once
    if s.worker = .waiting ∧ ready.length ≤ maxEvents ∧ ready.Nodup ∧ ready ⊆ s.epoll then
      some { s with worker := .batch ready }
    else
      none
  | .find =>
    match s.worker with
    | .batch (socket :: sockets) => some (s.findConn socket sockets)
    | _ => none
  | .more =>
    match s.worker with
    | .receiving _ sockets => some { s with worker := .batch sockets }
    | _ => none
  | .close =>
    match s.worker with
    | .receiving x sockets =>
      some { s with
        opened := s.opened.filter fun y => y.1 ≠ x.1
        epoll := s.epoll.filter fun socket => socket ≠ x.1
        worker := .closed x sockets }
    | _ => none
  | .erase =>
    match s.worker with
    | .closed x sockets =>
      some { s with conn := s.conn.filter fun y => y.1 ≠ x.1, worker := .batch sockets }
    | _ => none
  | .again => if s.worker = .batch [] then some { s with worker := .queue } else none

/-- The connection that the worker has taken from the queue and not registered. -/
def inHand : WorkerAt → List Entry
  | .popped x => [x]
  | .added x => [x]
  | _ => []

/-- The connection that the worker has closed and not erased. -/
def stale : WorkerAt → List Entry
  | .closed x _ => [x]
  | _ => []

/-- The descriptors of the batch that are to follow. -/
def pending : WorkerAt → List Nat
  | .batch sockets => sockets
  | .receiving _ sockets => sockets
  | .closed _ sockets => sockets
  | _ => []

/-- The accepted connections that are not registered, in order. -/
def underway (s : Table) : List Entry := inHand s.worker ++ s.queue ++ s.master.toList

/-- **The table is right.** Every descriptor reported was found, with the connection that is open
under it; the connections are registered once each, in the order in which they were accepted; and
between two rounds `conn_` has those that are registered and still open, the ones `epoll`
watches. -/
structure Tracked (s : Table) : Prop where
  found : ∀ r ∈ s.reported, ∃ tcp, r.found = some tcp ∧ r.now = some tcp
  order : s.accepted = s.registered ++ s.underway
  once : s.accepted.Nodup
  conn : s.worker = .queue → ∀ x, x ∈ s.conn ↔ x ∈ s.registered ∧ x ∈ s.opened
  keys : s.worker = .queue → ∀ socket, socket ∈ s.conn.map Prod.fst ↔ socket ∈ s.epoll

/-! ## The invariant -/

variable {s s' : Table} {e : TableEvent} {es : List TableEvent} {x y : Entry}
  {socket : Nat} {sockets : List Nat}

structure Inv (s : Table) : Prop where
  defined : s.worker ≠ .undefined
  numbered : s.accepted.map Prod.snd = List.range s.accepted.length
  order : s.accepted = s.registered ++ s.underway
  opened_keys : (s.opened.map Prod.fst).Nodup
  /-- Only the worker closes, and it closes only what it has registered. -/
  underway : ∀ x ∈ s.underway, x ∈ s.opened
  conn_keys : (s.conn.map Prod.fst).Nodup
  conn : ∀ x, x ∈ s.conn ↔ x ∈ s.registered ∧ (x ∈ s.opened ∨ x ∈ stale s.worker)
  stale : ∀ x ∈ stale s.worker, x ∈ s.registered ∧ x ∉ s.opened
  epoll : ∀ socket, socket ∈ s.epoll ↔
    ∃ x ∈ s.opened, x.1 = socket ∧ (x ∈ s.registered ∨ s.worker = .added x)
  batch : (pending s.worker).Nodup
  pending : ∀ socket ∈ pending s.worker, ∃ x ∈ s.opened, x.1 = socket ∧ x ∈ s.registered
  current : ∀ x sockets, s.worker = .receiving x sockets →
    x ∈ s.opened ∧ x ∈ s.registered ∧ x.1 ∉ sockets
  reported : ∀ r ∈ s.reported, ∃ tcp, r.found = some tcp ∧ r.now = some tcp

theorem inv_init : init.Inv where
  defined := nofun
  numbered := rfl
  order := rfl
  opened_keys := List.nodup_nil
  underway := by simp [init, Table.underway, inHand]
  conn_keys := List.nodup_nil
  conn := by simp [init]
  stale := by simp [init, Table.stale]
  epoll := by simp [init]
  batch := List.nodup_nil
  pending := by simp [init, Table.pending]
  current := nofun
  reported := by simp [init]

/-- A descriptor stands for one connection. -/
theorem eq_of_key {l : List Entry} (h : (l.map Prod.fst).Nodup) (hx : x ∈ l) (hy : y ∈ l)
    (hkey : x.1 = y.1) : x = y := List.inj_on_of_nodup_map h hx hy hkey

theorem lookup_of_mem {l : List Entry} (h : (l.map Prod.fst).Nodup) (hx : x ∈ l) :
    l.lookup x.1 = some x.2 := by
  have hsome : (l.lookup x.1).isSome := by
    rw [List.lookup_isSome_iff]
    exact ⟨x, hx, by simp⟩
  obtain ⟨tcp, htcp⟩ := Option.isSome_iff_exists.mp hsome
  obtain ⟨l₁, l₂, hl, -⟩ := List.lookup_eq_some_iff.mp htcp
  have heq : x = (x.1, tcp) := eq_of_key h hx (by rw [hl]; simp) rfl
  rw [htcp, heq]

theorem Inv.once (h : s.Inv) : s.accepted.Nodup := by
  refine List.Nodup.of_map Prod.snd ?_
  rw [h.numbered]
  exact List.nodup_range

/-- A connection that is under way is not registered. -/
theorem Inv.not_registered (h : s.Inv) (hx : x ∈ s.underway) : x ∉ s.registered := by
  have hnodup := h.once
  rw [h.order] at hnodup
  intro hreg
  exact (List.nodup_append.mp hnodup).2.2 x hreg x hx rfl

theorem Inv.registered_accepted (h : s.Inv) : s.registered ⊆ s.accepted := by
  rw [h.order]
  exact List.subset_append_left _ _

/-- The number of a new connection is new. -/
theorem Inv.fresh (h : s.Inv) (hnum : x.2 = s.accepted.length) : x ∉ s.registered := by
  intro hreg
  have hmem : x.2 ∈ s.accepted.map Prod.snd :=
    List.mem_map_of_mem (h.registered_accepted hreg)
  rw [h.numbered, List.mem_range, hnum] at hmem
  exact Nat.lt_irrefl _ hmem

/-! ## The master thread -/

theorem Inv.accept (h : s.Inv) (hmaster : s.master = none) (hkey : x.1 ∉ s.opened.map Prod.fst)
    (hnum : x.2 = s.accepted.length) :
    ({ s with opened := s.opened ++ [x], accepted := s.accepted ++ [x],
              master := some x } : Table).Inv := by
  have hnew := h.fresh hnum
  have hopened : ∀ y, y ∈ s.opened ++ [x] ↔ y ∈ s.opened ∨ y = x := by simp
  have hunderway : s.underway = inHand s.worker ++ s.queue := by
    simp [Table.underway, hmaster]
  have horder : s.accepted = s.registered ++ (inHand s.worker ++ s.queue) := by
    rw [← hunderway]
    exact h.order
  refine ⟨h.defined, ?_, ?_, ?_, ?_, h.conn_keys, ?_, ?_, ?_, h.batch, ?_, ?_, h.reported⟩
  · show (s.accepted ++ [x]).map Prod.snd = List.range (s.accepted ++ [x]).length
    rw [List.map_append, h.numbered, List.map_singleton, hnum, List.length_append,
      List.length_singleton, List.range_succ]
  · show s.accepted ++ [x] = s.registered ++ (inHand s.worker ++ s.queue ++ [x])
    rw [horder, List.append_assoc]
  · show ((s.opened ++ [x]).map Prod.fst).Nodup
    rw [List.map_append, List.map_singleton, ← List.concat_eq_append]
    exact List.Nodup.concat hkey h.opened_keys
  · intro y hy
    rw [hopened]
    rcases List.mem_append.mp hy with hy | hy
    · exact .inl (h.underway y (by rw [hunderway]; exact hy))
    · exact .inr (List.mem_singleton.mp hy)
  · intro y
    show y ∈ s.conn ↔ y ∈ s.registered ∧ (y ∈ s.opened ++ [x] ∨ _)
    rw [h.conn, hopened]
    constructor
    · rintro ⟨hreg, hopen | hstale⟩
      · exact ⟨hreg, .inl (.inl hopen)⟩
      · exact ⟨hreg, .inr hstale⟩
    · rintro ⟨hreg, (hopen | rfl) | hstale⟩
      · exact ⟨hreg, .inl hopen⟩
      · exact absurd hreg hnew
      · exact ⟨hreg, .inr hstale⟩
  · intro y hy
    obtain ⟨hreg, hclosed⟩ := h.stale y hy
    refine ⟨hreg, fun hopen => ?_⟩
    rcases (hopened y).mp hopen with hopen | rfl
    · exact hclosed hopen
    · exact hnew hreg
  · intro fd
    show fd ∈ s.epoll ↔ ∃ y ∈ s.opened ++ [x], _
    rw [h.epoll]
    constructor
    · rintro ⟨y, hy, hrest⟩
      exact ⟨y, List.mem_append_left _ hy, hrest⟩
    · rintro ⟨y, hy, hfd, hreg⟩
      rcases (hopened y).mp hy with hy | rfl
      · exact ⟨y, hy, hfd, hreg⟩
      · rcases hreg with hreg | hadded
        · exact absurd hreg hnew
        · -- the one in the worker's hand has been open all along
          have hadded : s.worker = .added y := hadded
          have hopen := h.underway y (by rw [hunderway, hadded]; exact List.mem_cons_self)
          exact absurd (List.mem_map_of_mem hopen) hkey
  · intro fd hfd
    obtain ⟨y, hy, hrest⟩ := h.pending fd hfd
    exact ⟨y, List.mem_append_left _ hy, hrest⟩
  · intro y rest hworker
    obtain ⟨hopen, hrest⟩ := h.current y rest hworker
    exact ⟨List.mem_append_left _ hopen, hrest⟩

/-- What a step keeps that only passes connections on. -/
theorem Inv.pass (h : s.Inv) {queue : List Entry} {master : Option Entry} {worker : WorkerAt}
    (hdefined : worker ≠ .undefined)
    (hunderway : inHand worker ++ queue ++ master.toList = s.underway)
    (hstale : Table.stale worker = Table.stale s.worker)
    (hadded : ∀ x, worker = .added x ↔ s.worker = .added x)
    (hbatch : (Table.pending worker).Nodup)
    (hpending : ∀ socket ∈ Table.pending worker, ∃ x ∈ s.opened, x.1 = socket ∧ x ∈ s.registered)
    (hcurrent : ∀ x sockets, worker = .receiving x sockets →
      x ∈ s.opened ∧ x ∈ s.registered ∧ x.1 ∉ sockets) :
    ({ s with queue, master, worker } : Table).Inv where
  defined := hdefined
  numbered := h.numbered
  order := h.order.trans (congrArg _ hunderway.symm)
  opened_keys := h.opened_keys
  underway x hx := h.underway x (hunderway ▸ hx)
  conn_keys := h.conn_keys
  conn x := by
    show _ ↔ _ ∧ (_ ∨ x ∈ Table.stale worker)
    rw [hstale]
    exact h.conn x
  stale x hx := h.stale x (hstale ▸ hx)
  epoll fd := by
    show _ ↔ ∃ x ∈ s.opened, x.1 = fd ∧ (_ ∨ worker = .added x)
    simp only [hadded]
    exact h.epoll fd
  batch := hbatch
  pending := hpending
  current := hcurrent
  reported := h.reported

theorem Inv.push (h : s.Inv) (hmaster : s.master = some x) :
    ({ s with master := none, queue := s.queue ++ [x] } : Table).Inv := by
  refine h.pass h.defined ?_ rfl (fun _ => .rfl) h.batch h.pending h.current
  simp [Table.underway, hmaster]

/-! ## The worker thread -/

theorem Inv.pop (h : s.Inv) {queue : List Entry} (hworker : s.worker = .queue)
    (hqueue : s.queue = x :: queue) :
    ({ s with worker := .popped x, queue } : Table).Inv := by
  refine h.pass nofun ?_ (by rw [hworker]; rfl) ?_ List.nodup_nil (by simp [Table.pending]) nofun
  · simp [Table.underway, hworker, hqueue, inHand]
  · simp [hworker]

theorem Inv.add (h : s.Inv) (hworker : s.worker = .popped x) :
    ({ s with worker := .added x, epoll := s.epoll ++ [x.1] } : Table).Inv := by
  have hx : x ∈ s.opened := h.underway x (by simp [Table.underway, hworker, inHand])
  refine ⟨nofun, h.numbered, ?_, h.opened_keys, ?_, h.conn_keys, ?_, by simp [Table.stale], ?_,
    List.nodup_nil, by simp [Table.pending], nofun, h.reported⟩
  · have horder := h.order
    unfold Table.underway at horder ⊢
    rwa [hworker] at horder
  · intro y hy
    apply h.underway y
    unfold Table.underway at hy ⊢
    rw [hworker]
    exact hy
  · intro y
    have hconn := h.conn y
    rwa [hworker] at hconn
  · intro fd
    show fd ∈ s.epoll ++ [x.1] ↔ _
    rw [List.mem_append, List.mem_singleton, h.epoll]
    constructor
    · rintro (⟨y, hy, hfd, hreg | hadded⟩ | rfl)
      · exact ⟨y, hy, hfd, .inl hreg⟩
      · rw [hworker] at hadded
        cases hadded
      · exact ⟨x, hx, rfl, .inr rfl⟩
    · rintro ⟨y, hy, hfd, hreg | hadded⟩
      · exact .inl ⟨y, hy, hfd, .inl hreg⟩
      · cases hadded
        exact .inr hfd.symm

/-- There is no older entry with the number of a connection that is registered. -/
theorem Inv.insertConn_eq (h : s.Inv) (hworker : s.worker = .added x) :
    s.insertConn x = { s with conn := s.conn ++ [x], registered := s.registered ++ [x] } ∧
      x.1 ∉ s.conn.map Prod.fst := by
  have hmem : x ∈ s.underway := by simp [Table.underway, hworker, inHand]
  have hfree : x.1 ∉ s.conn.map Prod.fst := by
    intro hkey
    obtain ⟨y, hy, hyx⟩ := List.mem_map.mp hkey
    obtain ⟨hreg, hopen⟩ := (h.conn y).mp hy
    rw [hworker] at hopen
    -- the entry's connection is open, so it would be the one that is registered now
    have hopen : y ∈ s.opened := hopen.resolve_right (by simp [Table.stale])
    rw [eq_of_key h.opened_keys hopen (h.underway x hmem) hyx] at hreg
    exact h.not_registered hmem hreg
  refine ⟨if_neg ?_, hfree⟩
  rw [List.lookup_isSome_iff]
  rintro ⟨y, hy, hyx⟩
  exact hfree (List.mem_map.mpr ⟨y, hy, (eq_of_beq hyx).symm⟩)

theorem Inv.insert (h : s.Inv) (hworker : s.worker = .added x) :
    ({ s.insertConn x with worker := .queue } : Table).Inv := by
  have hmem : x ∈ s.underway := by simp [Table.underway, hworker, inHand]
  have hx := h.underway x hmem
  obtain ⟨heq, hfree⟩ := h.insertConn_eq hworker
  have hreg : ∀ y, y ∈ s.registered ++ [x] ↔ y ∈ s.registered ∨ y = x := by simp
  rw [heq]
  refine ⟨nofun, h.numbered, ?_, h.opened_keys, ?_, ?_, ?_, by simp [Table.stale], ?_,
    List.nodup_nil, by simp [Table.pending], nofun, h.reported⟩
  · have horder := h.order
    unfold Table.underway at horder ⊢
    rw [hworker] at horder
    rw [horder]
    simp [inHand]
  · intro y hy
    apply h.underway y
    unfold Table.underway at hy ⊢
    rw [hworker]
    exact List.mem_cons_of_mem x hy
  · show ((s.conn ++ [x]).map Prod.fst).Nodup
    rw [List.map_append, List.map_singleton, ← List.concat_eq_append]
    exact List.Nodup.concat hfree h.conn_keys
  · intro y
    show y ∈ s.conn ++ [x] ↔ y ∈ s.registered ++ [x] ∧ (y ∈ s.opened ∨ y ∈ [])
    have hconn := h.conn y
    rw [hworker] at hconn
    rw [List.mem_append, List.mem_singleton, hconn, hreg]
    constructor
    · rintro (⟨hy, hopen⟩ | rfl)
      · exact ⟨.inl hy, hopen⟩
      · exact ⟨.inr rfl, .inl hx⟩
    · rintro ⟨hy | rfl, hopen⟩
      · exact .inl ⟨hy, hopen⟩
      · exact .inr rfl
  · intro fd
    show fd ∈ s.epoll ↔ ∃ y ∈ s.opened, y.1 = fd ∧ (y ∈ s.registered ++ [x] ∨ _)
    rw [h.epoll, hworker]
    constructor
    · rintro ⟨y, hy, hfd, hrest⟩
      refine ⟨y, hy, hfd, .inl ((hreg y).mpr ?_)⟩
      rcases hrest with hrest | hadded
      · exact .inl hrest
      · cases hadded
        exact .inr rfl
    · rintro ⟨y, hy, hfd, hrest | hrest⟩
      · rcases (hreg y).mp hrest with hrest | rfl
        · exact ⟨y, hy, hfd, .inl hrest⟩
        · exact ⟨y, hy, hfd, .inr rfl⟩
      · cases hrest

theorem Inv.empty (h : s.Inv) (hworker : s.worker = .queue) :
    ({ s with worker := .waiting } : Table).Inv := by
  refine h.pass nofun ?_ (by rw [hworker]; rfl) ?_ List.nodup_nil (by simp [Table.pending]) nofun
  · simp [Table.underway, hworker, inHand]
  · simp [hworker]

theorem Inv.wait (h : s.Inv) (hworker : s.worker = .waiting) (hnodup : sockets.Nodup)
    (hwatched : sockets ⊆ s.epoll) : ({ s with worker := .batch sockets } : Table).Inv := by
  refine h.pass nofun ?_ (by rw [hworker]; rfl) ?_ hnodup ?_ nofun
  · simp [Table.underway, hworker, inHand]
  · simp [hworker]
  · intro fd hfd
    obtain ⟨x, hx, hkey, hreg⟩ := (h.epoll fd).mp (hwatched hfd)
    rw [hworker] at hreg
    exact ⟨x, hx, hkey, hreg.resolve_right nofun⟩

/-- The descriptor of an event is found, with the connection that is open under it. -/
theorem Inv.findConn (h : s.Inv) (hworker : s.worker = .batch (socket :: sockets)) :
    (s.findConn socket sockets).Inv := by
  have hbatch := h.batch
  have hpending := h.pending
  rw [hworker] at hbatch hpending
  obtain ⟨x, hx, rfl, hreg⟩ := hpending socket List.mem_cons_self
  have hconn : s.conn.lookup x.1 = some x.2 :=
    lookup_of_mem h.conn_keys ((h.conn x).mpr ⟨hreg, .inl hx⟩)
  have hopen : s.opened.lookup x.1 = some x.2 := lookup_of_mem h.opened_keys hx
  have heq : s.findConn x.1 sockets = { s with
      reported := s.reported ++ [⟨x.1, some x.2, some x.2⟩]
      worker := .receiving x sockets } := by
    unfold Table.findConn
    simp only [hconn, hopen]
  rw [heq]
  have hnext : ({ s with worker := .receiving x sockets } : Table).Inv := by
    refine h.pass nofun ?_ (by rw [hworker]; rfl) ?_ (List.nodup_cons.mp hbatch).2 ?_ ?_
    · simp [Table.underway, hworker, inHand]
    · simp [hworker]
    · exact fun fd hfd => hpending fd (List.mem_cons_of_mem _ hfd)
    · rintro y rest heq
      cases heq
      exact ⟨hx, hreg, (List.nodup_cons.mp hbatch).1⟩
  refine ⟨hnext.defined, hnext.numbered, hnext.order, hnext.opened_keys, hnext.underway,
    hnext.conn_keys, hnext.conn, hnext.stale, hnext.epoll, hnext.batch, hnext.pending,
    hnext.current, fun r hr => ?_⟩
  rcases List.mem_append.mp hr with hr | hr
  · exact h.reported r hr
  · rw [List.mem_singleton.mp hr]
    exact ⟨x.2, rfl, rfl⟩

theorem Inv.more (h : s.Inv) (hworker : s.worker = .receiving x sockets) :
    ({ s with worker := .batch sockets } : Table).Inv := by
  have hbatch := h.batch
  have hpending := h.pending
  rw [hworker] at hbatch hpending
  refine h.pass nofun ?_ (by rw [hworker]; rfl) ?_ hbatch hpending nofun
  · simp [Table.underway, hworker, inHand]
  · simp [hworker]

theorem Inv.close (h : s.Inv) (hworker : s.worker = .receiving x sockets) :
    ({ s with
      opened := s.opened.filter fun y => y.1 ≠ x.1
      epoll := s.epoll.filter fun socket => socket ≠ x.1
      worker := .closed x sockets } : Table).Inv := by
  obtain ⟨hx, hxreg, hxrest⟩ := h.current x sockets hworker
  have hbatch := h.batch
  have hpending := h.pending
  have hconn := h.conn
  have hunderway : s.underway = s.queue ++ s.master.toList := by
    simp [Table.underway, hworker, inHand]
  rw [hworker] at hbatch hpending hconn
  have hopened : ∀ y, y ∈ s.opened.filter (fun y => y.1 ≠ x.1) ↔ y ∈ s.opened ∧ y.1 ≠ x.1 := by
    simp
  refine ⟨nofun, h.numbered, ?_, h.opened_keys.sublist (List.filter_sublist.map _), ?_,
    h.conn_keys, ?_, ?_, ?_, hbatch, ?_, nofun, h.reported⟩
  · have horder := h.order
    rwa [hunderway] at horder
  · intro y hy
    have hy : y ∈ s.underway := by
      rw [hunderway]
      exact hy
    refine (hopened y).mpr ⟨h.underway y hy, fun hkey => ?_⟩
    -- what is under way is not what the worker closes
    rw [eq_of_key h.opened_keys (h.underway y hy) hx hkey] at hy
    exact h.not_registered hy hxreg
  · intro y
    show y ∈ s.conn ↔ y ∈ s.registered ∧ (y ∈ s.opened.filter _ ∨ y ∈ [x])
    rw [hconn, hopened, List.mem_singleton]
    constructor
    · rintro ⟨hreg, hopen | hnone⟩
      · by_cases hkey : y.1 = x.1
        · exact ⟨hreg, .inr (eq_of_key h.opened_keys hopen hx hkey)⟩
        · exact ⟨hreg, .inl ⟨hopen, hkey⟩⟩
      · exact absurd hnone (by simp [Table.stale])
    · rintro ⟨hreg, hopen | rfl⟩
      · exact ⟨hreg, .inl hopen.1⟩
      · exact ⟨hreg, .inl hx⟩
  · intro y hy
    obtain rfl := List.mem_singleton.mp hy
    exact ⟨hxreg, fun hopen => ((hopened y).mp hopen).2 rfl⟩
  · intro fd
    show fd ∈ s.epoll.filter _ ↔ ∃ y ∈ s.opened.filter _, _
    rw [List.mem_filter, h.epoll, hworker, decide_eq_true_iff]
    constructor
    · rintro ⟨⟨y, hy, rfl, hreg⟩, hne⟩
      exact ⟨y, (hopened y).mpr ⟨hy, hne⟩, rfl, .inl (hreg.resolve_right nofun)⟩
    · rintro ⟨y, hy, rfl, hreg⟩
      obtain ⟨hopen, hne⟩ := (hopened y).mp hy
      exact ⟨⟨y, hopen, rfl, .inl (hreg.resolve_right nofun)⟩, hne⟩
  · intro fd hfd
    obtain ⟨y, hy, rfl, hreg⟩ := hpending fd hfd
    refine ⟨y, (hopened y).mpr ⟨hy, fun hkey => hxrest ?_⟩, rfl, hreg⟩
    rw [← hkey]
    exact hfd

theorem Inv.erase (h : s.Inv) (hworker : s.worker = .closed x sockets) :
    ({ s with
      conn := s.conn.filter fun y => y.1 ≠ x.1
      worker := .batch sockets } : Table).Inv := by
  have hbatch := h.batch
  have hpending := h.pending
  have hconn := h.conn
  have hstale := h.stale
  have hepoll := h.epoll
  have horder := h.order
  have hunderway := h.underway
  unfold Table.underway at horder hunderway
  rw [hworker] at hbatch hpending hconn hstale horder hunderway
  simp only [hworker] at hepoll
  obtain ⟨hxreg, hxclosed⟩ := hstale x (List.mem_singleton_self x)
  refine ⟨nofun, h.numbered, horder, h.opened_keys, hunderway,
    h.conn_keys.sublist (List.filter_sublist.map _), ?_, by simp [Table.stale], ?_, hbatch,
    hpending, nofun, h.reported⟩
  · intro y
    have hy := hconn y
    show y ∈ s.conn.filter _ ↔ y ∈ s.registered ∧ (y ∈ s.opened ∨ y ∈ [])
    rw [List.mem_filter, decide_eq_true_iff]
    constructor
    · rintro ⟨hmem, hkey⟩
      obtain ⟨hreg, hopen⟩ := hy.mp hmem
      refine ⟨hreg, .inl (hopen.resolve_right fun heq => hkey ?_)⟩
      rw [List.mem_singleton.mp heq]
    · rintro ⟨hreg, hopen | hnone⟩
      · refine ⟨hy.mpr ⟨hreg, .inl hopen⟩, fun hkey => hxclosed ?_⟩
        -- of the entries with this number only the stale one is in the map
        have hxconn : x ∈ s.conn := (hconn x).mpr ⟨hxreg, .inr (List.mem_singleton_self x)⟩
        rw [← eq_of_key h.conn_keys (hy.mpr ⟨hreg, .inl hopen⟩) hxconn hkey]
        exact hopen
      · exact absurd hnone List.not_mem_nil
  · intro fd
    have hfd := hepoll fd
    simpa using hfd

theorem Inv.again (h : s.Inv) (hworker : s.worker = .batch []) :
    ({ s with worker := .queue } : Table).Inv := by
  refine h.pass nofun ?_ (by rw [hworker]; rfl) ?_ List.nodup_nil (by simp [Table.pending]) nofun
  · simp [Table.underway, hworker, inHand]
  · simp [hworker]

/-! ## Whole runs -/

theorem Inv.step (h : s.Inv) (hs : s.step e = some s') : s'.Inv := by
  cases e with
  | accept socket =>
    simp only [Table.step] at hs
    split at hs
    · next hfree =>
      cases hs
      exact h.accept hfree.1 hfree.2 rfl
    · cases hs
  | push =>
    simp only [Table.step] at hs
    split at hs
    · next x hmaster =>
      cases hs
      exact h.push hmaster
    · cases hs
  | pop =>
    simp only [Table.step] at hs
    split at hs
    · next x queue hworker hqueue =>
      cases hs
      exact h.pop hworker hqueue
    · cases hs
  | add =>
    simp only [Table.step] at hs
    split at hs
    · next x hworker =>
      cases hs
      exact h.add hworker
    · cases hs
  | insert =>
    simp only [Table.step] at hs
    split at hs
    · next x hworker =>
      cases hs
      exact h.insert hworker
    · cases hs
  | empty =>
    simp only [Table.step] at hs
    split at hs
    · next hempty =>
      cases hs
      exact h.empty hempty.1
    · cases hs
  | wait ready =>
    simp only [Table.step] at hs
    split at hs
    · next hready =>
      obtain ⟨hworker, -, hnodup, hwatched⟩ := hready
      cases hs
      exact h.wait hworker hnodup hwatched
    · cases hs
  | find =>
    simp only [Table.step] at hs
    split at hs
    · next socket sockets hworker =>
      cases hs
      exact h.findConn hworker
    · cases hs
  | more =>
    simp only [Table.step] at hs
    split at hs
    · next x sockets hworker =>
      cases hs
      exact h.more hworker
    · cases hs
  | close =>
    simp only [Table.step] at hs
    split at hs
    · next x sockets hworker =>
      cases hs
      exact h.close hworker
    · cases hs
  | erase =>
    simp only [Table.step] at hs
    split at hs
    · next x sockets hworker =>
      cases hs
      exact h.erase hworker
    · cases hs
  | again =>
    simp only [Table.step] at hs
    split at hs
    · next hworker =>
      cases hs
      exact h.again hworker
    · cases hs

theorem Inv.tracked (h : s.Inv) : s.Tracked where
  found := h.reported
  order := h.order
  once := h.once
  conn hworker x := by
    have hconn := h.conn x
    rw [hworker] at hconn
    simpa [Table.stale] using hconn
  keys hworker fd := by
    rw [h.epoll, hworker, List.mem_map]
    constructor
    · rintro ⟨x, hx, hkey⟩
      obtain ⟨hreg, hopen⟩ := (h.conn x).mp hx
      rw [hworker] at hopen
      exact ⟨x, hopen.resolve_right (by simp [Table.stale]), hkey, .inl hreg⟩
    · rintro ⟨x, hopen, hkey, hreg⟩
      exact ⟨x, (h.conn x).mpr ⟨hreg.resolve_right nofun, .inl hopen⟩, hkey⟩

/-- **The connection table is right in every interleaving** of the two threads, whichever free
numbers the kernel gives and however soon. -/
theorem run_tracked (hr : run step init es = some s) : s.Tracked :=
  (run_invariant (I := Inv) (fun _ _ _ => Inv.step) inv_init hr).tracked

/-- A second client gets the number of the first while the worker is about to erase the old entry,
and is served under it. -/
theorem run_tracked_reused :
    ∃ s, run step init [.accept 5, .push, .pop, .add, .insert, .empty, .wait [5], .find, .close,
        .accept 5, .push, .erase, .again, .pop, .add, .insert, .empty, .wait [5], .find, .more,
        .again] = some s ∧ s.Tracked :=
  exists_of_isSome (by decide +kernel) fun _ hr => run_tracked hr

end Table

end ModemFhss.Daemon
