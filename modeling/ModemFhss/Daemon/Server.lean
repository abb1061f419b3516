import Mathlib.Data.List.Nodup
import Mathlib.Logic.Function.Basic
import ModemFhss.Daemon.Stream

/-!
# Several clients and one worker (`selector.cpp`)

The selector keeps the connections by descriptor and passes each readiness event to the worker's
`data_receive`. The worker has *one* buffer and one cached size for all of them, and clears both
when any of them closes. What a client sends therefore reaches `data_process` as its own only if the
other clients happen to be between two blocks: `Undisturbed` says exactly that of an event, and
`run_isolated` that it is enough.

Connections are numbered in the order in which they are accepted, so that a descriptor can be used
again; `received` is what `recv` has returned on each of them so far.
-/

namespace ModemFhss.Daemon

open Framing Machine

structure Server where
  worker : Worker Nat
  /-- `conn_`: the descriptors and their connections. -/
  conn : List (Nat × Nat)
  /-- The number of connections accepted so far. -/
  accepted : Nat
  received : Nat → Block

inductive ServerEvent where
  /-- A client connects, and the kernel gives it descriptor `socket`. -/
  | accept (socket : Nat)
  /-- A readiness event of a descriptor: what `recv` returns before the last result, which is `0`
  if the client has closed. -/
  | readable (socket : Nat) (chunks : List Block) (closed : Bool) (conf : Block → Block)
  /-- The modem's side of the worker moves on: `write_modem` and `listen_modem`. -/
  | modem (blockToModem blockToClient : Block)

namespace Server

def init : Server where
  worker := .init
  conn := []
  accepted := 0
  received := fun _ => []

/-- `selector::register_connect`: `insert` does not replace an entry. -/
def registerConnect (s : Server) (socket tcp : Nat) : Server :=
  if (s.conn.lookup socket).isSome then s else { s with conn := s.conn ++ [(socket, tcp)] }

/-- `selector::connection_delete`. -/
def connectionDelete (s : Server) (socket : Nat) : Server :=
  { s with conn := s.conn.filter fun x => x.1 ≠ socket }

/-- One pass of the loop in `selector::wait_event`. -/
def readable (s : Server) (socket : Nat) (chunks : List Block) (closed : Bool)
    (conf : Block → Block) : Option Server :=
  match s.conn.lookup socket with
  | none => none
  | some tcp =>
    match s.worker.dataReceive conf tcp chunks closed with
    | .error _ => none
    | .ok worker =>
      let s := { s with
        worker
        received := Function.update s.received tcp (s.received tcp ++ chunks.flatten) }
      some (if closed then s.connectionDelete socket else s)

def step (s : Server) : ServerEvent → Option Server
  | .accept socket =>
    if (s.conn.lookup socket).isSome then
      none
    else
      some { s.registerConnect socket s.accepted with accepted := s.accepted + 1 }
  | .readable socket chunks closed conf => s.readable socket chunks closed conf
  | .modem blockToModem blockToClient =>
    some { s with worker := { s.worker with blockToModem, blockToClient } }

/-- The blocks `data_process` got with connection `tcp`. -/
def blocksOf (s : Server) (tcp : Nat) : List Block :=
  (s.worker.processed.filter fun x => x.1 = tcp).map Prod.snd

variable (streams : Nat → List Block)

/-- Every connection's blocks are those of its own stream. -/
def Isolated (s : Server) : Prop :=
  ∀ tcp, s.blocksOf tcp = whole (streams tcp) (s.received tcp).length

/-- Every client sends its own stream. -/
def Sends (s : Server) : ServerEvent → Prop
  | .readable socket chunks _ _ => ∀ tcp ∈ s.conn.lookup socket,
    Worker.Continues (streams tcp) (s.received tcp).length chunks.flatten
  | _ => True

/-- What has been received on a connection ends where a block ends. -/
def AtBoundary (s : Server) (tcp : Nat) : Prop := rest (streams tcp) (s.received tcp).length = []

/-- When a client's bytes or its close arrive, no other client is in the middle of a block, and a
close does not come together with the end of a block. -/
def Undisturbed (s : Server) : ServerEvent → Prop
  | .readable socket chunks closed _ => ∀ tcp ∈ s.conn.lookup socket,
    (chunks.flatten ≠ [] ∨ closed = true →
      ∀ x ∈ s.conn, x.2 ≠ tcp → s.AtBoundary streams x.2) ∧
    (closed = true → whole (streams tcp) ((s.received tcp).length + chunks.flatten.length) =
      whole (streams tcp) (s.received tcp).length)
  | _ => True

/-- A run in which the clients send their streams and are not disturbed. -/
def Orderly (s : Server) (e : ServerEvent) : Prop := Sends streams s e ∧ Undisturbed streams s e

instance (s : Server) (tcp : Nat) : Decidable (s.AtBoundary streams tcp) :=
  inferInstanceAs (Decidable (_ = _))

instance : ∀ (s : Server) (e : ServerEvent), Decidable (Sends streams s e)
  | s, .readable socket chunks _ _ => inferInstanceAs (Decidable (∀ tcp ∈ s.conn.lookup socket,
      (streams tcp).flatten.take (s.received tcp).length ++ chunks.flatten <+:
        (streams tcp).flatten))
  | _, .accept _ => isTrue trivial
  | _, .modem .. => isTrue trivial

instance : ∀ (s : Server) (e : ServerEvent), Decidable (Undisturbed streams s e)
  | s, .readable socket chunks closed _ => inferInstanceAs (Decidable (∀ tcp ∈ s.conn.lookup socket,
      (chunks.flatten ≠ [] ∨ closed = true →
        ∀ x ∈ s.conn, x.2 ≠ tcp → s.AtBoundary streams x.2) ∧
      (closed = true → whole (streams tcp) ((s.received tcp).length + chunks.flatten.length) =
        whole (streams tcp) (s.received tcp).length)))
  | _, .accept _ => isTrue trivial
  | _, .modem .. => isTrue trivial

instance (s : Server) (e : ServerEvent) : Decidable (Orderly streams s e) :=
  inferInstanceAs (Decidable (_ ∧ _))

/-! ## The invariant -/

/-- The buffer holds what has arrived of one client's block; the others are between two blocks. -/
def Holds (s : Server) : Prop :=
  (s.worker.Holds [] ∧ ∀ x ∈ s.conn, s.AtBoundary streams x.2) ∨
    ∃ x ∈ s.conn, s.worker.Holds (rest (streams x.2) (s.received x.2).length) ∧
      ∀ y ∈ s.conn, y.2 ≠ x.2 → s.AtBoundary streams y.2

structure Inv (s : Server) : Prop where
  /-- Connections are distinct, and numbered from `0`. -/
  nodup : (s.conn.map Prod.snd).Nodup
  numbered : ∀ x ∈ s.conn, x.2 < s.accepted
  unborn : ∀ tcp, s.accepted ≤ tcp → s.received tcp = []
  arrived : ∀ tcp, (s.received tcp).length ≤ (streams tcp).flatten.length
  isolated : s.Isolated streams
  holds : s.Holds streams

variable {streams} {s s' : Server} {socket tcp : Nat} {chunks : List Block}
  {conf : Block → Block} {closed : Bool}

theorem inv_init (hwf : ∀ tcp, ∀ b ∈ streams tcp, WellFormed b) : init.Inv streams where
  nodup := List.nodup_nil
  numbered := by simp [init]
  unborn _ _ := rfl
  arrived _ := Nat.zero_le _
  isolated tcp := by
    have hshort := Worker.short_of_wellFormed (hwf tcp) Nat.zero_lt_two
    exact (whole_of_short hshort).symm
  holds := .inl ⟨Worker.holds_init, by simp [init]⟩

theorem mem_of_lookup {conn : List (Nat × Nat)} (h : conn.lookup socket = some tcp) :
    (socket, tcp) ∈ conn := by
  obtain ⟨l₁, l₂, rfl, -⟩ := List.lookup_eq_some_iff.mp h
  simp

/-- An undisturbed client finds in the buffer what has arrived of its own block. -/
theorem Holds.own (h : s.Holds streams) (hmem : (socket, tcp) ∈ s.conn)
    (hothers : ∀ x ∈ s.conn, x.2 ≠ tcp → s.AtBoundary streams x.2) :
    s.worker.Holds (rest (streams tcp) (s.received tcp).length) := by
  rcases h with ⟨hempty, hall⟩ | ⟨x, hx, hholds, hrest⟩
  · rw [show rest (streams tcp) _ = [] from hall _ hmem]
    exact hempty
  · by_cases hown : x.2 = tcp
    · rw [← hown]
      exact hholds
    · -- the buffer is another client's, but that client is between two blocks
      rw [show rest (streams x.2) _ = [] from hothers x hx hown] at hholds
      rw [show rest (streams tcp) _ = [] from hrest _ hmem (Ne.symm hown)]
      exact hholds

theorem filter_map_pair {bs : List Block} {k : Nat} :
    ((bs.map (tcp, ·)).filter fun x => x.1 = k).map Prod.snd = if tcp = k then bs else [] := by
  by_cases htcp : tcp = k
  · rw [if_pos htcp, List.filter_eq_self.mpr (by simp [htcp]), List.map_map]
    exact List.map_id bs
  · rw [if_neg htcp, List.filter_eq_nil_iff.mpr (by simp [htcp])]
    rfl

/-- What is left to check when bytes of one connection were taken in: what they make whole was
handed on, and the buffer is in order. -/
theorem Inv.advance {bytes : Block} {worker : Worker Nat} {new : List Block}
    {conn : List (Nat × Nat)} (h : s.Inv streams) (hmem : (socket, tcp) ∈ s.conn)
    (hnext : Worker.Continues (streams tcp) (s.received tcp).length bytes)
    (hlog : worker.processed = s.worker.processed ++ new.map (tcp, ·))
    (hnew : whole (streams tcp) ((s.received tcp).length + bytes.length) =
      whole (streams tcp) (s.received tcp).length ++ new)
    (hconn : conn.Sublist s.conn)
    (hholds : Holds streams { s with
      worker, conn, received := Function.update s.received tcp (s.received tcp ++ bytes) }) :
    Inv streams { s with
      worker, conn, received := Function.update s.received tcp (s.received tcp ++ bytes) } where
  nodup := h.nodup.sublist (hconn.map Prod.snd)
  numbered x hx := h.numbered x (hconn.subset hx)
  unborn k hk := by
    have hne : k ≠ tcp := Nat.ne_of_gt (Nat.lt_of_lt_of_le (h.numbered _ hmem) hk)
    show Function.update s.received tcp _ k = []
    rw [Function.update_of_ne hne]
    exact h.unborn k hk
  arrived k := by
    show (Function.update s.received tcp _ k).length ≤ _
    by_cases hk : k = tcp
    · subst hk
      rw [Function.update_self, List.length_append]
      exact hnext.le (h.arrived k)
    · rw [Function.update_of_ne hk]
      exact h.arrived k
  isolated k := by
    show (List.filter _ worker.processed).map Prod.snd =
      whole _ (Function.update s.received tcp _ k).length
    rw [hlog, List.filter_append, List.map_append, filter_map_pair]
    have hold : (s.worker.processed.filter fun x => x.1 = k).map Prod.snd =
        whole (streams k) (s.received k).length := h.isolated k
    rw [hold]
    by_cases hk : tcp = k
    · subst hk
      rw [if_pos rfl, Function.update_self, List.length_append, hnew]
    · rw [if_neg hk, Function.update_of_ne (Ne.symm hk), List.append_nil]
  holds := hholds

theorem readable_of_ok {worker : Worker Nat} (hlookup : s.conn.lookup socket = some tcp)
    (hok : s.worker.dataReceive conf tcp chunks closed = .ok worker) :
    s.readable socket chunks closed conf = some { s with
      worker
      conn := if closed then s.conn.filter fun x => x.1 ≠ socket else s.conn
      received := Function.update s.received tcp (s.received tcp ++ chunks.flatten) } := by
  simp only [Server.readable, hlookup, hok]
  cases closed <;> rfl

/-- Other connections are where they were. -/
theorem atBoundary_update {worker : Worker Nat} {conn : List (Nat × Nat)} {bytes : Block} {k : Nat}
    (hk : k ≠ tcp) (h : s.AtBoundary streams k) :
    AtBoundary streams { s with
      worker, conn, received := Function.update s.received tcp bytes } k := by
  show rest _ (Function.update s.received tcp bytes k).length = []
  rw [Function.update_of_ne hk]
  exact h

theorem processed_nil (s : Server) (tcp : Nat) :
    s.worker.processed = s.worker.processed ++ ([] : List Block).map (tcp, ·) := by
  rw [List.map_nil, List.append_nil]

/-- The client goes, between two blocks of its own. -/
theorem Inv.readable_closed (h : s.Inv streams) (hlookup : s.conn.lookup socket = some tcp)
    (hnext : Worker.Continues (streams tcp) (s.received tcp).length chunks.flatten)
    (hothers : ∀ x ∈ s.conn, x.2 ≠ tcp → s.AtBoundary streams x.2)
    (hclose : whole (streams tcp) ((s.received tcp).length + chunks.flatten.length) =
      whole (streams tcp) (s.received tcp).length) :
    ∃ s', s.readable socket chunks true conf = some s' ∧ s'.Inv streams := by
  have hmem : (socket, tcp) ∈ s.conn := mem_of_lookup hlookup
  have hconn : (s.conn.filter fun x => x.1 ≠ socket).Sublist s.conn := List.filter_sublist
  refine ⟨_, readable_of_ok hlookup rfl,
    h.advance hmem hnext (processed_nil s tcp) ?_ hconn ?_⟩
  · rw [List.append_nil]
    exact hclose
  · -- the buffer is empty again, and only the closed connection was in the middle of a block
    refine .inl ⟨⟨rfl, rfl⟩, fun x hx => ?_⟩
    have hne : x.2 ≠ tcp := by
      intro heq
      have hx' : x = (socket, tcp) :=
        List.inj_on_of_nodup_map h.nodup (hconn.subset hx) hmem heq
      have hkey := List.of_mem_filter hx
      rw [hx'] at hkey
      simp at hkey
    exact atBoundary_update hne (hothers x (hconn.subset hx) hne)

/-- No bytes came, so it does not matter whose block the buffer holds. -/
theorem Inv.readable_quiet (hwf : ∀ tcp, ∀ b ∈ streams tcp, WellFormed b) (h : s.Inv streams)
    (hlookup : s.conn.lookup socket = some tcp)
    (hnext : Worker.Continues (streams tcp) (s.received tcp).length chunks.flatten)
    (hquiet : chunks.flatten = []) :
    ∃ s', s.readable socket chunks false conf = some s' ∧ s'.Inv streams := by
  -- the state of the stream is what it was
  have hsame : Function.update s.received tcp (s.received tcp ++ chunks.flatten)
      = s.received := by
    rw [hquiet, List.append_nil, Function.update_eq_self]
  have hlen : whole (streams tcp) ((s.received tcp).length + chunks.flatten.length) =
      whole (streams tcp) (s.received tcp).length ++ [] := by
    rw [hquiet, List.append_nil]
    rfl
  have hdone : ∃ w', s.worker.dataReceive conf tcp chunks false = .ok w' ∧
      w'.processed = s.worker.processed ∧ Holds streams { s with worker := w' } := by
    rcases h.holds with ⟨hempty, hall⟩ | ⟨x, hx, hholds, hrest⟩
    · obtain ⟨w', hw', hholds', hlog⟩ : ∃ w', s.worker.dataReceive conf tcp chunks false =
          .ok w' ∧ w'.Holds (rest [] 0) ∧ w'.processed = s.worker.processed :=
        Worker.dataReceive_quiet (by simp) hempty (Nat.zero_le _) hquiet
      exact ⟨w', hw', hlog, .inl ⟨hholds', hall⟩⟩
    · obtain ⟨w', hw', hholds', hlog⟩ : ∃ w', s.worker.dataReceive conf tcp chunks false =
          .ok w' ∧ _ := Worker.dataReceive_quiet (hwf x.2) hholds (h.arrived x.2) hquiet
      exact ⟨w', hw', hlog, .inr ⟨x, hx, hholds', hrest⟩⟩
  obtain ⟨w', hw', hlog, hholds⟩ := hdone
  refine ⟨_, readable_of_ok hlookup hw', h.advance (mem_of_lookup hlookup) hnext
    (hlog.trans (processed_nil s tcp)) hlen (List.Sublist.refl _) ?_⟩
  rw [hsame]
  exact hholds

/-- The buffer is this client's, and its stream goes on. -/
theorem Inv.readable_stream (hwf : ∀ tcp, ∀ b ∈ streams tcp, WellFormed b) (h : s.Inv streams)
    (hlookup : s.conn.lookup socket = some tcp)
    (hnext : Worker.Continues (streams tcp) (s.received tcp).length chunks.flatten)
    (hothers : ∀ x ∈ s.conn, x.2 ≠ tcp → s.AtBoundary streams x.2) :
    ∃ s', s.readable socket chunks false conf = some s' ∧ s'.Inv streams := by
  have hmem : (socket, tcp) ∈ s.conn := mem_of_lookup hlookup
  have hown := h.holds.own hmem hothers
  obtain ⟨w', hw', hholds, hlog⟩ : ∃ w', s.worker.dataReceive conf tcp chunks false =
      .ok w' ∧ _ := Worker.dataReceive_stream (hwf tcp) hown (hnext.eq_take (h.arrived tcp))
        (hnext.le (h.arrived tcp))
  refine ⟨_, readable_of_ok hlookup hw', h.advance hmem hnext hlog
    (whole_add (h.arrived tcp)) (List.Sublist.refl _)
    (.inr ⟨(socket, tcp), hmem, ?_, fun y hy hne => ?_⟩)⟩
  · show w'.Holds (rest _ (Function.update s.received tcp _ tcp).length)
    rw [Function.update_self, List.length_append]
    exact hholds
  · exact atBoundary_update hne (hothers y hy hne)

/-- **A readiness event of an undisturbed client.** -/
theorem Inv.readable (hwf : ∀ tcp, ∀ b ∈ streams tcp, WellFormed b) (h : s.Inv streams)
    (hlookup : s.conn.lookup socket = some tcp)
    (hg : Orderly streams s (.readable socket chunks closed conf)) :
    ∃ s', s.readable socket chunks closed conf = some s' ∧ s'.Inv streams := by
  have hnext : Worker.Continues _ _ chunks.flatten := hg.1 tcp hlookup
  obtain ⟨hothers, hclose⟩ := hg.2 tcp hlookup
  cases closed with
  | true => exact h.readable_closed hlookup hnext (hothers (.inr rfl)) (hclose rfl)
  | false =>
    by_cases hquiet : chunks.flatten = []
    · exact h.readable_quiet hwf hlookup hnext hquiet
    · exact h.readable_stream hwf hlookup hnext (hothers (.inl hquiet))

theorem Inv.accept (hwf : ∀ tcp, ∀ b ∈ streams tcp, WellFormed b) (h : s.Inv streams) :
    Inv streams { s with
      conn := s.conn ++ [(socket, s.accepted)], accepted := s.accepted + 1 } := by
  -- nothing has been received on the new connection
  have hnew : s.AtBoundary streams s.accepted := by
    have hshort := Worker.short_of_wellFormed (hwf s.accepted) Nat.zero_lt_two
    unfold AtBoundary
    rw [h.unborn _ (Nat.le_refl _), List.length_nil, rest_of_short hshort, List.take_zero]
  refine ⟨?_, fun x hx => ?_, fun k hk => h.unborn k (by exact Nat.le_of_succ_le hk), h.arrived,
    h.isolated, ?_⟩
  · show ((s.conn ++ [(socket, s.accepted)]).map Prod.snd).Nodup
    rw [List.map_append, List.nodup_append]
    refine ⟨h.nodup, List.nodup_singleton _, fun a ha c hc hac => ?_⟩
    obtain ⟨x, hx, rfl⟩ := List.mem_map.mp ha
    rw [List.mem_singleton.mp hc] at hac
    exact absurd hac (Nat.ne_of_lt (h.numbered x hx))
  · rcases List.mem_append.mp hx with hx | hx
    · exact Nat.lt_succ_of_lt (h.numbered x hx)
    · rw [List.mem_singleton.mp hx]
      exact Nat.lt_succ_self _
  · rcases h.holds with ⟨hempty, hall⟩ | ⟨x, hx, hholds, hrest⟩
    · refine .inl ⟨hempty, fun y hy => ?_⟩
      rcases List.mem_append.mp hy with hy | hy
      · exact hall y hy
      · rw [List.mem_singleton.mp hy]
        exact hnew
    · refine .inr ⟨x, List.mem_append_left _ hx, hholds, fun y hy hne => ?_⟩
      rcases List.mem_append.mp hy with hy | hy
      · exact hrest y hy hne
      · rw [List.mem_singleton.mp hy]
        exact hnew

theorem Inv.step {e : ServerEvent} (hwf : ∀ tcp, ∀ b ∈ streams tcp, WellFormed b)
    (h : s.Inv streams) (hg : Orderly streams s e) (hs : Server.step s e = some s') :
    s'.Inv streams := by
  cases e with
  | accept socket =>
    simp only [Server.step] at hs
    split at hs
    · cases hs
    · next hfree =>
      cases hs
      unfold registerConnect
      rw [if_neg hfree]
      exact h.accept hwf
  | modem m c =>
    cases hs
    exact ⟨h.nodup, h.numbered, h.unborn, h.arrived, h.isolated,
      h.holds.imp (fun ⟨he, hall⟩ => ⟨⟨he.buffer, he.size⟩, hall⟩)
        fun ⟨x, hx, he, hrest⟩ => ⟨x, hx, ⟨he.buffer, he.size⟩, hrest⟩⟩
  | readable socket chunks closed conf =>
    cases hlookup : s.conn.lookup socket with
    | none =>
      simp only [Server.step, Server.readable, hlookup] at hs
      cases hs
    | some tcp =>
      obtain ⟨t, ht, hinv⟩ := h.readable hwf hlookup hg
      cases ht.symm.trans hs
      exact hinv

/-- **Clients are isolated as long as they do not disturb each other**, and no event then leaves the
worker without an answer. -/
theorem run_isolated {es : List ServerEvent} (hwf : ∀ tcp, ∀ b ∈ streams tcp, WellFormed b)
    (hm : Meets Server.step (Orderly streams) init es)
    (hr : Machine.run Server.step init es = some s) :
    s.Isolated streams ∧ ∀ socket chunks closed conf, (s.conn.lookup socket).isSome →
      Orderly streams s (.readable socket chunks closed conf) →
        (Server.step s (.readable socket chunks closed conf)).isSome := by
  have hinv : s.Inv streams := run_invariant_of_meets
    (fun _ _ _ h hg hs => h.step hwf hg hs) (inv_init hwf) hm hr
  refine ⟨hinv.isolated, fun socket chunks closed conf hopen hg => ?_⟩
  obtain ⟨tcp, hlookup⟩ := Option.isSome_iff_exists.mp hopen
  obtain ⟨s', hs', -⟩ := hinv.readable hwf hlookup hg
  exact Option.isSome_iff_exists.mpr ⟨s', hs'⟩

/-- A client that asks for an image to be sent, and clients that ask for data. -/
def requests : Nat → List Block
  | 0 => [[0, 4, 4, 7]]
  | _ => [[0, 3, 3]]

theorem wellFormed_requests (tcp : Nat) : ∀ b ∈ requests tcp, WellFormed b := by
  unfold requests
  split <;> decide

/-- Two clients, one after the other, and the first closes. -/
def turns : List ServerEvent :=
  [.accept 5, .accept 6, .readable 5 [[0], [4, 4, 7]] false id, .readable 6 [[0, 3, 3]] false id,
    .readable 5 [] true id]

theorem run_isolated_turns : ∃ s, Machine.run Server.step init turns = some s ∧
    s.blocksOf 1 = [[0, 3, 3]] ∧ s.Isolated requests := by
  have hm : Meets Server.step (Orderly requests) init turns := by decide +kernel
  obtain ⟨s, hs, hblocks⟩ : ∃ s, Machine.run Server.step init turns = some s ∧
      s.blocksOf 1 = [[0, 3, 3]] := by decide +kernel
  exact ⟨s, hs, hblocks, (run_isolated wellFormed_requests hm hs).1⟩

/-- The second client's block arrives while the first has sent three of its four bytes. -/
def intrusion : List ServerEvent :=
  [.accept 5, .accept 6, .readable 5 [[0, 4, 4]] false id, .readable 6 [[0, 3, 3]] false id]

/-- The first byte of the second client's block completes the first client's, and what is processed
as the second client's is a block it never sent. -/
theorem intrusion_not_isolated : Meets Server.step (Sends requests) init intrusion ∧
    ∃ s, Machine.run Server.step init intrusion = some s ∧ s.blocksOf 1 = [[0, 4, 4, 0]] ∧
      ¬ s.Isolated requests := by
  have hm : Meets Server.step (Sends requests) init intrusion := by decide +kernel
  obtain ⟨s, hs, hblocks, hforeign⟩ : ∃ s, Machine.run Server.step init intrusion = some s ∧
      s.blocksOf 1 = [[0, 4, 4, 0]] ∧
        s.blocksOf 1 ≠ whole (requests 1) (s.received 1).length := by decide +kernel
  exact ⟨hm, s, hs, hblocks, fun h => hforeign (h 1)⟩

end Server

end ModemFhss.Daemon
