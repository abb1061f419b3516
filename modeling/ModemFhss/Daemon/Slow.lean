import ModemFhss.Daemon.Modem

/-!
# Answers on a slow socket (`tcp_connection.cpp`)

`register_connect` makes the sockets non-blocking, so `send` may take only a part of a frame, or
none of it. `send_data` passes its result on, and nobody looks at it: what `send` has not taken is
gone, and a block fetched from the modem with it.

`Sockets` keeps beside the worker's log of frames what `send` has accepted of each. A client that
stays in step with its frames gets a beginning of them (`run_nothingLost`), and `InStep` says what
the results of `send` have to be.
-/

namespace ModemFhss.Daemon

open Machine

structure Sockets (κ : Type) where
  worker : ModemWorker κ
  /-- What `send` has accepted of each frame in the log of the worker. -/
  accepted : List (κ × Block)
  /-- The blocks `data_process` has cleared, each with what `send` had accepted of it. -/
  discarded : List (Block × Block)

inductive SocketEvent (κ : Type) where
  /-- `data_process` on a block of a client, with the result of the `send` that it leads to. -/
  | request (sys : System) (tcp : κ) (nextBlock : Block) (result : Int)
  | listenModem (now : Int) (buf : Option Block)
  | writeModem (result : Option Int)

namespace Sockets

variable {κ : Type}

def init : Sockets κ where
  worker := .init
  accepted := []
  discarded := []

/-- The frame that the worker gives `send` after a request, and the result. -/
def send (s : Sockets κ) (worker : ModemWorker κ) (tcp : κ) (frame : Block) (result : Int) :
    Sockets κ where
  worker
  accepted := s.accepted ++ [(tcp, frame.take result.toNat)]
  discarded :=
    if s.worker.blockToClient ≠ [] ∧ worker.blockToClient = [] then
      s.discarded ++ [(s.worker.blockToClient, frame.take result.toNat)]
    else
      s.discarded

/-- One call. `send` accepts at most the frame that it is given. -/
def step (s : Sockets κ) : SocketEvent κ → Option (Sockets κ)
  | .request sys tcp nextBlock result =>
    match s.worker.request sys tcp nextBlock with
    | none => none
    | some worker =>
      match worker.sent.drop s.worker.sent.length with
      | [(_, frame)] =>
        if -1 ≤ result ∧ result ≤ frame.length then some (s.send worker tcp frame result) else none
      | _ => none
  | .listenModem now buf =>
    (ModemWorker.step s.worker (.listenModem now buf)).map fun worker => { s with worker }
  | .writeModem result =>
    (ModemWorker.step s.worker (.writeModem result)).map fun worker => { s with worker }

variable [DecidableEq κ]

/-- The bytes of a client's entries in a log. -/
def bytesFor (log : List (κ × Block)) (tcp : κ) : Block :=
  ((log.filter fun x => x.1 = tcp).map Prod.snd).flatten

/-- A client gets a beginning of the frames it is owed, and a block is cleared when all of it has
been accepted. -/
structure NothingLost (s : Sockets κ) : Prop where
  reached : ∀ tcp, bytesFor s.accepted tcp <+: bytesFor s.worker.sent tcp
  discarded : ∀ x ∈ s.discarded, x.2 = x.1

/-- Once a client has missed something, `send` accepts nothing more for it; and of a block from the
modem it accepts everything. -/
def InStep (s : Sockets κ) : SocketEvent κ → Prop
  | .request _ tcp nextBlock result =>
    (bytesFor s.accepted tcp ≠ bytesFor s.worker.sent tcp → result ≤ 0) ∧
      (nextBlock[2]? = some DataType.dataReq.toByte → s.worker.blockToClient ≠ [] →
        result = s.worker.blockToClient.length)
  | _ => True

instance : ∀ (s : Sockets κ) (e : SocketEvent κ), Decidable (s.InStep e)
  | _, .request .. => inferInstanceAs (Decidable ((_ → _) ∧ (_ → _ → _)))
  | _, .listenModem .. => isTrue trivial
  | _, .writeModem _ => isTrue trivial

end Sockets

/-! ## One request, one frame -/

namespace Worker

variable {κ : Type} {w : Worker κ} {conf : Block → Block} {tcp : κ} {b : Block} {type : UInt8}

/-- What a request gives `send`: the block from the modem if it asks for it, else a text. -/
theorem dispatch_frame : ∃ frame, (w.dispatch conf tcp type b).sent = w.sent ++ [(tcp, frame)] ∧
    ((w.dispatch conf tcp type b).blockToClient = w.blockToClient ∨
      (type = DataType.dataReq.toByte ∧ frame = w.blockToClient)) := by
  unfold dispatch dataAnswer sendData
  split
  · exact ⟨_, rfl, .inl rfl⟩
  · split
    · split
      · exact ⟨_, rfl, .inl rfl⟩
      · exact ⟨_, rfl, .inl rfl⟩
    · split
      · next hreq =>
        split
        · exact ⟨_, rfl, .inr ⟨hreq, rfl⟩⟩
        · exact ⟨_, rfl, .inl rfl⟩
      · exact ⟨_, rfl, .inl rfl⟩

end Worker

namespace ModemWorker

variable {κ : Type} {w w' : ModemWorker κ} {sys : System} {tcp : κ} {b : Block}

theorem request_frame (h : w.request sys tcp b = some w') :
    ∃ frame, w'.sent = w.sent ++ [(tcp, frame)] ∧ (w'.blockToClient = w.blockToClient ∨
      (b[2]? = some DataType.dataReq.toByte ∧ frame = w.blockToClient)) := by
  unfold request Worker.dataProcess at h
  cases htype : b[2]? with
  | none => simp [htype] at h
  | some type =>
    simp only [htype] at h
    split at h
    · cases h
      obtain ⟨frame, hsent, hblock⟩ := @Worker.dispatch_frame κ
        { w.toWorker with processed := w.processed ++ [(tcp, b)] }
        (conf sys) tcp b type
      exact ⟨frame, hsent, hblock.imp id fun hfetch => ⟨by rw [hfetch.1], hfetch.2⟩⟩
    · cases h

end ModemWorker

namespace Sockets

variable {κ : Type} {s s' : Sockets κ} {e : SocketEvent κ}
  {es : List (SocketEvent κ)} {worker : ModemWorker κ} {tcp : κ} {frame : Block} {result : Int}

/-- A call: a request and its frame, or something that neither sends nor clears. -/
theorem step_cases (h : s.step e = some s') :
    (∃ sys tcp b result worker frame, e = .request sys tcp b result ∧
      worker.sent = s.worker.sent ++ [(tcp, frame)] ∧
        (worker.blockToClient = s.worker.blockToClient ∨
          (b[2]? = some DataType.dataReq.toByte ∧ frame = s.worker.blockToClient)) ∧
            s' = s.send worker tcp frame result) ∨
    (∃ worker, worker.sent = s.worker.sent ∧ s' = { s with worker }) := by
  cases e with
  | request sys tcp b result =>
    simp only [step] at h
    cases hreq : s.worker.request sys tcp b with
    | none => simp [hreq] at h
    | some worker =>
      obtain ⟨frame, hsent, hblock⟩ := ModemWorker.request_frame hreq
      simp only [hreq, hsent, List.drop_left] at h
      split at h
      · cases h
        exact .inl ⟨sys, tcp, b, result, worker, frame, rfl, hsent, hblock, rfl⟩
      · cases h
  | listenModem now buf =>
    obtain ⟨worker, hworker, rfl⟩ := Option.map_eq_some_iff.mp h
    refine .inr ⟨worker, ?_, rfl⟩
    rcases ModemWorker.step_cases hworker with ⟨_, _, _, _, _, heq, -⟩ | ⟨_, heq, -⟩ |
      ⟨now, buf, -, -, rfl⟩
    · cases heq
    · cases heq
    · exact ModemWorker.listenModem_frame.2.2
  | writeModem result =>
    obtain ⟨worker, hworker, rfl⟩ := Option.map_eq_some_iff.mp h
    refine .inr ⟨worker, ?_, rfl⟩
    rcases ModemWorker.step_cases hworker with ⟨_, _, _, _, _, heq, -⟩ | ⟨result, -, -, hwrite⟩ |
      ⟨_, _, heq, -⟩
    · cases heq
    · exact (ModemWorker.writeModem_frame hwrite).2.2.2
    · cases heq

variable [DecidableEq κ]

theorem bytesFor_append (log log' : List (κ × Block)) (tcp : κ) :
    bytesFor (log ++ log') tcp = bytesFor log tcp ++ bytesFor log' tcp := by
  simp [bytesFor]

theorem bytesFor_singleton (c : κ) (bytes : Block) (tcp : κ) :
    bytesFor [(c, bytes)] tcp = if c = tcp then bytes else [] := by
  by_cases h : c = tcp
  · simp [bytesFor, h]
  · simp [bytesFor, h]

theorem nothingLost_init : (init : Sockets κ).NothingLost where
  reached _ := List.prefix_refl _
  discarded := by simp [init]

/-- A frame for one client. -/
theorem NothingLost.send (h : s.NothingLost) (hsent : worker.sent = s.worker.sent ++ [(tcp, frame)])
    (hreach : bytesFor s.accepted tcp ≠ bytesFor s.worker.sent tcp → result ≤ 0)
    (hwhole : s.worker.blockToClient ≠ [] → worker.blockToClient = [] →
      frame.take result.toNat = s.worker.blockToClient) :
    (s.send worker tcp frame result).NothingLost := by
  constructor
  · intro c
    show bytesFor (s.accepted ++ [(tcp, _)]) c <+: bytesFor worker.sent c
    rw [hsent, bytesFor_append, bytesFor_append, bytesFor_singleton, bytesFor_singleton]
    by_cases hc : tcp = c
    · subst hc
      rw [if_pos rfl, if_pos rfl]
      by_cases hall : bytesFor s.accepted tcp = bytesFor s.worker.sent tcp
      · rw [hall, List.prefix_append_right_inj]
        exact List.take_prefix _ _
      · rw [Int.toNat_of_nonpos (hreach hall), List.take_zero, List.append_nil]
        exact (h.reached tcp).trans (List.prefix_append _ _)
    · rw [if_neg hc, if_neg hc, List.append_nil, List.append_nil]
      exact h.reached c
  · intro x hx
    have hx : x ∈ (if s.worker.blockToClient ≠ [] ∧ worker.blockToClient = [] then _ else _) := hx
    split at hx
    · next hcleared =>
      rcases List.mem_append.mp hx with hx | hx
      · exact h.discarded x hx
      · rw [List.mem_singleton.mp hx]
        exact hwhole hcleared.1 hcleared.2
    · exact h.discarded x hx

theorem NothingLost.step (h : s.NothingLost) (hin : s.InStep e) (hs : s.step e = some s') :
    s'.NothingLost := by
  rcases step_cases hs with ⟨sys, tcp, b, result, worker, frame, rfl, hsent, hblock, rfl⟩ |
    ⟨worker, hsent, rfl⟩
  · obtain ⟨hreach, hfetch⟩ := hin
    refine h.send hsent hreach fun hne hcleared => ?_
    -- the block is cleared only by the request that fetches it
    obtain ⟨hreq, rfl⟩ := hblock.resolve_left fun heq => hne (heq.symm.trans hcleared)
    rw [hfetch hreq hne, Int.toNat_natCast, List.take_length]
  · refine ⟨fun tcp => ?_, h.discarded⟩
    show _ <+: bytesFor worker.sent tcp
    rw [hsent]
    exact h.reached tcp

/-! ## Whole runs -/

/-- **Nothing is lost** as long as every client stays in step: what reaches it is a beginning of its
frames, and no block is cleared before all of it has been accepted. -/
theorem run_nothingLost (hm : Meets step InStep (init : Sockets κ) es)
    (hr : run step init es = some s) : s.NothingLost :=
  run_invariant_of_meets (fun _ _ _ => NothingLost.step) nothingLost_init hm hr

/-- A block has come from the modem, and a client asks for it with this result of `send`. -/
def fetched (result : Int) : List (SocketEvent Nat) :=
  [.listenModem 0 (some [0, 3, 9]), .listenModem 3000 (some []),
    .request .bare 1 [0, 3, 3] result]

/-- The fetch is whole; another client gets a part of its answer and then no more. -/
theorem run_nothingLost_partial : ∃ s, run step (init : Sockets Nat) (fetched 3 ++
      [.request .bare 2 [0, 3, 9] 5, .request .bare 2 [0, 3, 9] (-1)]) = some s ∧ s.NothingLost :=
  exists_of_isSome (by decide +kernel) fun _ hr => run_nothingLost (by decide +kernel) hr

/-- A socket that takes nothing: the block is cleared all the same. -/
theorem fullSocket_lost :
    ∃ s, run step (init : Sockets Nat) (fetched (-1)) = some s ∧ ¬ s.NothingLost := by
  obtain ⟨s, hr, hdiscarded⟩ : ∃ s, run step (init : Sockets Nat) (fetched (-1)) = some s ∧
      s.discarded = [([0, 3, 9], [])] := by
    decide +kernel
  refine ⟨s, hr, fun h => ?_⟩
  have hsame := h.discarded _ (by rw [hdiscarded]; exact List.mem_singleton_self _)
  exact absurd hsame (by decide)

end Sockets

end ModemFhss.Daemon
