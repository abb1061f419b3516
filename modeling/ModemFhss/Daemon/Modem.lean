import ModemFhss.Daemon.Conf
import ModemFhss.Daemon.Stream

/-!
# The worker's side to the modem (`worker_thread.cpp`)

The worker polls `/dev/mfhss0` in every round of its loop. `write_modem` writes what the device
takes of `block_to_modem_` and remembers how far it has got. `listen_modem` collects what it reads
in `block_from_modem_`; the modem does not say where a block ends, so a block ends when nothing has
come for three seconds, and it is kept for the client if its size is the one in its header.

`stored` logs the blocks that `listen_modem` has put in `block_to_client_`.
-/

namespace ModemFhss.Daemon

open ByteField Machine

structure ModemWorker (κ : Type) extends Worker κ where
  blockFromModem : Block
  /-- `m_nTimeoutOp`: when the last bytes came from the modem, in milliseconds. -/
  timeoutOp : Int
  /-- The static `bytes` of `write_modem`. -/
  bytes : Int
  stored : List Block

namespace ModemWorker

variable {κ : Type}

def init : ModemWorker κ where
  toWorker := .init
  blockFromModem := []
  timeoutOp := 0
  bytes := 0
  stored := []

/-- The end of a block. One that is too small stays in the buffer. -/
def endOfBlock (w : ModemWorker κ) : ModemWorker κ :=
  if w.blockFromModem.length < 3 then
    w
  else if Worker.header w.blockFromModem = w.blockFromModem.length then
    { w with
      blockToClient := w.blockFromModem
      stored := w.stored ++ [w.blockFromModem]
      blockFromModem := [] }
  else
    { w with blockFromModem := [] }

/-- `worker_thread::listen_modem` at time `now`. `buf` is what `read` has put there; `none` if the
device cannot be opened or read. -/
def listenModem (w : ModemWorker κ) (now : Int) : Option Block → ModemWorker κ
  | none => w
  | some buf =>
    if 0 < buf.length then
      { w with blockFromModem := w.blockFromModem ++ buf, timeoutOp := now }
    else if 0 < w.blockFromModem.length ∧ 3000 ≤ now - w.timeoutOp then
      w.endOfBlock
    else
      w

/-- `worker_thread::write_modem`, with the result of `write`; `none` if the device cannot be opened.
The bytes are taken from `block_to_modem_.data() + bytes`. -/
def writeModem (w : ModemWorker κ) : Option Int → Except Fault (ModemWorker κ)
  | none => .ok w
  | some result =>
    if 0 < w.blockToModem.length then
      if w.bytes < 0 then
        .error .undefined
      else if w.bytes + result = w.blockToModem.length then
        .ok { w with bytes := 0, blockToModem := [] }
      else
        .ok { w with bytes := w.bytes + result }
    else
      .ok w

/-- A configuration request on which `run_conf` returns, or a request of another type. -/
def Returns (sys : System) (nextBlock : Block) : Prop :=
  nextBlock[2]? = some DataType.config.toByte → (ModemConf.runConf sys (nextBlock.drop 3)).isSome

instance (sys : System) (nextBlock : Block) : Decidable (Returns sys nextBlock) :=
  inferInstanceAs (Decidable (_ → _))

/-- What `get_msg_result` returns once `run_conf` has. -/
def conf (sys : System) (request : Block) : Block := (ModemConf.runConf sys request).getD []

/-- `data_process` on one block; `none` if it does not return. -/
def request (w : ModemWorker κ) (sys : System) (tcp : κ) (nextBlock : Block) :
    Option (ModemWorker κ) :=
  match w.toWorker.dataProcess (conf sys) tcp nextBlock with
  | .error _ => none
  | .ok worker => if Returns sys nextBlock then some { w with toWorker := worker } else none

/-- What the worker's loop calls. -/
inductive Event (κ : Type) where
  | dataReceive (sys : System) (tcp : κ) (chunks : List Block) (closed : Bool)
  | writeModem (result : Option Int)
  | listenModem (now : Int) (buf : Option Block)

/-- One call. The kernel writes at most what it is given and reads at most 1024 bytes; a call that
does not return is no step. -/
def step (w : ModemWorker κ) : Event κ → Option (ModemWorker κ)
  | .dataReceive sys tcp chunks closed =>
    match w.toWorker.dataReceive (conf sys) tcp chunks closed with
    | .error _ => none
    | .ok worker =>
      if ∀ x ∈ worker.processed.drop w.processed.length, Returns sys x.2 then
        some { w with toWorker := worker }
      else
        none
  | .writeModem result =>
    if ∀ n ∈ result, -1 ≤ n ∧ n ≤ w.blockToModem.length - w.bytes then
      (w.writeModem result).toOption
    else
      none
  | .listenModem now buf =>
    if ∀ chunk ∈ buf, chunk.length ≤ 1024 then some (w.listenModem now buf) else none

variable {w w' : ModemWorker κ} {e : Event κ} {es : List (Event κ)} {now : Int}
  {buf : Option Block} {result : Option Int}

/-- What a call can be, and what it leaves. -/
theorem step_cases (h : step w e = some w') :
    (∃ sys tcp chunks closed worker, e = .dataReceive sys tcp chunks closed ∧
      w.toWorker.dataReceive (conf sys) tcp chunks closed = .ok worker ∧
        (∀ x ∈ worker.processed.drop w.processed.length, Returns sys x.2) ∧
          w' = { w with toWorker := worker }) ∨
    (∃ result, e = .writeModem result ∧
      (∀ n ∈ result, -1 ≤ n ∧ n ≤ w.blockToModem.length - w.bytes) ∧
        w.writeModem result = .ok w') ∨
    (∃ now buf, e = .listenModem now buf ∧ (∀ chunk ∈ buf, chunk.length ≤ 1024) ∧
      w' = w.listenModem now buf) := by
  cases e with
  | dataReceive sys tcp chunks closed =>
    simp only [step] at h
    split at h
    · cases h
    · next worker hworker =>
      split at h
      · next hreturns =>
        cases h
        exact .inl ⟨sys, tcp, chunks, closed, worker, rfl, hworker, hreturns, rfl⟩
      · cases h
  | writeModem result =>
    simp only [step] at h
    split at h
    · next hrange =>
      cases hwrite : w.writeModem result with
      | error fault =>
        rw [hwrite] at h
        cases h
      | ok v =>
        rw [hwrite] at h
        cases h
        exact .inr (.inl ⟨result, rfl, hrange, hwrite⟩)
    · cases h
  | listenModem now buf =>
    simp only [step] at h
    split at h
    · next hsize =>
      cases h
      exact .inr (.inr ⟨now, buf, rfl, hsize, rfl⟩)
    · cases h

/-! ## What can be put in `block_to_client_` -/

/-- What is kept for the client is nothing or a well-formed block. -/
def Ready (block : Block) : Prop := block = [] ∨ WellFormed block

theorem listenModem_cases :
    (w.listenModem now buf).blockToClient = w.blockToClient ∨
      ((w.listenModem now buf).blockToClient = w.blockFromModem ∧ WellFormed w.blockFromModem) := by
  unfold listenModem
  split
  · exact .inl rfl
  · split
    · exact .inl rfl
    · split
      · unfold endOfBlock
        split
        · exact .inl rfl
        · next hlong =>
          split
          · next hsize => exact .inr ⟨rfl, hsize, Nat.le_of_not_lt hlong⟩
          · exact .inl rfl
      · exact .inl rfl

/-- What `listen_modem` leaves alone. -/
theorem listenModem_frame : (w.listenModem now buf).blockToModem = w.blockToModem ∧
    (w.listenModem now buf).bytes = w.bytes ∧ (w.listenModem now buf).sent = w.sent := by
  unfold listenModem endOfBlock
  repeat' split
  all_goals exact ⟨rfl, rfl, rfl⟩

/-- What `write_modem` leaves alone. -/
theorem writeModem_frame (h : w.writeModem result = .ok w') :
    w'.blockToClient = w.blockToClient ∧ w'.blockFromModem = w.blockFromModem ∧
      w'.timeoutOp = w.timeoutOp ∧ w'.sent = w.sent := by
  unfold writeModem at h
  split at h
  · cases h
    exact ⟨rfl, rfl, rfl, rfl⟩
  · split at h
    · split at h
      · cases h
      · split at h
        · cases h
          exact ⟨rfl, rfl, rfl, rfl⟩
        · cases h
          exact ⟨rfl, rfl, rfl, rfl⟩
    · cases h
      exact ⟨rfl, rfl, rfl, rfl⟩

theorem writeModem_blockToClient (h : w.writeModem result = .ok w') :
    w'.blockToClient = w.blockToClient :=
  (writeModem_frame h).1

end ModemWorker

namespace Worker

variable {κ : Type} {w w' : Worker κ} {conf : Block → Block} {tcp : κ} {b : Block} {type : UInt8}
  {n : Nat}

/-- A block for the client is fetched or stays. -/
theorem dispatch_blockToClient :
    (w.dispatch conf tcp type b).blockToClient = w.blockToClient ∨
      (w.dispatch conf tcp type b).blockToClient = [] := by
  unfold dispatch dataAnswer sendData
  repeat' split
  all_goals first
    | exact .inl rfl
    | exact .inr rfl

theorem dataProcess_blockToClient (h : w.dataProcess conf tcp b = .ok w') :
    w'.blockToClient = w.blockToClient ∨ w'.blockToClient = [] := by
  unfold dataProcess at h
  split at h
  · cases h
  · cases h
    exact dispatch_blockToClient

/-- **What `data_process` keeps, `data_receive` keeps**: a relation between the worker before and
after that does not depend on the buffer. -/
theorem dataReceive_rel {R : Worker κ → Worker κ → Prop} {chunks : List Block} {closed : Bool}
    (hrefl : ∀ w, R w w) (htrans : ∀ u v w, R u v → R v w → R u w)
    (hbuffer : ∀ w buf size, R w { w with blockFromClient := buf, clientBlockSize := size })
    (hprocess : ∀ w w' b, w.dataProcess conf tcp b = .ok w' → R w w')
    (h : w.dataReceive conf tcp chunks closed = .ok w') : R w w' := by
  have hloop : ∀ n v, v.blockLoop conf tcp n = .ok w' → R v w' := by
    intro n
    induction n with
    | zero => exact nofun
    | succ n ih =>
      intro v hv
      unfold blockLoop at hv
      split at hv
      · split at hv
        · cases hv
        · next u hu =>
          have hround : ∀ buf size,
              R v { u with blockFromClient := buf, clientBlockSize := size } := fun buf size =>
            htrans v u _ (hprocess v u _ hu) (hbuffer u buf size)
          dsimp only at hv
          split at hv
          · exact htrans _ _ _ (hround _ _) (ih _ hv)
          · cases hv
            exact hround _ _
      · cases hv
        exact hrefl _
  unfold dataReceive at h
  dsimp only at h
  split at h
  · cases h
    exact hbuffer w _ _
  · split at h
    · split at h
      · exact htrans _ _ _ (hbuffer w _ _) (hloop _ _ h)
      · cases h
        exact hbuffer w _ w.clientBlockSize
    · exact htrans _ _ _ (hbuffer w _ w.clientBlockSize) (hloop _ _ h)

theorem dataReceive_blockToClient {chunks : List Block} {closed : Bool}
    (h : w.dataReceive conf tcp chunks closed = .ok w') :
    w'.blockToClient = w.blockToClient ∨ w'.blockToClient = [] := by
  refine dataReceive_rel (R := fun w w' =>
    w'.blockToClient = w.blockToClient ∨ w'.blockToClient = []) (fun _ => .inl rfl) ?_
    (fun _ _ _ => .inl rfl) (fun _ _ _ => dataProcess_blockToClient) h
  intro u v w huv hvw
  rcases hvw with heq | hempty
  · exact huv.imp heq.trans heq.trans
  · exact .inr hempty

/-- A block for the modem is taken only when there is none. -/
theorem dispatch_blockToModem :
    (w.dispatch conf tcp type b).blockToModem = w.blockToModem ∨ w.blockToModem = [] := by
  unfold dispatch dataAnswer sendData
  repeat' split
  all_goals first
    | exact .inl rfl
    | exact .inr (List.eq_nil_of_length_eq_zero ‹_›)

theorem dataProcess_blockToModem (h : w.dataProcess conf tcp b = .ok w') :
    w'.blockToModem = w.blockToModem ∨ w.blockToModem = [] := by
  unfold dataProcess at h
  split at h
  · cases h
  · cases h
    exact dispatch_blockToModem

theorem dataReceive_blockToModem {chunks : List Block} {closed : Bool}
    (h : w.dataReceive conf tcp chunks closed = .ok w') :
    w'.blockToModem = w.blockToModem ∨ w.blockToModem = [] := by
  refine dataReceive_rel (R := fun w w' =>
    w'.blockToModem = w.blockToModem ∨ w.blockToModem = []) (fun _ => .inl rfl) ?_
    (fun _ _ _ => .inl rfl) (fun _ _ _ => dataProcess_blockToModem) h
  intro u v w huv hvw
  rcases huv with heq | hempty
  · rw [heq] at hvw
    exact hvw
  · exact .inr hempty

end Worker

end ModemFhss.Daemon
