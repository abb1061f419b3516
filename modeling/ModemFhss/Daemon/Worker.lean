import ModemFhss.Library.ByteField
import ModemFhss.Library.Framing
import ModemFhss.Library.Hex

/-!
# The daemon's worker thread (`worker_thread.cpp`)

A client sends blocks: a 16-bit big-endian length, which counts the whole block, a type byte and
contents. `data_receive` collects what `recv` returns in `block_from_client_` and hands every
complete block to `data_process`, which answers.

Two things can go wrong in the C++ that a Lean function cannot do: reading the type byte of a block
that has none, after which the behaviour is undefined, and never returning. `Fault` names them.
What `data_receive` hands on and what `send_data` is given are logged in `processed` and `sent`.
-/

namespace ModemFhss.Daemon

open ByteField

abbrev Block := List UInt8

/-- `worker_thread::data_type`. -/
inductive DataType where
  | config
  | serverMessage
  | sendText
  | dataReq
  | sendImage
  deriving DecidableEq, Repr

def DataType.toByte : DataType → UInt8
  | .config => 0
  | .serverMessage => 1
  | .sendText => 2
  | .dataReq => 3
  | .sendImage => 4

/-- What keeps a call from returning. -/
inductive Fault where
  /-- An access outside a vector. -/
  | undefined
  /-- A loop that does not end. -/
  | diverges
  deriving DecidableEq, Repr

/-- The bytes of an ASCII text. -/
def ascii (s : String) : List UInt8 := s.toList.map fun c => UInt8.ofNat c.toNat

/-- The members of `worker_thread` that these functions use; connections are told apart by `κ`. -/
structure Worker (κ : Type) where
  blockFromClient : Block
  /-- `0` while the size of the next block is not known. -/
  clientBlockSize : Nat
  blockToModem : Block
  blockToClient : Block
  /-- The calls of `data_process`. -/
  processed : List (κ × Block)
  /-- The calls of `send_data`. -/
  sent : List (κ × Block)

namespace Worker

variable {κ : Type}

def init : Worker κ where
  blockFromClient := []
  clientBlockSize := 0
  blockToModem := []
  blockToClient := []
  processed := []
  sent := []

/-- `connection::send_data`. -/
def sendData (w : Worker κ) (tcp : κ) (bytes : Block) : Worker κ :=
  { w with sent := w.sent ++ [(tcp, bytes)] }

/-- A text answer; its size is a `uint16_t`. -/
def dataAnswer (w : Worker κ) (tcp : κ) (message : Block) : Worker κ :=
  w.sendData tcp (be16 (message.length + 3) ++ [DataType.serverMessage.toByte] ++ message)

/-- What becomes of a block with type byte `type`. `conf` is what `run_conf` leaves in
`get_msg_result` for a request string. -/
def dispatch (w : Worker κ) (conf : Block → Block) (tcp : κ) (type : UInt8) (nextBlock : Block) :
    Worker κ :=
  if type = DataType.config.toByte then
    w.dataAnswer tcp (conf (nextBlock.drop 3))
  else if type = DataType.sendImage.toByte ∨ type = DataType.sendText.toByte then
    if w.blockToModem.length = 0 then
      { w with blockToModem := nextBlock }.dataAnswer tcp (ascii "start write data to modem")
    else
      w.dataAnswer tcp (ascii "error: cannot write - modem busy")
  else if type = DataType.dataReq.toByte then
    if 0 < w.blockToClient.length then
      { w.sendData tcp w.blockToClient with blockToClient := [] }
    else
      w.dataAnswer tcp (ascii "no data received or busy")
  else
    w.dataAnswer tcp (ascii ("unknown block type: 0x" ++ Hex.text type.toNat))

def dataProcess (w : Worker κ) (conf : Block → Block) (tcp : κ) (nextBlock : Block) :
    Except Fault (Worker κ) :=
  match nextBlock[2]? with
  | none => .error .undefined
  | some type =>
    .ok ({ w with processed := w.processed ++ [(tcp, nextBlock)] }.dispatch conf tcp type nextBlock)

/-- `block_from_client_[0] << 8 | block_from_client_[1]`. -/
def header (bytes : Block) : Nat := be16At bytes 0

/-- `while (block_from_client_.size() >= client_block_size_)`, for `fuel` rounds. -/
def blockLoop (w : Worker κ) (conf : Block → Block) (tcp : κ) : Nat → Except Fault (Worker κ)
  | 0 => .error .diverges
  | fuel + 1 =>
    if w.clientBlockSize ≤ w.blockFromClient.length then
      match w.dataProcess conf tcp (w.blockFromClient.take w.clientBlockSize) with
      | .error fault => .error fault
      | .ok w' =>
        let left := w'.blockFromClient.drop w'.clientBlockSize
        if 2 ≤ left.length then
          { w' with blockFromClient := left, clientBlockSize := header left }.blockLoop conf tcp
            fuel
        else
          .ok { w' with blockFromClient := left, clientBlockSize := 0 }
    else
      .ok w

/-- The rounds `data_receive` allows the loop. Every round takes bytes out of the buffer or is the
last, so this many are never used up (`blockLoop_ne_diverges`). -/
def fuel (w : Worker κ) : Nat := w.blockFromClient.length + 1

/-- One readiness event of a connection: the results of its `recv` calls, `chunks`, up to the last
one, which is `0` (the client has closed) or `-1` (nothing more for now). -/
def dataReceive (w : Worker κ) (conf : Block → Block) (tcp : κ) (chunks : List Block)
    (closed : Bool) : Except Fault (Worker κ) :=
  let w := { w with blockFromClient := chunks.foldl (· ++ ·) w.blockFromClient }
  if closed then
    .ok { w with blockFromClient := [], clientBlockSize := 0 }
  else if w.clientBlockSize = 0 then
    if 2 ≤ w.blockFromClient.length then
      { w with clientBlockSize := header w.blockFromClient }.blockLoop conf tcp w.fuel
    else
      .ok w
  else
    w.blockLoop conf tcp w.fuel

/-! ## What the answers leave alone -/

variable {w w' : Worker κ} {conf : Block → Block} {tcp : κ} {b : Block} {type : UInt8}

@[simp] theorem processed_dispatch : (w.dispatch conf tcp type b).processed = w.processed := by
  unfold dispatch dataAnswer sendData
  repeat' split
  all_goals rfl

@[simp] theorem blockFromClient_dispatch :
    (w.dispatch conf tcp type b).blockFromClient = w.blockFromClient := by
  unfold dispatch dataAnswer sendData
  repeat' split
  all_goals rfl

@[simp] theorem clientBlockSize_dispatch :
    (w.dispatch conf tcp type b).clientBlockSize = w.clientBlockSize := by
  unfold dispatch dataAnswer sendData
  repeat' split
  all_goals rfl

/-- What a call of `data_process` that returns has done to the buffer and the log. -/
structure Processed (w : Worker κ) (tcp : κ) (b : Block) (w' : Worker κ) : Prop where
  long : 3 ≤ b.length
  buffer : w'.blockFromClient = w.blockFromClient
  size : w'.clientBlockSize = w.clientBlockSize
  log : w'.processed = w.processed ++ [(tcp, b)]

theorem processed_of_dataProcess (h : w.dataProcess conf tcp b = .ok w') :
    w.Processed tcp b w' := by
  unfold dataProcess at h
  split at h
  · cases h
  · next hsome =>
    cases h
    obtain ⟨hlt, -⟩ := List.getElem?_eq_some_iff.mp hsome
    exact ⟨hlt, blockFromClient_dispatch, clientBlockSize_dispatch, processed_dispatch⟩

theorem dataProcess_ok (h : 3 ≤ b.length) : ∃ w', w.dataProcess conf tcp b = .ok w' := by
  have htype : b[2]? = some b[2] := List.getElem?_eq_getElem (by omega)
  unfold dataProcess
  rw [htype]
  exact ⟨_, rfl⟩

theorem dataProcess_ne_diverges : w.dataProcess conf tcp b ≠ .error .diverges := by
  unfold dataProcess
  split
  · intro h
    cases h
  · intro h
    cases h

/-- **The loop ends** within the rounds it is allowed: a block that is processed has at least three
bytes, so every round shortens the buffer. -/
theorem blockLoop_ne_diverges {n : Nat} (h : w.blockFromClient.length < n) :
    w.blockLoop conf tcp n ≠ .error .diverges := by
  induction n generalizing w with
  | zero => exact absurd h (Nat.not_lt_zero _)
  | succ n ih =>
    unfold blockLoop
    split
    · next hle =>
      split
      · next fault hfault =>
        intro heq
        cases heq
        exact dataProcess_ne_diverges hfault
      · next w' hok =>
        have hdone := processed_of_dataProcess hok
        have hlong := hdone.long
        rw [List.length_take, Nat.min_eq_left hle] at hlong
        dsimp only
        split
        · apply ih
          rw [List.length_drop, hdone.buffer, hdone.size]
          omega
        · intro heq
          cases heq
    · intro heq
      cases heq

end Worker

end ModemFhss.Daemon
