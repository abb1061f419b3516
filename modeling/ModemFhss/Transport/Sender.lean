import Mathlib.Logic.Function.Basic
import ModemFhss.Library.Chunk
import ModemFhss.Library.Hex
import ModemFhss.Transport.Proto

/-!
# The sending side (`modem-sender.cpp`)

`ModemSender` holds the members of `modemSender_c`; `ModemSender.poll` is one call of `operator ()`.
The repository's send functions build a packet and drop it: here the built packet is returned, for
the medium to carry. What the call logs about a received packet is returned too, as a `SenderEvent`.

The block and the message to the client are references to members of the owner; they are fields
here, and the owner's only access is to put a block into an idle sender (`ModemSender.hand`).
-/

namespace ModemFhss.Transport

/-- `modemSender_c::state_c`. -/
inductive SenderState where
  | idle
  | sendRTS
  | waitACK
  | sendData
  deriving DecidableEq, Repr

/-- `modemSender_c::error_c`. -/
inductive SenderError where
  | ackTimeout
  | incorrectLength
  | badFormat
  | badType
  deriving DecidableEq, Repr

/-- `modemSender_c::errorMessages`. -/
def SenderError.message : SenderError → String
  | .ackTimeout => "no ack"
  | .incorrectLength => "bad length"
  | .badFormat => "bad format"
  | .badType => "bad type of packet"

/-- What a poll of the sender did with its input. -/
inductive SenderEvent where
  /-- Nothing was received, or the state does not listen. -/
  | quiet
  /-- A packet failed one of the checks. -/
  | rejected (err : SenderError)
  /-- A valid ACK with its `needPacketsCount`. -/
  | acked (needPacketsCount : Nat)
  /-- Nothing was received for longer than `MAX_WAIT_TIME`. -/
  | timeout
  deriving DecidableEq, Repr

structure ModemSender where
  state : SenderState
  bIsRTSAcked : Bool
  blockToModem : Block
  strMessageToClient : String
  nTotalPackets : Nat
  nCurrentIdx : Nat
  nTimeMs : Int
  errCounters : SenderError → Nat
  /-- `[]` while the pointer is null. -/
  pReceivedPacketsMask : List UInt8

/-- The number of fragments a block is cut into: `ceil((double)size / MAX_DATA_SIZE)`. -/
def fragmentCount (b : Block) : Nat := Chunk.count maxDataSize b

/-- The bytes of fragment `idx`: from `begin() + idx * MAX_DATA_SIZE`, as many as there are up to
`MAX_DATA_SIZE`. -/
def fragmentData (b : Block) (idx : Nat) : Block := Chunk.piece maxDataSize b idx

/-- The request to send a block of `total` fragments. -/
def rtsPacket (total : Nat) (reserved : UInt8) : Packet := .build .rts reserved total []

/-- Fragment `idx` of a block. -/
def dataPacket (b : Block) (idx : Nat) : Packet := .build .data 0 idx (fragmentData b idx)

namespace ModemSender

/-- `MAX_WAIT_TIME`. -/
def maxWaitTime : Int := 5000

/-- `MAX_ERRORS`. -/
def maxErrors : Nat := 3

/-- The constructor, with an empty block and an empty message. `m_nTimeMs` is read only after a
`stopwatchStart`. -/
def init : ModemSender where
  state := .idle
  bIsRTSAcked := false
  blockToModem := []
  strMessageToClient := ""
  nTotalPackets := 0
  nCurrentIdx := 0
  nTimeMs := 0
  errCounters := fun _ => 0
  pReceivedPacketsMask := []

def allOk (s : ModemSender) : ModemSender := { s with errCounters := fun _ => 0 }

def reset (s : ModemSender) : ModemSender :=
  { s with
    blockToModem := []
    pReceivedPacketsMask := []
    nTotalPackets := 0
    nCurrentIdx := 0
    bIsRTSAcked := false
    errCounters := fun _ => 0
    state := .idle }

/-- The error's own text, then the details. -/
def errorMessage (err : SenderError) (msg : String) : String :=
  err.message ++ (if msg ≠ "" then "-" ++ msg else "")

def error (s : ModemSender) (err : SenderError) (msg : String) (timeStart : Int) : ModemSender :=
  let s := { s with errCounters := Function.update s.errCounters err (s.errCounters err + 1) }
  if s.errCounters err = maxErrors then
    { s with strMessageToClient := errorMessage err msg }.reset
  else if s.state = .waitACK ∧ s.bIsRTSAcked = false ∧ err = .ackTimeout then
    { s with state := .sendRTS }
  else
    { s with nTimeMs := timeStart }

def sendRTS (s : ModemSender) (reserved : UInt8) : Packet := rtsPacket s.nTotalPackets reserved

/-- The buffer is a zero-filled `std::vector`, so `reserved` is `0`. -/
def sendData (s : ModemSender) : Packet := dataPacket s.blockToModem s.nCurrentIdx

/-- The checks of `MODEM_SENDER_WAIT_ACK` in order: the first that fails, with its text. The
lengths are compared as `uint16_t`. -/
def checkAck (s : ModemSender) (p : Packet) (packetSize : Nat) : Option (SenderError × String) :=
  let checkSize := sizeofCommonHeader + sizeofAckHeader
  if packetSize < checkSize then
    some (.incorrectLength, "incorrect length: " ++ toString packetSize
      ++ ", minimum required: " ++ toString checkSize ++ " bytes")
  else if packetSize ≠ (checkSize + s.nTotalPackets) % 65536 then
    some (.incorrectLength, "incorrect length, received " ++ toString packetSize
      ++ ", but expected: " ++ toString ((checkSize + s.nTotalPackets) % 65536))
  else if p.startToken ≠ startToken then
    some (.badFormat, "incorrect start token: 0x" ++ Hex.text p.startToken
      ++ ", but expected: 0x" ++ Hex.text startToken)
  else if p.type ≠ PacketType.ack.toByte.toNat then
    some (.badFormat, "incorrect type: 0x" ++ Hex.text p.type
      ++ ", need: " ++ Hex.text PacketType.ack.toByte.toNat)
  else
    none

/-- A valid ACK: take over the mask, then send what is missing or forget the delivered block. -/
def acceptAck (s : ModemSender) (p : Packet) : ModemSender :=
  let s := { s.allOk with
    bIsRTSAcked := true
    pReceivedPacketsMask :=
      (p.bytes.drop (sizeofCommonHeader + sizeofAckHeader)).take s.nTotalPackets }
  if 0 < p.needPacketsCount then { s with state := .sendData } else s.reset

/-- `MODEM_SENDER_WAIT_ACK`. -/
def waitACK (s : ModemSender) (i : PollInput) : ModemSender × SenderEvent :=
  match i.received with
  | some (p, packetSize) =>
    match s.checkAck p packetSize with
    | some (err, msg) => (s.error err msg i.timeStart, .rejected err)
    | none => (s.acceptAck p, .acked p.needPacketsCount)
  | none =>
    let timeElapsed := i.timeStop - s.nTimeMs
    if timeElapsed > maxWaitTime then
      (s.error .ackTimeout ("timeout over " ++ toString timeElapsed ++ "ms") i.timeStart, .timeout)
    else
      (s, .quiet)

/-- `while((mask[idx] == 0xFF) && idx < total) idx++`, with the number of steps left to `total` as
its measure. The read at `idx = total` is past the mask; its value does not matter, since the second
conjunct stops the loop there. -/
def skipDelivered (mask : List UInt8) (total : Nat) : Nat → Nat → Nat
  | 0, idx => idx
  | fuel + 1, idx =>
    if mask.getD idx 0 = 0xFF ∧ idx < total then skipDelivered mask total fuel (idx + 1) else idx

/-- `m_nCurrentIdx` after the delivered packets are skipped. -/
def nextIdx (s : ModemSender) : Nat :=
  skipDelivered s.pReceivedPacketsMask s.nTotalPackets (s.nTotalPackets - s.nCurrentIdx)
    s.nCurrentIdx

/-- `MODEM_SENDER_SEND_DATA`. -/
def sendNext (s : ModemSender) (timeStart : Int) : ModemSender × Option Packet :=
  if s.nextIdx = s.nTotalPackets then
    ({ s with nCurrentIdx := 0, state := .waitACK, nTimeMs := timeStart }, none)
  else
    ({ s with nCurrentIdx := s.nextIdx + 1 }, some { s with nCurrentIdx := s.nextIdx }.sendData)

/-- One call of `operator ()`: the new state, the packet put on the air, and what was received. -/
def poll (s : ModemSender) (i : PollInput) : ModemSender × Option Packet × SenderEvent :=
  match s.state with
  | .idle =>
    if 0 < s.blockToModem.length then
      -- the cast keeps the low 16 bits of the count
      ({ s with nTotalPackets := fragmentCount s.blockToModem % 65536, state := .sendRTS },
        none, .quiet)
    else
      (s, none, .quiet)
  | .sendRTS =>
    ({ s with state := .waitACK, nTimeMs := i.timeStart }, some (s.sendRTS i.reserved), .quiet)
  | .waitACK => ((s.waitACK i).1, none, (s.waitACK i).2)
  | .sendData => ((s.sendNext i.timeStart).1, (s.sendNext i.timeStart).2, .quiet)

/-- The owner puts a block into the sender. -/
def hand (s : ModemSender) (b : Block) : ModemSender := { s with blockToModem := b }

/-- What happens to a sender: its owner puts a block into it, or calls it. -/
inductive Input where
  | hand (b : Block)
  | poll (i : PollInput)

def step (s : ModemSender) : Input → Option ModemSender
  | .hand b => some (s.hand b)
  | .poll i => some (s.poll i).1

/-- The sender calls `receive` in this state. -/
def Listens (s : ModemSender) : Prop := s.state = .waitACK

instance (s : ModemSender) : Decidable s.Listens := inferInstanceAs (Decidable (s.state = .waitACK))

/-- A block can be handed over: the sender is idle and has none. -/
def Ready (s : ModemSender) : Prop := s.state = .idle ∧ s.blockToModem = []

instance (s : ModemSender) : Decidable s.Ready :=
  inferInstanceAs (Decidable (s.state = .idle ∧ s.blockToModem = []))

/-! ## What the pieces do

`error` either gives up (`reset`) or keeps everything but the counters, the stopwatch and, after an
unanswered RTS, the state; accepting an ACK either forgets the block or starts sending. -/

variable {s s' : ModemSender} {b : Block} {i : PollInput} {out : Option Packet} {ev : SenderEvent}

/-- Idle, without a block and with the index back at the start. -/
structure Empty (s : ModemSender) : Prop where
  state : s.state = .idle
  block : s.blockToModem = []
  idx : s.nCurrentIdx = 0

theorem empty_init : init.Empty := ⟨rfl, rfl, rfl⟩

theorem empty_reset (s : ModemSender) : s.reset.Empty := ⟨rfl, rfl, rfl⟩

/-- The sender is at work on block `b`. -/
structure Carries (s : ModemSender) (b : Block) : Prop where
  block : s.blockToModem = b
  nonempty : b ≠ []
  total : s.state ≠ .idle → s.nTotalPackets = fragmentCount b % 65536
  idx_le : s.nCurrentIdx ≤ s.nTotalPackets
  idx_zero : s.state ≠ .sendData → s.nCurrentIdx = 0

theorem Empty.hand (h : s.Empty) (hb : b ≠ []) : (s.hand b).Carries b where
  block := rfl
  nonempty := hb
  total hne := absurd h.state hne
  idx_le := by show s.nCurrentIdx ≤ _; rw [h.idx]; exact Nat.zero_le _
  idx_zero _ := h.idx

theorem Carries.not_ready (h : s.Carries b) : ¬ s.Ready :=
  fun hr => h.nonempty (h.block.symm.trans hr.2)

theorem error_cases (s : ModemSender) (err : SenderError) (msg : String) (t : Int) :
    (s.error err msg t).Empty ∨
      ((s.error err msg t).blockToModem = s.blockToModem ∧
        (s.error err msg t).nTotalPackets = s.nTotalPackets ∧
        (s.error err msg t).nCurrentIdx = s.nCurrentIdx ∧
        ((s.error err msg t).state = s.state ∨
          s.state = .waitACK ∧ (s.error err msg t).state = .sendRTS)) := by
  simp only [error]
  split
  · exact .inl (empty_reset _)
  · split
    · next h => exact .inr ⟨rfl, rfl, rfl, .inr ⟨h.1, rfl⟩⟩
    · exact .inr ⟨rfl, rfl, rfl, .inl rfl⟩

theorem Carries.error (h : s.Carries b) (hw : s.state = .waitACK) (err : SenderError)
    (msg : String) (t : Int) : (s.error err msg t).Empty ∨ (s.error err msg t).Carries b := by
  rcases error_cases s err msg t with he | ⟨hblock, htotal, hidx, hstate⟩
  · exact .inl he
  · have hzero : s.nCurrentIdx = 0 := h.idx_zero (by simp [hw])
    have ht : s.nTotalPackets = fragmentCount b % 65536 := h.total (by simp [hw])
    refine .inr ⟨hblock.trans h.block, h.nonempty, fun _ => htotal.trans ht, ?_, fun _ => ?_⟩
    · rw [hidx, hzero]; exact Nat.zero_le _
    · rw [hidx, hzero]

theorem Carries.acceptAck (h : s.Carries b) (hw : s.state = .waitACK) (p : Packet) :
    (s.acceptAck p).Empty ∨ (s.acceptAck p).Carries b := by
  unfold ModemSender.acceptAck
  have ht : s.nTotalPackets = fragmentCount b % 65536 := h.total (by simp [hw])
  split
  · exact .inr ⟨h.block, h.nonempty, fun _ => ht, h.idx_le, fun hne => absurd rfl hne⟩
  · exact .inl (empty_reset _)

/-- Where the skipping stops: at the end, or at a packet that was not delivered. -/
theorem skipDelivered_le {mask : List UInt8} {total : Nat} :
    ∀ {fuel idx : Nat}, idx ≤ total → skipDelivered mask total fuel idx ≤ total
  | 0, _, h => h
  | fuel + 1, idx, h => by
    unfold skipDelivered
    split
    · next hc => exact skipDelivered_le (Nat.succ_le_of_lt hc.2)
    · exact h

theorem Carries.nextIdx_le (h : s.Carries b) : s.nextIdx ≤ s.nTotalPackets :=
  skipDelivered_le h.idx_le

/-! ## One poll -/

theorem poll_idle (h : s.state = .idle) (hb : s.blockToModem ≠ []) : s.poll i =
    ({ s with nTotalPackets := fragmentCount s.blockToModem % 65536, state := .sendRTS },
      none, .quiet) := by
  have hpos := List.length_pos_iff.mpr hb
  simp [poll, h, hpos]

theorem Empty.poll (h : s.Empty) : s.poll i = (s, none, .quiet) := by
  simp [ModemSender.poll, h.state, h.block]

theorem poll_sendRTS (h : s.state = .sendRTS) : s.poll i =
    ({ s with state := .waitACK, nTimeMs := i.timeStart }, some (s.sendRTS i.reserved),
      .quiet) := by
  simp [poll, h]

theorem poll_waitACK (h : s.state = .waitACK) :
    s.poll i = ((s.waitACK i).1, none, (s.waitACK i).2) := by
  simp [poll, h]

theorem poll_sendData (h : s.state = .sendData) :
    s.poll i = ((s.sendNext i.timeStart).1, (s.sendNext i.timeStart).2, .quiet) := by
  simp [poll, h]

/-- **What a poll does to the block**: the sender keeps working on it or is empty. -/
theorem Carries.poll (h : s.Carries b) (hp : s.poll i = (s', out, ev)) :
    s'.Empty ∨ s'.Carries b := by
  cases hst : s.state with
  | idle =>
    have hb : s.blockToModem ≠ [] := by rw [h.block]; exact h.nonempty
    have hzero : s.nCurrentIdx = 0 := h.idx_zero (by simp [hst])
    rw [poll_idle hst hb] at hp
    cases hp
    refine .inr ⟨h.block, h.nonempty, fun _ => ?_, ?_, fun _ => hzero⟩
    · show fragmentCount s.blockToModem % 65536 = _; rw [h.block]
    · show s.nCurrentIdx ≤ _; rw [hzero]; exact Nat.zero_le _
  | sendRTS =>
    rw [poll_sendRTS hst] at hp
    cases hp
    exact .inr ⟨h.block, h.nonempty, fun _ => h.total (by simp [hst]), h.idx_le,
      fun _ => h.idx_zero (by simp [hst])⟩
  | waitACK =>
    rw [poll_waitACK hst] at hp
    cases hp
    unfold ModemSender.waitACK
    split
    · split
      · exact h.error hst _ _ _
      · exact h.acceptAck hst _
    · dsimp only
      split
      · exact h.error hst _ _ _
      · exact .inr h
  | sendData =>
    have ht : s.nTotalPackets = fragmentCount b % 65536 := h.total (by simp [hst])
    rw [poll_sendData hst] at hp
    cases hp
    unfold sendNext
    split
    · -- past the last packet it starts over, and waits
      exact .inr ⟨h.block, h.nonempty, fun _ => ht, Nat.zero_le _, fun _ => rfl⟩
    · next hne =>
      exact .inr ⟨h.block, h.nonempty, fun _ => ht, Nat.lt_of_le_of_ne h.nextIdx_le hne,
        fun hns => absurd hst hns⟩

/-- **What a poll sends**: the block's RTS, or one of its fragments. -/
theorem Carries.poll_sends {p : Packet} (h : s.Carries b) (hp : s.poll i = (s', some p, ev)) :
    p = rtsPacket (fragmentCount b % 65536) i.reserved ∨
      ∃ k < fragmentCount b % 65536, p = dataPacket b k := by
  cases hst : s.state with
  | idle =>
    have hb : s.blockToModem ≠ [] := by rw [h.block]; exact h.nonempty
    rw [poll_idle hst hb] at hp
    cases hp
  | sendRTS =>
    rw [poll_sendRTS hst] at hp
    cases hp
    left
    show rtsPacket s.nTotalPackets _ = _
    rw [h.total (by simp [hst])]
  | waitACK =>
    rw [poll_waitACK hst] at hp
    cases hp
  | sendData =>
    have ht : s.nTotalPackets = fragmentCount b % 65536 := h.total (by simp [hst])
    rw [poll_sendData hst] at hp
    simp only [Prod.mk.injEq] at hp
    obtain ⟨-, hsent, -⟩ := hp
    unfold sendNext at hsent
    split at hsent
    · cases hsent
    · next hne =>
      cases hsent
      refine .inr ⟨s.nextIdx, ht ▸ Nat.lt_of_le_of_ne h.nextIdx_le hne, ?_⟩
      show dataPacket s.blockToModem s.nextIdx = _
      rw [h.block]

/-- An ACK is accepted only while waiting for one, if it was received and passes the checks. -/
theorem poll_acked {need : Nat} (hp : (s.poll i).2.2 = .acked need) :
    s.state = .waitACK ∧ ∃ p, i.packet = some p ∧ s.checkAck p (p.size % 65536) = none ∧
      p.needPacketsCount = need := by
  cases hst : s.state with
  | idle =>
    simp only [poll, hst] at hp
    split at hp <;> cases hp
  | sendRTS =>
    rw [poll_sendRTS hst] at hp
    cases hp
  | waitACK =>
    refine ⟨rfl, ?_⟩
    rw [poll_waitACK hst] at hp
    cases hrec : i.received with
    | none =>
      simp only [waitACK, hrec] at hp
      split at hp <;> cases hp
    | some x =>
      obtain ⟨p, size⟩ := x
      obtain ⟨hpacket, rfl⟩ := PollInput.packet_of_received hrec
      cases hcheck : s.checkAck p (p.size % 65536) with
      | some err =>
        simp only [waitACK, hrec, hcheck] at hp
        cases hp
      | none =>
        simp only [waitACK, hrec, hcheck] at hp
        exact ⟨p, hpacket, hcheck, by simpa using hp⟩
  | sendData =>
    rw [poll_sendData hst] at hp
    cases hp

end ModemSender

end ModemFhss.Transport
