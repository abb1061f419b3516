import Mathlib.Data.List.Sort
import ModemFhss.Transport.Sender

/-!
# The receiving side (`modem-receiver.cpp`)

`ModemReceiver` holds the members of `modemReceiver_c`; `ModemReceiver.poll` is one call of
`operator ()`, with the packet it sends and what it did with the one it received, like the sender's.

A fragment's number is written into the mask without a bounds check. A number past the mask is a
write past the heap block, after which the program's behaviour is undefined; `poll` then returns
`none`.
-/

namespace ModemFhss.Transport

/-- `modemReceiver_c::state_c`. -/
inductive ReceiverState where
  | idle
  | listen
  | sendACK
  | receiveData
  | processData
  deriving DecidableEq, Repr

/-- `modemReceiver_c::error_c`. -/
inductive ReceiverError where
  | incorrectLength
  | badFormat
  | badType
  | timeoutWaitData
  deriving DecidableEq, Repr

/-- What a poll of the receiver did with its input. -/
inductive ReceiverEvent where
  /-- Nothing was received, or the state does not listen. -/
  | quiet
  /-- A packet failed a check: the length, the start token or the type. -/
  | rejected (err : ReceiverError)
  /-- An RTS was accepted, announcing this many packets. -/
  | requested (total : Nat)
  /-- A DATA packet was stored. -/
  | stored (number : Nat)
  /-- Nothing was received for longer than `MAX_WAIT_TIME`. -/
  | timeout
  /-- The block left in `m_blockFromModem`. -/
  | processed (b : Block)
  deriving DecidableEq, Repr

structure ModemReceiver where
  state : ReceiverState
  blockFromModem : Block
  nTotalPackets : Nat
  nTimeMs : Int
  /-- `[]` while the pointer is null. -/
  pReceivedPacketsMask : List UInt8
  listReceivedPackets : List Packet
  errCounters : ReceiverError → Nat

/-- The acknowledgement of a receiver that needs `need` more packets and holds those in `mask`. -/
def ackPacket (need : Nat) (mask : List UInt8) (reserved : UInt8) : Packet :=
  .build .ack reserved need mask

namespace ModemReceiver

/-- `MAX_WAIT_TIME`. -/
def maxWaitTime : Int := 1500

/-- `MAX_ERRORS`. -/
def maxErrors : Nat := 3

/-- The constructor. `m_nTimeMs` is read only after a `stopwatchStart`. -/
def init : ModemReceiver where
  state := .listen
  blockFromModem := []
  nTotalPackets := 0
  nTimeMs := 0
  pReceivedPacketsMask := []
  listReceivedPackets := []
  errCounters := fun _ => 0

def allOk (r : ModemReceiver) : ModemReceiver := { r with errCounters := fun _ => 0 }

def reset (r : ModemReceiver) : ModemReceiver :=
  { r with
    listReceivedPackets := []
    nTotalPackets := 0
    pReceivedPacketsMask := []
    errCounters := fun _ => 0
    state := .listen }

def error (r : ModemReceiver) (err : ReceiverError) (timeStart : Int) : ModemReceiver :=
  let r := { r with errCounters := Function.update r.errCounters err (r.errCounters err + 1) }
  if r.errCounters err = maxErrors then
    r.reset
  else if r.state = .receiveData ∧ err = .timeoutWaitData then
    { r with state := .sendACK }
  else
    { r with nTimeMs := timeStart }

/-- `m_nTotalPackets - m_listReceivedPackets.size()`, stored into a `uint16_t`. -/
def needPacketsCount (r : ModemReceiver) : Nat :=
  (((r.nTotalPackets : Int) - r.listReceivedPackets.length) % 65536).toNat

def sendACK (r : ModemReceiver) (reserved : UInt8) : Packet :=
  ackPacket r.needPacketsCount (r.pReceivedPacketsMask.take r.nTotalPackets) reserved

/-- The checks of `MODEM_RECEIVER_LISTEN`: the first that fails. -/
def checkRTS (p : Packet) (packetSize : Nat) : Option ReceiverError :=
  if packetSize ≠ sizeofCommonHeader + sizeofRTSHeader then some .incorrectLength
  else if p.startToken ≠ startToken then some .badFormat
  else if p.type ≠ PacketType.rts.toByte.toNat then some .badType
  else none

/-- An RTS: expect its packets, none received yet. -/
def acceptRTS (r : ModemReceiver) (p : Packet) : ModemReceiver :=
  { r with
    nTotalPackets := p.totalPacketsCount
    pReceivedPacketsMask := List.replicate p.totalPacketsCount 0
    state := .sendACK }

/-- The checks of `MODEM_RECEIVER_RECEIVE_DATA`: the first that fails. -/
def checkData (p : Packet) (packetSize : Nat) : Option ReceiverError :=
  if packetSize < sizeofCommonHeader + sizeofRTSHeader then some .incorrectLength
  else if p.startToken ≠ startToken then some .badFormat
  else if p.length ≠ packetSize then some .incorrectLength
  else if p.type ≠ PacketType.data.toByte.toNat then some .badType
  else none

/-- A valid DATA packet: mark its number, take the packet, and see whether that was all. -/
def acceptData (r : ModemReceiver) (p : Packet) (timeStart : Int) : ModemReceiver :=
  let r := { r.allOk with
    pReceivedPacketsMask := r.pReceivedPacketsMask.set p.number 0xFF
    listReceivedPackets := r.listReceivedPackets ++ [p] }
  if r.listReceivedPackets.length = r.nTotalPackets then
    { r with state := .processData }
  else if p.number + 1 = r.nTotalPackets then
    -- the last fragment came, but not all of them did: ask again
    { r with state := .sendACK }
  else
    { r with nTimeMs := timeStart }

/-- `m_listReceivedPackets.sort(comparePackets())`, which is stable. -/
def sortPackets (ps : List Packet) : List Packet :=
  ps.insertionSort fun a b => a.number ≤ b.number

/-- Sort the packets and leave their payloads, one after the other, in the output block. -/
def processData (r : ModemReceiver) : ModemReceiver :=
  let sorted := sortPackets r.listReceivedPackets
  { r with
    listReceivedPackets := sorted
    blockFromModem := sorted.flatMap fun p => p.payload p.length }

/-- One call of `operator ()`: the new state, the packet put on the air, and what was done. -/
def poll (r : ModemReceiver) (i : PollInput) :
    Option (ModemReceiver × Option Packet × ReceiverEvent) :=
  match r.state with
  | .idle => some (r, none, .quiet)
  | .listen =>
    match i.received with
    | some (p, packetSize) =>
      match checkRTS p packetSize with
      | some err => some (r, none, .rejected err)
      | none => some (r.acceptRTS p, none, .requested p.totalPacketsCount)
    | none => some (r, none, .quiet)
  | .sendACK =>
    some ({ r with state := .receiveData, nTimeMs := i.timeStart }, some (r.sendACK i.reserved),
      .quiet)
  | .receiveData =>
    match i.received with
    | some (p, packetSize) =>
      match checkData p packetSize with
      | some err => some (r.error err i.timeStart, none, .rejected err)
      | none =>
        if p.number < r.pReceivedPacketsMask.length then
          some (r.acceptData p i.timeStart, none, .stored p.number)
        else
          none
    | none =>
      if i.timeStop - r.nTimeMs > maxWaitTime then
        some (r.error .timeoutWaitData i.timeStart, none, .timeout)
      else
        some (r, none, .quiet)
  | .processData =>
    let r := r.processData
    some (r.reset, some (r.sendACK i.reserved), .processed r.blockFromModem)

/-- The receiver calls `receive` in this state. -/
def Listens (r : ModemReceiver) : Prop := r.state = .listen ∨ r.state = .receiveData

instance (r : ModemReceiver) : Decidable r.Listens :=
  inferInstanceAs (Decidable (r.state = .listen ∨ r.state = .receiveData))

/-! ## What a poll can be -/

/-- The receiver after a poll, the packet sent and the event, by the state and what was received. -/
inductive Polled (r : ModemReceiver) (i : PollInput) :
    ModemReceiver → Option Packet → ReceiverEvent → Prop where
  | idle (hst : r.state = .idle) : Polled r i r none .quiet
  | silent (hst : r.state = .listen) (hrec : i.received = none) : Polled r i r none .quiet
  | badRTS {p : Packet} {size : Nat} {err : ReceiverError} (hst : r.state = .listen)
      (hrec : i.received = some (p, size)) (hcheck : checkRTS p size = some err) :
      Polled r i r none (.rejected err)
  | requested {p : Packet} {size : Nat} (hst : r.state = .listen)
      (hrec : i.received = some (p, size)) (hcheck : checkRTS p size = none) :
      Polled r i (r.acceptRTS p) none (.requested p.totalPacketsCount)
  | acknowledged (hst : r.state = .sendACK) :
      Polled r i { r with state := .receiveData, nTimeMs := i.timeStart }
        (some (r.sendACK i.reserved)) .quiet
  | badData {p : Packet} {size : Nat} {err : ReceiverError} (hst : r.state = .receiveData)
      (hrec : i.received = some (p, size)) (hcheck : checkData p size = some err) :
      Polled r i (r.error err i.timeStart) none (.rejected err)
  | stored {p : Packet} {size : Nat} (hst : r.state = .receiveData)
      (hrec : i.received = some (p, size)) (hcheck : checkData p size = none)
      (hlt : p.number < r.pReceivedPacketsMask.length) :
      Polled r i (r.acceptData p i.timeStart) none (.stored p.number)
  | late (hst : r.state = .receiveData) (hrec : i.received = none)
      (hlate : i.timeStop - r.nTimeMs > maxWaitTime) :
      Polled r i (r.error .timeoutWaitData i.timeStart) none .timeout
  | waiting (hst : r.state = .receiveData) (hrec : i.received = none)
      (hlate : ¬ i.timeStop - r.nTimeMs > maxWaitTime) : Polled r i r none .quiet
  | processed (hst : r.state = .processData) :
      Polled r i r.processData.reset (some (r.processData.sendACK i.reserved))
        (.processed r.processData.blockFromModem)

variable {r r' : ModemReceiver} {i : PollInput} {out : Option Packet} {ev : ReceiverEvent}

theorem polled (h : r.poll i = some (r', out, ev)) : Polled r i r' out ev := by
  unfold poll at h
  split at h
  · next hst =>
    cases h
    exact .idle hst
  · next hst =>
    split at h
    · next hrec =>
      split at h
      · next hcheck =>
        cases h
        exact .badRTS hst hrec hcheck
      · next hcheck =>
        cases h
        exact .requested hst hrec hcheck
    · next hrec =>
      cases h
      exact .silent hst hrec
  · next hst =>
    cases h
    exact .acknowledged hst
  · next hst =>
    split at h
    · next hrec =>
      split at h
      · next hcheck =>
        cases h
        exact .badData hst hrec hcheck
      · next hcheck =>
        split at h
        · next hlt =>
          cases h
          exact .stored hst hrec hcheck hlt
        · cases h
    · next hrec =>
      split at h
      · next hlate =>
        cases h
        exact .late hst hrec hlate
      · next hlate =>
        cases h
        exact .waiting hst hrec hlate
  · next hst =>
    cases h
    exact .processed hst

end ModemReceiver

end ModemFhss.Transport
