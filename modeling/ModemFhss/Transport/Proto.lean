import ModemFhss.Library.ByteField

/-!
# The radio packets (`modem-proto.h`)

Every packet starts with the packed common header

    startToken : u32 | length : u16 | type : u8 | reserved : u8

followed by one 16-bit field whose meaning depends on the type — the number of packets of the block
(RTS), how many of them are still needed (ACK), the number of this fragment (DATA) — and a payload:
nothing, the mask of received packets, or the fragment's bytes. The target is little-endian.

A `Packet` is the byte buffer itself. The accessors read the fields where `reinterpret_cast` finds
them, whatever the buffer holds, and `Packet.build` lays a packet out; the lemmas at the end say
that the accessors read back what was laid out.
-/

namespace ModemFhss.Transport

open ByteField

/-- `block_t`. -/
abbrev Block := List UInt8

def startToken : Nat := 0xAA55CC33

/-- `packetCommonHeader_t::type_c`. -/
inductive PacketType where
  | rts
  | ack
  | data
  deriving DecidableEq, Repr

def PacketType.toByte : PacketType → UInt8
  | .rts => 0
  | .ack => 1
  | .data => 2

/-- `sizeof (packetCommonHeader_t)`. -/
def sizeofCommonHeader : Nat := 8

/-- `sizeof (packetRTSHeader_t)`. -/
def sizeofRTSHeader : Nat := 2

/-- `sizeof (packetAckHeader_t)`. -/
def sizeofAckHeader : Nat := 2

/-- `sizeof (packetDataHeader_t)`. -/
def sizeofDataHeader : Nat := 2

/-- `MAX_PACKET_SIZE` of both classes. -/
def maxPacketSize : Nat := 1024

/-- `MAX_DATA_SIZE`. -/
def maxDataSize : Nat := maxPacketSize - sizeofCommonHeader - sizeofDataHeader

/-- A packet as it lies in memory and on the air. -/
structure Packet where
  bytes : List UInt8
  deriving DecidableEq, Repr

namespace Packet

def size (p : Packet) : Nat := p.bytes.length

/-! ### `packetCommonHeader_t` -/

def startToken (p : Packet) : Nat := u32At p.bytes 0

def length (p : Packet) : Nat := u16At p.bytes 4

def type (p : Packet) : Nat := u8At p.bytes 6

/-! ### The type's own header, right after the common one -/

def totalPacketsCount (p : Packet) : Nat := u16At p.bytes sizeofCommonHeader

def needPacketsCount (p : Packet) : Nat := u16At p.bytes sizeofCommonHeader

def number (p : Packet) : Nat := u16At p.bytes sizeofCommonHeader

/-- The bytes of a buffer of `len` bytes that follow both headers. -/
def payload (p : Packet) (len : Nat) : List UInt8 :=
  (p.bytes.take len).drop (sizeofCommonHeader + sizeofDataHeader)

/-- Lay out a packet: `field` is the 16-bit member of the type's own header. -/
def build (type : PacketType) (reserved : UInt8) (field : Nat) (payload : List UInt8) : Packet where
  bytes := le32 Transport.startToken
    ++ le16 (sizeofCommonHeader + 2 + payload.length)
    ++ [type.toByte, reserved]
    ++ le16 field
    ++ payload

/-! ## Reading back what was laid out -/

section build

variable (type : PacketType) (reserved : UInt8) (field : Nat) (payload : List UInt8)

theorem bytes_build : (build type reserved field payload).bytes =
    le32 Transport.startToken ++ (le16 (10 + payload.length) ++
      ([type.toByte, reserved] ++ (le16 field ++ payload))) := by
  simp [build, sizeofCommonHeader]

@[simp] theorem size_build : (build type reserved field payload).size = 10 + payload.length := by
  simp [size, bytes_build]
  omega

@[simp] theorem startToken_build :
    (build type reserved field payload).startToken = Transport.startToken := by
  unfold startToken
  rw [bytes_build, u32At_append_left (by simp), u32At_le32]
  rfl

@[simp] theorem length_build :
    (build type reserved field payload).length = (10 + payload.length) % 65536 := by
  unfold length
  rw [bytes_build]
  refine (u16At_append_right (le32 _) _ 0).trans ?_
  rw [u16At_append_left (by simp), u16At_le16]

@[simp] theorem type_build : (build type reserved field payload).type = type.toByte.toNat := by
  unfold Packet.type
  rw [bytes_build]
  refine (u8At_append_right (le32 _) _ 2).trans ?_
  refine (u8At_append_right (le16 _) _ 0).trans ?_
  rfl

/-- The 16-bit field, under each of its three names. -/
theorem field_build :
    u16At (build type reserved field payload).bytes sizeofCommonHeader = field % 65536 := by
  rw [bytes_build, ← List.append_assoc, ← List.append_assoc]
  refine (u16At_append_right (le32 _ ++ le16 _ ++ [_, _]) _ 0).trans ?_
  rw [u16At_append_left (by simp), u16At_le16]

@[simp] theorem totalPacketsCount_build :
    (build type reserved field payload).totalPacketsCount = field % 65536 := field_build ..

@[simp] theorem needPacketsCount_build :
    (build type reserved field payload).needPacketsCount = field % 65536 := field_build ..

@[simp] theorem number_build :
    (build type reserved field payload).number = field % 65536 := field_build ..

theorem drop_bytes_build : (build type reserved field payload).bytes.drop 10 = payload := by
  rw [bytes_build]
  simp [le32, le16]

/-- With the length it was laid out with, a packet yields exactly its payload. -/
@[simp] theorem payload_build :
    (build type reserved field payload).payload (10 + payload.length) = payload := by
  have htake : (build type reserved field payload).bytes.take (10 + payload.length)
      = (build type reserved field payload).bytes :=
    List.take_of_length_le (Nat.le_of_eq (size_build ..))
  show ((build type reserved field payload).bytes.take (10 + payload.length)).drop 10 = payload
  rw [htake, drop_bytes_build]

end build

end Packet

/-! ## What one poll reads from its environment -/

/-- The environment of one call of `operator ()`: what `receive` returns, the two clock readings the
call may take (`stopwatchStop` first, `stopwatchStart` last) and the uninitialised byte that
`new uint8_t[]` leaves in the header's `reserved` member. -/
structure PollInput where
  packet : Option Packet
  timeStop : Int
  timeStart : Int
  reserved : UInt8

/-- `(packetSize = receive(packet)) > 0`: the packet with its size, which both classes keep in a
`uint16_t`. A size that is a multiple of 65536 therefore counts as "nothing received". -/
def PollInput.received (i : PollInput) : Option (Packet × Nat) :=
  match i.packet with
  | none => none
  | some p => if 0 < p.size % 65536 then some (p, p.size % 65536) else none

theorem PollInput.received_some {i : PollInput} {p : Packet} (h : i.packet = some p)
    (hpos : 0 < p.size % 65536) : i.received = some (p, p.size % 65536) := by
  simp [received, h, hpos]

theorem PollInput.packet_of_received {i : PollInput} {p : Packet} {size : Nat}
    (h : i.received = some (p, size)) : i.packet = some p ∧ size = p.size % 65536 := by
  unfold received at h
  split at h
  · cases h
  · next q hq =>
    split at h
    · cases h; exact ⟨hq, rfl⟩
    · cases h

@[simp] theorem PollInput.received_none {i : PollInput} (h : i.packet = none) :
    i.received = none := by
  simp [received, h]

end ModemFhss.Transport
