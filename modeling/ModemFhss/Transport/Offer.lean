import ModemFhss.Transport.Collect

/-!
# Offering the fragments of one block

The sender's side of a transfer in which it is not interrupted: `Holds` says where it is with block
`b` outside `MODEM_SENDER_SEND_DATA`, `Sends` that it has sent the first `idx` fragments in it. The
mask of the ACK that let it start is empty, so it skips nothing.

A block has at most `maxFragments` fragments here. With more of them the ACK, whose mask has a byte
for each, is longer than a `uint16_t` can say.
-/

namespace ModemFhss.Transport

/-- The most fragments an ACK can have a mask for. -/
def maxFragments : Nat := 65525

/-- A block that can be handed over: not empty, and not too long. -/
structure Sendable (b : Block) : Prop where
  nonempty : b ≠ []
  fits : fragmentCount b ≤ maxFragments

namespace ModemSender

variable {s : ModemSender} {b : Block} {st : SenderState} {idx need : Nat} {i : PollInput}
  {mask : List UInt8} {res : UInt8}

/-- The sender is in state `st` with block `b`, outside `MODEM_SENDER_SEND_DATA`. -/
structure Holds (s : ModemSender) (b : Block) (st : SenderState) : Prop where
  state : s.state = st
  block : s.blockToModem = b
  total : st ≠ .idle → s.nTotalPackets = fragmentCount b
  idx : s.nCurrentIdx = 0

/-- The sender is in `MODEM_SENDER_SEND_DATA` and has sent the first `idx` fragments of `b`. -/
structure Sends (s : ModemSender) (b : Block) (idx : Nat) : Prop where
  state : s.state = .sendData
  block : s.blockToModem = b
  total : s.nTotalPackets = fragmentCount b
  idx : s.nCurrentIdx = idx
  mask : s.pReceivedPacketsMask = List.replicate (fragmentCount b) 0

/-- The sender has sent the first `idx` fragments; with all of them sent, it may be waiting
again. -/
def Offers (s : ModemSender) (b : Block) (idx : Nat) : Prop :=
  s.Sends b idx ∨ s.Holds b .waitACK ∧ idx = fragmentCount b

/-! ## Waiting -/

/-- Nothing received, and not for too long. -/
theorem poll_wait_quiet (hst : s.state = .waitACK) (hp : i.received = none)
    (htime : (s.poll i).2.2 ≠ .timeout) : s.poll i = (s, none, .quiet) := by
  have hwait : s.waitACK i = if i.timeStop - s.nTimeMs > maxWaitTime then
      (s.error .ackTimeout ("timeout over " ++ toString (i.timeStop - s.nTimeMs) ++ "ms")
        i.timeStart, .timeout) else (s, .quiet) := by
    simp only [waitACK, hp]
  rw [poll_waitACK hst] at htime ⊢
  by_cases hlate : i.timeStop - s.nTimeMs > maxWaitTime
  · rw [hwait, if_pos hlate] at htime
    exact absurd rfl htime
  · rw [hwait, if_neg hlate]

theorem size_ackPacket : (ackPacket need mask res).size = 10 + mask.length := Packet.size_build ..

/-- An ACK with a byte for every fragment passes the checks. -/
theorem checkAck_ackPacket (hb : Sendable b) (ht : s.nTotalPackets = fragmentCount b)
    (hmask : mask.length = fragmentCount b) :
    s.checkAck (ackPacket need mask res) (10 + fragmentCount b) = none := by
  have hfit : fragmentCount b ≤ 65525 := hb.fits
  have hsize : 10 + fragmentCount b =
      (sizeofCommonHeader + sizeofAckHeader + s.nTotalPackets) % 65536 := by
    rw [ht]
    show _ = (10 + fragmentCount b) % 65536
    omega
  have hlong : ¬ 10 + fragmentCount b < sizeofCommonHeader + sizeofAckHeader := by
    show ¬ 10 + _ < 10
    omega
  have htoken : (ackPacket need mask res).startToken = startToken := Packet.startToken_build ..
  have htype : (ackPacket need mask res).type = PacketType.ack.toByte.toNat :=
    Packet.type_build ..
  simp [checkAck, hlong, ← hsize, htoken, htype]

theorem received_ackPacket (hb : Sendable b) (hmask : mask.length = fragmentCount b)
    (hp : i.packet = some (ackPacket need mask res)) :
    i.received = some (ackPacket need mask res, 10 + fragmentCount b) := by
  have hfit : fragmentCount b ≤ 65525 := hb.fits
  have hsize : (ackPacket need mask res).size % 65536 = 10 + fragmentCount b := by
    rw [size_ackPacket, hmask]
    omega
  rw [PollInput.received_some hp (by omega), hsize]

theorem Holds.poll_ack (h : s.Holds b .waitACK) (hb : Sendable b)
    (hmask : mask.length = fragmentCount b) (hneed : need < 65536)
    (hp : i.packet = some (ackPacket need mask res)) :
    s.poll i = (s.acceptAck (ackPacket need mask res), none, .acked need) := by
  have hcount : (ackPacket need mask res).needPacketsCount = need := by
    rw [ackPacket, Packet.needPacketsCount_build, Nat.mod_eq_of_lt hneed]
  have hcheck : s.checkAck (ackPacket need mask res) (10 + fragmentCount b) = none :=
    checkAck_ackPacket hb (h.total (by decide)) hmask
  rw [poll_waitACK h.state]
  simp only [waitACK, received_ackPacket hb hmask hp, hcheck, hcount]

/-- An ACK that asks for fragments and holds none starts the sending. -/
theorem Holds.acceptAck_need (h : s.Holds b .waitACK) (hneed : 0 < need) (hfit : need < 65536) :
    (s.acceptAck (ackPacket need (List.replicate (fragmentCount b) 0) res)).Sends b 0 := by
  have hcount : (ackPacket need (List.replicate (fragmentCount b) 0) res).needPacketsCount
      = need := by
    rw [ackPacket, Packet.needPacketsCount_build, Nat.mod_eq_of_lt hfit]
  have ht : s.nTotalPackets = fragmentCount b := h.total (by decide)
  have hmask : ((ackPacket need (List.replicate (fragmentCount b) 0) res).bytes.drop 10).take
      s.nTotalPackets = List.replicate (fragmentCount b) 0 := by
    rw [ackPacket, Packet.drop_bytes_build, ht]
    exact List.take_of_length_le (by simp)
  unfold acceptAck
  rw [hcount, if_pos hneed]
  exact ⟨rfl, h.block, ht, h.idx, hmask⟩

/-- An ACK that asks for nothing makes the sender forget its block. -/
theorem acceptAck_zero : (s.acceptAck (ackPacket 0 mask res)).Empty := by
  unfold acceptAck
  rw [ackPacket, Packet.needPacketsCount_build, if_neg (by decide)]
  exact empty_reset _

/-! ## Sending -/

/-- Nothing is skipped. -/
theorem skipDelivered_replicate {n fuel : Nat} :
    skipDelivered (List.replicate n 0) n fuel idx = idx := by
  cases fuel with
  | zero => rfl
  | succ fuel =>
    have hnot : (List.replicate n (0 : UInt8)).getD idx 0 ≠ 0xFF := by
      rw [List.getD_eq_getElem?_getD, List.getElem?_replicate]
      split <;> decide
    unfold skipDelivered
    rw [if_neg fun hc => hnot hc.1]

theorem Sends.nextIdx (h : s.Sends b idx) : s.nextIdx = idx := by
  unfold ModemSender.nextIdx
  rw [h.mask, h.total, h.idx, skipDelivered_replicate]

/-- **One poll of a sender that is sending**: the next fragment goes out, or all have been sent and
the sender stays with its block. -/
theorem Offers.poll (h : s.Offers b idx) (hle : idx ≤ fragmentCount b) (hp : i.received = none)
    (htime : (s.poll i).2.2 ≠ .timeout) :
    ∃ s', s'.Offers b idx ∧ s.poll i = (s', none, .quiet) ∨
      idx < fragmentCount b ∧ s'.Offers b (idx + 1) ∧
        s.poll i = (s', some (dataPacket b idx), .quiet) := by
  rcases h with h | ⟨h, hall⟩
  · -- with an empty mask the index goes up one by one
    have hnext : s.sendNext i.timeStart = if idx = fragmentCount b then
        ({ s with nCurrentIdx := 0, state := .waitACK, nTimeMs := i.timeStart }, none) else
        ({ s with nCurrentIdx := idx + 1 }, some (dataPacket b idx)) := by
      unfold sendNext
      rw [h.nextIdx, h.total, ← h.block]
      rfl
    rw [poll_sendData h.state, hnext]
    by_cases hall : idx = fragmentCount b
    · rw [if_pos hall]
      refine ⟨_, .inl ⟨?_, rfl⟩⟩
      exact .inr ⟨⟨rfl, h.block, fun _ => h.total, rfl⟩, hall⟩
    · rw [if_neg hall]
      have hlt : idx < fragmentCount b := Nat.lt_of_le_of_ne hle hall
      refine ⟨_, .inr ⟨hlt, ?_, rfl⟩⟩
      exact .inl ⟨h.state, h.block, h.total, rfl, h.mask⟩
  · exact ⟨s, .inl ⟨.inr ⟨h, hall⟩, poll_wait_quiet h.state hp htime⟩⟩

end ModemSender

end ModemFhss.Transport
