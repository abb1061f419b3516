import Mathlib.Data.Rat.Floor
import ModemFhss.Transport.Offer
import ModemFhss.Transport.Round

/-!
# Sixteen bits

The number of fragments, the sizes of packets and the length in their header are `uint16_t` on both
sides. `Agrees b` says that for block `b` nothing of it wraps: the number of fragments is the exact
quotient rounded up, what is cut out of the block lies in it, and an ACK for that many fragments has
the size that the sender expects.

The limit is what an ACK can carry in a 16-bit size beside its headers, 65525 fragments
(`agrees_iff`). One more makes an ACK of 65536 bytes, a size of 0.
-/

namespace ModemFhss.Transport

open Machine

/-- What `sendData` cuts out of the block: from `itFirst` up to `itLast`, as offsets. -/
def fragmentRange (b : Block) (idx : Nat) : Nat × Nat :=
  (idx * maxDataSize,
    if idx * maxDataSize + maxDataSize > b.length then b.length
    else idx * maxDataSize + maxDataSize)

/-- The size of the packet, as the sender keeps it, passes the checks of `MODEM_SENDER_WAIT_ACK`
on it. -/
def ModemSender.AcceptsLength (s : ModemSender) (p : Packet) : Prop :=
  0 < p.size % 65536 ∧ ∀ msg, s.checkAck p (p.size % 65536) ≠ some (.incorrectLength, msg)

/-- The arithmetic of both sides agrees for a block. -/
structure Agrees (b : Block) : Prop where
  total : ∀ (s : ModemSender) i, s.state = .idle → s.blockToModem = b →
    (s.poll i).1.nTotalPackets = ⌈(b.length : ℚ) / maxDataSize⌉₊
  ranges : ∀ es s, run ModemSender.step .init es = some s →
    Meets ModemSender.step ModemSender.Undisturbed .init es →
    s.blockToModem = b → s.state = .sendData → s.nextIdx ≠ s.nTotalPackets →
    (fragmentRange b s.nextIdx).1 ≤ (fragmentRange b s.nextIdx).2 ∧
      (fragmentRange b s.nextIdx).2 ≤ b.length
  acks : ∀ is r, run ModemReceiver.next .init is = some r → r.state ≠ .listen →
    r.nTotalPackets = fragmentCount b % 65536 → ∀ i r' ack ev, r.poll i = some (r', some ack, ev) →
    ∀ s : ModemSender, s.nTotalPackets = fragmentCount b % 65536 → s.AcceptsLength ack

variable {b : Block} {s : ModemSender} {r r' : ModemReceiver} {i : PollInput}

/-! ## The number of fragments -/

theorem fragmentCount_le_iff {n : Nat} : fragmentCount b ≤ n ↔ b.length ≤ n * maxDataSize := by
  rw [← Nat.not_lt, ← Nat.not_lt]
  exact not_congr (Chunk.lt_count_iff maxDataSize_pos)

/-- The quotient, rounded up. -/
theorem fragmentCount_eq_ceil : fragmentCount b = ⌈(b.length : ℚ) / maxDataSize⌉₊ := by
  have hpos : (0 : ℚ) < maxDataSize := by exact_mod_cast maxDataSize_pos
  refine eq_of_forall_ge_iff fun n => ?_
  rw [fragmentCount_le_iff, Nat.ceil_le, div_le_iff₀ hpos]
  exact_mod_cast Iff.rfl

/-- `fragmentRange` is what `fragmentData` takes. -/
theorem fragmentData_eq (idx : Nat) : fragmentData b idx =
    (b.drop (fragmentRange b idx).1).take
      ((fragmentRange b idx).2 - (fragmentRange b idx).1) := by
  unfold fragmentData Chunk.piece fragmentRange
  dsimp only
  split
  · next hlast =>
    have hshort : (b.drop (idx * maxDataSize)).length ≤ maxDataSize := by
      rw [List.length_drop]
      omega
    rw [List.take_of_length_le hshort, List.take_of_length_le (Nat.le_of_eq List.length_drop)]
  · rw [Nat.add_sub_cancel_left]

theorem fragmentRange_inside {idx : Nat} (h : idx < fragmentCount b) :
    (fragmentRange b idx).1 ≤ (fragmentRange b idx).2 ∧ (fragmentRange b idx).2 ≤ b.length := by
  have hstart : idx * maxDataSize < b.length := (Chunk.lt_count_iff maxDataSize_pos).mp h
  unfold fragmentRange
  dsimp only
  split <;> omega

/-! ## The size of an ACK -/

/-- An ACK with `total` mask entries has the length the sender waits for, as far as its size
fits. -/
theorem acceptsLength_ackPacket_iff {need total : Nat} {mask : List UInt8} {res : UInt8}
    (ht : s.nTotalPackets = total) (hmask : mask.length = total) (hfit : total < 65536) :
    s.AcceptsLength (ackPacket need mask res) ↔ total ≤ maxFragments := by
  have hhead : sizeofCommonHeader + sizeofAckHeader = 10 := rfl
  have hmax : maxFragments = 65525 := rfl
  have hsize : (ackPacket need mask res).size = 10 + total := by
    rw [ModemSender.size_ackPacket, hmask]
  unfold ModemSender.AcceptsLength ModemSender.checkAck
  rw [hsize, ht, hhead, hmax]
  constructor
  · rintro ⟨hpos, hcheck⟩
    by_contra hmore
    have hshort : (10 + total) % 65536 < 10 := by omega
    exact hcheck _ (if_pos hshort)
  · intro hle
    have hlong : ¬ (10 + total) % 65536 < 10 := by omega
    refine ⟨by omega, fun msg => ?_⟩
    rw [if_neg hlong, if_neg (not_not.mpr rfl)]
    split
    · simp
    · split <;> simp

namespace ModemReceiver

/-- While a block is received the mask has an entry for each of its packets. -/
def Sized (r : ModemReceiver) : Prop :=
  r.state ≠ .listen → r.pReceivedPacketsMask.length = r.nTotalPackets

theorem Sized.error (h : r.Sized) (hst : r.state = .receiveData) (err : ReceiverError) (t : Int) :
    (r.error err t).Sized := by
  rcases error_cases r err t with hlisten | ⟨hcount, -, hmask, -⟩
  · exact fun hne => absurd hlisten.state hne
  · intro _
    rw [hmask, hcount]
    exact h (by simp [hst])

theorem Sized.next (h : r.Sized) (hnext : r.next i = some r') : r'.Sized := by
  obtain ⟨out, ev, hpolled⟩ := polled_of_next hnext
  cases hpolled with
  | idle => exact h
  | silent => exact h
  | badRTS => exact h
  | requested => exact fun _ => List.length_replicate
  | acknowledged hst => exact fun _ => h (by simp [hst])
  | badData hst => exact h.error hst _ _
  | @stored p _ hst =>
    obtain ⟨st, tm, heq, -⟩ := acceptData_cases r p i.timeStart
    intro _
    rw [heq]
    exact (List.length_set ..).trans (h (by simp [hst]))
  | late hst => exact h.error hst _ _
  | waiting => exact h
  | processed => exact fun hne => absurd rfl hne

/-- An ACK has a mask entry for each packet. -/
theorem Sized.ack {ack : Packet} {ev : ReceiverEvent} (h : r.Sized)
    (hpoll : r.poll i = some (r', some ack, ev)) :
    ∃ need mask, ack = ackPacket need mask i.reserved ∧ mask.length = r.nTotalPackets := by
  obtain ⟨hne, hack⟩ := poll_ack hpoll
  have hmask : (r.pReceivedPacketsMask.take r.nTotalPackets).length = r.nTotalPackets := by
    rw [List.length_take, h hne, Nat.min_self]
  rcases hack with rfl | rfl
  · exact ⟨_, _, rfl, hmask⟩
  · exact ⟨_, _, rfl, hmask⟩

end ModemReceiver

/-! ## Both sides -/

/-- A block that is not too long for a mask. -/
theorem agrees_of_le (hb : b ≠ []) (hle : fragmentCount b ≤ maxFragments) : Agrees b where
  total s i hst hblock := by
    have hmax : maxFragments = 65525 := rfl
    rw [ModemSender.poll_idle hst (by rw [hblock]; exact hb), ← fragmentCount_eq_ceil, hblock]
    show fragmentCount b % 65536 = fragmentCount b
    omega
  ranges es s hr hm hblock hst hmore := by
    have hsteady : s.Steady := run_invariant_of_meets (fun _ _ _ h hu hs => h.step hu hs)
      (.inl ModemSender.empty_init) hm hr
    rcases hsteady with h | ⟨b', h⟩
    · exact absurd (h.state.symm.trans hst) (by simp)
    · obtain rfl : b' = b := h.block.symm.trans hblock
      have htotal := h.total (by simp [hst])
      have hmod := Nat.mod_le (fragmentCount b') 65536
      have hnext := h.nextIdx_le
      exact fragmentRange_inside (by omega)
  acks is r hr hbusy hcount i r' ack ev hpoll s hs := by
    have hmax : maxFragments = 65525 := rfl
    have hsized : r.Sized := run_invariant (fun _ _ _ h hn => h.next hn) (fun hne => absurd rfl hne)
      hr
    obtain ⟨need, mask, rfl, hmask⟩ := hsized.ack hpoll
    refine (acceptsLength_ackPacket_iff hs (hmask.trans hcount) (Nat.mod_lt _ (by decide))).mpr ?_
    omega

/-- A block with more fragments: their number wraps, or the size of the ACK. -/
theorem not_agrees_of_lt (hlt : maxFragments < fragmentCount b) : ¬ Agrees b := by
  have hmax : maxFragments = 65525 := rfl
  intro h
  by_cases hwrap : fragmentCount b < 65536
  · -- the receiver that has just taken the RTS
    have hmod : fragmentCount b % 65536 = fragmentCount b := Nat.mod_eq_of_lt hwrap
    have hrts : ModemReceiver.init.poll ⟨some (rtsPacket (fragmentCount b) 0), 0, 0, 0⟩ =
        some (ModemReceiver.init.acceptRTS (rtsPacket (fragmentCount b) 0), none,
          .requested (fragmentCount b)) :=
      ModemReceiver.poll_listen_rts rfl rfl hwrap
    have hrun : run ModemReceiver.next .init [⟨some (rtsPacket (fragmentCount b) 0), 0, 0, 0⟩] =
        some (ModemReceiver.init.acceptRTS (rtsPacket (fragmentCount b) 0)) := by
      simp [run, ModemReceiver.next, hrts]
    have hcount : (rtsPacket (fragmentCount b) 0).totalPacketsCount = fragmentCount b :=
      totalPacketsCount_rtsPacket hwrap
    have hack := h.acks _ _ hrun ReceiverState.noConfusion (hcount.trans hmod.symm)
      ⟨none, 0, 0, 0⟩ _ _ _
      (ModemReceiver.poll_sendACK rfl) { ModemSender.init with nTotalPackets := fragmentCount b }
      hmod.symm
    have hmask : ((ModemReceiver.init.acceptRTS
        (rtsPacket (fragmentCount b) 0)).pReceivedPacketsMask.take
          (rtsPacket (fragmentCount b) 0).totalPacketsCount).length = fragmentCount b := by
      show ((List.replicate _ _).take _).length = _
      rw [List.length_take, List.length_replicate, Nat.min_self, hcount]
    have hle : fragmentCount b ≤ maxFragments :=
      (acceptsLength_ackPacket_iff rfl hmask hwrap).mp hack
    omega
  · have htotal := h.total (ModemSender.init.hand b) ⟨none, 0, 0, 0⟩ rfl rfl
    have hb : b ≠ [] := by
      rintro rfl
      exact absurd hlt (by decide)
    rw [ModemSender.poll_idle rfl hb, ← fragmentCount_eq_ceil] at htotal
    have hmod : fragmentCount b % 65536 = fragmentCount b := htotal
    omega

/-- **Sixteen bits are enough for 65525 fragments**: the arithmetic of both sides agrees for
exactly the blocks of at most 66442350 bytes. -/
theorem agrees_iff (hb : b ≠ []) : Agrees b ↔ b.length ≤ 66442350 := by
  have hlen : fragmentCount b ≤ maxFragments ↔ b.length ≤ 66442350 := fragmentCount_le_iff
  rw [← hlen]
  refine ⟨fun h => ?_, agrees_of_le hb⟩
  by_contra hmore
  exact not_agrees_of_lt (Nat.lt_of_not_le hmore) h

theorem agrees_iff_threeFragments : Agrees (List.replicate 2029 7) := by
  have hb : List.replicate 2029 (7 : UInt8) ≠ [] := List.cons_ne_nil 7 (List.replicate 2028 7)
  refine (agrees_iff hb).mpr ?_
  rw [List.length_replicate]
  decide

/-- One byte more. -/
theorem not_agrees_replicate : ¬ Agrees (List.replicate 66442351 7) := by
  refine not_agrees_of_lt (Nat.lt_of_not_le fun hle => ?_)
  have hlen := fragmentCount_le_iff.mp hle
  rw [List.length_replicate] at hlen
  exact absurd hlen (by decide)

end ModemFhss.Transport
