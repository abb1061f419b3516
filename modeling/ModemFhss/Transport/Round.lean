import ModemFhss.Transport.Mask

/-!
# One round of sending

After an ACK that asks for packets the sender goes once through the block, one fragment a call, and
skips the fragments that the ACK's mask marks. Where it is stays in `m_nCurrentIdx` between the
calls; at the end of the round, and after everything else that may happen to it, the index is back
at the start.

The loop that skips reads one entry past the mask when it runs to the end. `pollReading` is a call
in which this read yields `past`, any value; `run_round` says what the calls of a round send,
whatever it yields.
-/

namespace ModemFhss.Transport

open Machine

/-- `skipDelivered` with the read past the mask, which yields `past`. -/
def skipReading (past : UInt8) (mask : List UInt8) (total : Nat) : Nat → Nat → Nat
  | 0, idx => idx
  | fuel + 1, idx =>
    if mask.getD idx past = 0xFF ∧ idx < total then
      skipReading past mask total fuel (idx + 1)
    else
      idx

/-- The entries from `idx` on that are not marked. -/
def undelivered (mask : List UInt8) (total idx : Nat) : List Nat :=
  (List.range' idx (total - idx)).filter fun k => mask.getD k 0 ≠ 0xFF

variable {mask : List UInt8} {total fuel idx : Nat} {past : UInt8} {b : Block}

namespace ModemSender

/-- The value past the mask does not matter: the loop ends there. -/
theorem skipReading_eq (hlen : mask.length = total) (hfuel : idx + fuel = total) :
    skipReading past mask total (fuel + 1) idx = skipDelivered mask total fuel idx := by
  induction fuel generalizing idx with
  | zero =>
    have hend : ¬ idx < total := by omega
    simp [skipReading, skipDelivered, hend]
  | succ fuel ih =>
    have hget : idx < mask.length := by omega
    rw [skipReading, skipDelivered, ih (by omega), List.getD_eq_getElem _ _ hget,
      List.getD_eq_getElem _ _ hget]

theorem undelivered_of_ge (h : total ≤ idx) : undelivered mask total idx = [] := by
  simp [undelivered, Nat.sub_eq_zero_of_le h]

theorem undelivered_of_lt (h : idx < total) : undelivered mask total idx =
    if mask.getD idx 0 = 0xFF then undelivered mask total (idx + 1)
    else idx :: undelivered mask total (idx + 1) := by
  obtain ⟨n, rfl⟩ := Nat.exists_eq_add_of_lt h
  have hhere : idx + n + 1 - idx = n + 1 := by omega
  have hnext : idx + n + 1 - (idx + 1) = n := by omega
  unfold undelivered
  rw [hhere, hnext, List.range'_succ, List.filter_cons]
  by_cases hmark : mask.getD idx 0 = 0xFF
  · rw [if_pos hmark, if_neg (by simpa using hmark)]
  · rw [if_neg hmark, if_pos (by simpa using hmark)]

/-- Where the loop stops: at the next entry that is not marked, or at the end. -/
theorem skipDelivered_cases (mask : List UInt8) (hfuel : idx + fuel = total) :
    undelivered mask total idx = [] ∧ skipDelivered mask total fuel idx = total ∨
      skipDelivered mask total fuel idx < total ∧
        undelivered mask total idx = skipDelivered mask total fuel idx ::
          undelivered mask total (skipDelivered mask total fuel idx + 1) := by
  induction fuel generalizing idx with
  | zero => exact .inl ⟨undelivered_of_ge (by omega), hfuel⟩
  | succ fuel ih =>
    have hlt : idx < total := by omega
    rw [undelivered_of_lt hlt, skipDelivered]
    by_cases hmark : mask.getD idx 0 = 0xFF
    · rw [if_pos hmark, if_pos ⟨hmark, hlt⟩]
      exact ih (by omega)
    · rw [if_neg hmark, if_neg fun h => hmark h.1]
      exact .inr ⟨hlt, rfl⟩

/-- A call of `operator ()` in which the read past the mask yields `past`. -/
def pollReading (s : ModemSender) (past : UInt8) (i : PollInput) : ModemSender × Option Packet :=
  match s.state with
  | .sendData =>
    let idx := skipReading past s.pReceivedPacketsMask s.nTotalPackets
      (s.nTotalPackets - s.nCurrentIdx + 1) s.nCurrentIdx
    if idx = s.nTotalPackets then
      ({ s with nCurrentIdx := 0, state := .waitACK, nTimeMs := i.timeStart }, none)
    else
      ({ s with nCurrentIdx := idx + 1 }, some { s with nCurrentIdx := idx }.sendData)
  | _ => ((s.poll i).1, (s.poll i).2.1)

/-- Calls, one after the other: the state after them, and what they send. -/
def polls (s : ModemSender) : List (UInt8 × PollInput) → ModemSender × List Packet
  | [] => (s, [])
  | (past, i) :: is =>
    ((s.pollReading past i).1.polls is |>.1,
      (s.pollReading past i).2.toList ++ ((s.pollReading past i).1.polls is).2)

/-- Nobody puts a block into a sender at work. -/
def Undisturbed (s : ModemSender) : Input → Prop
  | .hand _ => s.state = .idle
  | .poll _ => True

instance (s : ModemSender) : (e : Input) → Decidable (s.Undisturbed e)
  | .hand _ => inferInstanceAs (Decidable (s.state = .idle))
  | .poll _ => isTrue trivial

variable {s s' : ModemSender} {i : PollInput} {e : Input}

/-! ## Between the rounds -/

/-- Idle and empty, or at work on a block. -/
def Steady (s : ModemSender) : Prop := s.Empty ∨ ∃ b, s.Carries b

theorem Steady.hand (h : s.Steady) (hst : s.state = .idle) (b : Block) : (s.hand b).Steady := by
  have hidx : s.nCurrentIdx = 0 := by
    rcases h with h | ⟨b', h⟩
    · exact h.idx
    · exact h.idx_zero (by simp [hst])
  by_cases hb : b = []
  · exact .inl ⟨hst, hb, hidx⟩
  · exact .inr ⟨b, Empty.hand (s := { s with blockToModem := [] }) ⟨hst, rfl, hidx⟩ hb⟩

theorem Steady.step (h : s.Steady) (hu : s.Undisturbed e) (hstep : s.step e = some s') :
    s'.Steady := by
  cases e with
  | hand b =>
    cases hstep
    exact h.hand hu b
  | poll i =>
    cases hstep
    rcases h with h | ⟨b, h⟩
    · rw [h.poll]
      exact .inl h
    · rcases h.poll (i := i) rfl with h' | h'
      · exact .inl h'
      · exact .inr ⟨b, h'⟩

/-! ## The calls of a round -/

/-- In the middle of a round. -/
structure InRound (s : ModemSender) (b : Block) (mask : List UInt8) (total idx : Nat) : Prop where
  state : s.state = .sendData
  block : s.blockToModem = b
  mask : s.pReceivedPacketsMask = mask
  count : s.nTotalPackets = total
  idx : s.nCurrentIdx = idx

/-- The sender after a round: waiting for the next ACK, with everything else unchanged. -/
structure AfterRound (s : ModemSender) (b : Block) (mask : List UInt8) (total : Nat) : Prop where
  state : s.state = .waitACK
  block : s.blockToModem = b
  mask : s.pReceivedPacketsMask = mask
  count : s.nTotalPackets = total
  idx : s.nCurrentIdx = 0

/-- **One call** sends the next entry that is not marked, or ends the round. -/
theorem InRound.poll (h : s.InRound b mask total idx) (hlen : mask.length = total)
    (hidx : idx ≤ total) (past : UInt8) (i : PollInput) :
    undelivered mask total idx = [] ∧ (s.pollReading past i).2 = none ∧
        (s.pollReading past i).1.AfterRound b mask total ∨
      ∃ k, k < total ∧ undelivered mask total idx = k :: undelivered mask total (k + 1) ∧
        (s.pollReading past i).2 = some (dataPacket b k) ∧
        (s.pollReading past i).1.InRound b mask total (k + 1) := by
  have hfuel : idx + (total - idx) = total := by omega
  simp only [pollReading, h.state, h.block, h.mask, h.count, h.idx, skipReading_eq hlen hfuel]
  rcases skipDelivered_cases mask hfuel with ⟨hnone, hend⟩ | ⟨hlt, hsome⟩
  · rw [if_pos hend]
    exact .inl ⟨hnone, rfl, rfl, rfl, rfl, rfl, rfl⟩
  · rw [if_neg (Nat.ne_of_lt hlt)]
    exact .inr ⟨_, hlt, hsome, rfl, rfl, rfl, rfl, rfl, rfl⟩

/-- **The calls of a round**: as many as there are entries not marked, and one more to end it. -/
theorem InRound.polls (is : List (UInt8 × PollInput)) (h : s.InRound b mask total idx)
    (hlen : mask.length = total) (hidx : idx ≤ total)
    (hfew : is.length ≤ (undelivered mask total idx).length + 1) :
    (s.polls is).2 = ((undelivered mask total idx).take is.length).map (dataPacket b) ∧
      (is.length ≤ (undelivered mask total idx).length →
        ∃ idx', (s.polls is).1.InRound b mask total idx') ∧
      (is.length = (undelivered mask total idx).length + 1 →
        (s.polls is).1.AfterRound b mask total) := by
  induction is generalizing s idx with
  | nil => exact ⟨rfl, fun _ => ⟨idx, h⟩, fun hl => by simp at hl⟩
  | cons x is ih =>
    obtain ⟨past, i⟩ := x
    rcases h.poll hlen hidx past i with ⟨hnone, hout, hafter⟩ | ⟨k, hk, hsome, hout, hin⟩
    · -- the call that ends the round is the last one
      rw [hnone] at hfew ⊢
      have his : is = [] := List.eq_nil_of_length_eq_zero (by simpa using hfew)
      subst his
      refine ⟨by simp [ModemSender.polls, hout], fun hl => by simp at hl, fun _ => hafter⟩
    · rw [hsome] at hfew ⊢
      obtain ⟨hsent, hmid, hend⟩ := ih hin hk (by simpa using hfew)
      refine ⟨?_, fun hl => hmid (by simpa using hl), fun hl => hend (by simpa using hl)⟩
      simp [ModemSender.polls, hout, hsent]

/-! ## Whole runs -/

/-- What follows an ACK with the bytes `acked` for a mask: the fragments lie in the block, and each
is its bytes from there on, as many as a packet takes or as there are left; each call sends the next
one that is not marked; and the call after the last ends the round. -/
structure Round (s : ModemSender) (acked : List UInt8) : Prop where
  inside : ∀ k ∈ undelivered acked s.nTotalPackets 0, k * maxDataSize < s.blockToModem.length
  payload : ∀ k, (dataPacket s.blockToModem k).payload (dataPacket s.blockToModem k).length =
    (s.blockToModem.take (min ((k + 1) * maxDataSize) s.blockToModem.length)).drop (k * maxDataSize)
  sent : ∀ is, is.length ≤ (undelivered acked s.nTotalPackets 0).length + 1 → (s.polls is).2 =
    ((undelivered acked s.nTotalPackets 0).take is.length).map (dataPacket s.blockToModem)
  goesOn : ∀ is, is.length ≤ (undelivered acked s.nTotalPackets 0).length →
    ∃ idx, (s.polls is).1.InRound s.blockToModem s.pReceivedPacketsMask s.nTotalPackets idx
  ends : ∀ is, is.length = (undelivered acked s.nTotalPackets 0).length + 1 →
    (s.polls is).1.AfterRound s.blockToModem s.pReceivedPacketsMask s.nTotalPackets

theorem fragmentData_eq_drop (b : Block) (k : Nat) : fragmentData b k =
    (b.take (min ((k + 1) * maxDataSize) b.length)).drop (k * maxDataSize) := by
  have hlen : (k + 1) * maxDataSize - k * maxDataSize = maxDataSize := by
    rw [Nat.succ_mul, Nat.add_sub_cancel_left]
  have htake : b.take (min ((k + 1) * maxDataSize) b.length) = b.take ((k + 1) * maxDataSize) :=
    List.take_eq_take_iff.mpr (by omega)
  rw [htake, List.drop_take, hlen]
  rfl

theorem lt_of_mem_range' {k : Nat} (hk : k ∈ List.range' idx (total - idx)) : k < total := by
  have := List.mem_range'_1.mp hk
  omega

/-- What is sent depends on the mask up to the total. -/
theorem undelivered_take :
    undelivered (mask.take total) total idx = undelivered mask total idx := by
  refine List.filter_congr fun k hk => ?_
  have hlt : k < total := lt_of_mem_range' hk
  rw [List.getD_eq_getElem?_getD, List.getElem?_take_of_lt hlt, ← List.getD_eq_getElem?_getD]

/-- The packet that was accepted, and the sender that accepted it. -/
theorem poll_accepted {need : Nat} (h : (s.poll i).2.2 = .acked need) :
    s.state = .waitACK ∧ ∃ p, i.packet = some p ∧ s.checkAck p (p.size % 65536) = none ∧
      p.needPacketsCount = need ∧ (s.poll i).1 = s.acceptAck p := by
  obtain ⟨hst, p, hpacket, hcheck, hneed⟩ := poll_acked h
  have hsize : 0 < p.size % 65536 := by
    by_contra hzero
    simp [checkAck, Nat.eq_zero_of_not_pos hzero, sizeofCommonHeader, sizeofAckHeader] at hcheck
  have hrec := PollInput.received_some hpacket hsize
  refine ⟨hst, p, hpacket, hcheck, hneed, ?_⟩
  rw [poll_waitACK hst]
  simp only [waitACK, hrec, hcheck]

/-- **A round of sending**: in every run in which nobody else touches the block, a sender that
accepts an ACK which asks for packets sends what its mask does not mark, in order and once, and
then waits again. -/
theorem run_round {es : List Input} {need : Nat} (hr : run step init es = some s)
    (hm : Meets step Undisturbed init es) (hack : (s.poll i).2.2 = .acked need) (hneed : 0 < need) :
    ∃ p, i.packet = some p ∧
      (s.poll i).1.Round (p.bytes.drop (sizeofCommonHeader + sizeofAckHeader)) := by
  obtain ⟨hst, p, hpacket, hcheck, rfl, hnext⟩ := poll_accepted hack
  have hsteady : s.Steady := run_invariant_of_meets (fun _ _ _ h hu hs => h.step hu hs)
    (.inl empty_init) hm hr
  have hindexed : s.Indexed := run_invariant (fun _ _ _ h hs => h.step hs) indexed_init hr
  have hb : s.Carries s.blockToModem := by
    rcases hsteady with h | ⟨b, h⟩
    · exact absurd (hst.symm.trans h.state) (by simp)
    · exact h.block.symm ▸ h
  refine ⟨p, hpacket, ?_⟩
  rw [hnext]
  -- the ACK is taken over: its mask, and the index still at the start
  have hlen := (hindexed.acceptAck hst hcheck).mask_length
  have hidx := hindexed.idx_zero (by simp [hst])
  simp only [acceptAck, if_pos hneed] at hlen ⊢
  set acked := p.bytes.drop (sizeofCommonHeader + sizeofAckHeader)
  have hin : InRound { s.allOk with
      bIsRTSAcked := true
      pReceivedPacketsMask := acked.take s.nTotalPackets
      state := .sendData } s.blockToModem (acked.take s.nTotalPackets) s.nTotalPackets 0 :=
    ⟨rfl, rfl, rfl, rfl, hidx⟩
  have hpolls := fun is => hin.polls is (hlen trivial) (Nat.zero_le _)
  rw [undelivered_take] at hpolls
  refine ⟨fun k hk => ?_, fun k => payload_dataPacket.trans (fragmentData_eq_drop _ k),
    fun is hl => (hpolls is hl).1,
    fun is hl => (hpolls is (Nat.le_succ_of_le hl)).2.1 hl,
    fun is hl => (hpolls is (Nat.le_of_eq hl)).2.2 hl⟩
  have hlt : k < s.nTotalPackets := lt_of_mem_range' (List.mem_of_mem_filter hk)
  have htotal : s.nTotalPackets = fragmentCount s.blockToModem % 65536 := hb.total (by simp [hst])
  have hle := Nat.mod_le (fragmentCount s.blockToModem) 65536
  exact (Chunk.lt_count_iff maxDataSize_pos).mp (by
    show k < fragmentCount s.blockToModem
    omega)

/-- The run up to the ACK, of a sender with a block of three fragments. -/
def threeFragments : List ModemSender.Input :=
  [.hand (List.replicate 2029 1), .poll ⟨none, 0, 0, 0⟩, .poll ⟨none, 0, 0, 0⟩]

theorem run_round_threeFragments :
    ∃ s, run step init threeFragments = some s ∧
      (s.poll ⟨some (ackPacket 2 [0, 0xFF, 0] 0), 0, 0, 0⟩).1.Round [0, 0xFF, 0] := by
  obtain ⟨s, hr, hack⟩ : ∃ s, run step init threeFragments = some s ∧
      (s.poll ⟨some (ackPacket 2 [0, 0xFF, 0] 0), 0, 0, 0⟩).2.2 = .acked 2 := by
    decide +kernel
  have hm : Meets step Undisturbed init threeFragments := by decide +kernel
  obtain ⟨p, hp, hround⟩ := run_round hr hm hack (by decide)
  cases hp
  exact ⟨s, hr, hround⟩

end ModemSender

end ModemFhss.Transport
