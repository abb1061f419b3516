import Mathlib.Data.List.Perm.Subperm
import ModemFhss.Transport.Receiver

/-!
# Collecting the fragments of one block

The receiver between an RTS and the block it puts out, when every fragment it stores is one of
block `b` and no number comes twice. `Collects r b nums` is that situation: `nums` are the numbers
received so far, in the order they came, and the list and the mask say exactly that.

Whether such a receiver has everything is decided by counting, and the count is right *because* the
numbers are distinct: `nums` is then a permutation of all the numbers, so sorting puts the block
together (`assemble_eq`). Nothing here depends on how the packets travelled.
-/

namespace ModemFhss.Transport

variable {b : Block} {k n : Nat} {i : PollInput} {res : UInt8}

/-! ## The packets of a block -/

theorem maxDataSize_pos : 0 < maxDataSize := by decide

theorem fragmentCount_pos (hb : b ≠ []) : 0 < fragmentCount b := Chunk.count_pos maxDataSize_pos hb

theorem length_fragmentData_le : (fragmentData b k).length ≤ 1014 := Chunk.length_piece_le

theorem length_fragmentData_pos (hk : k < fragmentCount b) : 0 < (fragmentData b k).length :=
  Chunk.length_piece_pos maxDataSize_pos hk

/-- The fragments of a block, joined in order, are the block. -/
theorem flatMap_fragmentData (b : Block) :
    (List.range (fragmentCount b)).flatMap (fragmentData b) = b :=
  Chunk.flatMap_piece maxDataSize_pos

theorem size_dataPacket : (dataPacket b k).size = 10 + (fragmentData b k).length :=
  Packet.size_build ..

theorem length_dataPacket : (dataPacket b k).length = 10 + (fragmentData b k).length := by
  have := length_fragmentData_le (b := b) (k := k)
  rw [dataPacket, Packet.length_build]
  omega

theorem number_dataPacket (hk : k < 65536) : (dataPacket b k).number = k := by
  rw [dataPacket, Packet.number_build, Nat.mod_eq_of_lt hk]

theorem payload_dataPacket :
    (dataPacket b k).payload (dataPacket b k).length = fragmentData b k := by
  rw [length_dataPacket]
  exact Packet.payload_build ..

theorem type_dataPacket : (dataPacket b k).type = PacketType.data.toByte.toNat :=
  Packet.type_build ..

theorem size_rtsPacket : (rtsPacket n res).size = 10 := Packet.size_build ..

theorem type_rtsPacket : (rtsPacket n res).type = PacketType.rts.toByte.toNat :=
  Packet.type_build ..

theorem totalPacketsCount_rtsPacket (hn : n < 65536) : (rtsPacket n res).totalPacketsCount = n := by
  rw [rtsPacket, Packet.totalPacketsCount_build, Nat.mod_eq_of_lt hn]

theorem received_dataPacket (h : i.packet = some (dataPacket b k)) :
    i.received = some (dataPacket b k, 10 + (fragmentData b k).length) := by
  have hle := length_fragmentData_le (b := b) (k := k)
  have hsize : (dataPacket b k).size % 65536 = 10 + (fragmentData b k).length := by
    rw [size_dataPacket]
    omega
  rw [PollInput.received_some h (by omega), hsize]

theorem received_rtsPacket (h : i.packet = some (rtsPacket n res)) :
    i.received = some (rtsPacket n res, 10) := by
  rw [PollInput.received_some h (by rw [size_rtsPacket]; decide), size_rtsPacket]

namespace ModemReceiver

/-! ## The checks -/

theorem checkRTS_rtsPacket : checkRTS (rtsPacket n res) 10 = none := by
  simp [checkRTS, sizeofCommonHeader, sizeofRTSHeader, rtsPacket]

/-- A fragment is never taken for an RTS: it is longer. -/
theorem checkRTS_dataPacket (hk : k < fragmentCount b) :
    checkRTS (dataPacket b k) (10 + (fragmentData b k).length) = some .incorrectLength := by
  have hpos := length_fragmentData_pos hk
  have hne : 10 + (fragmentData b k).length ≠ sizeofCommonHeader + sizeofRTSHeader := by
    show 10 + _ ≠ 10
    omega
  simp [checkRTS, hne]

theorem checkData_dataPacket :
    checkData (dataPacket b k) (10 + (fragmentData b k).length) = none := by
  have htoken : (dataPacket b k).startToken = startToken := Packet.startToken_build ..
  have hlen : ¬ 10 + (fragmentData b k).length < sizeofCommonHeader + sizeofRTSHeader := by
    show ¬ 10 + _ < 10
    omega
  simp [checkData, hlen, htoken, length_dataPacket, type_dataPacket]

theorem checkData_rtsPacket : checkData (rtsPacket n res) 10 = some .badType := by
  have htoken : (rtsPacket n res).startToken = startToken := Packet.startToken_build ..
  have hlen : (rtsPacket n res).length = 10 := Packet.length_build ..
  simp [checkData, sizeofCommonHeader, sizeofRTSHeader, htoken, hlen, type_rtsPacket,
    PacketType.toByte]

/-! ## Putting the block together -/

/-- Distinct numbers below `n`, as many as `n`, are all the numbers below `n`. -/
theorem perm_range_of_nodup {nums : List Nat} (hnd : nums.Nodup) (hlt : ∀ k ∈ nums, k < n)
    (hlen : nums.length = n) : nums.Perm (List.range n) := by
  have hsub : nums.Subperm (List.range n) :=
    hnd.subperm fun k hk => List.mem_range.mpr (hlt k hk)
  exact hsub.perm_of_length_le (by rw [List.length_range, hlen])

/-- Sorted by their numbers, packets that carry all the numbers below `n` are in order. -/
theorem sortPackets_map {ps : Nat → Packet} {nums : List Nat}
    (hnumber : ∀ k < n, (ps k).number = k) (hnd : nums.Nodup) (hlt : ∀ k ∈ nums, k < n)
    (hlen : nums.length = n) : sortPackets (nums.map ps) = (List.range n).map ps := by
  -- sorting the packets by their numbers sorts the numbers, and those are all below `n`
  have hsorted : nums.insertionSort (· ≤ ·) = List.range n := by
    refine List.Perm.eq_of_sortedLE List.sortedLE_insertionSort (List.sortedLT_range n).sortedLE ?_
    exact (List.perm_insertionSort ..).trans (perm_range_of_nodup hnd hlt hlen)
  rw [← hsorted, sortPackets]
  refine (List.map_insertionSort (· ≤ ·) _ ps nums fun k hk l hl => ?_).symm
  rw [hnumber k (hlt k hk), hnumber l (hlt l hl)]

theorem sortPackets_eq {nums : List Nat} (hn : n ≤ 65536) (hnd : nums.Nodup)
    (hlt : ∀ k ∈ nums, k < n) (hlen : nums.length = n) :
    sortPackets (nums.map (dataPacket b)) = (List.range n).map (dataPacket b) :=
  sortPackets_map (fun _ hk => number_dataPacket (Nat.lt_of_lt_of_le hk hn)) hnd hlt hlen

/-! ## The two situations of the receiver -/

variable {r r' : ModemReceiver} {nums : List Nat} {t : Int}

/-- Waiting for an RTS, with nothing stored. -/
structure Listening (r : ModemReceiver) : Prop where
  state : r.state = .listen
  stored : r.listReceivedPackets = []

/-- Holding exactly the fragments `nums` of `b`. -/
structure Collects (r : ModemReceiver) (b : Block) (nums : List Nat) : Prop where
  total : r.nTotalPackets = fragmentCount b
  stored : r.listReceivedPackets = nums.map (dataPacket b)
  nodup : nums.Nodup
  bound : ∀ k ∈ nums, k < fragmentCount b
  mask_length : r.pReceivedPacketsMask.length = fragmentCount b
  mask : ∀ k < fragmentCount b, r.pReceivedPacketsMask[k]? = some 0xFF ↔ k ∈ nums

theorem listening_init : init.Listening := ⟨rfl, rfl⟩

theorem listening_reset (r : ModemReceiver) : r.reset.Listening := ⟨rfl, rfl⟩

/-- `Collects` reads neither the state nor the counters nor the clock. -/
theorem Collects.congr (h : r.Collects b nums) (ht : r'.nTotalPackets = r.nTotalPackets)
    (hl : r'.listReceivedPackets = r.listReceivedPackets)
    (hm : r'.pReceivedPacketsMask = r.pReceivedPacketsMask) : r'.Collects b nums where
  total := ht.trans h.total
  stored := hl.trans h.stored
  nodup := h.nodup
  bound := h.bound
  mask_length := by rw [hm]; exact h.mask_length
  mask := by rw [hm]; exact h.mask

theorem error_cases (r : ModemReceiver) (err : ReceiverError) (t : Int) :
    (r.error err t).Listening ∨
      ((r.error err t).nTotalPackets = r.nTotalPackets ∧
        (r.error err t).listReceivedPackets = r.listReceivedPackets ∧
        (r.error err t).pReceivedPacketsMask = r.pReceivedPacketsMask ∧
        ((r.error err t).state = r.state ∨
          r.state = .receiveData ∧ (r.error err t).state = .sendACK)) := by
  simp only [error]
  split
  · exact .inl (listening_reset _)
  · split
    · next h => exact .inr ⟨rfl, rfl, rfl, .inr ⟨h.1, rfl⟩⟩
    · exact .inr ⟨rfl, rfl, rfl, .inl rfl⟩

theorem Listening.acceptRTS (h : r.Listening) (hb : fragmentCount b < 65536) :
    (r.acceptRTS (rtsPacket (fragmentCount b) res)).Collects b [] where
  total := totalPacketsCount_rtsPacket hb
  stored := h.stored
  nodup := List.nodup_nil
  bound := by simp
  mask_length := by
    show (List.replicate _ _).length = _
    rw [List.length_replicate, totalPacketsCount_rtsPacket hb]
  mask k hk := by
    show (List.replicate _ _)[k]? = _ ↔ _
    rw [totalPacketsCount_rtsPacket hb, List.getElem?_replicate, if_pos hk]
    simp

theorem Collects.acceptData (h : r.Collects b nums) (hb : fragmentCount b ≤ 65536)
    (hk : k < fragmentCount b) (hnew : k ∉ nums) :
    (r.acceptData (dataPacket b k) t).Collects b (nums ++ [k]) := by
  have hnum : (dataPacket b k).number = k := number_dataPacket (Nat.lt_of_lt_of_le hk hb)
  have hset : ∀ l < fragmentCount b,
      (r.pReceivedPacketsMask.set k 0xFF)[l]? = some 0xFF ↔ l ∈ nums ++ [k] := by
    intro l hl
    rw [List.mem_append, List.mem_singleton]
    by_cases hkl : k = l
    · subst hkl
      simp [h.mask_length, hk]
    · rw [List.getElem?_set_ne hkl, h.mask l hl]
      simp [Ne.symm hkl]
  refine Collects.congr (r := { r with
      pReceivedPacketsMask := r.pReceivedPacketsMask.set k 0xFF
      listReceivedPackets := r.listReceivedPackets ++ [dataPacket b k] })
    ⟨h.total, by simp [h.stored], ?_, ?_, by simp [h.mask_length], hset⟩ ?_ ?_ ?_
  · rw [List.nodup_append]
    exact ⟨h.nodup, List.nodup_singleton k, fun a ha c hc hac => hnew (by
      rw [← List.mem_singleton.mp hc, ← hac]; exact ha)⟩
  · intro l hl
    rcases List.mem_append.mp hl with hl | hl
    · exact h.bound l hl
    · rw [List.mem_singleton.mp hl]; exact hk
  -- the branches differ in the state and the clock only
  all_goals
    simp only [ModemReceiver.acceptData, allOk, hnum]
    split
    · rfl
    · split <;> rfl

/-- Where a stored packet leads: all there, or the last number without all, or wait for more. -/
theorem acceptData_state (r : ModemReceiver) (p : Packet) (t : Int) : (r.acceptData p t).state =
    if r.listReceivedPackets.length + 1 = r.nTotalPackets then .processData
    else if p.number + 1 = r.nTotalPackets then .sendACK
    else r.state := by
  by_cases hall : r.listReceivedPackets.length + 1 = r.nTotalPackets
  · simp [acceptData, allOk, hall]
  · by_cases hlast : p.number + 1 = r.nTotalPackets
    · simp [acceptData, allOk, hall, hlast]
    · simp [acceptData, allOk, hall, hlast]

theorem Collects.acceptData_state (h : r.Collects b nums) (hb : fragmentCount b ≤ 65536)
    (hk : k < fragmentCount b) : (r.acceptData (dataPacket b k) t).state =
      if nums.length + 1 = fragmentCount b then .processData
      else if k + 1 = fragmentCount b then .sendACK
      else r.state := by
  rw [ModemReceiver.acceptData_state, h.stored, h.total, List.length_map,
    number_dataPacket (Nat.lt_of_lt_of_le hk hb)]

/-- What is still needed, while the count fits its field. -/
theorem Collects.needPacketsCount (h : r.Collects b nums) (hb : fragmentCount b < 65536)
    (hle : nums.length ≤ fragmentCount b) :
    r.needPacketsCount = fragmentCount b - nums.length := by
  unfold ModemReceiver.needPacketsCount
  rw [h.total, h.stored, List.length_map]
  omega

theorem Collects.sendACK (h : r.Collects b nums) (hb : fragmentCount b < 65536)
    (hle : nums.length ≤ fragmentCount b) :
    r.sendACK res = ackPacket (fragmentCount b - nums.length) r.pReceivedPacketsMask res := by
  unfold ModemReceiver.sendACK
  rw [h.needPacketsCount hb hle, h.total,
    List.take_of_length_le (Nat.le_of_eq h.mask_length)]

/-! ## One poll -/

theorem poll_listen_none (hst : r.state = .listen) (hp : i.received = none) :
    r.poll i = some (r, none, .quiet) := by
  simp [poll, hst, hp]

theorem poll_listen_rts (hst : r.state = .listen) (hp : i.packet = some (rtsPacket n res))
    (hn : n < 65536) :
    r.poll i = some (r.acceptRTS (rtsPacket n res), none, .requested n) := by
  simp [poll, hst, received_rtsPacket hp, checkRTS_rtsPacket, totalPacketsCount_rtsPacket hn]

theorem poll_listen_data (hst : r.state = .listen) (hp : i.packet = some (dataPacket b k))
    (hk : k < fragmentCount b) : r.poll i = some (r, none, .rejected .incorrectLength) := by
  simp [poll, hst, received_dataPacket hp, checkRTS_dataPacket hk]

theorem poll_sendACK (hst : r.state = .sendACK) : r.poll i =
    some ({ r with state := .receiveData, nTimeMs := i.timeStart }, some (r.sendACK i.reserved),
      .quiet) := by
  simp [poll, hst]

theorem poll_receive_none (hst : r.state = .receiveData) (hp : i.received = none) : r.poll i =
    if i.timeStop - r.nTimeMs > maxWaitTime then
      some (r.error .timeoutWaitData i.timeStart, none, .timeout)
    else some (r, none, .quiet) := by
  simp only [poll, hst, hp]

theorem poll_receive_rts (hst : r.state = .receiveData)
    (hp : i.packet = some (rtsPacket n res)) :
    r.poll i = some (r.error .badType i.timeStart, none, .rejected .badType) := by
  simp [poll, hst, received_rtsPacket hp, checkData_rtsPacket]

theorem poll_receive_data (hst : r.state = .receiveData) (hp : i.packet = some (dataPacket b k))
    (hk : k < 65536) (hmask : k < r.pReceivedPacketsMask.length) : r.poll i =
      some (r.acceptData (dataPacket b k) i.timeStart, none, .stored k) := by
  simp [poll, hst, received_dataPacket hp, checkData_dataPacket, number_dataPacket hk, hmask]

/-- **Reassembly**: all the fragments of a block, in any order, give the block. -/
theorem Collects.processData (h : r.Collects b nums) (hb : fragmentCount b ≤ 65536)
    (hlen : nums.length = fragmentCount b) : r.processData.blockFromModem = b := by
  show (sortPackets r.listReceivedPackets).flatMap (fun p => p.payload p.length) = b
  rw [h.stored, sortPackets_eq hb h.nodup h.bound hlen, List.flatMap_map]
  simp only [payload_dataPacket]
  exact flatMap_fragmentData b

/-- **The block is complete**: it is put out as it was cut up, and acknowledged with nothing left
to send. -/
theorem Collects.poll_process (h : r.Collects b nums) (hst : r.state = .processData)
    (hb : fragmentCount b < 65536) (hlen : nums.length = fragmentCount b) :
    r.poll i = some (r.processData.reset, some (ackPacket 0 r.pReceivedPacketsMask i.reserved),
      .processed b) := by
  -- the ACK is built after the sort, which keeps the number of packets
  have hneed : r.processData.needPacketsCount = 0 := by
    have hstored : r.processData.listReceivedPackets
        = (List.range (fragmentCount b)).map (dataPacket b) := by
      show sortPackets r.listReceivedPackets = _
      rw [h.stored]
      exact sortPackets_eq (Nat.le_of_lt hb) h.nodup h.bound hlen
    have htotal : r.processData.nTotalPackets = fragmentCount b := h.total
    unfold ModemReceiver.needPacketsCount
    rw [hstored, htotal]
    simp
  have hack : r.processData.sendACK i.reserved = ackPacket 0 r.pReceivedPacketsMask i.reserved := by
    unfold ModemReceiver.sendACK
    rw [hneed]
    show ackPacket 0 (r.pReceivedPacketsMask.take r.nTotalPackets) _ = _
    rw [h.total, List.take_of_length_le (Nat.le_of_eq h.mask_length)]
  simp only [poll, hst, hack, h.processData (Nat.le_of_lt hb) hlen]

end ModemReceiver

end ModemFhss.Transport
