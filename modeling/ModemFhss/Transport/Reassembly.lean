import ModemFhss.Transport.Stall

/-!
# Reassembly in any order

A family `ps` of `total` well-formed DATA packets, numbered from 0, with payloads of any content and
size. After the RTS that announces them the receiver is given each of them once, in any order, and
between them whatever else `receive` may return: packets that are not DATA packets at all, nothing,
and nothing for too long, as long as no error is repeated up to the limit.

A `Collection` keeps beside the receiver the numbers it has been given, in the order they came.
`Orderly` is the condition above on one call, `Gathers` the invariant, and `run_reassembles` the
result: nothing of the family is lost on the way, every ACK tells what has come, and with the last
packet the payloads are put together in the order of the numbers.
-/

namespace ModemFhss.Transport

open Machine

/-- A well-formed DATA packet. Sizes are kept in a `uint16_t`. -/
structure Packet.IsData (p : Packet) : Prop where
  header : 10 ≤ p.size % 65536
  startToken : p.startToken = Transport.startToken
  length : p.length = p.size % 65536
  type : p.type = PacketType.data.toByte.toNat

instance (p : Packet) : Decidable p.IsData :=
  decidable_of_iff (10 ≤ p.size % 65536 ∧ p.startToken = startToken ∧ p.length = p.size % 65536 ∧
      p.type = PacketType.data.toByte.toNat)
    ⟨fun ⟨h, h', h'', h'''⟩ => ⟨h, h', h'', h'''⟩, fun ⟨h, h', h'', h'''⟩ => ⟨h, h', h'', h'''⟩⟩

/-- What a DATA packet carries: the bytes after its headers, up to its length. -/
def Packet.content (p : Packet) : List UInt8 := p.payload p.length

/-- The mask of `total` entries with the numbers `nums` marked. -/
def marks (total : Nat) (nums : List Nat) : List UInt8 :=
  (List.range total).map fun k => if k ∈ nums then 0xFF else 0

/-- The receiver and the numbers of the packets it has been given. -/
structure Collection where
  receiver : ModemReceiver
  arrived : List Nat

namespace Collection

variable {ps : Nat → Packet} {total k : Nat} {c c' : Collection} {r r' : ModemReceiver}
  {i : PollInput} {p : Packet} {nums : List Nat}

/-- The packet is one of the family. -/
def Member (ps : Nat → Packet) (total : Nat) (p : Packet) : Prop :=
  p.number < total ∧ p = ps p.number

instance (p : Packet) : Decidable (Member ps total p) := inferInstanceAs (Decidable (_ ∧ _))

/-- What `receive` returns, if the call makes use of it. -/
def delivered (c : Collection) (i : PollInput) : Option Packet :=
  if c.receiver.Listens then i.received.map Prod.fst else none

/-- A call of `operator ()`, with the number of the packet of the family that it is given. -/
def step (ps : Nat → Packet) (total : Nat) (c : Collection) (i : PollInput) : Option Collection :=
  (c.receiver.next i).map fun r =>
    ⟨r, c.arrived ++ ((c.delivered i).filter fun p => Member ps total p).toList.map Packet.number⟩

/-- The call comes before the family is complete; a packet of the family comes for the first time,
any other is not a well-formed DATA packet; and no error reaches its limit. -/
structure Orderly (ps : Nat → Packet) (total : Nat) (c : Collection) (i : PollInput) : Prop where
  incomplete : c.arrived.length < total
  once : ∀ p ∈ c.delivered i, Member ps total p → p.number ∉ c.arrived
  other : ∀ p ∈ c.delivered i, ¬ Member ps total p → ¬ p.IsData
  tolerated : ¬ c.receiver.GivesUp i

instance (c : Collection) (i : PollInput) : Decidable (Orderly ps total c i) :=
  decidable_of_iff (c.arrived.length < total ∧
      (∀ p ∈ c.delivered i, Member ps total p → p.number ∉ c.arrived) ∧
      (∀ p ∈ c.delivered i, ¬ Member ps total p → ¬ p.IsData) ∧ ¬ c.receiver.GivesUp i)
    ⟨fun ⟨h, h', h'', h'''⟩ => ⟨h, h', h'', h'''⟩, fun ⟨h, h', h'', h'''⟩ => ⟨h, h', h'', h'''⟩⟩

/-- The receiver has exactly what it has been given. -/
structure Gathers (ps : Nat → Packet) (total : Nat) (c : Collection) : Prop where
  count : c.receiver.nTotalPackets = total
  stored : c.receiver.listReceivedPackets = c.arrived.map ps
  mask : c.receiver.pReceivedPacketsMask = marks total c.arrived
  nodup : c.arrived.Nodup
  bound : ∀ k ∈ c.arrived, k < total
  incomplete : c.arrived.length < total →
    c.receiver.state = .sendACK ∨ c.receiver.state = .receiveData
  complete : c.arrived.length = total → c.receiver.state = .processData

/-! ## The checks and the mask -/

theorem checkData_eq_none_iff :
    ModemReceiver.checkData p (p.size % 65536) = none ↔ p.IsData := by
  have hhead : sizeofCommonHeader + sizeofRTSHeader = 10 := rfl
  unfold ModemReceiver.checkData
  rw [hhead]
  constructor
  · intro h
    split at h
    · cases h
    · next hheader =>
      split at h
      · cases h
      · next htoken =>
        split at h
        · cases h
        · next hlength =>
          split at h
          · cases h
          · next htype =>
            exact ⟨by omega, not_not.mp htoken, not_not.mp hlength, not_not.mp htype⟩
  · intro h
    rw [if_neg (Nat.not_lt.mpr h.header), if_neg (not_not.mpr h.startToken),
      if_neg (not_not.mpr h.length), if_neg (not_not.mpr h.type)]

theorem length_marks : (marks total nums).length = total := by simp [marks]

theorem marks_nil : marks total [] = List.replicate total 0 := by simp [marks, List.map_const']

/-- Marking a number in the mask is receiving it. -/
theorem set_marks : (marks total nums).set k 0xFF = marks total (nums ++ [k]) := by
  refine List.ext_getElem (by simp [length_marks]) fun l hl hl' => ?_
  rw [List.getElem_set]
  by_cases hkl : k = l
  · simp [marks, hkl]
  · simp [marks, hkl, Ne.symm hkl]

/-! ## One call -/

theorem Gathers.length_le (h : c.Gathers ps total) : c.arrived.length ≤ total := by
  have hsub : c.arrived.Subperm (List.range total) :=
    h.nodup.subperm fun k hk => List.mem_range.mpr (h.bound k hk)
  simpa using hsub.length_le

/-- `Gathers` reads the total, the list and the mask, and where the receiver is. -/
theorem Gathers.congr (h : c.Gathers ps total) (hlt : c.arrived.length < total)
    (hcount : r'.nTotalPackets = c.receiver.nTotalPackets)
    (hstored : r'.listReceivedPackets = c.receiver.listReceivedPackets)
    (hmask : r'.pReceivedPacketsMask = c.receiver.pReceivedPacketsMask)
    (hst : r'.state = .sendACK ∨ r'.state = .receiveData) :
    Gathers ps total ⟨r', c.arrived⟩ where
  count := hcount.trans h.count
  stored := hstored.trans h.stored
  mask := hmask.trans h.mask
  nodup := h.nodup
  bound := h.bound
  incomplete _ := hst
  complete hlen := absurd hlen (Nat.ne_of_lt hlt)

/-- An error below its limit costs nothing that was received. -/
theorem Gathers.error {err : ReceiverError} (h : c.Gathers ps total)
    (hlt : c.arrived.length < total) (hst : c.receiver.state = .receiveData)
    (hlimit : c.receiver.errCounters err + 1 ≠ ModemReceiver.maxErrors) (t : Int) :
    Gathers ps total ⟨c.receiver.error err t, c.arrived⟩ := by
  simp only [ModemReceiver.error, Function.update_self, if_neg hlimit]
  split
  · exact h.congr hlt rfl rfl rfl (.inl rfl)
  · exact h.congr hlt rfl rfl rfl (.inr hst)

/-- A new packet of the family is stored and marked. -/
theorem Gathers.acceptData (h : c.Gathers ps total) (hst : c.receiver.state = .receiveData)
    (hmem : Member ps total p) (hnew : p.number ∉ c.arrived) (t : Int) :
    Gathers ps total ⟨c.receiver.acceptData p t, c.arrived ++ [p.number]⟩ := by
  have hstate := ModemReceiver.acceptData_state c.receiver p t
  have hlen : c.receiver.listReceivedPackets.length = c.arrived.length := by
    rw [h.stored, List.length_map]
  rw [hlen, h.count] at hstate
  obtain ⟨st, tm, heq, -⟩ := ModemReceiver.acceptData_cases c.receiver p t
  refine ⟨?_, ?_, ?_, ?_, ?_, ?_, ?_⟩
  · rw [heq]
    exact h.count
  · rw [heq]
    show c.receiver.listReceivedPackets ++ [p] = (c.arrived ++ [p.number]).map ps
    rw [h.stored, List.map_append, List.map_singleton, ← hmem.2]
  · rw [heq]
    show c.receiver.pReceivedPacketsMask.set p.number 0xFF = _
    rw [h.mask, set_marks]
  · rw [List.nodup_append]
    refine ⟨h.nodup, List.nodup_singleton _, fun k hk l hl hkl => hnew ?_⟩
    rw [← List.mem_singleton.mp hl, ← hkl]
    exact hk
  · intro k hk
    rcases List.mem_append.mp hk with hk | hk
    · exact h.bound k hk
    · rw [List.mem_singleton.mp hk]
      exact hmem.1
  · intro hmore
    rw [List.length_append, List.length_singleton] at hmore
    rw [hstate, if_neg (Nat.ne_of_lt hmore)]
    split
    · exact .inl rfl
    · exact .inr hst
  · intro hall
    rw [List.length_append, List.length_singleton] at hall
    rw [hstate, if_pos hall]

/-- **One call keeps what was received**, whatever comes between the packets of the family. -/
theorem Gathers.step (hps : ∀ k < total, (ps k).IsData) (h : c.Gathers ps total)
    (ho : Orderly ps total c i) : ∃ c', step ps total c i = some c' ∧ c'.Gathers ps total := by
  have hlt := ho.incomplete
  rcases h.incomplete hlt with hst | hst
  · -- the ACK goes out, and `receive` is not called
    have hquiet : c.delivered i = none := by simp [delivered, ModemReceiver.Listens, hst]
    refine ⟨⟨{ c.receiver with state := .receiveData, nTimeMs := i.timeStart }, c.arrived⟩, ?_,
      h.congr hlt rfl rfl rfl (.inr rfl)⟩
    simp [Collection.step, ModemReceiver.next, ModemReceiver.poll_sendACK hst, hquiet]
  · have hlistens : c.receiver.Listens := .inr hst
    have htolerated := ho.tolerated
    simp only [ModemReceiver.GivesUp, ModemReceiver.failure, hst, if_true] at htolerated
    cases hrec : i.received with
    | none =>
      have hquiet : c.delivered i = none := by simp [delivered, hrec]
      have hpoll := ModemReceiver.poll_receive_none hst hrec
      by_cases hlate : i.timeStop - c.receiver.nTimeMs > ModemReceiver.maxWaitTime
      · have hlimit : c.receiver.errCounters .timeoutWaitData + 1 ≠ ModemReceiver.maxErrors :=
          fun hl => htolerated ⟨_, by simp [hrec, hlate], hl⟩
        refine ⟨_, ?_, h.error hlt hst hlimit i.timeStart⟩
        simp [Collection.step, ModemReceiver.next, hpoll, hlate, hquiet]
      · refine ⟨_, ?_, h⟩
        simp [Collection.step, ModemReceiver.next, hpoll, hlate, hquiet]
    | some x =>
      obtain ⟨p, size⟩ := x
      obtain ⟨-, rfl⟩ := PollInput.packet_of_received hrec
      have hgiven : c.delivered i = some p := by simp [delivered, hlistens, hrec]
      by_cases hmem : Member ps total p
      · have hdata : p.IsData := by
          rw [hmem.2]
          exact hps _ hmem.1
        have hcheck := checkData_eq_none_iff.mpr hdata
        have hmask : p.number < c.receiver.pReceivedPacketsMask.length := by
          rw [h.mask, length_marks]
          exact hmem.1
        refine ⟨_, ?_, h.acceptData hst hmem (ho.once p hgiven hmem) i.timeStart⟩
        simp [Collection.step, ModemReceiver.next, ModemReceiver.poll, hst, hrec, hcheck, hmask,
          hgiven, hmem]
      · cases hcheck : ModemReceiver.checkData p (p.size % 65536) with
        | none => exact absurd (checkData_eq_none_iff.mp hcheck) (ho.other p hgiven hmem)
        | some err =>
          have hlimit : c.receiver.errCounters err + 1 ≠ ModemReceiver.maxErrors :=
            fun hl => htolerated ⟨err, by simp [hrec, hcheck], hl⟩
          refine ⟨_, ?_, h.error hlt hst hlimit i.timeStart⟩
          simp [Collection.step, ModemReceiver.next, ModemReceiver.poll, hst, hrec, hcheck, hgiven,
            hmem]

/-! ## Whole runs -/

/-- What a receiver makes of the fragments after each call: nothing of the family is skipped or
discarded; an ACK sent now marks exactly what has come; and once all of it has come, the next call
puts out the payloads in the order of the numbers, asks for nothing, and listens with nothing
left. -/
structure Reassembles (ps : Nat → Packet) (total : Nat) (c : Collection) : Prop where
  stored : c.receiver.listReceivedPackets = c.arrived.map ps
  acks : ∀ i r' ack ev, c.receiver.poll i = some (r', some ack, ev) →
    ack = ackPacket (total - c.arrived.length) (marks total c.arrived) i.reserved
  output : c.arrived.length = total → ∀ i, ∃ r' ack,
    c.receiver.poll i =
        some (r', some ack, .processed ((List.range total).flatMap fun k => (ps k).content)) ∧
      ack.needPacketsCount = 0 ∧ r'.state = .listen ∧ r'.listReceivedPackets = []

theorem Gathers.sendACK (h : c.Gathers ps total) (hfit : total < 65536) (res : UInt8)
    (hcount : r.nTotalPackets = c.receiver.nTotalPackets)
    (hlen : r.listReceivedPackets.length = c.receiver.listReceivedPackets.length)
    (hmask : r.pReceivedPacketsMask = c.receiver.pReceivedPacketsMask) :
    r.sendACK res = ackPacket (total - c.arrived.length) (marks total c.arrived) res := by
  have hle := h.length_le
  have hneed : r.needPacketsCount = total - c.arrived.length := by
    unfold ModemReceiver.needPacketsCount
    rw [hcount, hlen, h.count, h.stored, List.length_map]
    omega
  rw [ModemReceiver.sendACK, hneed, hmask, hcount, h.count, h.mask,
    List.take_of_length_le (Nat.le_of_eq length_marks)]

theorem Gathers.reassembles (hps : ∀ k < total, (ps k).number = k) (hfit : total < 65536)
    (h : c.Gathers ps total) : c.Reassembles ps total where
  stored := h.stored
  acks i r' ack ev hpoll := by
    have hsorted : (ModemReceiver.sortPackets c.receiver.listReceivedPackets).length =
        c.receiver.listReceivedPackets.length := List.length_insertionSort ..
    rcases (ModemReceiver.poll_ack hpoll).2 with rfl | rfl
    · exact h.sendACK hfit _ rfl rfl rfl
    · exact h.sendACK hfit _ rfl hsorted rfl
  output hall i := by
    have hsorted : ModemReceiver.sortPackets c.receiver.listReceivedPackets =
        (List.range total).map ps := by
      rw [h.stored]
      exact ModemReceiver.sortPackets_map hps h.nodup h.bound hall
    have hblock : c.receiver.processData.blockFromModem =
        (List.range total).flatMap fun k => (ps k).content := by
      show (ModemReceiver.sortPackets _).flatMap (fun p => p.payload p.length) = _
      rw [hsorted, List.flatMap_map]
      rfl
    have hlen : c.receiver.processData.listReceivedPackets.length =
        c.receiver.listReceivedPackets.length := List.length_insertionSort ..
    have hack := h.sendACK hfit i.reserved (r := c.receiver.processData) rfl hlen rfl
    have hpoll : c.receiver.poll i = some (c.receiver.processData.reset,
        some (c.receiver.processData.sendACK i.reserved),
        .processed c.receiver.processData.blockFromModem) := by
      simp only [ModemReceiver.poll, h.complete hall]
    refine ⟨_, _, hblock ▸ hpoll, ?_, rfl, rfl⟩
    rw [hack, ackPacket, Packet.needPacketsCount_build]
    omega

/-- A receiver that listens has nothing stored. -/
theorem stored_of_listen {before : List PollInput}
    (hr : run ModemReceiver.next .init before = some r) (hst : r.state = .listen) :
    r.listReceivedPackets = [] := by
  have herror {r : ModemReceiver} (hbusy : r.state = .receiveData) (err : ReceiverError) (t : Int)
      (hst : (r.error err t).state = .listen) : (r.error err t).listReceivedPackets = [] := by
    rcases ModemReceiver.error_cases r err t with hlisten | ⟨-, -, -, hsame | ⟨-, hack⟩⟩
    · exact hlisten.stored
    · simp [hsame, hbusy] at hst
    · simp [hack] at hst
  refine run_invariant (I := fun r => r.state = .listen → r.listReceivedPackets = []) ?_ ?_ hr hst
  · intro r i r' hI hnext hst'
    obtain ⟨out, ev, hpolled⟩ := ModemReceiver.polled_of_next hnext
    cases hpolled with
    | idle => exact hI hst'
    | silent => exact hI hst'
    | badRTS => exact hI hst'
    | requested => exact nomatch hst'
    | acknowledged => exact nomatch hst'
    | badData hbusy => exact herror hbusy _ _ hst'
    | @stored p _ hbusy =>
      obtain ⟨st, tm, heq, hne⟩ := ModemReceiver.acceptData_cases r p i.timeStart
      rw [heq] at hst'
      exact absurd hst' (hne (by simp [hbusy]))
    | late hbusy => exact herror hbusy _ _ hst'
    | waiting => exact hI hst'
    | processed => rfl
  · exact fun _ => rfl

/-- Where an RTS is taken. -/
theorem poll_requested {r₁ : ModemReceiver} {out : Option Packet}
    (h : r.poll i = some (r₁, out, .requested total)) :
    r.state = .listen ∧ ∃ p, r₁ = r.acceptRTS p ∧ p.totalPacketsCount = total := by
  cases ModemReceiver.polled h with
  | requested hst => exact ⟨hst, _, rfl, rfl⟩

/-- **Reassembly does not depend on the order of arrival**: after an RTS for `total` packets, in
whatever state the receiver came to listen, an orderly run can be made, and has at its end exactly
what has arrived. -/
theorem run_reassembles {before is : List PollInput} {r₁ : ModemReceiver}
    (hr : run ModemReceiver.next .init before = some r)
    (hrts : r.poll i = some (r₁, none, .requested total)) (htotal : 0 < total)
    (hps : ∀ k < total, (ps k).IsData ∧ (ps k).number = k)
    (hm : Meets (step ps total) (Orderly ps total) ⟨r₁, []⟩ is) :
    ∃ c, run (step ps total) ⟨r₁, []⟩ is = some c ∧ c.Reassembles ps total := by
  obtain ⟨hst, p, rfl, hcount⟩ := poll_requested hrts
  have hfit : total < 65536 := hcount ▸ ByteField.u16At_lt ..
  have hstored := stored_of_listen hr hst
  have hstart : Gathers ps total ⟨r.acceptRTS p, []⟩ := by
    refine ⟨hcount, hstored, ?_, List.nodup_nil, by simp, fun _ => .inl rfl, ?_⟩
    · show List.replicate p.totalPacketsCount 0 = _
      rw [hcount, marks_nil]
    · exact fun hall => absurd hall (Nat.ne_of_lt htotal)
  obtain ⟨c, hrun, hc⟩ := exists_run_of_meets
    (fun _ _ h ho => h.step (fun k hk => (hps k hk).1) ho) hstart hm
  exact ⟨c, hrun, hc.reassembles (fun k hk => (hps k hk).2) hfit⟩

/-- Two packets, with two bytes and with one. -/
def twoPackets (k : Nat) : Packet := .build .data 0 k (if k = 0 then [8, 9] else [7])

/-- The ACK, then the last packet first; the ACK that asks for the other; an RTS, nothing, and
nothing for too long; the ACK again, and the other packet. -/
def lastFirst : List PollInput :=
  [⟨none, 0, 0, 0⟩, ⟨some (twoPackets 1), 0, 0, 0⟩, ⟨none, 0, 0, 0⟩,
    ⟨some (rtsPacket 2 0), 0, 0, 0⟩, ⟨none, 0, 0, 0⟩, ⟨none, 2000, 0, 0⟩, ⟨none, 0, 0, 0⟩,
    ⟨some (twoPackets 0), 0, 0, 0⟩]

theorem run_reassembles_lastFirst :
    ∃ c, run (step twoPackets 2) ⟨ModemReceiver.init.acceptRTS (rtsPacket 2 0), []⟩ lastFirst =
        some c ∧ c.arrived = [1, 0] ∧ c.Reassembles twoPackets 2 := by
  have hrts : ModemReceiver.init.poll ⟨some (rtsPacket 2 0), 0, 0, 0⟩ =
      some (ModemReceiver.init.acceptRTS (rtsPacket 2 0), none, .requested 2) :=
    ModemReceiver.poll_listen_rts rfl rfl (by decide)
  have hps : ∀ k < 2, (twoPackets k).IsData ∧ (twoPackets k).number = k := by decide +kernel
  have hm : Meets (step twoPackets 2) (Orderly twoPackets 2)
      ⟨ModemReceiver.init.acceptRTS (rtsPacket 2 0), []⟩ lastFirst := by
    decide +kernel
  have hr : run ModemReceiver.next .init [] = some .init := rfl
  obtain ⟨c, hrun, hc⟩ := run_reassembles hr hrts (by decide) hps hm
  obtain ⟨c', hrun', harrived⟩ : ∃ c, run (step twoPackets 2)
      ⟨ModemReceiver.init.acceptRTS (rtsPacket 2 0), []⟩ lastFirst = some c ∧
        c.arrived = [1, 0] := by
    decide +kernel
  cases hrun.symm.trans hrun'
  exact ⟨c, hrun, harrived, hc⟩

end Collection

end ModemFhss.Transport
