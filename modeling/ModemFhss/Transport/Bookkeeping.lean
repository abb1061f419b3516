import ModemFhss.Library.Machine
import ModemFhss.Transport.Collect

/-!
# The receiver's mask and its list of packets

Any input may come here: packets of other blocks, repeated ones, bytes that are no packet at all.
`Booked` is what the mask and the list should say about each other in every state, `AcksTrue` what
the ACKs then say about both.

The receiver marks a fragment's number and takes the fragment without looking whether the number is
marked already, or whether there is such a number. `Fresh` is the condition that it is new, and
`run_booked` says that exactly the runs of fresh fragments keep the books.
-/

namespace ModemFhss.Transport.ModemReceiver

open Machine

variable {r r' : ModemReceiver} {i : PollInput} {p : Packet} {size k : Nat} {t : Int}

/-- A poll, for what it does to the receiver. -/
def next (r : ModemReceiver) (i : PollInput) : Option ModemReceiver := (r.poll i).map (·.1)

theorem polled_of_next (h : r.next i = some r') : ∃ out ev, Polled r i r' out ev := by
  obtain ⟨⟨r₁, out, ev⟩, hpoll, rfl⟩ := Option.map_eq_some_iff.mp h
  exact ⟨out, ev, polled hpoll⟩

/-- The mask and the list agree on how many fragments there are, and hold none twice. -/
structure Booked (r : ModemReceiver) : Prop where
  listen : r.state = .listen → r.listReceivedPackets = [] ∧ r.pReceivedPacketsMask = []
  mask_length : r.state ≠ .listen → r.pReceivedPacketsMask.length = r.nTotalPackets
  entries : r.state ≠ .listen → ∀ m ∈ r.pReceivedPacketsMask, m = 0 ∨ m = 0xFF
  count : r.state ≠ .listen → r.pReceivedPacketsMask.count 0xFF = r.listReceivedPackets.length
  length_le : r.state ≠ .listen → r.listReceivedPackets.length ≤ r.nTotalPackets
  nodup : r.state ≠ .listen → (r.listReceivedPackets.map Packet.number).Nodup

/-- An ACK asks for as many fragments as are not marked, and for none only when none is missing. -/
def AcksTrue (r : ModemReceiver) : Prop :=
  ∀ i r' ack ev, r.poll i = some (r', some ack, ev) →
    ack.needPacketsCount = r.pReceivedPacketsMask.countP (· ≠ 0xFF) ∧
      (ack.needPacketsCount = 0 →
        ∀ k < r.nTotalPackets, ∃ p ∈ r.listReceivedPackets, p.number = k)

/-- If this poll takes a fragment, then one whose number is in the mask and not marked. -/
def Fresh (r : ModemReceiver) (i : PollInput) : Prop :=
  r.state = .receiveData → ∀ p size, i.received = some (p, size) → checkData p size = none →
    r.pReceivedPacketsMask[p.number]? = some 0

/-! ## The mask against the list -/

/-- What the mask and the list say while a block is received: a number is marked when a fragment
with this number is stored. -/
structure Tracks (r : ModemReceiver) : Prop where
  total_lt : r.nTotalPackets < 65536
  mask_length : r.pReceivedPacketsMask.length = r.nTotalPackets
  entries : ∀ m ∈ r.pReceivedPacketsMask, m = 0 ∨ m = 0xFF
  count : r.pReceivedPacketsMask.count 0xFF = r.listReceivedPackets.length
  nodup : (r.listReceivedPackets.map Packet.number).Nodup
  marked : ∀ p ∈ r.listReceivedPackets, r.pReceivedPacketsMask[p.number]? = some 0xFF

/-- `Tracks` while a block is received, and nothing in `MODEM_RECEIVER_LISTEN`. -/
structure Inv (r : ModemReceiver) : Prop where
  listen : r.state = .listen → r.listReceivedPackets = [] ∧ r.pReceivedPacketsMask = []
  tracks : r.state ≠ .listen → r.Tracks

theorem Tracks.length_le (h : r.Tracks) : r.listReceivedPackets.length ≤ r.nTotalPackets := by
  rw [← h.count, ← h.mask_length]
  exact List.count_le_length

theorem Tracks.bound (h : r.Tracks) (hp : p ∈ r.listReceivedPackets) :
    p.number < r.nTotalPackets := by
  rw [← h.mask_length]
  exact (List.getElem?_eq_some_iff.mp (h.marked p hp)).1

/-- `Tracks` reads the mask, the list up to its order, and the total. -/
theorem Tracks.congr (h : r.Tracks) (ht : r'.nTotalPackets = r.nTotalPackets)
    (hl : r'.listReceivedPackets.Perm r.listReceivedPackets)
    (hm : r'.pReceivedPacketsMask = r.pReceivedPacketsMask) : r'.Tracks where
  total_lt := by rw [ht]; exact h.total_lt
  mask_length := by rw [hm, ht]; exact h.mask_length
  entries := by rw [hm]; exact h.entries
  count := by rw [hm, hl.length_eq]; exact h.count
  nodup := (hl.map Packet.number).nodup_iff.mpr h.nodup
  marked p hp := by rw [hm]; exact h.marked p (hl.mem_iff.mp hp)

theorem Inv.booked (h : r.Inv) : r.Booked where
  listen := h.listen
  mask_length hb := (h.tracks hb).mask_length
  entries hb := (h.tracks hb).entries
  count hb := (h.tracks hb).count
  length_le hb := (h.tracks hb).length_le
  nodup hb := (h.tracks hb).nodup

/-- With as many fragments stored as there are, every number is there. -/
theorem Tracks.complete (h : r.Tracks) (hlen : r.listReceivedPackets.length = r.nTotalPackets)
    (hk : k < r.nTotalPackets) : ∃ p ∈ r.listReceivedPackets, p.number = k := by
  have hperm : (r.listReceivedPackets.map Packet.number).Perm (List.range r.nTotalPackets) := by
    refine perm_range_of_nodup h.nodup ?_ (by rw [List.length_map, hlen])
    intro l hl
    obtain ⟨p, hp, rfl⟩ := List.mem_map.mp hl
    exact h.bound hp
  have hmem := hperm.mem_iff.mpr (List.mem_range.mpr hk)
  exact List.mem_map.mp hmem

/-- The entries that are not marked are those still needed. -/
theorem Tracks.needPacketsCount (h : r.Tracks) :
    r.needPacketsCount = r.pReceivedPacketsMask.countP (· ≠ 0xFF) := by
  have hsum := List.length_eq_countP_add_countP (· == (0xFF : UInt8)) (l := r.pReceivedPacketsMask)
  have hmarked : r.pReceivedPacketsMask.countP (· == (0xFF : UInt8)) =
      r.listReceivedPackets.length := h.count
  have hother : r.pReceivedPacketsMask.countP (fun m => decide ¬ (m == (0xFF : UInt8)) = true) =
      r.pReceivedPacketsMask.countP (· ≠ 0xFF) := by
    simp
  have hlt := h.total_lt
  rw [h.mask_length, hmarked, hother] at hsum
  unfold ModemReceiver.needPacketsCount
  omega

theorem needPacketsCount_sendACK (h : r.Tracks) (res : UInt8) :
    (r.sendACK res).needPacketsCount = r.pReceivedPacketsMask.countP (· ≠ 0xFF) := by
  have hle : r.pReceivedPacketsMask.countP (· ≠ 0xFF) ≤ r.nTotalPackets := by
    rw [← h.mask_length]
    exact List.countP_le_length
  have hlt := h.total_lt
  rw [ModemReceiver.sendACK, ackPacket, Packet.needPacketsCount_build, h.needPacketsCount,
    Nat.mod_eq_of_lt (by omega)]

/-- Taking a fragment moves nothing into `MODEM_RECEIVER_LISTEN`. -/
theorem acceptData_cases (r : ModemReceiver) (p : Packet) (t : Int) :
    ∃ st tm, r.acceptData p t = { r.allOk with
        pReceivedPacketsMask := r.pReceivedPacketsMask.set p.number 0xFF
        listReceivedPackets := r.listReceivedPackets ++ [p]
        state := st
        nTimeMs := tm } ∧ (r.state ≠ .listen → st ≠ .listen) := by
  unfold acceptData
  dsimp only
  split
  · exact ⟨_, _, rfl, by simp⟩
  · split
    · exact ⟨_, _, rfl, by simp⟩
    · exact ⟨_, _, rfl, id⟩

/-! ## One poll -/

theorem Tracks.acceptData (h : r.Tracks) (hnew : r.pReceivedPacketsMask[p.number]? = some 0) :
    (r.acceptData p t).Tracks := by
  obtain ⟨st, tm, heq, -⟩ := acceptData_cases r p t
  obtain ⟨hlt, hget⟩ := List.getElem?_eq_some_iff.mp hnew
  rw [heq]
  refine ⟨h.total_lt, ?_, ?_, ?_, ?_, ?_⟩
  · exact (List.length_set ..).trans h.mask_length
  · intro m hm
    rcases List.mem_or_eq_of_mem_set hm with hm | hm
    · exact h.entries m hm
    · exact .inr hm
  · show (r.pReceivedPacketsMask.set p.number 0xFF).count 0xFF = (_ ++ [p]).length
    rw [List.count_set hlt, hget, h.count, List.length_append]
    rfl
  · show ((r.listReceivedPackets ++ [p]).map Packet.number).Nodup
    rw [List.map_append, List.nodup_append]
    refine ⟨h.nodup, List.nodup_singleton _, ?_⟩
    intro a ha b hb hab
    obtain ⟨q, hq, hqa⟩ := List.mem_map.mp ha
    have hqp : q.number = p.number := by
      rw [hqa, hab]
      simpa using hb
    -- a stored number is marked, and this one is not
    have hq' := h.marked q hq
    rw [hqp, hnew] at hq'
    exact absurd hq' (by decide)
  · intro q hq
    show (r.pReceivedPacketsMask.set p.number 0xFF)[q.number]? = _
    by_cases hqp : p.number = q.number
    · rw [← hqp, List.getElem?_set_self hlt]
    · rw [List.getElem?_set_ne hqp]
      rcases List.mem_append.mp hq with hq | hq
      · exact h.marked q hq
      · exact absurd (congrArg Packet.number (List.mem_singleton.mp hq)).symm hqp

theorem Tracks.acceptRTS (hl : r.listReceivedPackets = []) (p : Packet) :
    (r.acceptRTS p).Tracks where
  total_lt := ByteField.u16At_lt ..
  mask_length := List.length_replicate
  entries m hm := .inl (List.eq_of_mem_replicate hm)
  count := by
    show (List.replicate _ _).count _ = r.listReceivedPackets.length
    rw [hl]
    simp [List.count_replicate]
  nodup := by
    show (r.listReceivedPackets.map _).Nodup
    simp [hl]
  marked q hq := by
    have hq : q ∈ r.listReceivedPackets := hq
    simp [hl] at hq

theorem inv_reset (r : ModemReceiver) : r.reset.Inv := ⟨fun _ => ⟨rfl, rfl⟩, fun h => absurd rfl h⟩

theorem inv_init : init.Inv := ⟨fun _ => ⟨rfl, rfl⟩, fun h => absurd rfl h⟩

theorem Tracks.inv (h : r.Tracks) (hst : r.state ≠ .listen) : r.Inv :=
  ⟨fun hl => absurd hl hst, fun _ => h⟩

theorem Inv.error (h : r.Inv) (hst : r.state = .receiveData) (err : ReceiverError) (t : Int) :
    (r.error err t).Inv := by
  have htr := h.tracks (by simp [hst])
  simp only [ModemReceiver.error]
  split
  · exact inv_reset _
  · split
    · exact Tracks.inv (htr.congr rfl (.refl _) rfl) (by simp)
    · exact Tracks.inv (htr.congr rfl (.refl _) rfl) (by simp [hst])

/-- A poll that takes no fragment but a new one can be made, and keeps the books. -/
theorem Inv.next (h : r.Inv) (hfresh : r.Fresh i) : ∃ r', r.next i = some r' ∧ r'.Inv := by
  unfold ModemReceiver.next poll
  split
  · exact ⟨_, rfl, h⟩
  · next hst =>
    split
    · split
      · exact ⟨_, rfl, h⟩
      · exact ⟨_, rfl, Tracks.inv (Tracks.acceptRTS (h.listen hst).1 _) (by simp [acceptRTS])⟩
    · exact ⟨_, rfl, h⟩
  · next hst =>
    exact ⟨_, rfl, Tracks.inv ((h.tracks (by simp [hst])).congr rfl (.refl _) rfl) (by simp)⟩
  · next hst =>
    split
    · next p size hrec =>
      split
      · exact ⟨_, rfl, h.error hst _ _⟩
      · next hcheck =>
        have hnew := hfresh hst p size hrec hcheck
        have hlt := (List.getElem?_eq_some_iff.mp hnew).1
        obtain ⟨st, tm, heq, hne⟩ := acceptData_cases r p i.timeStart
        rw [if_pos hlt]
        refine ⟨_, rfl, Tracks.inv ((h.tracks (by simp [hst])).acceptData hnew) ?_⟩
        rw [heq]
        exact hne (by simp [hst])
    · split
      · exact ⟨_, rfl, h.error hst _ _⟩
      · exact ⟨_, rfl, h⟩
  · exact ⟨_, rfl, inv_reset _⟩

/-- A poll that takes a fragment already marked leaves more in the list than in the mask. -/
theorem Inv.not_booked_next (h : r.Inv) (hold : ¬ r.Fresh i) (hnext : r.next i = some r') :
    ¬ r'.Booked := by
  simp only [Fresh, not_forall] at hold
  obtain ⟨hst, p, size, hrec, hcheck, hmark⟩ := hold
  have htr := h.tracks (by simp [hst])
  simp only [ModemReceiver.next, poll, hst, hrec, hcheck] at hnext
  by_cases hlt : p.number < r.pReceivedPacketsMask.length
  · have hget : r.pReceivedPacketsMask[p.number] = 0xFF := by
      rcases htr.entries _ (List.getElem_mem hlt) with h0 | h0
      · exact absurd (List.getElem?_eq_some_iff.mpr ⟨hlt, h0⟩) hmark
      · exact h0
    obtain ⟨st, tm, heq, hne⟩ := acceptData_cases r p i.timeStart
    rw [if_pos hlt, heq] at hnext
    cases hnext
    intro hbook
    -- the mark was there before: the list grows, the mask stays
    have hset : r.pReceivedPacketsMask.set p.number 0xFF = r.pReceivedPacketsMask := by
      rw [← hget, List.set_getElem_self]
    have hcount := hbook.count (hne (by simp [hst]))
    rw [hset, htr.count, List.length_append] at hcount
    simp at hcount
  · rw [if_neg hlt] at hnext
    cases hnext

/-! ## The ACKs -/

theorem Tracks.processData (h : r.Tracks) : r.processData.Tracks :=
  h.congr rfl (List.perm_insertionSort ..) rfl

/-- Where an ACK comes from: `MODEM_RECEIVER_SEND_ACK`, or the end of a block. -/
theorem poll_ack {ack : Packet} {ev : ReceiverEvent} (h : r.poll i = some (r', some ack, ev)) :
    r.state ≠ .listen ∧
      (ack = r.sendACK i.reserved ∨ ack = r.processData.sendACK i.reserved) := by
  cases polled h with
  | acknowledged hst => exact ⟨by simp [hst], .inl rfl⟩
  | processed hst => exact ⟨by simp [hst], .inr rfl⟩

/-- The field of an ACK is zero only when no entry is left unmarked, and then all are stored. -/
theorem Tracks.complete_of_needs_none (h : r.Tracks)
    (hneed : r.pReceivedPacketsMask.countP (· ≠ 0xFF) = 0) (hk : k < r.nTotalPackets) :
    ∃ p ∈ r.listReceivedPackets, p.number = k := by
  refine h.complete ?_ hk
  rw [← h.needPacketsCount, ModemReceiver.needPacketsCount] at hneed
  have hlt := h.total_lt
  have hle := h.length_le
  omega

theorem Inv.acksTrue (h : r.Inv) : r.AcksTrue := by
  intro i r' ack ev hpoll
  obtain ⟨hbusy, hack⟩ := poll_ack hpoll
  have htr := h.tracks hbusy
  have hneed : ack.needPacketsCount = r.pReceivedPacketsMask.countP (· ≠ 0xFF) := by
    rcases hack with rfl | rfl
    · exact needPacketsCount_sendACK htr _
    · exact needPacketsCount_sendACK htr.processData _
  refine ⟨hneed, fun hzero k hk => ?_⟩
  exact htr.complete_of_needs_none (hneed.symm.trans hzero) hk

/-! ## Whole runs -/

/-- **Bookkeeping**: in exactly the runs that take no fragment but a new one, every state has mask
and list in agreement, and every ACK tells the truth. -/
theorem run_booked (is : List PollInput) :
    Meets ModemReceiver.next Fresh init is ↔
      ∀ is', is' <+: is → ∃ r, run ModemReceiver.next init is' = some r ∧ r.Booked ∧ r.AcksTrue :=
  meets_iff_forall_prefix (fun _ _ h hf => h.next hf) (fun _ h => ⟨h.booked, h.acksTrue⟩)
    (fun _ _ _ h hold hnext hb => h.not_booked_next hold hnext hb.1) inv_init

/-- An RTS for two fragments, a poll for the ACK, and the first fragment twice. -/
def repeatedFragment : List PollInput :=
  [.build .rts 0 2 [], ⟨[]⟩, .build .data 0 0 [7], .build .data 0 0 [7]].map fun p : Packet =>
    ⟨some p, 0, 0, 0⟩

/-- With the first fragment twice the receiver has two fragments, one of them marked, and its ACK
asks for none. -/
theorem repeatedFragment_not_booked :
    ∃ r, run ModemReceiver.next init repeatedFragment = some r ∧ ¬ r.Booked ∧ ¬ r.AcksTrue := by
  obtain ⟨r, hr, hst, hmask, hlen, hneed⟩ :
      ∃ r, run ModemReceiver.next init repeatedFragment = some r ∧ r.state = .processData ∧
        r.pReceivedPacketsMask = [0xFF, 0] ∧ r.listReceivedPackets.length = 2 ∧
          (r.processData.sendACK 0).needPacketsCount = 0 := by
    decide +kernel
  refine ⟨r, hr, fun hbook => ?_, fun hack => ?_⟩
  · have hcount := hbook.count (by simp [hst])
    rw [hmask, hlen] at hcount
    exact absurd hcount (by decide)
  · have hpoll : r.poll ⟨none, 0, 0, 0⟩ = some (r.processData.reset,
        some (r.processData.sendACK 0), .processed r.processData.blockFromModem) := by
      simp only [poll, hst]
    have hcount := (hack _ _ _ _ hpoll).1
    rw [hneed, hmask] at hcount
    exact absurd hcount (by decide)

end ModemFhss.Transport.ModemReceiver
