import ModemFhss.Transport.Bookkeeping

/-!
# Where the two machines reach into their masks

`m_pReceivedPacketsMask` is allocated, dropped and indexed in different states of both classes.
`maskOps` lists what one call of `operator ()` does with it, in order; a `Watched` machine keeps
beside itself the array the pointer then points to.

The receiver indexes it with the number a packet carries, and the sender's skip loop reads an entry
before it looks whether there is one. `NumberInMask` and `StopsInMask` are the conditions under
which neither leaves the array, and `run_maskSafe` says that these are exactly the runs in which
every access is safe.
-/

namespace ModemFhss.Transport

open Machine

/-- What is done with `m_pReceivedPacketsMask`. -/
inductive MaskOp where
  /-- `reset(new uint8_t[size])`. -/
  | alloc (size : Nat)
  /-- `reset(0)`. -/
  | drop
  /-- The entry at `idx` is read or written, while `m_nTotalPackets` is `total`. -/
  | access (idx total : Nat)
  deriving DecidableEq, Repr

namespace MaskOp

/-- The length of the array, or `none` while the pointer is null, after the operation. -/
def apply : Option Nat → MaskOp → Option Nat
  | _, alloc size => some size
  | _, drop => none
  | array, access _ _ => array

/-- The operation finds an array, and an entry of it below the total. -/
def Safe (array : Option Nat) : MaskOp → Prop
  | alloc _ => True
  | drop => True
  | access idx total => idx < total ∧ ∃ size ∈ array, idx < size

/-- Each of the operations is safe when it is its turn. -/
def AllSafe : Option Nat → List MaskOp → Prop
  | _, [] => True
  | array, op :: ops => op.Safe array ∧ AllSafe (op.apply array) ops

/-- `memset` or `memcpy` over the whole mask. -/
def sweep (total : Nat) : List MaskOp := (List.range total).map fun idx => access idx total

instance (array : Option Nat) : (op : MaskOp) → Decidable (op.Safe array)
  | alloc _ => isTrue trivial
  | drop => isTrue trivial
  | access idx total => inferInstanceAs (Decidable (idx < total ∧ ∃ size ∈ array, idx < size))

instance decidableAllSafe : ∀ (array : Option Nat) (ops : List MaskOp),
    Decidable (AllSafe array ops)
  | _, [] => isTrue trivial
  | array, op :: ops =>
    have := decidableAllSafe (op.apply array) ops
    inferInstanceAs (Decidable (op.Safe array ∧ AllSafe (op.apply array) ops))

variable {array : Option Nat} {ops ops' : List MaskOp} {idx total : Nat}

@[simp] theorem allSafe_nil : AllSafe array [] := trivial

@[simp] theorem allSafe_cons {op : MaskOp} :
    AllSafe array (op :: ops) ↔ op.Safe array ∧ AllSafe (op.apply array) ops := Iff.rfl

theorem allSafe_append :
    AllSafe array (ops ++ ops') ↔ AllSafe array ops ∧ AllSafe (ops.foldl apply array) ops' := by
  induction ops generalizing array with
  | nil => simp
  | cons op ops ih => simp [ih, and_assoc]

/-- Accesses leave the array where it is. -/
theorem foldl_apply_access (idxs : List Nat) :
    (idxs.map fun idx => access idx total).foldl apply array = array := by
  induction idxs with
  | nil => rfl
  | cons idx idxs ih => exact ih

/-- In an array of `total` entries, accesses are safe below the total. -/
theorem allSafe_access (idxs : List Nat) :
    AllSafe (some total) (idxs.map fun idx => access idx total) ↔ ∀ idx ∈ idxs, idx < total := by
  induction idxs with
  | nil => simp
  | cons idx idxs ih => simp [Safe, apply, ih]

@[simp] theorem foldl_apply_sweep : (sweep total).foldl apply array = array :=
  foldl_apply_access _

theorem allSafe_sweep : AllSafe (some total) (sweep total) :=
  (allSafe_access _).mpr fun _ => List.mem_range.mp

end MaskOp

/-- A machine and the length of the array behind its mask, `none` while the pointer is null. -/
structure Watched (σ : Type) where
  machine : σ
  array : Option Nat

/-! ## The receiver -/

namespace ModemReceiver

/-- What `error` does to the mask: `reset` drops it. -/
def errorMaskOps (r : ModemReceiver) (err : ReceiverError) : List MaskOp :=
  if r.errCounters err + 1 = maxErrors then [.drop] else []

/-- What one call of `operator ()` does to the mask. -/
def maskOps (r : ModemReceiver) (i : PollInput) : List MaskOp :=
  match r.state with
  | .idle => []
  | .listen =>
    match i.received with
    | some (p, packetSize) =>
      match checkRTS p packetSize with
      | some _ => []
      | none => .alloc p.totalPacketsCount :: MaskOp.sweep p.totalPacketsCount
    | none => []
  | .sendACK => MaskOp.sweep r.nTotalPackets
  | .receiveData =>
    match i.received with
    | some (p, packetSize) =>
      match checkData p packetSize with
      | some err => r.errorMaskOps err
      | none => [.access p.number r.nTotalPackets]
    | none =>
      if i.timeStop - r.nTimeMs > maxWaitTime then r.errorMaskOps .timeoutWaitData else []
  | .processData => MaskOp.sweep r.nTotalPackets ++ [.drop]

/-- A call of `operator ()`, with what it does to the array. -/
def watch (w : Watched ModemReceiver) (i : PollInput) : Option (Watched ModemReceiver) :=
  (w.machine.next i).map fun r => ⟨r, (w.machine.maskOps i).foldl MaskOp.apply w.array⟩

/-- Every access of the call to the mask is safe. -/
def MaskSafe (w : Watched ModemReceiver) (i : PollInput) : Prop :=
  MaskOp.AllSafe w.array (w.machine.maskOps i)

instance (w : Watched ModemReceiver) (i : PollInput) : Decidable (MaskSafe w i) :=
  inferInstanceAs (Decidable (MaskOp.AllSafe _ _))

/-- If the call takes a fragment, then one whose number is below the total. -/
def NumberInMask (w : Watched ModemReceiver) (i : PollInput) : Prop :=
  w.machine.state = .receiveData → ∀ p size, i.received = some (p, size) →
    checkData p size = none → p.number < w.machine.nTotalPackets

/-- While a block is received the array has an entry for each of its packets. -/
def Allocated (w : Watched ModemReceiver) : Prop :=
  w.machine.state ≠ .listen → w.array = some w.machine.nTotalPackets

variable {w w' : Watched ModemReceiver} {i : PollInput}

/-- `error` keeps the array, or drops it and listens. -/
theorem allocated_error {r : ModemReceiver} (err : ReceiverError) (t : Int) :
    Allocated ⟨r.error err t,
      (r.errorMaskOps err).foldl MaskOp.apply (some r.nTotalPackets)⟩ := by
  unfold ModemReceiver.error errorMaskOps
  simp only [Function.update_self]
  split
  · exact fun hne => absurd rfl hne
  · split <;> exact fun _ => rfl

theorem Allocated.watch (h : Allocated w) (hw : watch w i = some w') : Allocated w' := by
  obtain ⟨r', hr, rfl⟩ := Option.map_eq_some_iff.mp hw
  obtain ⟨out, ev, hpolled⟩ := polled_of_next hr
  unfold maskOps
  cases hpolled with
  | idle hst => simpa [hst] using h
  | silent hst hrec => simpa [hst, hrec] using h
  | badRTS hst hrec hcheck => simpa [hst, hrec, hcheck] using h
  | requested hst hrec hcheck =>
    intro _
    simp [hst, hrec, hcheck, MaskOp.apply, acceptRTS]
  | acknowledged hst =>
    intro _
    simpa [hst] using h (by simp [hst])
  | badData hst hrec hcheck =>
    have harray := h (by simp [hst])
    simp only [hst, hrec, hcheck, harray]
    exact allocated_error _ _
  | @stored p _ hst hrec hcheck hlt =>
    have harray := h (by simp [hst])
    obtain ⟨st, tm, heq, -⟩ := acceptData_cases w.machine p i.timeStart
    intro _
    simp [hst, hrec, hcheck, harray, MaskOp.apply, heq, allOk]
  | late hst hrec hlate =>
    have harray := h (by simp [hst])
    simp only [hst, hrec, if_pos hlate, harray]
    exact allocated_error _ _
  | waiting hst hrec hlate => simpa [hst, hrec, hlate] using h
  | processed hst => exact fun hne => absurd rfl hne

/-- With the array allocated, only the number of a fragment decides. -/
theorem Allocated.numberInMask_iff (h : Allocated w) : NumberInMask w i ↔ MaskSafe w i := by
  unfold NumberInMask MaskSafe maskOps
  split
  · next hst => simp [hst]
  · next hst =>
    split
    · split
      · simp [hst]
      · simp [hst, MaskOp.Safe, MaskOp.apply, MaskOp.allSafe_sweep]
    · simp [hst]
  · next hst => simp [hst, h (by simp [hst]), MaskOp.allSafe_sweep]
  · next hst =>
    have harray := h (by simp [hst])
    split
    · next p size hrec =>
      split
      · next err hcheck =>
        have hsafe : MaskOp.AllSafe w.array (w.machine.errorMaskOps err) := by
          unfold errorMaskOps
          split <;> simp [MaskOp.Safe]
        simp [hrec, hcheck, hsafe]
      · next hcheck => simp [hst, hrec, hcheck, harray, MaskOp.Safe]
    · next hrec =>
      have hsafe : MaskOp.AllSafe w.array (w.machine.errorMaskOps .timeoutWaitData) := by
        unfold errorMaskOps
        split <;> simp [MaskOp.Safe]
      split <;> simp [hrec, hsafe]
  · next hst =>
    simp [hst, h (by simp [hst]), MaskOp.allSafe_append, MaskOp.allSafe_sweep, MaskOp.Safe]

end ModemReceiver

/-! ## The sender -/

/-- The entries that `skipDelivered` reads on its way, the one it stops at included. -/
def skipReads (mask : List UInt8) (total : Nat) : Nat → Nat → List Nat
  | 0, idx => [idx]
  | fuel + 1, idx =>
    idx :: if mask.getD idx 0 = 0xFF ∧ idx < total then skipReads mask total fuel (idx + 1) else []

/-- The loop stays in a mask of `total` entries exactly if it meets an undelivered packet. -/
theorem skipReads_lt_iff {mask : List UInt8} {total : Nat} (hlen : mask.length = total) :
    ∀ {fuel idx : Nat}, idx + fuel = total →
      ((∀ k ∈ skipReads mask total fuel idx, k < total) ↔ ∃ m ∈ mask.drop idx, m ≠ 0xFF)
  | 0, idx, hfuel => by
    have hdrop : mask.drop idx = [] := List.drop_eq_nil_of_le (by omega)
    have hidx : ¬ idx < total := by omega
    simp [skipReads, hdrop, hidx]
  | fuel + 1, idx, hfuel => by
    have hidx : idx < total := by omega
    have hget : idx < mask.length := by omega
    have hentry : mask.getD idx 0 = mask[idx] := by simp [hget]
    have ih : (∀ k ∈ skipReads mask total fuel (idx + 1), k < total) ↔
        ∃ m ∈ mask.drop (idx + 1), m ≠ 0xFF :=
      skipReads_lt_iff hlen (by omega)
    rw [List.drop_eq_getElem_cons hget, skipReads, hentry]
    by_cases hmark : mask[idx] = 0xFF
    · simp [hmark, hidx, ih]
    · exact iff_of_true (by simp [hmark, hidx]) ⟨mask[idx], List.mem_cons_self, hmark⟩

namespace ModemSender

/-- What `error` does to the mask: `reset` drops it. -/
def errorMaskOps (s : ModemSender) (err : SenderError) : List MaskOp :=
  if s.errCounters err + 1 = maxErrors then [.drop] else []

/-- What one call of `operator ()` does to the mask. -/
def maskOps (s : ModemSender) (i : PollInput) : List MaskOp :=
  match s.state with
  | .idle => []
  | .sendRTS => []
  | .waitACK =>
    match i.received with
    | some (p, packetSize) =>
      match s.checkAck p packetSize with
      | some (err, _) => s.errorMaskOps err
      | none =>
        .alloc s.nTotalPackets :: MaskOp.sweep s.nTotalPackets ++
          if 0 < p.needPacketsCount then [] else [.drop]
    | none =>
      if i.timeStop - s.nTimeMs > maxWaitTime then s.errorMaskOps .ackTimeout else []
  | .sendData =>
    (skipReads s.pReceivedPacketsMask s.nTotalPackets (s.nTotalPackets - s.nCurrentIdx)
      s.nCurrentIdx).map fun idx => .access idx s.nTotalPackets

/-- What happens to the sender, with what it does to the array. -/
def watch (w : Watched ModemSender) : Input → Option (Watched ModemSender)
  | .hand b => some { w with machine := w.machine.hand b }
  | .poll i => some ⟨(w.machine.poll i).1, (w.machine.maskOps i).foldl MaskOp.apply w.array⟩

/-- Every access of the call to the mask is safe. -/
def MaskSafe (w : Watched ModemSender) : Input → Prop
  | .hand _ => True
  | .poll i => MaskOp.AllSafe w.array (w.machine.maskOps i)

instance (w : Watched ModemSender) : (e : Input) → Decidable (MaskSafe w e)
  | .hand _ => isTrue trivial
  | .poll _ => inferInstanceAs (Decidable (MaskOp.AllSafe _ _))

/-- If the call is to send a fragment, there is one left to send. -/
def StopsInMask (w : Watched ModemSender) : Input → Prop
  | .hand _ => True
  | .poll _ => w.machine.state = .sendData →
      ∃ m ∈ w.machine.pReceivedPacketsMask.drop w.machine.nCurrentIdx, m ≠ 0xFF

/-- The index is within the total, and back at the start outside `MODEM_SENDER_SEND_DATA`, where
there is a mask with an entry for each packet. -/
structure Indexed (s : ModemSender) : Prop where
  total_lt : s.nTotalPackets < 65536
  idx_le : s.nCurrentIdx ≤ s.nTotalPackets
  idx_zero : s.state ≠ .sendData → s.nCurrentIdx = 0
  mask_length : s.state = .sendData → s.pReceivedPacketsMask.length = s.nTotalPackets

/-- `Indexed`, with the mask in the array. -/
structure Allocated (w : Watched ModemSender) : Prop extends Indexed w.machine where
  array : w.machine.state = .sendData → w.array = some w.machine.nTotalPackets

variable {s s' : ModemSender} {w w' : Watched ModemSender} {i : PollInput} {e : Input} {p : Packet}

/-- A packet that passes the checks has its headers and an entry for each packet. -/
theorem size_of_checkAck (ht : s.nTotalPackets < 65536)
    (h : s.checkAck p (p.size % 65536) = none) : 10 + s.nTotalPackets ≤ p.size := by
  have hhead : sizeofCommonHeader + sizeofAckHeader = 10 := rfl
  simp only [checkAck, hhead] at h
  split at h
  · cases h
  · next hlong =>
    split at h
    · cases h
    · omega

theorem indexed_init : init.Indexed :=
  ⟨by decide, Nat.le_refl _, fun _ => rfl, fun h => nomatch h⟩

theorem indexed_reset (s : ModemSender) : s.reset.Indexed :=
  ⟨(by decide : 0 < 65536), Nat.le_refl _, fun _ => rfl, fun h => nomatch h⟩

theorem Indexed.error (h : s.Indexed) (hst : s.state = .waitACK) (err : SenderError) (msg : String)
    (t : Int) : (s.error err msg t).Indexed := by
  have hzero := h.idx_zero (by simp [hst])
  simp only [ModemSender.error]
  split
  · exact indexed_reset _
  · split
    · exact ⟨h.total_lt, h.idx_le, fun _ => hzero, fun hs => by cases hs⟩
    · exact ⟨h.total_lt, h.idx_le, h.idx_zero, h.mask_length⟩

theorem Indexed.acceptAck (h : s.Indexed) (hst : s.state = .waitACK)
    (hp : s.checkAck p (p.size % 65536) = none) : (s.acceptAck p).Indexed := by
  have hzero := h.idx_zero (by simp [hst])
  have hsize := size_of_checkAck h.total_lt hp
  have hlen : ((p.bytes.drop 10).take s.nTotalPackets).length = s.nTotalPackets := by
    have hbytes : p.bytes.length = p.size := rfl
    rw [List.length_take, List.length_drop]
    omega
  unfold ModemSender.acceptAck
  split
  · exact ⟨h.total_lt, h.idx_le, fun _ => hzero, fun _ => hlen⟩
  · exact indexed_reset _

theorem Indexed.poll (h : s.Indexed) (i : PollInput) : (s.poll i).1.Indexed := by
  unfold ModemSender.poll
  split
  · next hst =>
    have hzero := h.idx_zero (by simp [hst])
    split
    · refine ⟨Nat.mod_lt _ (by decide), ?_, fun _ => hzero, fun hs => by cases hs⟩
      show s.nCurrentIdx ≤ _
      omega
    · exact h
  · next hst =>
    exact ⟨h.total_lt, h.idx_le, fun _ => h.idx_zero (by simp [hst]), fun hs => by cases hs⟩
  · next hst =>
    simp only [waitACK]
    split
    · next p size hrec =>
      obtain ⟨-, rfl⟩ := PollInput.packet_of_received hrec
      split
      · exact h.error hst _ _ _
      · next hcheck => exact h.acceptAck hst hcheck
    · split
      · exact h.error hst _ _ _
      · exact h
  · next hst =>
    have hnext : s.nextIdx ≤ s.nTotalPackets := skipDelivered_le h.idx_le
    simp only [sendNext]
    split
    · exact ⟨h.total_lt, Nat.zero_le _, fun _ => rfl, fun hs => by cases hs⟩
    · next hne =>
      exact ⟨h.total_lt, Nat.lt_of_le_of_ne hnext hne, fun hs => absurd hst hs, h.mask_length⟩

theorem Indexed.step (h : s.Indexed) (hstep : s.step e = some s') : s'.Indexed := by
  cases e with
  | hand b =>
    cases hstep
    exact ⟨h.total_lt, h.idx_le, h.idx_zero, h.mask_length⟩
  | poll i =>
    cases hstep
    exact h.poll i

/-- `error` leads nowhere near the mask. -/
theorem error_state_ne (hst : s.state = .waitACK) (err : SenderError) (msg : String) (t : Int) :
    (s.error err msg t).state ≠ .sendData := by
  rcases error_cases s err msg t with hempty | ⟨-, -, -, hsame | ⟨-, hrts⟩⟩
  · simp [hempty.state]
  · simp [hsame, hst]
  · simp [hrts]

theorem Allocated.watch (h : Allocated w) (hw : watch w e = some w') : Allocated w' := by
  cases e with
  | hand b =>
    cases hw
    exact ⟨h.toIndexed.step (e := .hand b) rfl, h.array⟩
  | poll i =>
    cases hw
    refine ⟨h.toIndexed.poll i, ?_⟩
    cases hst : w.machine.state with
    | idle =>
      simp only [ModemSender.poll, hst]
      split <;> simp [hst]
    | sendRTS => simp [ModemSender.poll, hst]
    | waitACK =>
      simp only [ModemSender.poll, hst, waitACK, maskOps]
      cases hrec : i.received with
      | none =>
        dsimp only
        split
        · exact fun hs => absurd hs (error_state_ne hst _ _ _)
        · simp [hst]
      | some x =>
        cases hcheck : w.machine.checkAck x.1 x.2 with
        | some err =>
          simp only [hcheck]
          exact fun hs => absurd hs (error_state_ne hst _ _ _)
        | none =>
          -- the new array is the one the accepted mask is copied to
          simp only [hcheck, ModemSender.acceptAck]
          split
          · exact fun _ => by simp [MaskOp.apply, allOk]
          · exact fun hs => nomatch hs
    | sendData =>
      have harray := h.array hst
      simp only [ModemSender.poll, hst, maskOps, MaskOp.foldl_apply_access, sendNext]
      split <;> exact fun _ => harray

/-- With the array allocated, only the skip loop can leave it. -/
theorem Allocated.stopsInMask_iff (h : Allocated w) : StopsInMask w e ↔ MaskSafe w e := by
  cases e with
  | hand b => exact Iff.rfl
  | poll i =>
    have herror (err : SenderError) : MaskOp.AllSafe w.array (w.machine.errorMaskOps err) := by
      unfold errorMaskOps
      split <;> simp [MaskOp.Safe]
    show (w.machine.state = .sendData → ∃ m ∈ _, m ≠ 0xFF) ↔
      MaskOp.AllSafe w.array (w.machine.maskOps i)
    unfold maskOps
    cases hst : w.machine.state with
    | idle => simp
    | sendRTS => simp
    | waitACK =>
      refine iff_of_true (fun hs => nomatch hs) ?_
      dsimp only
      split
      · split
        · exact herror _
        · refine MaskOp.allSafe_append.mpr ⟨⟨trivial, MaskOp.allSafe_sweep⟩, ?_⟩
          split <;> simp [MaskOp.Safe]
      · split
        · exact herror _
        · exact MaskOp.allSafe_nil
    | sendData =>
      have hidx := h.idx_le
      rw [h.array hst, MaskOp.allSafe_access, skipReads_lt_iff (h.mask_length hst) (by omega)]
      simp

end ModemSender

/-! ## Whole runs -/

/-- **Mask safety**: in exactly the runs in which every fragment the receiver takes has a number
below its total, and every call of the sender to send a fragment finds one left to send, every
access of either machine to its mask is safe. -/
theorem run_maskSafe (is : List PollInput) (es : List ModemSender.Input) :
    (Meets ModemReceiver.watch ModemReceiver.MaskSafe ⟨.init, none⟩ is ∧
        Meets ModemSender.watch ModemSender.MaskSafe ⟨.init, none⟩ es) ↔
      Meets ModemReceiver.watch ModemReceiver.NumberInMask ⟨.init, none⟩ is ∧
        Meets ModemSender.watch ModemSender.StopsInMask ⟨.init, none⟩ es := by
  have hreceiver : ModemReceiver.Allocated ⟨.init, none⟩ := fun hne => absurd rfl hne
  have hsender : ModemSender.Allocated ⟨.init, none⟩ := ⟨ModemSender.indexed_init, nofun⟩
  refine and_congr ⟨?_, ?_⟩ ⟨?_, ?_⟩
  · exact meets_of_invariant (fun _ _ _ h _ hw => ModemReceiver.Allocated.watch h hw)
      (fun _ _ h => h.numberInMask_iff.mpr) hreceiver
  · exact meets_of_invariant (fun _ _ _ h _ hw => ModemReceiver.Allocated.watch h hw)
      (fun _ _ h => h.numberInMask_iff.mp) hreceiver
  · exact meets_of_invariant (fun _ _ _ h _ hw => ModemSender.Allocated.watch h hw)
      (fun _ _ h => h.stopsInMask_iff.mpr) hsender
  · exact meets_of_invariant (fun _ _ _ h _ hw => ModemSender.Allocated.watch h hw)
      (fun _ _ h => h.stopsInMask_iff.mp) hsender

/-- An RTS for two packets, a poll for the ACK, and a fragment with number 5. -/
def strayFragment : List PollInput :=
  [.build .rts 0 2 [], ⟨[]⟩, .build .data 0 5 [7]].map fun p : Packet => ⟨some p, 0, 0, 0⟩

/-- A block of one byte, the RTS, the ACK that asks for its one fragment, the fragment, and a poll
that finds nothing left to send. -/
def wholeRound : List ModemSender.Input :=
  .hand [7] :: [⟨[]⟩, ⟨[]⟩, ackPacket 1 [0] 0, ⟨[]⟩, ⟨[]⟩].map fun p : Packet =>
    .poll ⟨some p, 0, 0, 0⟩

/-- The receiver marks entry 5 of a mask of two, and the sender reads entry 1 of a mask of one. -/
theorem strayFragment_wholeRound_not_maskSafe :
    ¬ Meets ModemReceiver.watch ModemReceiver.MaskSafe ⟨.init, none⟩ strayFragment ∧
      ¬ Meets ModemSender.watch ModemSender.MaskSafe ⟨.init, none⟩ wholeRound := by
  decide +kernel

end ModemFhss.Transport
