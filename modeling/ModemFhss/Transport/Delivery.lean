import ModemFhss.Transport.Medium

/-!
# What the sender may conclude from an acknowledgement

An ACK with `needPacketsCount = 0` makes the sender drop its block as delivered. The receiver sends
such an ACK right after it put a block out, but nothing in the packet says which block that was, so
the conclusion needs more than fresh fragments (`FreshData`): the ACK has to be an answer to the
transfer the sender is still working on, and that transfer must not have been requested a second
time after it was complete. `Untangled` is that condition on a step; `Delivered` is what the sender
may then conclude at every step (`run_delivered`).
-/

namespace ModemFhss.Transport.Radio

open Machine

variable {s s' : Radio} {pick : Option Nat} {b : Block} {ts tt : Int} {res : UInt8}

/-- The sender drops its block only after exactly that block was put out, once. -/
def Delivered (s : Radio) : RadioEvent → Prop
  | .hand _ => True
  | .pollSender pick ts tt res =>
    (s.sender.poll ⟨(deliver s.toSender pick).map Prod.snd, ts, tt, res⟩).2.2 = .acked 0 →
      s.outputs.filter (fun o => o.1 = s.current) = [(s.current, s.sender.blockToModem)]
  | .pollReceiver .. => True

instance : ∀ (s : Radio) (e : RadioEvent), Decidable (Delivered s e)
  | _, .hand _ => isTrue trivial
  | _, .pollSender .. => inferInstanceAs (Decidable (_ → _))
  | _, .pollReceiver .. => isTrue trivial

/-- The transfers of the blocks put out so far. -/
def putOut (s : Radio) : List Nat := s.outputs.map Prod.fst

/-- An ACK without needed packets that the waiting sender accepts answers its current transfer. -/
def FreshAck (s : Radio) (x : Nat × Packet) : Prop :=
  s.sender.state = .waitACK → s.sender.checkAck x.2 (x.2.size % 65536) = none →
    x.2.needPacketsCount = 0 → x.1 = s.current

instance (s : Radio) (x : Nat × Packet) : Decidable (s.FreshAck x) :=
  inferInstanceAs (Decidable (_ → _ → _ → _))

/-- The RTS of the sender's current transfer does not reach a listening receiver that has already
put its block out. -/
def FreshRequest (s : Radio) (x : Nat × Packet) : Prop :=
  s.receiver.state = .listen → x.2.type = PacketType.rts.toByte.toNat →
    x.1 = s.current → s.current ∉ s.putOut

instance (s : Radio) (x : Nat × Packet) : Decidable (s.FreshRequest x) :=
  inferInstanceAs (Decidable (_ → _ → _ → _))

/-- No packet of another transfer, and no second copy, changes what an end believes. -/
def Untangled (s : Radio) (e : RadioEvent) : Prop :=
  FreshData s e ∧
    match e with
    | .hand _ => True
    | .pollSender pick _ _ _ => ∀ x ∈ deliver s.toSender pick, s.FreshAck x
    | .pollReceiver pick _ _ _ => ∀ x ∈ deliver s.toReceiver pick, s.FreshRequest x

instance : ∀ (s : Radio) (e : RadioEvent), Decidable (Untangled s e)
  | s, .hand b => inferInstanceAs (Decidable (FreshData s (.hand b) ∧ True))
  | s, .pollSender pick ts tt res => inferInstanceAs (Decidable
      (FreshData s (.pollSender pick ts tt res) ∧ ∀ x ∈ deliver s.toSender pick, s.FreshAck x))
  | s, .pollReceiver pick ts tt res => inferInstanceAs (Decidable
      (FreshData s (.pollReceiver pick ts tt res) ∧
        ∀ x ∈ deliver s.toReceiver pick, s.FreshRequest x))

/-! ## The invariant -/

/-- On top of `Inv`: an ACK that asks for nothing answers a transfer that was put out, and the
current transfer is put out at most once. -/
structure Accounts (s : Radio) : Prop extends Inv s where
  acks : ∀ x ∈ s.toSender, x.2.needPacketsCount = 0 → x.1 ∈ s.putOut
  once : s.putOut.count s.current ≤ 1
  /-- A receiver at work on the current transfer has not put it out. -/
  pending : s.receiver.state ≠ .listen → s.transfer = s.current → s.current ∉ s.putOut

theorem accounts_init : init.Accounts where
  toInv := inv_init
  acks := by simp [init]
  once := by simp [init, putOut]
  pending := by simp [init, ModemReceiver.init]

/-- Only transfers of blocks handed over are put out. -/
theorem Inv.lt_of_mem_putOut {t : Nat} (h : s.Inv) (ht : t ∈ s.putOut) : t < s.handed.length := by
  obtain ⟨o, ho, rfl⟩ := List.mem_map.mp ht
  exact (List.getElem?_eq_some_iff.mp (h.intact o ho)).1

theorem Accounts.hand (h : s.Accounts) (hb : b ≠ []) (hfit : fragmentCount b ≤ 65535)
    (hr : s.sender.Ready) :
    Accounts { s with sender := s.sender.hand b, handed := s.handed ++ [b] } := by
  -- the new current transfer is one the receiver has never heard of
  have hcur : Radio.current { s with sender := s.sender.hand b, handed := s.handed ++ [b] } =
      s.handed.length := by
    simp [current]
  have hnew : s.handed.length ∉ s.putOut := fun hmem =>
    Nat.lt_irrefl _ (h.lt_of_mem_putOut hmem)
  refine ⟨h.toInv.hand hb hfit hr, h.acks, ?_, ?_⟩
  · rw [hcur]
    show s.putOut.count _ ≤ 1
    rw [List.count_eq_zero_of_not_mem hnew]
    exact Nat.zero_le 1
  · intro hst htransfer
    rw [hcur] at htransfer ⊢
    exact hnew

theorem Accounts.pollSender {d : Option (Nat × Packet)} (h : s.Accounts) :
    (s.pollSender d ts tt res).Accounts :=
  ⟨h.toInv.pollSender, h.acks, h.once, h.pending⟩

theorem needPacketsCount_ackPacket {n : Nat} {mask : List UInt8} (hn : n < 65536) :
    (ackPacket n mask res).needPacketsCount = n := by
  rw [ackPacket, Packet.needPacketsCount_build, Nat.mod_eq_of_lt hn]

theorem Accounts.moves {d : Option (Nat × Packet)} (h : s.Accounts)
    (hfresh : ∀ x ∈ d, s.FreshRequest x) (hm : ReceiverMoves s d res s') : s'.Accounts := by
  have hinv : s'.Inv := h.toInv.moves hm
  cases hm with
  | listens hr => exact ⟨hinv, h.acks, h.once, fun hst => absurd hr.state hst⟩
  | works hs hb hr => exact ⟨hinv, h.acks, h.once, fun _ => h.pending hs⟩
  | @requested r b t p hd hp hs hb hr =>
    refine ⟨hinv, h.acks, h.once, fun _ htransfer => ?_⟩
    exact hfresh (t, p) hd hs.state hp htransfer
  | @asks r b nums mask hs hb hr hlt =>
    refine ⟨hinv, fun x hx hneed => ?_, h.once, fun _ => h.pending hs⟩
    rcases List.mem_append.mp hx with hx | hx
    · exact h.acks x hx hneed
    · -- this ACK asks for something
      have hfit : fragmentCount b < 65536 := (h.fits b (List.mem_of_getElem? hb)).2
      rw [List.mem_singleton.mp hx, needPacketsCount_ackPacket (by omega)] at hneed
      omega
  | @outputs r b mask hs hb hr =>
    have hout : Radio.putOut { s with
        receiver := r
        toSender := s.toSender ++ [(s.transfer, ackPacket 0 mask res)]
        outputs := s.outputs ++ [(s.transfer, b)] } = s.putOut ++ [s.transfer] := by
      simp [putOut]
    refine ⟨hinv, fun x hx hneed => ?_, ?_, fun hst => absurd hr.state hst⟩
    · rw [hout, List.mem_append]
      rcases List.mem_append.mp hx with hx | hx
      · exact .inl (h.acks x hx hneed)
      · rw [List.mem_singleton.mp hx]
        exact .inr (List.mem_singleton_self _)
    · -- a transfer that is put out now was not before
      show List.count s.current _ ≤ 1
      rw [hout, List.count_append, List.count_singleton]
      split
      · next hcur =>
        have hnone := h.pending hs (by simpa using hcur)
        rw [List.count_eq_zero_of_not_mem hnone]
      · exact h.once

theorem Accounts.step {e : RadioEvent} (h : s.Accounts) (hg : Untangled s e)
    (hs : Radio.step s e = some s') : s'.Accounts := by
  obtain ⟨hdata, hg⟩ := hg
  cases e with
  | hand b =>
    simp only [Radio.step] at hs
    split at hs
    · next hr => cases hs; exact h.hand hr.2 hdata hr.1
    · cases hs
  | pollSender pick ts tt res => cases hs; exact h.pollSender
  | pollReceiver pick ts tt res =>
    obtain ⟨t, ht, hm⟩ : ∃ t, s.pollReceiver (deliver s.toReceiver pick) ts tt res = some t ∧
        ReceiverMoves s (deliver s.toReceiver pick) res t :=
      h.toInv.pollReceiver_moves (fun x hx => mem_of_mem_deliver hx) hdata
    cases ht.symm.trans hs
    exact h.moves hg hm

/-! ## No false delivery report -/

/-- The block of a transfer that was put out, once, as it was handed over. -/
theorem Accounts.filter_outputs (h : s.Accounts) (hb : s.handed[s.current]? = some b)
    (hmem : s.current ∈ s.putOut) :
    s.outputs.filter (fun o => o.1 = s.current) = [(s.current, b)] := by
  have hlen : (s.outputs.filter fun o => o.1 = s.current).length = 1 := by
    have hcount : s.putOut.count s.current = 1 :=
      Nat.le_antisymm h.once (List.count_pos_iff.mpr hmem)
    rw [← hcount, putOut, List.count_eq_length_filter, List.filter_map, List.length_map]
    congr 1
  obtain ⟨o, ho⟩ := List.length_eq_one_iff.mp hlen
  have hfilter : o ∈ s.outputs.filter fun o => o.1 = s.current := by simp [ho]
  obtain ⟨hout, hcur⟩ := List.mem_filter.mp hfilter
  have hcur : o.1 = s.current := by simpa using hcur
  have hblock : o.2 = b := by
    have hintact := h.intact o hout
    rw [hcur, hb] at hintact
    exact (Option.some.inj hintact).symm
  rw [ho, ← hcur, ← hblock]

theorem Accounts.delivered {e : RadioEvent} (h : s.Accounts) (hg : Untangled s e) :
    Delivered s e := by
  cases e with
  | hand b => trivial
  | pollReceiver pick ts tt res => trivial
  | pollSender pick ts tt res =>
    intro hacked
    obtain ⟨hst, p, hp, hcheck, hneed⟩ := ModemSender.poll_acked hacked
    obtain ⟨x, hx, rfl⟩ := Option.map_eq_some_iff.mp hp
    rcases h.sender with he | ⟨b, hb, hc⟩
    · exact absurd hst (by rw [he.state]; decide)
    · -- the ACK answers the current transfer, and so says that it was put out
      have hcur : x.1 = s.current := hg.2 x hx hst hcheck hneed
      rw [hc.block]
      apply h.filter_outputs (current_of_getLast? hb)
      rw [← hcur]
      exact h.acks x (mem_of_mem_deliver hx) hneed

/-- **A dropped block was delivered**, in every run whose steps are untangled. -/
theorem run_delivered {es : List RadioEvent} (hm : Meets Radio.step Untangled init es) :
    Meets Radio.step Delivered init es :=
  meets_of_invariant (fun _ _ _ h hg hs => h.step hg hs) (fun _ _ h hg => h.delivered hg)
    accounts_init hm

/-- A block of one fragment is handed over, requested, sent, put out and acknowledged, and the
sender gets the last ACK. -/
def dropped : List RadioEvent :=
  [.hand [1, 2, 3], .pollSender none 0 0 0, .pollSender none 0 0 0, .pollReceiver (some 0) 0 0 0,
    .pollReceiver none 0 0 0, .pollSender (some 0) 0 0 0, .pollSender none 0 0 0,
    .pollReceiver (some 1) 0 0 0, .pollReceiver none 0 0 0, .pollSender none 0 0 0,
    .pollSender (some 1) 0 0 0]

theorem run_delivered_dropped :
    (Machine.run Radio.step init dropped).any (fun s => s.sender.Ready) ∧
      Meets Radio.step Delivered init dropped :=
  ⟨by decide +kernel, run_delivered (by decide +kernel)⟩

/-- A second block of one fragment is handed over, and the ACK of the first comes again. -/
def staleAck : List RadioEvent :=
  dropped ++ [.hand [4, 5, 6], .pollSender none 0 0 0, .pollSender none 0 0 0,
    .pollSender (some 1) 0 0 0]

/-- The sender takes the old ACK for an answer and drops a block nobody has received. -/
theorem staleAck_not_delivered :
    (Machine.run Radio.step init staleAck).isSome ∧ ¬ Meets Radio.step Delivered init staleAck := by
  constructor <;> decide +kernel

end ModemFhss.Transport.Radio
