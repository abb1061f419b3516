import ModemFhss.Library.Machine
import ModemFhss.Transport.Collect

/-!
# Both ends over a medium that loses, delays, reorders and duplicates

One sender and one receiver, polled in any order. Whatever either puts on the air stays on the air:
a `receive` returns nothing or *any* packet the other end has ever sent. Losing a packet is never
picking it, delaying or reordering is picking it late, duplicating is picking it again; altering one
is not possible.

The packets say nothing about which block they belong to. The model does: every packet is kept with
the position in `handed` of the block it was built for, the receiver's answers with that of the RTS
it last accepted (`transfer`), and so is every block the receiver puts out. These labels are for the
statements only; no poll reads them.
-/

namespace ModemFhss.Transport

open Machine

/-- Both machines, and what has happened so far. -/
structure Radio where
  sender : ModemSender
  receiver : ModemReceiver
  /-- The blocks handed to the sender; the last one is the sender's current block. -/
  handed : List Block
  /-- What the sender has put on the air, with the transfer it was built for. -/
  toReceiver : List (Nat × Packet)
  /-- What the receiver has put on the air, with the transfer it was answering. -/
  toSender : List (Nat × Packet)
  /-- The transfer of the RTS the receiver last accepted. -/
  transfer : Nat
  /-- The blocks left in `m_blockFromModem`, each with the transfer it was put out for. -/
  outputs : List (Nat × Block)

inductive RadioEvent where
  /-- The owner hands a block to the idle sender. -/
  | hand (b : Block)
  /-- The sender is polled; `receive` returns the packet picked, or nothing. -/
  | pollSender (pick : Option Nat) (timeStop timeStart : Int) (reserved : UInt8)
  /-- The receiver is polled. -/
  | pollReceiver (pick : Option Nat) (timeStop timeStart : Int) (reserved : UInt8)
  deriving DecidableEq, Repr

namespace Radio

def init : Radio where
  sender := .init
  receiver := .init
  handed := []
  toReceiver := []
  toSender := []
  transfer := 0
  outputs := []

/-- What `receive` returns when the medium picks packet number `pick`, or nothing. -/
def deliver (air : List (Nat × Packet)) (pick : Option Nat) : Option (Nat × Packet) :=
  pick.bind fun k => air[k]?

/-- The transfer the sender is working on. -/
def current (s : Radio) : Nat := s.handed.length - 1

def pollSender (s : Radio) (d : Option (Nat × Packet)) (timeStop timeStart : Int)
    (reserved : UInt8) : Radio :=
  let (sender, out, _) := s.sender.poll ⟨d.map Prod.snd, timeStop, timeStart, reserved⟩
  { s with sender, toReceiver := s.toReceiver ++ out.toList.map (s.current, ·) }

def pollReceiver (s : Radio) (d : Option (Nat × Packet)) (timeStop timeStart : Int)
    (reserved : UInt8) : Option Radio :=
  match s.receiver.poll ⟨d.map Prod.snd, timeStop, timeStart, reserved⟩ with
  | none => none
  | some (receiver, out, event) =>
    let s := { s with receiver, toSender := s.toSender ++ out.toList.map (s.transfer, ·) }
    match event with
    | .requested _ => some { s with transfer := (d.map Prod.fst).getD s.transfer }
    | .processed b => some { s with outputs := s.outputs ++ [(s.transfer, b)] }
    | _ => some s

def step (s : Radio) : RadioEvent → Option Radio
  | .hand b =>
    if s.sender.Ready ∧ b ≠ [] then
      some { s with sender := s.sender.hand b, handed := s.handed ++ [b] }
    else none
  | .pollSender pick timeStop timeStart reserved =>
    some (s.pollSender (deliver s.toSender pick) timeStop timeStart reserved)
  | .pollReceiver pick timeStop timeStart reserved =>
    s.pollReceiver (deliver s.toReceiver pick) timeStop timeStart reserved

/-- Every block put out is the block of the transfer it was put out for. -/
def Intact (s : Radio) : Prop := ∀ o ∈ s.outputs, s.handed[o.1]? = some o.2

instance (s : Radio) : Decidable s.Intact :=
  inferInstanceAs (Decidable (∀ o ∈ s.outputs, s.handed[o.1]? = some o.2))

/-! ## What keeps a transfer intact -/

/-- A DATA packet that reaches the receiver while it receives data belongs to the transfer being
received, and its number is not marked in the mask yet. -/
def FreshPacket (s : Radio) (x : Nat × Packet) : Prop :=
  s.receiver.state = .receiveData → x.2.type = PacketType.data.toByte.toNat →
    x.1 = s.transfer ∧ s.receiver.pReceivedPacketsMask[x.2.number]? ≠ some 0xFF

instance (s : Radio) (x : Nat × Packet) : Decidable (s.FreshPacket x) :=
  inferInstanceAs (Decidable (_ → _ → _ ∧ _))

/-- A block that is handed over is cut into at most 65535 fragments, so that their count fits a
`uint16_t`, and a packet that reaches the receiver is fresh. -/
def FreshData (s : Radio) : RadioEvent → Prop
  | .hand b => fragmentCount b ≤ 65535
  | .pollSender .. => True
  | .pollReceiver pick _ _ _ => ∀ x ∈ deliver s.toReceiver pick, s.FreshPacket x

instance : ∀ (s : Radio) (e : RadioEvent), Decidable (FreshData s e)
  | _, .hand _ => inferInstanceAs (Decidable (_ ≤ _))
  | _, .pollSender .. => isTrue trivial
  | s, .pollReceiver pick _ _ _ =>
    inferInstanceAs (Decidable (∀ x ∈ deliver s.toReceiver pick, s.FreshPacket x))

/-! ## The invariant -/

/-- A packet the sender builds for block `b`. -/
def IsPacketOf (b : Block) (p : Packet) : Prop :=
  (∃ res, p = rtsPacket (fragmentCount b) res) ∨ ∃ k < fragmentCount b, p = dataPacket b k

end Radio

namespace ModemReceiver

variable {r : ModemReceiver} {b : Block} {nums : List Nat} {k : Nat}

/-- The receiver is in the middle of a transfer of block `b`. -/
structure Busy (r : ModemReceiver) (b : Block) (nums : List Nat) : Prop where
  collects : r.Collects b nums
  phase : (r.state = .sendACK ∨ r.state = .receiveData) ∧ nums.length < fragmentCount b ∨
    r.state = .processData ∧ nums.length = fragmentCount b

theorem Busy.state_ne (h : r.Busy b nums) : r.state ≠ .listen := by
  rcases h.phase with ⟨hst | hst, -⟩ | ⟨hst, -⟩ <;> rw [hst] <;> decide

theorem Busy.error (h : r.Collects b nums) (hst : r.state = .receiveData)
    (hlt : nums.length < fragmentCount b) (err : ReceiverError) (t : Int) :
    (r.error err t).Listening ∨ (r.error err t).Busy b nums := by
  rcases error_cases r err t with hl | ⟨htotal, hstored, hmask, hstate⟩
  · exact .inl hl
  · refine .inr ⟨h.congr htotal hstored hmask, .inl ⟨?_, hlt⟩⟩
    rcases hstate with he | ⟨-, he⟩
    · exact .inr (he.trans hst)
    · exact .inl he

theorem Busy.acceptData (h : r.Collects b nums) (hst : r.state = .receiveData)
    (hlt : nums.length < fragmentCount b) (hb : fragmentCount b ≤ 65536)
    (hk : k < fragmentCount b) (hnew : k ∉ nums) (t : Int) :
    (r.acceptData (dataPacket b k) t).Busy b (nums ++ [k]) := by
  refine ⟨h.acceptData hb hk hnew, ?_⟩
  rw [h.acceptData_state hb hk, hst, List.length_append, List.length_singleton]
  split
  · next hfull => exact .inr ⟨rfl, hfull⟩
  · next hfull =>
    refine .inl ⟨?_, by omega⟩
    split
    · exact .inl rfl
    · exact .inr rfl

end ModemReceiver

namespace Radio

/-- What holds in every state of a run whose steps are all fresh. -/
structure Inv (s : Radio) : Prop where
  /-- The blocks handed over fit the 16-bit count. -/
  fits : ∀ b ∈ s.handed, b ≠ [] ∧ fragmentCount b < 65536
  sender : s.sender.Empty ∨ ∃ b, s.handed.getLast? = some b ∧ s.sender.Carries b
  air : ∀ x ∈ s.toReceiver, ∃ b, s.handed[x.1]? = some b ∧ IsPacketOf b x.2
  receiver : s.receiver.Listening ∨
    ∃ b nums, s.handed[s.transfer]? = some b ∧ s.receiver.Busy b nums
  intact : s.Intact

theorem inv_init : init.Inv where
  fits := by simp [init]
  sender := .inl ModemSender.empty_init
  air := by simp [init]
  receiver := .inl ModemReceiver.listening_init
  intact := by simp [Intact, init]

variable {s s' : Radio} {d : Option (Nat × Packet)} {pick : Option Nat} {b : Block} {t : Nat}
  {ts tt : Int} {res : UInt8}

/-- What was handed over stays where it is when another block is handed over. -/
theorem getElem?_append_of_some {l : List Block} (h : l[t]? = some b) (c : Block) :
    (l ++ [c])[t]? = some b := by
  rw [List.getElem?_append_left (List.getElem?_eq_some_iff.mp h).1, h]

theorem Inv.hand (h : s.Inv) (hb : b ≠ []) (hfit : fragmentCount b ≤ 65535)
    (hr : s.sender.Ready) :
    Inv { s with sender := s.sender.hand b, handed := s.handed ++ [b] } where
  fits c hc := by
    rcases List.mem_append.mp hc with hc | hc
    · exact h.fits c hc
    · rw [List.mem_singleton.mp hc]
      exact ⟨hb, by omega⟩
  sender := by
    rcases h.sender with he | ⟨c, -, hc⟩
    · exact .inr ⟨b, by simp, he.hand hb⟩
    · exact absurd hr hc.not_ready
  air x hx := by
    obtain ⟨c, hc, hp⟩ := h.air x hx
    exact ⟨c, getElem?_append_of_some hc b, hp⟩
  receiver := h.receiver.imp id fun ⟨c, nums, hc, hbusy⟩ =>
    ⟨c, nums, getElem?_append_of_some hc b, hbusy⟩
  intact o ho := getElem?_append_of_some (h.intact o ho) b

theorem current_of_getLast? (h : s.handed.getLast? = some b) : s.handed[s.current]? = some b := by
  rw [← h, List.getLast?_eq_getElem?]
  rfl

theorem Inv.pollSender (h : s.Inv) : (s.pollSender d ts tt res).Inv := by
  unfold Radio.pollSender
  generalize hp : s.sender.poll ⟨d.map Prod.snd, ts, tt, res⟩ = r
  obtain ⟨sender, out, ev⟩ := r
  -- what it sends is a packet of the block it holds, whatever it heard
  have hair : ∀ p, out = some p → ∃ b, s.handed[s.current]? = some b ∧ IsPacketOf b p := by
    rintro p rfl
    rcases h.sender with he | ⟨b, hb, hc⟩
    · rw [he.poll] at hp
      cases hp
    · have hfit : fragmentCount b % 65536 = fragmentCount b :=
        Nat.mod_eq_of_lt (h.fits b (List.mem_of_getLast? hb)).2
      have hsent := hc.poll_sends hp
      rw [hfit] at hsent
      exact ⟨b, current_of_getLast? hb, hsent.imp (fun hr => ⟨_, hr⟩) id⟩
  refine ⟨h.fits, ?_, fun x hx => ?_, h.receiver, h.intact⟩
  · rcases h.sender with he | ⟨b, hb, hc⟩
    · rw [he.poll] at hp
      cases hp
      exact .inl he
    · exact (hc.poll hp).imp id fun hc' => ⟨b, hb, hc'⟩
  · rcases List.mem_append.mp hx with hx | hx
    · exact h.air x hx
    · obtain ⟨p, hp', rfl⟩ := List.mem_map.mp hx
      exact hair p (Option.mem_toList.mp hp')

/-! ## What a poll of the receiver can do -/

/-- The moves of the receiver in a fresh run, given what the medium delivers. -/
inductive ReceiverMoves (s : Radio) (d : Option (Nat × Packet)) (res : UInt8) : Radio → Prop
  /-- It keeps waiting for an RTS, or gives up and waits for one again. -/
  | listens {r : ModemReceiver} (hr : r.Listening) : ReceiverMoves s d res { s with receiver := r }
  /-- It goes on with its transfer, sending nothing. -/
  | works {r : ModemReceiver} {b : Block} {nums : List Nat} (hs : s.receiver.state ≠ .listen)
      (hb : s.handed[s.transfer]? = some b) (hr : r.Busy b nums) :
      ReceiverMoves s d res { s with receiver := r }
  /-- It accepts the RTS of transfer `t`. -/
  | requested {r : ModemReceiver} {b : Block} {t : Nat} {p : Packet} (hd : d = some (t, p))
      (hp : p.type = PacketType.rts.toByte.toNat) (hs : s.receiver.Listening)
      (hb : s.handed[t]? = some b) (hr : r.Busy b []) :
      ReceiverMoves s d res { s with receiver := r, transfer := t }
  /-- It says how many packets it still needs. -/
  | asks {r : ModemReceiver} {b : Block} {nums : List Nat} (mask : List UInt8)
      (hs : s.receiver.state ≠ .listen) (hb : s.handed[s.transfer]? = some b)
      (hr : r.Busy b nums) (hlt : nums.length < fragmentCount b) :
      ReceiverMoves s d res { s with
        receiver := r
        toSender := s.toSender ++
          [(s.transfer, ackPacket (fragmentCount b - nums.length) mask res)] }
  /-- It puts the block out and acknowledges it. -/
  | outputs {r : ModemReceiver} {b : Block} (mask : List UInt8) (hs : s.receiver.state ≠ .listen)
      (hb : s.handed[s.transfer]? = some b) (hr : r.Listening) :
      ReceiverMoves s d res { s with
        receiver := r
        toSender := s.toSender ++ [(s.transfer, ackPacket 0 mask res)]
        outputs := s.outputs ++ [(s.transfer, b)] }

theorem mem_of_mem_deliver {air : List (Nat × Packet)} {x : Nat × Packet}
    (h : x ∈ deliver air pick) : x ∈ air := by
  cases pick with
  | none => cases h
  | some k => exact List.mem_of_getElem? h

variable (hair : ∀ x ∈ d, x ∈ s.toReceiver)

include hair in
theorem Inv.pollReceiver_listening (h : s.Inv) (hr : s.receiver.Listening) :
    ∃ s', s.pollReceiver d ts tt res = some s' ∧ ReceiverMoves s d res s' := by
  unfold Radio.pollReceiver
  cases d with
  | none =>
    rw [ModemReceiver.poll_listen_none hr.state (PollInput.received_none rfl)]
    exact ⟨_, rfl, by simpa using ReceiverMoves.listens hr⟩
  | some x =>
    obtain ⟨t, p⟩ := x
    obtain ⟨b, hb, hpb⟩ := h.air (t, p) (hair _ rfl)
    obtain ⟨hne, hfit⟩ := h.fits b (List.mem_of_getElem? hb)
    -- a DATA packet is refused, but an RTS of any transfer is accepted
    rcases hpb with ⟨res', rfl⟩ | ⟨k, hk, rfl⟩
    · rw [ModemReceiver.poll_listen_rts hr.state rfl hfit]
      refine ⟨_, rfl, ?_⟩
      have hbusy : (s.receiver.acceptRTS (rtsPacket (fragmentCount b) res')).Busy b [] :=
        ⟨hr.acceptRTS hfit, .inl ⟨.inl rfl, fragmentCount_pos hne⟩⟩
      simpa using ReceiverMoves.requested rfl type_rtsPacket hr hb hbusy
    · rw [ModemReceiver.poll_listen_data hr.state rfl hk]
      exact ⟨_, rfl, by simpa using ReceiverMoves.listens hr⟩

include hair in
theorem Inv.pollReceiver_busy (h : s.Inv) (hfresh : ∀ x ∈ d, s.FreshPacket x) {nums : List Nat}
    (hb : s.handed[s.transfer]? = some b) (hr : s.receiver.Busy b nums) :
    ∃ s', s.pollReceiver d ts tt res = some s' ∧ ReceiverMoves s d res s' := by
  unfold Radio.pollReceiver
  obtain ⟨hc, hphase⟩ := hr
  have hfit : fragmentCount b < 65536 := (h.fits b (List.mem_of_getElem? hb)).2
  -- a receiver that works on or gives up, and sends nothing
  have hgoes : ∀ r : ModemReceiver, r.Listening ∨ (∃ nums', r.Busy b nums') →
      ReceiverMoves s d res { s with receiver := r } := by
    rintro r (hl | ⟨nums', hbusy⟩)
    · exact .listens hl
    · exact .works (ModemReceiver.Busy.state_ne ⟨hc, hphase⟩) hb hbusy
  rcases hphase with ⟨hst | hst, hlt⟩ | ⟨hst, hlen⟩
  · rw [ModemReceiver.poll_sendACK hst, hc.sendACK hfit (Nat.le_of_lt hlt)]
    refine ⟨_, rfl, ?_⟩
    have hbusy : ({ s.receiver with state := .receiveData, nTimeMs := tt } : ModemReceiver).Busy
        b nums := ⟨hc.congr rfl rfl rfl, .inl ⟨.inr rfl, hlt⟩⟩
    have hm : ReceiverMoves s d res _ :=
      .asks s.receiver.pReceivedPacketsMask (by rw [hst]; decide) hb hbusy hlt
    simpa using hm
  · cases d with
    | none =>
      rw [ModemReceiver.poll_receive_none hst (PollInput.received_none rfl)]
      by_cases htime : ts - s.receiver.nTimeMs > ModemReceiver.maxWaitTime
      · rw [if_pos htime]
        have herr := ModemReceiver.Busy.error hc hst hlt .timeoutWaitData tt
        exact ⟨_, rfl, by simpa using hgoes _ (herr.imp id fun he => ⟨_, he⟩)⟩
      · rw [if_neg htime]
        exact ⟨_, rfl, by simpa using hgoes _ (.inr ⟨_, hc, .inl ⟨.inr hst, hlt⟩⟩)⟩
    | some x =>
      obtain ⟨t, p⟩ := x
      obtain ⟨c, hcb, hpc⟩ := h.air (t, p) (hair _ rfl)
      rcases hpc with ⟨res', rfl⟩ | ⟨k, hk, rfl⟩
      · rw [ModemReceiver.poll_receive_rts hst rfl]
        have herr := ModemReceiver.Busy.error hc hst hlt .badType tt
        exact ⟨_, rfl, by simpa using hgoes _ (herr.imp id fun he => ⟨_, he⟩)⟩
      · -- the receiver does not check whose fragment it is, nor whether it has it: `hfresh` does
        obtain ⟨rfl, hmask⟩ := hfresh (t, dataPacket c k) rfl hst type_dataPacket
        cases hcb.symm.trans hb
        have hk' : k < 65536 := Nat.lt_trans hk hfit
        have hnew : k ∉ nums := by
          rw [number_dataPacket hk'] at hmask
          exact fun hmem => hmask ((hc.mask k hk).mpr hmem)
        rw [ModemReceiver.poll_receive_data hst rfl hk' (by rw [hc.mask_length]; exact hk)]
        have hbusy := ModemReceiver.Busy.acceptData hc hst hlt (Nat.le_of_lt hfit) hk hnew tt
        exact ⟨_, rfl, by simpa using hgoes _ (.inr ⟨_, hbusy⟩)⟩
  · rw [hc.poll_process hst hfit hlen]
    refine ⟨_, rfl, ?_⟩
    have hm : ReceiverMoves s d res _ :=
      .outputs s.receiver.pReceivedPacketsMask (by rw [hst]; decide) hb
        (ModemReceiver.listening_reset s.receiver.processData)
    simpa using hm

include hair in
/-- A poll of the receiver is defined and makes one of the moves. -/
theorem Inv.pollReceiver_moves (h : s.Inv) (hfresh : ∀ x ∈ d, s.FreshPacket x) :
    ∃ s', s.pollReceiver d ts tt res = some s' ∧ ReceiverMoves s d res s' := by
  rcases h.receiver with hl | ⟨b, nums, hb, hr⟩
  · exact h.pollReceiver_listening hair hl
  · exact h.pollReceiver_busy hair hfresh hb hr

theorem Inv.moves (h : s.Inv) (hm : ReceiverMoves s d res s') : s'.Inv := by
  cases hm with
  | listens hr => exact ⟨h.fits, h.sender, h.air, .inl hr, h.intact⟩
  | works hs hb hr => exact ⟨h.fits, h.sender, h.air, .inr ⟨_, _, hb, hr⟩, h.intact⟩
  | requested hd hp hs hb hr => exact ⟨h.fits, h.sender, h.air, .inr ⟨_, _, hb, hr⟩, h.intact⟩
  | asks mask hs hb hr hlt => exact ⟨h.fits, h.sender, h.air, .inr ⟨_, _, hb, hr⟩, h.intact⟩
  | outputs mask hs hb hr =>
    refine ⟨h.fits, h.sender, h.air, .inl hr, fun o ho => ?_⟩
    rcases List.mem_append.mp ho with ho | ho
    · exact h.intact o ho
    · rw [List.mem_singleton.mp ho]
      exact hb

theorem Inv.step {e : RadioEvent} (h : s.Inv) (hg : FreshData s e)
    (hs : Radio.step s e = some s') : s'.Inv := by
  cases e with
  | hand b =>
    simp only [Radio.step] at hs
    split at hs
    · next hr => cases hs; exact h.hand hr.2 hg hr.1
    · cases hs
  | pollSender pick ts tt res => cases hs; exact h.pollSender
  | pollReceiver pick ts tt res =>
    obtain ⟨t, ht, hm⟩ : ∃ t, s.pollReceiver (deliver s.toReceiver pick) ts tt res = some t ∧
        ReceiverMoves s (deliver s.toReceiver pick) res t :=
      h.pollReceiver_moves (fun x hx => mem_of_mem_deliver hx) hg
    cases ht.symm.trans hs
    exact h.moves hm

theorem Inv.run {es : List RadioEvent} (hm : Meets Radio.step FreshData init es)
    (hr : Machine.run Radio.step init es = some s) : s.Inv :=
  run_invariant_of_meets (fun _ _ _ h hg hs => h.step hg hs) inv_init hm hr

/-! ## Integrity -/

/-- **Blocks arrive intact as long as no fragment is foreign or repeated.** Then the receiver is
also always defined: no fragment's number lies past the mask. -/
theorem run_intact {es : List RadioEvent} (hm : Meets Radio.step FreshData init es)
    (hr : Machine.run Radio.step init es = some s) :
    s.Intact ∧ ∀ pick ts tt res, FreshData s (.pollReceiver pick ts tt res) →
      (Radio.step s (.pollReceiver pick ts tt res)).isSome := by
  have hinv : s.Inv := Inv.run hm hr
  refine ⟨hinv.intact, fun pick ts tt res hg => ?_⟩
  obtain ⟨s', hs', -⟩ : ∃ t, s.pollReceiver (deliver s.toReceiver pick) ts tt res = some t ∧
      ReceiverMoves s (deliver s.toReceiver pick) res t :=
    hinv.pollReceiver_moves (fun x hx => mem_of_mem_deliver hx) hg
  exact Option.isSome_iff_exists.mpr ⟨s', hs'⟩

/-- A block of two fragments, the second of which is received first. The receiver asks again, and
then gets the other. -/
def exchange : List RadioEvent :=
  [.hand (List.replicate 1014 1 ++ [2]), .pollSender none 0 0 0, .pollSender none 0 0 0,
    .pollReceiver (some 0) 0 0 0, .pollReceiver none 0 0 0, .pollSender (some 0) 0 0 0,
    .pollSender none 0 0 0, .pollSender none 0 0 0, .pollReceiver (some 2) 0 0 0,
    .pollReceiver none 0 0 0, .pollReceiver (some 1) 0 0 0, .pollReceiver none 0 0 0]

theorem run_intact_exchange : ∃ s, Machine.run Radio.step init exchange = some s ∧
    s.outputs = [(0, List.replicate 1014 1 ++ [2])] ∧ s.Intact := by
  have hm : Meets Radio.step FreshData init exchange := by decide +kernel
  obtain ⟨s, hs, hout⟩ : ∃ s, Machine.run Radio.step init exchange = some s ∧
      s.outputs = [(0, List.replicate 1014 1 ++ [2])] := by decide +kernel
  exact ⟨s, hs, hout, (run_intact hm hs).1⟩

/-- Two fragments; the medium delivers the first of them twice. -/
def duplication : List RadioEvent :=
  [.hand (List.replicate 1015 1), .pollSender none 0 0 0, .pollSender none 0 0 0,
    .pollReceiver (some 0) 0 0 0, .pollReceiver none 0 0 0, .pollSender (some 0) 0 0 0,
    .pollSender none 0 0 0, .pollReceiver (some 1) 0 0 0, .pollReceiver (some 1) 0 0 0,
    .pollReceiver none 0 0 0]

/-- Counting the stored packets is not the same as having every fragment: the first one, received
twice, makes two, and the block put out is longer than the one handed over. -/
theorem duplication_not_intact :
    ∃ s, Machine.run Radio.step init duplication = some s ∧ ¬ s.Intact := by
  decide +kernel

end Radio

end ModemFhss.Transport
