import ModemFhss.Library.Machine
import ModemFhss.Transport.Offer

/-!
# Both ends over a good channel

One sender and one receiver, polled in any order, with a queue each way that neither loses,
duplicates nor reorders. A `receive` returns the first packet of the queue, or nothing yet.

Over such a channel a transfer goes through the stages of `Stage`, whatever the order of the polls:
`Stage` says what is still in flight and which block is not put out yet, `Stage.Next` how a transfer
moves on, and `At` what the machines hold meanwhile. Every step of the code keeps the stage or takes
it to the next (`At.step`).
-/

namespace ModemFhss.Transport

open Machine

def SenderEvent.refusals : SenderEvent → Nat
  | .rejected _ => 1
  | _ => 0

def ReceiverEvent.refusals : ReceiverEvent → Nat
  | .rejected _ => 1
  | _ => 0

def ReceiverEvent.blocks : ReceiverEvent → List Block
  | .processed b => [b]
  | _ => []

/-- Both machines, the queues between them, and what has happened so far. -/
structure Link where
  sender : ModemSender
  receiver : ModemReceiver
  toReceiver : List Packet
  toSender : List Packet
  /-- The blocks handed to the sender. -/
  handed : List Block
  /-- The blocks the receiver left in `m_blockFromModem`. -/
  outputs : List Block
  /-- Every packet the sender has put on the air. -/
  sent : List Packet
  /-- How many packets failed a check at either end. -/
  refused : Nat

inductive LinkEvent where
  /-- The owner hands a block to the idle sender. -/
  | hand (b : Block)
  /-- The sender is polled; what is in flight has arrived if `arrived`. -/
  | pollSender (arrived : Bool) (timeStop timeStart : Int) (reserved : UInt8)
  /-- The receiver is polled. -/
  | pollReceiver (arrived : Bool) (timeStop timeStart : Int) (reserved : UInt8)
  deriving DecidableEq, Repr

namespace Link

def init : Link where
  sender := .init
  receiver := .init
  toReceiver := []
  toSender := []
  handed := []
  outputs := []
  sent := []
  refused := 0

/-- A `receive` on a queue, if the state calls it at all: what it returns, and what it leaves. -/
def receive (listens arrived : Bool) (queue : List Packet) : Option Packet × List Packet :=
  if listens && arrived then (queue.head?, queue.tail) else (none, queue)

/-- What the sender's poll reads. -/
def senderInput (s : Link) (arrived : Bool) (timeStop timeStart : Int) (reserved : UInt8) :
    PollInput :=
  ⟨(receive (decide s.sender.Listens) arrived s.toSender).1, timeStop, timeStart, reserved⟩

/-- What the receiver's poll reads. -/
def receiverInput (s : Link) (arrived : Bool) (timeStop timeStart : Int) (reserved : UInt8) :
    PollInput :=
  ⟨(receive (decide s.receiver.Listens) arrived s.toReceiver).1, timeStop, timeStart, reserved⟩

def pollSender (s : Link) (arrived : Bool) (timeStop timeStart : Int) (reserved : UInt8) : Link :=
  let (sender, out, event) := s.sender.poll (s.senderInput arrived timeStop timeStart reserved)
  { s with
    sender
    toSender := (receive (decide s.sender.Listens) arrived s.toSender).2
    toReceiver := s.toReceiver ++ out.toList
    sent := s.sent ++ out.toList
    refused := s.refused + event.refusals }

def pollReceiver (s : Link) (arrived : Bool) (timeStop timeStart : Int) (reserved : UInt8) :
    Option Link :=
  match s.receiver.poll (s.receiverInput arrived timeStop timeStart reserved) with
  | none => none
  | some (receiver, out, event) =>
    some { s with
      receiver
      toReceiver := (receive (decide s.receiver.Listens) arrived s.toReceiver).2
      toSender := s.toSender ++ out.toList
      outputs := s.outputs ++ event.blocks
      refused := s.refused + event.refusals }

def step (s : Link) : LinkEvent → Option Link
  | .hand b =>
    if s.sender.Ready ∧ b ≠ [] then
      some { s with sender := s.sender.hand b, handed := s.handed ++ [b] }
    else none
  | .pollSender arrived timeStop timeStart reserved =>
    some (s.pollSender arrived timeStop timeStart reserved)
  | .pollReceiver arrived timeStop timeStart reserved =>
    s.pollReceiver arrived timeStop timeStart reserved

/-- No timeout fires, and no block is too long for the mask of its ACK. -/
def Timely (s : Link) : LinkEvent → Prop
  | .hand b => fragmentCount b ≤ maxFragments
  | .pollSender arrived timeStop timeStart reserved =>
    (s.sender.poll (s.senderInput arrived timeStop timeStart reserved)).2.2 ≠ .timeout
  | .pollReceiver arrived timeStop timeStart reserved =>
    ∀ x ∈ s.receiver.poll (s.receiverInput arrived timeStop timeStart reserved),
      x.2.2 ≠ .timeout

instance : ∀ (s : Link) (e : LinkEvent), Decidable (Timely s e)
  | _, .hand _ => inferInstanceAs (Decidable (_ ≤ _))
  | _, .pollSender .. => inferInstanceAs (Decidable (_ ≠ _))
  | s, .pollReceiver arrived timeStop timeStart reserved => inferInstanceAs (Decidable
      (∀ x ∈ s.receiver.poll (s.receiverInput arrived timeStop timeStart reserved),
        x.2.2 ≠ .timeout))

end Link

/-! ## The stages of a transfer -/

/-- Where a transfer stands. -/
inductive Stage where
  | idle
  /-- The sender has the block. -/
  | handed (b : Block)
  /-- It is about to send the RTS. -/
  | requests (b : Block)
  /-- The RTS is in flight. -/
  | requested (b : Block) (reserved : UInt8)
  /-- The receiver is about to send the ACK. -/
  | grants (b : Block)
  /-- The ACK is in flight. -/
  | granted (b : Block) (reserved : UInt8)
  /-- The first `sent` fragments are sent, the first `stored` of them stored. -/
  | sends (b : Block) (sent stored : Nat)
  /-- The block is put out, and the last ACK in flight. -/
  | finished (b : Block) (mask : List UInt8) (reserved : UInt8)

namespace Stage

/-- The fragments `stored`, …, `sent - 1` of `b`. -/
def flight (b : Block) (sent stored : Nat) : List Packet :=
  (List.range' stored (sent - stored)).map (dataPacket b)

def toReceiver : Stage → List Packet
  | requested b reserved => [rtsPacket (fragmentCount b) reserved]
  | sends b sent stored => flight b sent stored
  | _ => []

def toSender : Stage → List Packet
  | granted b reserved =>
    [ackPacket (fragmentCount b) (List.replicate (fragmentCount b) 0) reserved]
  | finished _ mask reserved => [ackPacket 0 mask reserved]
  | _ => []

/-- The block that was handed over and is not put out yet. -/
def pending : Stage → List Block
  | idle | finished .. => []
  | handed b | requests b | requested b _ | grants b | granted b _ | sends b .. => [b]

/-- How a transfer moves on. -/
inductive Next : Stage → Stage → Prop
  | hand {b} : Sendable b → Next idle (handed b)
  | start {b} : Next (handed b) (requests b)
  | request {b res} : Next (requests b) (requested b res)
  | hear {b res} : Next (requested b res) (grants b)
  | grant {b res} : Next (grants b) (granted b res)
  | begin {b res} : Next (granted b res) (sends b 0 0)
  | send {b sent stored} : sent < fragmentCount b →
      Next (sends b sent stored) (sends b (sent + 1) stored)
  | store {b sent stored} : stored < sent → Next (sends b sent stored) (sends b sent (stored + 1))
  | finish {b mask res} : Next (sends b (fragmentCount b) (fragmentCount b)) (finished b mask res)
  | forget {b mask res} : Next (finished b mask res) idle

/-- The numbers of a stage are in order. -/
def Valid : Stage → Prop
  | idle => True
  | handed b | requests b | requested b _ | grants b | granted b _ => Sendable b
  | sends b sent stored => Sendable b ∧ stored ≤ sent ∧ sent ≤ fragmentCount b
  | finished b mask _ => Sendable b ∧ mask.length = fragmentCount b

/-- What the sender holds. -/
def Sender : Stage → ModemSender → Prop
  | idle, s => s.Empty
  | handed b, s => s.Holds b .idle
  | requests b, s => s.Holds b .sendRTS
  | requested b _, s | grants b, s | granted b _, s => s.Holds b .waitACK
  | sends b sent _, s => s.Offers b sent
  | finished b _ _, s => s.Offers b (fragmentCount b)

/-- What the receiver holds. -/
def Receiver : Stage → ModemReceiver → Prop
  | idle, r | handed _, r | requests _, r | requested _ _, r | finished _ _ _, r => r.Listening
  | grants b, r => r.Collects b [] ∧ r.state = .sendACK ∧
    r.pReceivedPacketsMask = List.replicate (fragmentCount b) 0
  | granted b _, r => r.Collects b [] ∧ r.state = .receiveData
  | sends b _ stored, r => r.Collects b (List.range stored) ∧
    r.state = if stored = fragmentCount b then .processData else .receiveData

variable {b : Block} {sent stored n : Nat}

@[simp] theorem flight_self : flight b n n = [] := by
  simp [flight]

theorem flight_cons (h : stored < sent) :
    flight b sent stored = dataPacket b stored :: flight b sent (stored + 1) := by
  have hlen : sent - stored = (sent - (stored + 1)) + 1 := by omega
  unfold flight
  rw [hlen, List.range'_succ, List.map_cons]

theorem flight_concat (h : stored ≤ sent) :
    flight b (sent + 1) stored = flight b sent stored ++ [dataPacket b sent] := by
  have hlen : sent + 1 - stored = (sent - stored) + 1 := by omega
  have hlast : stored + (sent - stored) = sent := by omega
  unfold flight
  rw [hlen, List.range'_1_concat, List.map_append, hlast]
  rfl

end Stage

namespace Link

/-- A DATA packet is 11 to 1024 bytes long, and says so. -/
def Framed (p : Packet) : Prop :=
  p.type = PacketType.data.toByte.toNat → 11 ≤ p.size ∧ p.size ≤ 1024 ∧ p.length = p.size

/-- The link is at stage `st` of a transfer, and nothing has gone wrong so far. -/
structure At (s : Link) (st : Stage) : Prop where
  valid : st.Valid
  sender : st.Sender s.sender
  receiver : st.Receiver s.receiver
  toReceiver : s.toReceiver = st.toReceiver
  toSender : s.toSender = st.toSender
  handed : s.handed = s.outputs ++ st.pending
  framed : ∀ p ∈ s.sent, Framed p
  refused : s.refused = 0

theorem at_init : init.At .idle where
  valid := trivial
  sender := ModemSender.empty_init
  receiver := ModemReceiver.listening_init
  toReceiver := rfl
  toSender := rfl
  handed := rfl
  framed := by simp [init]
  refused := rfl

variable {s s' : Link} {st st' : Stage} {arrived : Bool} {ts tt : Int} {res : UInt8}
  {queue : List Packet} {p : Packet}

@[simp] theorem receive_nil {listens : Bool} : receive listens arrived [] = (none, []) := by
  unfold receive
  split <;> rfl

@[simp] theorem receive_deaf : receive false arrived queue = (none, queue) := rfl

@[simp] theorem receive_late {listens : Bool} : receive listens false queue = (none, queue) := by
  simp [receive]

@[simp] theorem receive_cons : receive true true (p :: queue) = (some p, queue) := rfl

theorem framed_rtsPacket {n : Nat} : Framed (rtsPacket n res) := by
  intro htype
  rw [type_rtsPacket] at htype
  exact absurd htype (by decide)

theorem framed_dataPacket {b : Block} {k : Nat} (hk : k < fragmentCount b) :
    Framed (dataPacket b k) := by
  intro _
  have hle := length_fragmentData_le (b := b) (k := k)
  have hpos := length_fragmentData_pos hk
  rw [size_dataPacket, length_dataPacket]
  omega

/-! ## Polls of the sender -/

/-- What has to be checked of a poll of the sender. -/
theorem At.sender_polled {sender : ModemSender} {out : Option Packet} {ev : SenderEvent}
    (h : s.At st) (hp : s.sender.poll (s.senderInput arrived ts tt res) = (sender, out, ev))
    (hv : st'.Valid) (hs : st'.Sender sender) (hr : st'.Receiver s.receiver)
    (hto : st.toReceiver ++ out.toList = st'.toReceiver)
    (hfrom : (receive (decide s.sender.Listens) arrived st.toSender).2 = st'.toSender)
    (hpend : st'.pending = st.pending) (hframed : ∀ p ∈ out, Framed p)
    (hev : ev.refusals = 0) : (s.pollSender arrived ts tt res).At st' := by
  unfold Link.pollSender
  rw [hp]
  refine ⟨hv, hs, hr, ?_, ?_, ?_, ?_, ?_⟩
  · rw [← hto, ← h.toReceiver]
  · rw [← hfrom, ← h.toSender]
  · rw [hpend]
    exact h.handed
  · intro p hmem
    rcases List.mem_append.mp hmem with hmem | hmem
    · exact h.framed p hmem
    · exact hframed p (Option.mem_toList.mp hmem)
  · show s.refused + ev.refusals = 0
    rw [hev, h.refused]

theorem At.packet_senderInput (h : s.At st) : (s.senderInput arrived ts tt res).packet =
    (receive (decide s.sender.Listens) arrived st.toSender).1 := by
  rw [← h.toSender]
  rfl

/-- A sender that hears nothing in `WAIT_ACK` stays there. -/
theorem At.wait {b : Block} (h : s.At st) (hs : s.sender.Holds b .waitACK)
    (hnone : (receive (decide s.sender.Listens) arrived st.toSender) = (none, st.toSender))
    (htime : (s.sender.poll (s.senderInput arrived ts tt res)).2.2 ≠ .timeout) :
    (s.pollSender arrived ts tt res).At st := by
  have hrec : (s.senderInput arrived ts tt res).received = none :=
    PollInput.received_none (by rw [h.packet_senderInput, hnone])
  apply h.sender_polled (ModemSender.poll_wait_quiet hs.state hrec htime) h.valid h.sender
    h.receiver (by simp) (by rw [hnone]) rfl (by simp) rfl

/-- The block that was handed over is announced with its count. -/
theorem At.start (h : s.At (.handed b)) : (s.pollSender arrived ts tt res).At (.requests b) := by
  have hv := h.valid
  have hs := h.sender
  -- the count is the block's, since it fits 16 bits
  have hfit : fragmentCount b % 65536 = fragmentCount b := by
    have : fragmentCount b ≤ 65525 := hv.fits
    omega
  have hpoll := ModemSender.poll_idle (i := s.senderInput arrived ts tt res) hs.state
    (by rw [hs.block]; exact hv.nonempty)
  refine h.sender_polled hpoll hv ?_ h.receiver rfl (by simp [Stage.toSender]) rfl (by simp) rfl
  exact ⟨rfl, hs.block, fun _ => by rw [← hfit, ← hs.block], hs.idx⟩

/-- The request goes out. -/
theorem At.request (h : s.At (.requests b)) :
    (s.pollSender arrived ts tt res).At (.requested b res) := by
  have hs := h.sender
  have htotal : s.sender.nTotalPackets = fragmentCount b := hs.total (by decide)
  refine h.sender_polled (ModemSender.poll_sendRTS hs.state) h.valid ?_ h.receiver ?_
    (by simp [Stage.toSender]) rfl ?_ rfl
  · exact ⟨rfl, hs.block, fun _ => htotal, hs.idx⟩
  · show [rtsPacket s.sender.nTotalPackets res] = _
    rw [htotal]
    rfl
  · rintro p ⟨⟩
    exact framed_rtsPacket

/-- The mask of a new transfer arrives, and everything is to be sent. -/
theorem At.begin {res' : UInt8} (h : s.At (.granted b res')) :
    (s.pollSender true ts tt res).At (.sends b 0 0) := by
  have hv := h.valid
  have hs := h.sender
  have hlistens : decide s.sender.Listens = true := decide_eq_true hs.state
  have hpacket : (s.senderInput true ts tt res).packet = some (ackPacket (fragmentCount b)
      (List.replicate (fragmentCount b) 0) res') := by
    rw [h.packet_senderInput, hlistens]
    rfl
  have hpos : 0 < fragmentCount b := fragmentCount_pos hv.nonempty
  have hlt : fragmentCount b < 65536 := Nat.lt_of_le_of_lt hv.fits (by decide)
  have hpoll := hs.poll_ack hv (by simp) hlt hpacket
  refine h.sender_polled hpoll ⟨hv, Nat.le_refl 0, hpos.le⟩ (.inl (hs.acceptAck_need hpos hlt))
    ⟨h.receiver.1, ?_⟩ (by simp [Stage.toReceiver]) (by rw [hlistens]; rfl) rfl (by simp) rfl
  rw [if_neg hpos.ne]
  exact h.receiver.2

/-- While it sends, a poll sends the next fragment or nothing. -/
theorem At.send {sent stored : Nat} (h : s.At (.sends b sent stored))
    (htime : (s.sender.poll (s.senderInput arrived ts tt res)).2.2 ≠ .timeout) :
    (s.pollSender arrived ts tt res).At (.sends b sent stored) ∨ sent < fragmentCount b ∧
      (s.pollSender arrived ts tt res).At (.sends b (sent + 1) stored) := by
  obtain ⟨hb, hle, hsent⟩ := h.valid
  have hs := h.sender
  have hrec : (s.senderInput arrived ts tt res).received = none :=
    PollInput.received_none (by rw [h.packet_senderInput]; simp [Stage.toSender])
  obtain ⟨s', ⟨hs', hpoll⟩ | ⟨hlt, hs', hpoll⟩⟩ := hs.poll hsent hrec htime
  · exact .inl (h.sender_polled hpoll h.valid hs' h.receiver (by simp) (by simp [Stage.toSender])
      rfl (by simp) rfl)
  · -- a fragment joins those in flight
    refine .inr ⟨hlt, h.sender_polled hpoll ⟨hb, Nat.le_succ_of_le hle, hlt⟩ hs' h.receiver
      (Stage.flight_concat hle).symm (by simp [Stage.toSender]) rfl ?_ rfl⟩
    rintro p ⟨⟩
    exact framed_dataPacket hlt

theorem At.pollSender (h : s.At st)
    (htime : (s.sender.poll (s.senderInput arrived ts tt res)).2.2 ≠ .timeout) :
    ∃ st', (st' = st ∨ st.Next st') ∧ (s.pollSender arrived ts tt res).At st' := by
  have hv := h.valid
  have hs := h.sender
  cases st with
  | idle =>
    exact ⟨.idle, .inl rfl, h.sender_polled hs.poll hv hs h.receiver rfl (by simp [Stage.toSender])
      rfl (by simp) rfl⟩
  | handed b => exact ⟨_, .inr .start, h.start⟩
  | requests b => exact ⟨_, .inr .request, h.request⟩
  | requested b res => exact ⟨_, .inl rfl, h.wait hs (by simp [Stage.toSender]) htime⟩
  | grants b => exact ⟨_, .inl rfl, h.wait hs (by simp [Stage.toSender]) htime⟩
  | granted b res' =>
    cases arrived with
    | false => exact ⟨_, .inl rfl, h.wait hs (by simp) htime⟩
    | true => exact ⟨_, .inr .begin, h.begin⟩
  | sends b sent stored =>
    rcases h.send htime with hsame | ⟨hlt, hnext⟩
    · exact ⟨_, .inl rfl, hsame⟩
    · exact ⟨_, .inr (.send hlt), hnext⟩
  | finished b mask res' =>
    obtain ⟨hb, hmask⟩ := hv
    rcases hs with hs | ⟨hs, -⟩
    · -- it has yet to notice that it has sent everything
      have hdeaf : decide s.sender.Listens = false := by
        rw [decide_eq_false_iff_not]
        intro hl
        exact absurd (hs.state.symm.trans hl) (by decide)
      have hrec : (s.senderInput arrived ts tt res).received = none :=
        PollInput.received_none (by rw [h.packet_senderInput, hdeaf]; simp)
      obtain ⟨s', ⟨hs', hpoll⟩ | ⟨hlt, -⟩⟩ :=
        ModemSender.Offers.poll (.inl hs) (Nat.le_refl _) hrec htime
      · exact ⟨_, .inl rfl, h.sender_polled hpoll h.valid hs' h.receiver (by simp)
          (by rw [hdeaf]; simp) rfl (by simp) rfl⟩
      · exact absurd hlt (Nat.lt_irrefl _)
    · have hlistens : decide s.sender.Listens = true := decide_eq_true hs.state
      cases arrived with
      | false => exact ⟨_, .inl rfl, h.wait hs (by simp) htime⟩
      | true =>
        have hpacket : (s.senderInput true ts tt res).packet = some (ackPacket 0 mask res') := by
          rw [h.packet_senderInput, hlistens]
          rfl
        have hpoll := hs.poll_ack hb hmask (by decide) hpacket
        exact ⟨.idle, .inr .forget, h.sender_polled hpoll trivial ModemSender.acceptAck_zero
          h.receiver rfl (by rw [hlistens]; rfl) rfl (by simp) rfl⟩

/-! ## Polls of the receiver -/

/-- What has to be checked of a poll of the receiver. -/
theorem At.receiver_polled {receiver : ModemReceiver} {out : Option Packet} {ev : ReceiverEvent}
    (h : s.At st)
    (hp : s.receiver.poll (s.receiverInput arrived ts tt res) = some (receiver, out, ev))
    (hv : st'.Valid) (hs : st'.Sender s.sender) (hr : st'.Receiver receiver)
    (hto : (receive (decide s.receiver.Listens) arrived st.toReceiver).2 = st'.toReceiver)
    (hfrom : st.toSender ++ out.toList = st'.toSender)
    (hpend : st.pending = ev.blocks ++ st'.pending) (hev : ev.refusals = 0) :
    ∃ s', s.pollReceiver arrived ts tt res = some s' ∧ s'.At st' := by
  unfold Link.pollReceiver
  rw [hp]
  refine ⟨_, rfl, hv, hs, hr, ?_, ?_, ?_, h.framed, ?_⟩
  · rw [← hto, ← h.toReceiver]
  · rw [← hfrom, ← h.toSender]
  · show s.handed = (s.outputs ++ ev.blocks) ++ st'.pending
    rw [List.append_assoc, ← hpend]
    exact h.handed
  · show s.refused + ev.refusals = 0
    rw [hev, h.refused]

theorem At.packet_receiverInput (h : s.At st) : (s.receiverInput arrived ts tt res).packet =
    (receive (decide s.receiver.Listens) arrived st.toReceiver).1 := by
  rw [← h.toReceiver]
  rfl

/-- A receiver that hears nothing while it listens for an RTS stays there. -/
theorem At.listen (h : s.At st) (hr : s.receiver.Listening)
    (hnone : receive (decide s.receiver.Listens) arrived st.toReceiver = (none, st.toReceiver)) :
    ∃ s', s.pollReceiver arrived ts tt res = some s' ∧ s'.At st := by
  have hrec : (s.receiverInput arrived ts tt res).received = none :=
    PollInput.received_none (by rw [h.packet_receiverInput, hnone])
  apply h.receiver_polled (ModemReceiver.poll_listen_none hr.state hrec) h.valid h.sender
    h.receiver (by rw [hnone]) (by simp) rfl rfl

/-- A receiver that hears nothing while it receives data stays there, if it is not for too long. -/
theorem At.expect (h : s.At st) (hst : s.receiver.state = .receiveData)
    (hnone : receive (decide s.receiver.Listens) arrived st.toReceiver = (none, st.toReceiver))
    (htime : ∀ x ∈ s.receiver.poll (s.receiverInput arrived ts tt res), x.2.2 ≠ .timeout) :
    ∃ s', s.pollReceiver arrived ts tt res = some s' ∧ s'.At st := by
  have hrec : (s.receiverInput arrived ts tt res).received = none :=
    PollInput.received_none (by rw [h.packet_receiverInput, hnone])
  have hpoll := ModemReceiver.poll_receive_none hst hrec
  split at hpoll
  · exact absurd rfl (htime _ hpoll)
  · exact h.receiver_polled hpoll h.valid h.sender h.receiver (by rw [hnone]) (by simp) rfl rfl

/-- The request for a transfer arrives. -/
theorem At.hear {res' : UInt8} (h : s.At (.requested b res')) :
    ∃ s', s.pollReceiver true ts tt res = some s' ∧ s'.At (.grants b) := by
  have hv := h.valid
  have hr := h.receiver
  have hlistens : decide s.receiver.Listens = true := decide_eq_true (.inl hr.state)
  have hpacket : (s.receiverInput true ts tt res).packet =
      some (rtsPacket (fragmentCount b) res') := by
    rw [h.packet_receiverInput, hlistens]
    rfl
  have hlt : fragmentCount b < 65536 := Nat.lt_of_le_of_lt hv.fits (by decide)
  refine h.receiver_polled (ModemReceiver.poll_listen_rts hr.state hpacket hlt) hv h.sender
    ⟨hr.acceptRTS hlt, rfl, ?_⟩ (by rw [hlistens]; rfl) rfl rfl rfl
  show List.replicate (rtsPacket (fragmentCount b) res').totalPacketsCount 0 = _
  rw [totalPacketsCount_rtsPacket hlt]

/-- It is granted with the mask of a transfer of which nothing has come. -/
theorem At.grant (h : s.At (.grants b)) :
    ∃ s', s.pollReceiver arrived ts tt res = some s' ∧ s'.At (.granted b res) := by
  have hv := h.valid
  obtain ⟨hc, hst, hmask⟩ := h.receiver
  have hlt : fragmentCount b < 65536 := Nat.lt_of_le_of_lt hv.fits (by decide)
  refine h.receiver_polled (ModemReceiver.poll_sendACK hst) hv h.sender
    ⟨hc.congr rfl rfl rfl, rfl⟩ (by simp [Stage.toReceiver]) ?_ rfl rfl
  show [s.receiver.sendACK res] = _
  rw [hc.sendACK hlt (Nat.zero_le _), hmask]
  rfl

/-- Everything is stored, and the block is put out. -/
theorem At.finish {sent : Nat} (h : s.At (.sends b sent (fragmentCount b))) :
    ∃ s', s.pollReceiver arrived ts tt res = some s' ∧
      sent = fragmentCount b ∧ s'.At (.finished b s.receiver.pReceivedPacketsMask res) := by
  obtain ⟨hb, hle, hsent⟩ := h.valid
  obtain ⟨hc, hst⟩ := h.receiver
  rw [if_pos rfl] at hst
  have hlt : fragmentCount b < 65536 := Nat.lt_of_le_of_lt hb.fits (by decide)
  have hdeaf : decide s.receiver.Listens = false := by
    simp [ModemReceiver.Listens, hst]
  obtain rfl : sent = fragmentCount b := Nat.le_antisymm hsent hle
  have hpoll := hc.poll_process (i := s.receiverInput arrived ts tt res) hst hlt
    List.length_range
  have hfinished : ∃ s', s.pollReceiver arrived ts tt res = some s' ∧
      s'.At (.finished b s.receiver.pReceivedPacketsMask res) :=
    h.receiver_polled hpoll ⟨hb, hc.mask_length⟩ h.sender
      (ModemReceiver.listening_reset s.receiver.processData)
      (by rw [hdeaf]; simp [Stage.toReceiver]) rfl rfl rfl
  obtain ⟨s', hs', hat⟩ := hfinished
  exact ⟨s', hs', rfl, hat⟩

/-- The fragment that arrives is the next in order, and is stored. -/
theorem At.store {sent stored : Nat} (h : s.At (.sends b sent stored)) (hnext : stored < sent) :
    ∃ s', s.pollReceiver true ts tt res = some s' ∧ s'.At (.sends b sent (stored + 1)) := by
  obtain ⟨hb, -, hsent⟩ := h.valid
  obtain ⟨hc, hst⟩ := h.receiver
  have hk : stored < fragmentCount b := Nat.lt_of_lt_of_le hnext hsent
  rw [if_neg hk.ne] at hst
  have hlt : fragmentCount b < 65536 := Nat.lt_of_le_of_lt hb.fits (by decide)
  have hlistens : decide s.receiver.Listens = true := decide_eq_true (.inr hst)
  have hflight : Stage.toReceiver (.sends b sent stored) =
      dataPacket b stored :: Stage.flight b sent (stored + 1) := Stage.flight_cons hnext
  have hpacket : (s.receiverInput true ts tt res).packet = some (dataPacket b stored) := by
    rw [h.packet_receiverInput, hlistens, hflight]
    rfl
  have hpoll := ModemReceiver.poll_receive_data hst hpacket (Nat.lt_trans hk hlt)
    (by rw [hc.mask_length]; exact hk)
  refine h.receiver_polled hpoll ⟨hb, hnext, hsent⟩ h.sender ⟨?_, ?_⟩
    (by rw [hlistens, hflight]; rfl) rfl rfl rfl
  · rw [List.range_succ]
    exact hc.acceptData hlt.le hk (by simp)
  · rw [hc.acceptData_state hlt.le hk, List.length_range, hst]
    split
    · rfl
    · rfl

theorem At.pollReceiver (h : s.At st)
    (htime : ∀ x ∈ s.receiver.poll (s.receiverInput arrived ts tt res), x.2.2 ≠ .timeout) :
    ∃ st', (st' = st ∨ st.Next st') ∧
      ∃ s', s.pollReceiver arrived ts tt res = some s' ∧ s'.At st' := by
  have hr := h.receiver
  cases st with
  | idle => exact ⟨_, .inl rfl, h.listen hr (by simp [Stage.toReceiver])⟩
  | handed b => exact ⟨_, .inl rfl, h.listen hr (by simp [Stage.toReceiver])⟩
  | requests b => exact ⟨_, .inl rfl, h.listen hr (by simp [Stage.toReceiver])⟩
  | requested b res' =>
    cases arrived with
    | false => exact ⟨_, .inl rfl, h.listen hr (by simp)⟩
    | true => exact ⟨_, .inr .hear, h.hear⟩
  | grants b => exact ⟨_, .inr .grant, h.grant⟩
  | granted b res' => exact ⟨_, .inl rfl, h.expect hr.2 (by simp [Stage.toReceiver]) htime⟩
  | sends b sent stored =>
    obtain ⟨-, hle, hsent⟩ := h.valid
    by_cases hall : stored = fragmentCount b
    · subst hall
      obtain ⟨s', hs', rfl, hat⟩ := h.finish
      exact ⟨_, .inr .finish, s', hs', hat⟩
    · have hst := hr.2
      rw [if_neg hall] at hst
      cases arrived with
      | false => exact ⟨_, .inl rfl, h.expect hst (by simp) htime⟩
      | true =>
        rcases Nat.lt_or_ge stored sent with hnext | hnone
        · exact ⟨_, .inr (.store hnext), h.store hnext⟩
        · -- nothing is in flight
          obtain rfl : sent = stored := Nat.le_antisymm hnone hle
          have hempty : Stage.toReceiver (.sends b sent sent) = [] := Stage.flight_self
          exact ⟨_, .inl rfl, h.expect hst (by rw [hempty]; simp) htime⟩
  | finished b mask res' => exact ⟨_, .inl rfl, h.listen hr (by simp [Stage.toReceiver])⟩

/-! ## Whole runs -/

/-- A sender without a block is between two transfers. -/
theorem At.idle_of_ready (h : s.At st) (hready : s.sender.Ready) : st = .idle := by
  have hs := h.sender
  cases st with
  | idle => rfl
  | handed c => exact absurd (hs.block.symm.trans hready.2) h.valid.nonempty
  | requests c | requested c | grants c | granted c =>
    exact absurd (hs.state.symm.trans hready.1) (by decide)
  | sends c | finished c =>
    rcases hs with hs | ⟨hs, -⟩ <;> exact absurd (hs.state.symm.trans hready.1) (by decide)

theorem At.hand {b : Block} (h : s.At .idle) (hb : Sendable b) :
    At { s with sender := s.sender.hand b, handed := s.handed ++ [b] } (.handed b) := by
  refine ⟨hb, ?_, h.receiver, h.toReceiver, h.toSender, ?_, h.framed, h.refused⟩
  · exact ⟨h.sender.state, rfl, fun hne => absurd rfl hne, h.sender.idx⟩
  · show s.handed ++ [b] = s.outputs ++ [b]
    rw [h.handed]
    simp [Stage.pending]

/-- **Every step of the code keeps the stage or takes it to the next.** -/
theorem At.step {e : LinkEvent} (h : s.At st) (hg : Timely s e)
    (hs : Link.step s e = some s') : ∃ st', (st' = st ∨ st.Next st') ∧ s'.At st' := by
  cases e with
  | hand b =>
    simp only [Link.step] at hs
    split at hs
    · next hready =>
      cases hs
      obtain rfl := h.idle_of_ready hready.1
      exact ⟨_, .inr (.hand ⟨hready.2, hg⟩), h.hand ⟨hready.2, hg⟩⟩
    · cases hs
  | pollSender arrived ts tt res =>
    cases hs
    exact h.pollSender hg
  | pollReceiver arrived ts tt res =>
    obtain ⟨st', hnext, t, ht, hat⟩ : ∃ st', (st' = st ∨ st.Next st') ∧
        ∃ t, s.pollReceiver arrived ts tt res = some t ∧ t.At st' := h.pollReceiver hg
    cases ht.symm.trans hs
    exact ⟨st', hnext, hat⟩

theorem At.run {es : List LinkEvent} (hm : Meets Link.step Timely init es)
    (hr : Machine.run Link.step init es = some s) : ∃ st, s.At st := by
  refine run_invariant_of_meets (I := fun s => ∃ st, s.At st) (fun s e s' h hg hs => ?_)
    ⟨.idle, at_init⟩ hm hr
  obtain ⟨st, hat⟩ := h
  obtain ⟨st', -, hat'⟩ := hat.step hg hs
  exact ⟨st', hat'⟩

/-- What a good channel makes of the two machines. -/
structure Faithful (s : Link) : Prop where
  /-- The receiver puts out what was handed over, in order. -/
  ordered : s.outputs <+: s.handed
  framed : ∀ p ∈ s.sent, Framed p
  /-- Neither end ever refuses a packet. -/
  accepted : s.refused = 0
  /-- With everything at rest, everything handed over has been put out. -/
  settled : s.sender.Ready → s.receiver.state = .listen → s.toReceiver = [] → s.toSender = [] →
    s.outputs = s.handed
  /-- A timely poll of the receiver is always defined. -/
  defined : ∀ arrived ts tt res, Timely s (.pollReceiver arrived ts tt res) →
    (Link.step s (.pollReceiver arrived ts tt res)).isSome

theorem At.faithful (h : s.At st) : s.Faithful where
  ordered := by
    rw [h.handed]
    exact List.prefix_append ..
  framed := h.framed
  accepted := h.refused
  settled hready _ _ _ := by
    rw [h.handed, h.idle_of_ready hready]
    simp [Stage.pending]
  defined arrived ts tt res hg := by
    obtain ⟨st', -, t, ht, -⟩ : ∃ st', (st' = st ∨ st.Next st') ∧
        ∃ t, s.pollReceiver arrived ts tt res = some t ∧ t.At st' := h.pollReceiver hg
    exact Option.isSome_iff_exists.mpr ⟨t, ht⟩

/-- **A good channel carries every block**, in order and byte for byte. -/
theorem run_faithful {es : List LinkEvent} (hm : Meets Link.step Timely init es)
    (hr : Machine.run Link.step init es = some s) : s.Faithful := by
  obtain ⟨st, hat⟩ := At.run hm hr
  exact hat.faithful

/-- Two fragments are requested, sent and put out, with a poll now and then that hears nothing. -/
def delivery : List LinkEvent :=
  [.hand (List.replicate 1015 7), .pollSender true 0 0 0, .pollSender true 0 0 0,
    .pollReceiver false 0 0 0, .pollReceiver true 0 0 0, .pollReceiver true 0 0 0,
    .pollSender true 0 0 0, .pollSender true 0 0 0, .pollReceiver true 0 0 0,
    .pollSender true 0 0 0, .pollReceiver true 0 0 0, .pollReceiver true 0 0 0,
    .pollSender true 0 0 0, .pollSender true 0 0 0]

theorem run_faithful_delivery : ∃ s, Machine.run Link.step init delivery = some s ∧
    s.sender.Ready ∧ s.outputs.length = 1 ∧ s.Faithful := by
  have hm : Meets Link.step Timely init delivery := by decide +kernel
  obtain ⟨s, hs, hready, hlen⟩ : ∃ s, Machine.run Link.step init delivery = some s ∧
      s.sender.Ready ∧ s.outputs.length = 1 := by decide +kernel
  exact ⟨s, hs, hready, hlen, run_faithful hm hs⟩

end Link

end ModemFhss.Transport
