import ModemFhss.Daemon.Modem

/-!
# Two daemons and the modem between them

A daemon A writes a block to its modem in chunks and a daemon B collects the chunks. Between them is
a path that loses nothing: it holds one chunk, which B reads before A writes the next one.

B finds the end of a block by a silence of three seconds, so A's blocks come through only if the
silences are where the blocks end. `Spaced` says so of each poll: A starts a block when B has closed
the one before, and B does not find the three seconds over while A is in the middle of a block. A
itself does neither: it takes the next block as soon as the last one is written.
-/

namespace ModemFhss.Daemon

open ByteField Machine

/-- A request to send a text or an image. -/
def IsSend (block : Block) : Prop :=
  block[2]? = some DataType.sendText.toByte ∨ block[2]? = some DataType.sendImage.toByte

instance (block : Block) : Decidable (IsSend block) := inferInstanceAs (Decidable (_ ∨ _))

/-- The request for what has come from the modem. -/
def dataReq : Block := be16 3 ++ [DataType.dataReq.toByte]

structure Relay (κ : Type) where
  a : ModemWorker κ
  b : ModemWorker κ
  /-- The chunk that A has written and B has not read. -/
  path : Option Block
  /-- The blocks A has started to write data of to the modem. -/
  accepted : List Block

inductive RelayEvent (κ : Type) where
  /-- A client of A sends a block. -/
  | submit (tcp : κ) (block : Block)
  /-- A's `write_modem`. -/
  | pollA
  /-- B's `listen_modem` at time `now`. -/
  | pollB (now : Int)
  /-- A client of B asks for a block. -/
  | fetch (tcp : κ)

namespace Relay

variable {κ : Type}

def init : Relay κ where
  a := .init
  b := .init
  path := none
  accepted := []

/-- A's `write_modem`: the device takes up to 1024 bytes. -/
def pollA (s : Relay κ) : Option (Relay κ) :=
  if 0 < s.a.blockToModem.length then
    if s.path = none then
      let buf := (s.a.blockToModem.drop s.a.bytes.toNat).take 1024
      match s.a.writeModem (some buf.length) with
      | .error _ => none
      | .ok a => some { s with a, path := some buf }
    else
      none
  else
    some s

/-- One event. `sys` is the system the daemons run on. -/
def step (sys : System) (s : Relay κ) : RelayEvent κ → Option (Relay κ)
  | .submit tcp block =>
    if WellFormed block ∧ IsSend block then
      (s.a.request sys tcp block).map fun a =>
        { s with
          a
          accepted := if s.a.blockToModem = [] then s.accepted ++ [block] else s.accepted }
    else
      none
  | .pollA => s.pollA
  | .pollB now =>
    some { s with b := s.b.listenModem now (some (s.path.getD [])), path := none }
  | .fetch tcp => (s.b.request sys tcp dataReq).map fun b => { s with b }

/-- A starts a block when B has closed the one before; the silence that B takes for the end of a
block is not inside one. -/
def Spaced (s : Relay κ) : RelayEvent κ → Prop
  | .pollA => 0 < s.a.blockToModem.length → s.a.bytes = 0 → s.b.blockFromModem = []
  | .pollB now => s.path = none → 0 < s.b.blockFromModem.length → 3000 ≤ now - s.b.timeoutOp →
    s.a.bytes = 0
  | _ => True

/-- B's client fetches a block before the next one takes its place. -/
def Polled (s : Relay κ) : RelayEvent κ → Prop
  | .pollB now => s.path = none → 0 < s.b.blockFromModem.length → 3000 ≤ now - s.b.timeoutOp →
    s.b.blockToClient = []
  | _ => True

/-- Nothing is on its way. -/
def AtRest (s : Relay κ) : Prop :=
  s.a.blockToModem = [] ∧ s.path = none ∧ s.b.blockFromModem = []

/-- What B's clients have been sent, less the texts. -/
def obtained (s : Relay κ) : List Block :=
  (s.b.sent.map Prod.snd).filter fun frame => frame[2]? ≠ some DataType.serverMessage.toByte

/-- The block B keeps for its clients. -/
def slot (s : Relay κ) : List Block := if s.b.blockToClient = [] then [] else [s.b.blockToClient]

instance : ∀ (s : Relay κ) (e : RelayEvent κ), Decidable (Spaced s e)
  | _, .pollA => inferInstanceAs (Decidable (_ → _))
  | _, .pollB _ => inferInstanceAs (Decidable (_ → _))
  | _, .submit .. => isTrue trivial
  | _, .fetch _ => isTrue trivial

instance : ∀ (s : Relay κ) (e : RelayEvent κ), Decidable (Polled s e)
  | _, .pollB _ => inferInstanceAs (Decidable (_ → _))
  | _, .pollA => isTrue trivial
  | _, .submit .. => isTrue trivial
  | _, .fetch _ => isTrue trivial

instance (s : Relay κ) : Decidable s.AtRest := inferInstanceAs (Decidable (_ ∧ _))

/-! ## The four events -/

variable {sys : System} {s s' : Relay κ} {e : RelayEvent κ} {es : List (RelayEvent κ)} {tcp : κ}
  {block : Block} {now : Int}

theorem request_eq {w : ModemWorker κ} {type : UInt8} (htype : block[2]? = some type)
    (hconfig : type ≠ DataType.config.toByte) : w.request sys tcp block = some { w with
      toWorker := { w.toWorker with processed := w.processed ++ [(tcp, block)] }.dispatch
        (ModemWorker.conf sys) tcp type block } := by
  unfold ModemWorker.request Worker.dataProcess
  rw [htype]
  exact if_pos fun heq => absurd (Option.some.inj (htype.symm.trans heq)) hconfig

theorem dispatch_dataReq {w : Worker κ} {conf : Block → Block} :
    w.dispatch conf tcp DataType.dataReq.toByte block =
      if 0 < w.blockToClient.length then
        { w.sendData tcp w.blockToClient with blockToClient := [] }
      else
        w.dataAnswer tcp (ascii "no data received or busy") := by
  unfold Worker.dispatch
  rw [if_neg (by decide), if_neg (by decide), if_pos rfl]

/-- A block that A's worker is asked to send: it is taken if there is none to write. -/
theorem step_submit (hs : step sys s (.submit tcp block) = some s') :
    WellFormed block ∧ IsSend block ∧ s'.b = s.b ∧ s'.path = s.path ∧ s'.a.bytes = s.a.bytes ∧
      ((s.a.blockToModem = [] ∧ s'.a.blockToModem = block ∧ s'.accepted = s.accepted ++ [block]) ∨
        (s.a.blockToModem ≠ [] ∧ s'.a.blockToModem = s.a.blockToModem ∧
          s'.accepted = s.accepted)) := by
  simp only [step] at hs
  split at hs
  · next hblock =>
    obtain ⟨hwf, hsend⟩ := hblock
    obtain ⟨type, htype, hconfig, hdispatch⟩ : ∃ type, block[2]? = some type ∧
        type ≠ DataType.config.toByte ∧
        (type = DataType.sendImage.toByte ∨ type = DataType.sendText.toByte) := by
      rcases hsend with htext | himage
      · exact ⟨_, htext, by decide, .inr rfl⟩
      · exact ⟨_, himage, by decide, .inl rfl⟩
    rw [request_eq htype hconfig] at hs
    cases hs
    refine ⟨hwf, hsend, rfl, rfl, rfl, ?_⟩
    simp only [Worker.dispatch, if_neg hconfig, if_pos hdispatch, List.length_eq_zero_iff]
    by_cases hidle : s.a.blockToModem = []
    · rw [if_pos hidle, if_pos hidle]
      exact .inl ⟨hidle, rfl, rfl⟩
    · rw [if_neg hidle, if_neg hidle]
      exact .inr ⟨hidle, rfl, rfl⟩
  · cases hs

/-- The next chunk: what is left of the block, up to 1024 bytes of it. -/
theorem step_pollA {n : Nat} (hn : s.a.bytes = n) (hlt : n < s.a.blockToModem.length)
    (hpath : s.path = none) : ∃ k, 0 < k ∧ n + k ≤ s.a.blockToModem.length ∧
      step sys s .pollA = some { s with
        a := if n + k = s.a.blockToModem.length then { s.a with bytes := 0, blockToModem := [] }
          else { s.a with bytes := (n + k : Nat) }
        path := some ((s.a.blockToModem.drop n).take k) } := by
  have hpos : 0 < s.a.blockToModem.length := by omega
  refine ⟨((s.a.blockToModem.drop n).take 1024).length, ?_, ?_, ?_⟩
  · rw [List.length_take, List.length_drop]
    omega
  · rw [List.length_take, List.length_drop]
    omega
  · simp only [step, pollA, if_pos hpos, if_pos hpath, ModemWorker.writeModem, hn]
    rw [if_neg (by omega), Int.toNat_natCast]
    generalize hk : ((s.a.blockToModem.drop n).take 1024).length = k
    have htake : (s.a.blockToModem.drop n).take 1024 = (s.a.blockToModem.drop n).take k := by
      rw [← hk, List.take_eq_take_iff]
      simp
    rw [htake]
    by_cases hwhole : n + k = s.a.blockToModem.length
    · rw [if_pos (by omega), if_pos hwhole]
    · rw [if_neg (by omega), if_neg hwhole]
      push_cast
      rfl

theorem step_pollA_idle (h : s.a.blockToModem = []) : step sys s .pollA = some s := by
  simp [step, pollA, h]

/-- B reads the chunk. -/
theorem step_pollB_chunk {buf : Block} (hpath : s.path = some buf) (hbuf : buf ≠ []) :
    step sys s (.pollB now) = some { s with
      b := { s.b with blockFromModem := s.b.blockFromModem ++ buf, timeoutOp := now }
      path := none } := by
  simp only [step, ModemWorker.listenModem, hpath, Option.getD_some]
  rw [if_pos (List.length_pos_iff.mpr hbuf)]

/-- B reads nothing, and its block is not over. -/
theorem step_pollB_quiet (hpath : s.path = none)
    (h : ¬ (0 < s.b.blockFromModem.length ∧ 3000 ≤ now - s.b.timeoutOp)) :
    step sys s (.pollB now) = some s := by
  simp only [step, ModemWorker.listenModem, hpath, Option.getD_none]
  rw [if_neg (by decide), if_neg h, ← hpath]

/-- B reads nothing, and its block is over. -/
theorem step_pollB_end (hpath : s.path = none) (hwf : WellFormed s.b.blockFromModem)
    (htime : 3000 ≤ now - s.b.timeoutOp) :
    step sys s (.pollB now) = some { s with
      b := { s.b with
        blockToClient := s.b.blockFromModem
        stored := s.b.stored ++ [s.b.blockFromModem]
        blockFromModem := [] } } := by
  have hlong := hwf.long
  simp only [step, ModemWorker.listenModem, hpath, Option.getD_none]
  rw [if_neg (by decide), if_pos ⟨by omega, htime⟩, ModemWorker.endOfBlock,
    if_neg (by omega), if_pos hwf.size, ← hpath]

/-- A fetch takes the block for the clients, if there is one. -/
theorem step_fetch (hs : step sys s (.fetch tcp) = some s')
    (hslot : ∀ block ∈ s.slot, IsSend block) :
    s'.a = s.a ∧ s'.path = s.path ∧ s'.accepted = s.accepted ∧
      s'.b.blockFromModem = s.b.blockFromModem ∧ s'.b.timeoutOp = s.b.timeoutOp ∧
      s'.b.stored = s.b.stored ∧ s'.slot = [] ∧ s'.obtained = s.obtained ++ s.slot := by
  have htype : dataReq[2]? = some DataType.dataReq.toByte := rfl
  simp only [step] at hs
  rw [request_eq htype (by decide), dispatch_dataReq] at hs
  cases hs
  refine ⟨rfl, rfl, rfl, rfl, rfl, rfl, ?_⟩
  unfold slot at hslot ⊢
  unfold obtained
  by_cases hempty : s.b.blockToClient = []
  · simp only [hempty, List.length_nil, Nat.lt_irrefl, if_false, if_true, Worker.dataAnswer,
      Worker.sendData]
    refine ⟨trivial, ?_⟩
    rw [List.map_append, List.filter_append]
    rfl
  · rw [if_neg hempty] at hslot
    simp only [if_pos (List.length_pos_iff.mpr hempty), if_neg hempty, Worker.sendData]
    refine ⟨rfl, ?_⟩
    rw [List.map_append, List.filter_append, List.map_singleton, List.filter_singleton]
    have htext : s.b.blockToClient[2]? ≠ some DataType.serverMessage.toByte := by
      rcases hslot _ (List.mem_singleton.mpr rfl) with heq | heq
      · rw [heq]
        decide
      · rw [heq]
        decide
    simp [htext]

/-! ## What is where -/

/-- What B has of the block that is on its way, and what the path holds of it. -/
def inFlight (s : Relay κ) : Block := s.b.blockFromModem ++ s.path.getD []

/-- The block A has not started to write. -/
def waiting (s : Relay κ) : List Block := if s.a.blockToModem = [] then [] else [s.a.blockToModem]

/-- Where the block is that A has accepted last and B has not stored. -/
inductive Phase (s : Relay κ) : Prop
  /-- No block is on its way. -/
  | idle (hbytes : s.a.bytes = 0) (hflight : s.inFlight = [])
    (haccepted : s.accepted = s.b.stored ++ s.waiting)
  /-- A has written `n` bytes of it. -/
  | writing (n : Nat) (hbytes : s.a.bytes = n) (hpos : 0 < n)
    (hlt : n < s.a.blockToModem.length) (hflight : s.inFlight = s.a.blockToModem.take n)
    (haccepted : s.accepted = s.b.stored ++ [s.a.blockToModem])
  /-- A has written all of it. -/
  | written (hbytes : s.a.bytes = 0) (hflight : s.inFlight ≠ [])
    (haccepted : s.accepted = s.b.stored ++ s.inFlight :: s.waiting)

structure Inv (s : Relay κ) : Prop where
  phase : Phase s
  path : s.path ≠ some []
  blocks : ∀ block ∈ s.accepted, WellFormed block ∧ IsSend block
  /-- What the clients can fetch has been stored. -/
  slot : ∀ block ∈ s.slot, block ∈ s.b.stored

theorem Phase.stored_prefix (h : Phase s) : s.b.stored <+: s.accepted := by
  cases h with
  | idle _ _ haccepted => exact haccepted ▸ List.prefix_append ..
  | writing _ _ _ _ _ haccepted => exact haccepted ▸ List.prefix_append ..
  | written _ _ haccepted => exact haccepted ▸ List.prefix_append ..

theorem Phase.stored_eq (h : Phase s) (hrest : s.AtRest) : s.b.stored = s.accepted := by
  obtain ⟨hmodem, hpath, hbuffer⟩ := hrest
  cases h with
  | idle _ _ haccepted =>
    rw [haccepted, waiting, if_pos hmodem, List.append_nil]
  | writing _ _ _ hlt _ _ =>
    rw [hmodem] at hlt
    exact absurd hlt (Nat.not_lt_zero _)
  | written _ hflight _ =>
    refine absurd ?_ hflight
    rw [inFlight, hbuffer, hpath]
    rfl

/-- The invariant reads this much of a state. -/
theorem Phase.congr (h : Phase s) (ha : s'.a.bytes = s.a.bytes)
    (hmodem : s'.a.blockToModem = s.a.blockToModem) (hpath : s'.path = s.path)
    (hbuffer : s'.b.blockFromModem = s.b.blockFromModem) (hstored : s'.b.stored = s.b.stored)
    (haccepted : s'.accepted = s.accepted) : Phase s' := by
  have hflight : s'.inFlight = s.inFlight := by rw [inFlight, inFlight, hbuffer, hpath]
  have hwaiting : s'.waiting = s.waiting := by rw [waiting, waiting, hmodem]
  cases h with
  | idle h₁ h₂ h₃ =>
    exact .idle (ha.trans h₁) (hflight.trans h₂) (by rw [haccepted, hstored, hwaiting, h₃])
  | writing n h₁ h₂ h₃ h₄ h₅ =>
    exact .writing n (ha.trans h₁) h₂ (by rw [hmodem]; exact h₃) (by rw [hflight, hmodem, h₄])
      (by rw [haccepted, hstored, hmodem, h₅])
  | written h₁ h₂ h₃ =>
    exact .written (ha.trans h₁) (by rw [hflight]; exact h₂)
      (by rw [haccepted, hstored, hflight, hwaiting, h₃])

theorem inv_init : Inv (init : Relay κ) where
  phase := .idle rfl rfl rfl
  path := nofun
  blocks := by
    intro block h
    cases h
  slot := by
    intro block h
    cases h

theorem Inv.submit (h : Inv s) (hs : step sys s (.submit tcp block) = some s') : Inv s' := by
  obtain ⟨hwf, hsend, hb, hpath, hbytes, hcase⟩ := step_submit hs
  have hslot : ∀ block ∈ s'.slot, block ∈ s'.b.stored := by
    rw [Relay.slot, hb]
    exact h.slot
  rcases hcase with ⟨hidle, hmodem, haccepted⟩ | ⟨-, hmodem, haccepted⟩
  · have hflight : s'.inFlight = s.inFlight := by rw [inFlight, inFlight, hb, hpath]
    have hnone : s.waiting = [] := by rw [waiting, if_pos hidle]
    have hwaiting : s'.waiting = [block] := by
      have hne : block ≠ [] := fun heq => by simpa [heq] using hwf.long
      rw [waiting, hmodem, if_neg hne]
    refine ⟨?_, hpath ▸ h.path, ?_, hslot⟩
    · cases h.phase with
      | idle h₁ h₂ h₃ =>
        refine .idle (hbytes.trans h₁) (hflight.trans h₂) ?_
        rw [haccepted, h₃, hb, hnone, hwaiting, List.append_nil]
      | writing n _ _ hlt _ _ =>
        rw [hidle] at hlt
        exact absurd hlt (Nat.not_lt_zero _)
      | written h₁ h₂ h₃ =>
        refine .written (hbytes.trans h₁) (by rw [hflight]; exact h₂) ?_
        rw [haccepted, h₃, hb, hnone, hwaiting, hflight, List.append_assoc]
        rfl
    · rw [haccepted]
      intro block' hmem
      rcases List.mem_append.mp hmem with hold | hnew
      · exact h.blocks _ hold
      · cases List.mem_singleton.mp hnew
        exact ⟨hwf, hsend⟩
  · refine ⟨h.phase.congr hbytes hmodem hpath ?_ ?_ haccepted, hpath ▸ h.path, ?_, hslot⟩
    · rw [hb]
    · rw [hb]
    · rw [haccepted]
      exact h.blocks

theorem inFlight_of_path (hpath : s.path = none) : s.inFlight = s.b.blockFromModem := by
  rw [inFlight, hpath]
  exact List.append_nil _

theorem Inv.ready (h : Inv s) : ∀ block ∈ s.slot, IsSend block := by
  intro block hblock
  obtain ⟨later, heq⟩ := h.phase.stored_prefix
  refine (h.blocks block ?_).2
  rw [← heq]
  exact List.mem_append_left _ (h.slot block hblock)

theorem Inv.fetch (h : Inv s) (hs : step sys s (.fetch tcp) = some s') : Inv s' := by
  obtain ⟨ha, hpath, haccepted, hbuffer, -, hstored, hslot, -⟩ := step_fetch hs h.ready
  refine ⟨h.phase.congr (by rw [ha]) (by rw [ha]) hpath hbuffer hstored haccepted,
    hpath ▸ h.path, haccepted ▸ h.blocks, ?_⟩
  rw [hslot]
  intro block hblock
  cases hblock

/-- A writes the next chunk of a block of which `n` bytes are on their way. -/
theorem Inv.write {n : Nat} (h : Inv s) (hn : s.a.bytes = n)
    (hlt : n < s.a.blockToModem.length) (hpath : s.path = none)
    (hflight : s.inFlight = s.a.blockToModem.take n)
    (haccepted : s.accepted = s.b.stored ++ [s.a.blockToModem])
    (hs : step sys s .pollA = some s') : Inv s' := by
  obtain ⟨k, hk, hle, hstep⟩ := @step_pollA _ sys s n hn hlt hpath
  cases hstep.symm.trans hs
  have hflight' :
      s.inFlight ++ (s.a.blockToModem.drop n).take k = s.a.blockToModem.take (n + k) := by
    rw [hflight, List.take_add]
  rw [inFlight_of_path hpath] at hflight'
  have hchunk : (s.a.blockToModem.drop n).take k ≠ [] := by
    apply List.ne_nil_of_length_pos
    rw [List.length_take, List.length_drop]
    omega
  refine ⟨?_, fun heq => hchunk (Option.some.inj heq), h.blocks, h.slot⟩
  by_cases hwhole : n + k = s.a.blockToModem.length
  · rw [hwhole, List.take_length] at hflight'
    rw [if_pos hwhole]
    refine .written rfl ?_ ?_
    · show s.b.blockFromModem ++ (s.a.blockToModem.drop n).take k ≠ []
      exact List.append_ne_nil_of_right_ne_nil _ hchunk
    · show s.accepted = s.b.stored ++ [s.b.blockFromModem ++ (s.a.blockToModem.drop n).take k]
      rw [hflight', haccepted]
  · rw [if_neg hwhole]
    exact .writing (n + k) rfl (by omega) (by show n + k < s.a.blockToModem.length; omega) hflight'
      haccepted

theorem Inv.pollA (h : Inv s) (hspaced : Spaced s .pollA) (hs : step sys s .pollA = some s') :
    Inv s' := by
  by_cases hmodem : s.a.blockToModem = []
  · cases (step_pollA_idle hmodem).symm.trans hs
    exact h
  · have hpos : 0 < s.a.blockToModem.length := List.length_pos_iff.mpr hmodem
    have hpath : s.path = none := by
      by_contra hpath
      simp [step, Relay.pollA, hpos, hpath] at hs
    cases h.phase with
    | idle hbytes hflight haccepted =>
      refine h.write (n := 0) hbytes hpos hpath ?_ ?_ hs
      · rw [hflight, List.take_zero]
      · rw [haccepted, waiting, if_neg hmodem]
    | writing n hbytes _ hlt hflight haccepted =>
      exact h.write hbytes hlt hpath hflight haccepted hs
    | written hbytes hflight _ =>
      -- B has not closed the block before
      rw [inFlight_of_path hpath] at hflight
      exact absurd (hspaced hpos hbytes) hflight

/-- A silence that B takes for the end of a block is the end of one. -/
theorem Inv.ended (h : Inv s) (hspaced : Spaced s (.pollB now)) (hpath : s.path = none)
    (hpos : 0 < s.b.blockFromModem.length) (htime : 3000 ≤ now - s.b.timeoutOp) :
    s.a.bytes = 0 ∧ s.accepted = s.b.stored ++ s.b.blockFromModem :: s.waiting ∧
      WellFormed s.b.blockFromModem := by
  have hbytes := hspaced hpath hpos htime
  have hflight := inFlight_of_path hpath
  cases h.phase with
  | idle _ h₂ _ =>
    rw [hflight] at h₂
    exact absurd hpos (by simp [h₂])
  | writing n h₁ h₂ _ _ _ => omega
  | written _ _ h₃ =>
    rw [hflight] at h₃
    exact ⟨hbytes, h₃, (h.blocks _ (by rw [h₃]; simp)).1⟩

theorem Inv.pollB (h : Inv s) (hspaced : Spaced s (.pollB now))
    (hs : step sys s (.pollB now) = some s') : Inv s' := by
  cases hpath : s.path with
  | some buf =>
    have hbuf : buf ≠ [] := fun heq => h.path (heq ▸ hpath)
    cases (step_pollB_chunk hpath hbuf).symm.trans hs
    refine ⟨?_, nofun, h.blocks, h.slot⟩
    -- the chunk is where it was, on its way
    have hflight : s.inFlight = (s.b.blockFromModem ++ buf) ++ [] := by
      rw [inFlight, hpath, List.append_nil]
      rfl
    cases h.phase with
    | idle h₁ h₂ h₃ => exact .idle h₁ (hflight.symm.trans h₂) h₃
    | writing n h₁ h₂ h₃ h₄ h₅ => exact .writing n h₁ h₂ h₃ (hflight.symm.trans h₄) h₅
    | written h₁ h₂ h₃ =>
      rw [hflight] at h₂ h₃
      exact .written h₁ h₂ h₃
  | none =>
    by_cases hend : 0 < s.b.blockFromModem.length ∧ 3000 ≤ now - s.b.timeoutOp
    · obtain ⟨hpos, htime⟩ := hend
      obtain ⟨hbytes, haccepted, hwf⟩ := h.ended hspaced hpath hpos htime
      cases (step_pollB_end hpath hwf htime).symm.trans hs
      refine ⟨.idle hbytes ?_ ?_, h.path, h.blocks, ?_⟩
      · show [] ++ s.path.getD [] = []
        rw [hpath]
        rfl
      · show s.accepted = s.b.stored ++ [s.b.blockFromModem] ++ s.waiting
        rw [haccepted, List.append_assoc]
        rfl
      · intro block hblock
        rw [Relay.slot, if_neg (List.length_pos_iff.mp hpos)] at hblock
        rw [List.mem_singleton.mp hblock]
        exact List.mem_append_right _ List.mem_cons_self
    · cases (step_pollB_quiet hpath hend).symm.trans hs
      exact h

theorem Inv.step (h : Inv s) (hspaced : Spaced s e) (hs : step sys s e = some s') : Inv s' := by
  cases e with
  | submit tcp block => exact h.submit hs
  | pollA => exact h.pollA hspaced hs
  | pollB now => exact h.pollB hspaced hs
  | fetch tcp => exact h.fetch hs

/-! ## What the clients of B get -/

/-- Every block stored has been fetched or can be. -/
def Kept (s : Relay κ) : Prop := s.obtained ++ s.slot = s.b.stored

theorem Kept.congr (h : Kept s) (hb : s'.b.sent = s.b.sent)
    (hclient : s'.b.blockToClient = s.b.blockToClient) (hstored : s'.b.stored = s.b.stored) :
    Kept s' := by
  unfold Kept obtained slot
  rw [hb, hclient, hstored]
  exact h

theorem Kept.step (hinv : Inv s) (h : Kept s) (hspaced : Spaced s e) (hpolled : Polled s e)
    (hs : step sys s e = some s') : Kept s' := by
  cases e with
  | submit tcp block =>
    obtain ⟨-, -, hb, -⟩ := step_submit hs
    exact h.congr (by rw [hb]) (by rw [hb]) (by rw [hb])
  | pollA =>
    simp only [Relay.step, Relay.pollA] at hs
    split at hs
    · split at hs
      · split at hs
        · cases hs
        · cases hs
          exact h
      · cases hs
    · cases hs
      exact h
  | pollB now =>
    cases hpath : s.path with
    | some buf =>
      cases (step_pollB_chunk hpath fun heq => hinv.path (heq ▸ hpath)).symm.trans hs
      exact h
    | none =>
      by_cases hend : 0 < s.b.blockFromModem.length ∧ 3000 ≤ now - s.b.timeoutOp
      · obtain ⟨hpos, htime⟩ := hend
        obtain ⟨-, -, hwf⟩ := hinv.ended hspaced hpath hpos htime
        cases (step_pollB_end hpath hwf htime).symm.trans hs
        have hclient : s.b.blockToClient = [] := hpolled hpath hpos htime
        have hbefore : s.obtained = s.b.stored := by
          have hkept : s.obtained ++ s.slot = s.b.stored := h
          rwa [slot, if_pos hclient, List.append_nil] at hkept
        show s.obtained ++ (if s.b.blockFromModem = [] then [] else [s.b.blockFromModem]) = _
        rw [if_neg (List.length_pos_iff.mp hpos), hbefore]
      · cases (step_pollB_quiet hpath hend).symm.trans hs
        exact h
  | fetch tcp =>
    obtain ⟨-, -, -, -, -, hstored, hslot, hobtained⟩ := step_fetch hs hinv.ready
    unfold Kept
    rw [hslot, hobtained, hstored, List.append_nil]
    exact h

theorem run_inv (hm : Meets (step sys) Spaced (init : Relay κ) es)
    (hr : run (step sys) (init : Relay κ) es = some s) : Inv s :=
  run_invariant_of_meets (fun _ _ _ h hspaced hs => h.step hspaced hs) inv_init hm hr

theorem run_kept (hm : Meets (step sys) Spaced (init : Relay κ) es)
    (hp : Meets (step sys) Polled (init : Relay κ) es)
    (hr : run (step sys) (init : Relay κ) es = some s) : Kept s :=
  (run_invariant_of_meets (I := fun s => Inv s ∧ Kept s)
    (fun _ _ _ h hgood hs => ⟨h.1.step hgood.1 hs, h.2.step h.1 hgood.1 hgood.2 hs⟩)
    ⟨inv_init, rfl⟩ (meets_and hm hp) hr).2

/-! ## Nothing stays on its way -/

/-- How far the blocks accepted are from being stored. -/
def left (s : Relay κ) : Nat :=
  3 * (s.a.blockToModem.length - s.a.bytes.toNat) + (if s.path = none then 0 else 1) +
    (if s.inFlight = [] then 0 else 1)

/-- What A has not written decides, up to two steps. -/
theorem left_bounds : 3 * (s.a.blockToModem.length - s.a.bytes.toNat) ≤ s.left ∧
    s.left ≤ 3 * (s.a.blockToModem.length - s.a.bytes.toNat) + 2 := by
  unfold left
  constructor
  · omega
  · split
    · split
      · omega
      · omega
    · split
      · omega
      · omega

/-- A poll that brings a block nearer. -/
def Advances (sys : System) (s : Relay κ) (e : RelayEvent κ) (s' : Relay κ) : Prop :=
  Spaced s e ∧ step sys s e = some s' ∧ s'.accepted = s.accepted ∧ s'.left < s.left

theorem advances_pollA {n : Nat} (hspaced : Spaced s .pollA) (hn : s.a.bytes = n)
    (hlt : n < s.a.blockToModem.length) (hpath : s.path = none) :
    ∃ s', Advances sys s .pollA s' := by
  obtain ⟨k, hk, hle, hstep⟩ := @step_pollA _ sys s n hn hlt hpath
  refine ⟨_, hspaced, hstep, rfl, Nat.lt_of_le_of_lt left_bounds.2
    (Nat.lt_of_lt_of_le ?_ left_bounds.1)⟩
  rw [hn, Int.toNat_natCast]
  by_cases hwhole : n + k = s.a.blockToModem.length
  · simp only [if_pos hwhole, List.length_nil]
    omega
  · simp only [if_neg hwhole, Int.toNat_natCast]
    omega

/-- **While something is on its way, some poll brings it nearer.** -/
theorem Inv.advances (h : Inv s) (hrest : ¬ s.AtRest) : ∃ e s', Advances sys s e s' := by
  cases hpath : s.path with
  | some buf =>
    have hbuf : buf ≠ [] := fun heq => h.path (heq ▸ hpath)
    refine ⟨.pollB 0, _, fun hnone => ?_, step_pollB_chunk hpath hbuf, rfl, ?_⟩
    · rw [hpath] at hnone
      cases hnone
    · simp [left, inFlight, hpath, hbuf]
  | none =>
    have hflight := inFlight_of_path hpath
    cases h.phase with
    | idle hbytes hnone _ =>
      have hbuffer : s.b.blockFromModem = [] := hflight.symm.trans hnone
      have hpos : 0 < s.a.blockToModem.length :=
        List.length_pos_iff.mpr fun hmodem => hrest ⟨hmodem, hpath, hbuffer⟩
      exact ⟨_, advances_pollA (n := 0) (fun _ _ => hbuffer) hbytes hpos hpath⟩
    | writing n hbytes hpos hlt _ _ =>
      refine ⟨_, advances_pollA (fun _ hzero => ?_) hbytes hlt hpath⟩
      omega
    | written hbytes hsome haccepted =>
      rw [hflight] at hsome haccepted
      have hwf : WellFormed s.b.blockFromModem := (h.blocks _ (by rw [haccepted]; simp)).1
      refine ⟨.pollB (s.b.timeoutOp + 3000), _, fun _ _ _ => hbytes,
        step_pollB_end hpath hwf (by omega), rfl, ?_⟩
      simp [left, inFlight, hpath, hsome]

/-- The polls that are still needed, with nothing more submitted. -/
theorem Inv.comes_to_rest (h : Inv s) : ∃ es s', Meets (Relay.step sys) Spaced s es ∧
    run (Relay.step sys) s es = some s' ∧ s'.accepted = s.accepted ∧ s'.AtRest := by
  induction hn : s.left using Nat.strongRecOn generalizing s with
  | ind n ih =>
    by_cases hrest : s.AtRest
    · exact ⟨[], s, meets_nil, run_nil, rfl, hrest⟩
    · obtain ⟨e, t, hspaced, ht, haccepted, hlt⟩ := @Inv.advances _ sys s h hrest
      obtain ⟨es, s', hm, hr, heq, hrest'⟩ := ih _ (hn ▸ hlt) (h.step hspaced ht) rfl
      refine ⟨e :: es, s', meets_cons.mpr ⟨hspaced, fun t' ht' => ?_⟩, ?_, heq.trans haccepted,
        hrest'⟩
      · cases ht.symm.trans ht'
        exact hm
      · rw [run_cons ht, hr]

/-- **The blocks A accepts are the blocks B stores**, in order and unchanged, if the polls are
spaced: those stored are the first of those accepted, all of them when nothing is on its way, and
it always gets that far. A client that fetches in time has them all. -/
theorem run_stored (hm : Meets (step sys) Spaced (init : Relay κ) es)
    (hr : run (step sys) (init : Relay κ) es = some s) :
    s.b.stored <+: s.accepted ∧ (s.AtRest → s.b.stored = s.accepted) ∧
      (∃ es' s', Meets (step sys) Spaced s es' ∧ run (step sys) s es' = some s' ∧
        s'.accepted = s.accepted ∧ s'.b.stored = s.accepted) ∧
      (Meets (step sys) Polled (init : Relay κ) es → s.obtained ++ s.slot = s.b.stored) := by
  have hinv := run_inv hm hr
  refine ⟨hinv.phase.stored_prefix, hinv.phase.stored_eq, ?_, fun hp => run_kept hm hp hr⟩
  obtain ⟨es', s', hm', hr', haccepted, hrest⟩ := @Inv.comes_to_rest _ sys s hinv
  have hinv' : Inv s' :=
    run_invariant_of_meets (fun _ _ _ h hspaced hs => h.step hspaced hs) hinv hm' hr'
  exact ⟨es', s', hm', hr', haccepted, (hinv'.phase.stored_eq hrest).trans haccepted⟩

/-- Two blocks, three seconds of silence after each. -/
theorem run_stored_spaced : ∃ s, run (step System.bare) (init : Relay Unit)
      [.submit () [0, 4, 2, 65], .pollA, .pollB 10, .pollB 1000, .pollB 3010, .fetch (),
        .submit () [0, 5, 4, 1, 2], .pollA, .pollB 3020, .pollB 6020] = some s ∧
    (s.b.stored <+: s.accepted ∧ (s.AtRest → s.b.stored = s.accepted) ∧
      (∃ es' s', Meets (step System.bare) Spaced s es' ∧ run (step System.bare) s es' = some s' ∧
        s'.accepted = s.accepted ∧ s'.b.stored = s.accepted) ∧
      (Meets (step System.bare) Polled (init : Relay Unit)
        [.submit () [0, 4, 2, 65], .pollA, .pollB 10, .pollB 1000, .pollB 3010, .fetch (),
          .submit () [0, 5, 4, 1, 2], .pollA, .pollB 3020, .pollB 6020] →
        s.obtained ++ s.slot = s.b.stored)) :=
  exists_of_isSome (by decide +kernel) fun _ hr => run_stored (by decide +kernel) hr

/-- The second block is accepted as soon as the first is written. B takes the two for one block of
the wrong size and drops both. -/
theorem stored_not_accepted : ∃ s, run (step System.bare) (init : Relay Unit)
      [.submit () [0, 4, 2, 65], .pollA, .pollB 10, .submit () [0, 5, 4, 1, 2], .pollA, .pollB 20,
        .pollB 3020, .fetch ()] = some s ∧
    s.AtRest ∧ s.accepted = [[0, 4, 2, 65], [0, 5, 4, 1, 2]] ∧ s.b.stored = [] ∧
    s.obtained = [] := by
  decide +kernel

end Relay

end ModemFhss.Daemon
