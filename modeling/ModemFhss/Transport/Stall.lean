import ModemFhss.Library.Tally
import ModemFhss.Transport.Bookkeeping

/-!
# How long the two machines can fail

Both classes count failures by kind and give up, with `reset`, when one kind has happened
`MAX_ERRORS` times. `failure` is what a call of `operator ()` passes to `error`, if anything.

The counters are cleared by a valid packet or a `reset` only, so without either they add up: among
`n` kinds at most `2 * n` failures leave every counter below the limit, and the next one does not.
-/

namespace ModemFhss.Transport

open Machine

/-! ## The receiver -/

/-- The kinds of errors of the receiver. -/
def ReceiverError.kinds : Finset ReceiverError :=
  {.incorrectLength, .badFormat, .badType, .timeoutWaitData}

theorem ReceiverError.mem_kinds (err : ReceiverError) : err ∈ kinds := by
  cases err <;> decide

namespace ModemReceiver

/-- The error that the call passes to `error`. -/
def failure (r : ModemReceiver) (i : PollInput) : Option ReceiverError :=
  if r.state = .receiveData then
    match i.received with
    | some (p, packetSize) => checkData p packetSize
    | none => if i.timeStop - r.nTimeMs > maxWaitTime then some .timeoutWaitData else none
  else
    none

/-- The call is the failure that brings the counter of its kind to the limit. -/
def GivesUp (r : ModemReceiver) (i : PollInput) : Prop :=
  ∃ err ∈ r.failure i, r.errCounters err + 1 = maxErrors

instance (r : ModemReceiver) (i : PollInput) : Decidable (r.GivesUp i) :=
  match h : r.failure i with
  | none => isFalse (by simp [GivesUp, h])
  | some err => decidable_of_iff (r.errCounters err + 1 = maxErrors) (by simp [GivesUp, h])

/-- The call ends in `reset`: the receiver gives up, or the block is complete. -/
def Resets (r : ModemReceiver) (i : PollInput) : Prop := r.state = .processData ∨ r.GivesUp i

/-- The call receives no valid packet. -/
def TakesNone (r : ModemReceiver) (i : PollInput) : Prop :=
  r.state = .receiveData → ∀ p size, i.received = some (p, size) → checkData p size ≠ none

/-- The number of failures in a run. -/
def failures (r : ModemReceiver) (is : List PollInput) : Nat :=
  tally next (fun r i => (r.failure i).toList.length) r is

/-- Everything a transfer leaves behind is gone. -/
structure Cleared (r : ModemReceiver) : Prop where
  state : r.state = .listen
  stored : r.listReceivedPackets = []
  mask : r.pReceivedPacketsMask = []
  total : r.nTotalPackets = 0
  counters : ∀ err, r.errCounters err = 0

variable {r r' : ModemReceiver} {i : PollInput} {is : List PollInput} {err : ReceiverError}

theorem cleared_reset (r : ModemReceiver) : r.reset.Cleared := ⟨rfl, rfl, rfl, rfl, fun _ => rfl⟩

/-- At the limit `error` resets. -/
theorem error_limit (h : r.errCounters err + 1 = maxErrors) (t : Int) :
    (r.error err t).Cleared := by
  simp only [error, Function.update_self, if_pos h]
  exact cleared_reset _

/-- Below it `error` counts. -/
theorem errCounters_error (h : r.errCounters err + 1 ≠ maxErrors) (t : Int) :
    (r.error err t).errCounters = bump r.errCounters err := by
  simp only [error, Function.update_self, if_neg h]
  split <;> rfl

/-- What a call does to the counters. -/
theorem next_cases (h : r.next i = some r') :
    (∃ err, r.failure i = some err ∧ r' = r.error err i.timeStart) ∨
      r.failure i = none ∧
        (¬ r.TakesNone i ∧ (∀ err, r'.errCounters err = 0) ∨
          r.state = .processData ∧ r' = r.processData.reset ∨
          r.state ≠ .processData ∧ r'.errCounters = r.errCounters) := by
  obtain ⟨out, ev, hpolled⟩ := polled_of_next h
  unfold failure
  cases hpolled with
  | idle hst => simp [hst]
  | silent hst hrec => simp [hst]
  | badRTS hst hrec hcheck => simp [hst]
  | requested hst hrec hcheck => simp [hst, acceptRTS]
  | acknowledged hst => simp [hst]
  | badData hst hrec hcheck => simp [hst, hrec, hcheck]
  | @stored p size hst hrec hcheck hlt =>
    have hvalid : ¬ r.TakesNone i := fun hnone => hnone hst p size hrec hcheck
    obtain ⟨st, tm, heq, -⟩ := acceptData_cases r p i.timeStart
    refine .inr ⟨by simp [hst, hrec, hcheck], .inl ⟨hvalid, fun err => ?_⟩⟩
    simp only [heq, allOk]
  | late hst hrec hlate => simp [hst, hrec, hlate]
  | waiting hst hrec hlate => simp [hst, hrec, hlate]
  | processed hst => simp [hst]

/-- **The counters stay below the limit.** -/
theorem counters_lt_next (hr : ∀ err, r.errCounters err < maxErrors) (h : r.next i = some r')
    (err : ReceiverError) : r'.errCounters err < maxErrors := by
  have hzero : 0 < maxErrors := by decide
  rcases next_cases h with ⟨e, -, rfl⟩ | ⟨-, ⟨-, hc⟩ | ⟨-, rfl⟩ | ⟨-, hc⟩⟩
  · by_cases hlimit : r.errCounters e + 1 = maxErrors
    · rw [(error_limit hlimit _).counters]
      exact hzero
    · rw [errCounters_error hlimit]
      exact bump_lt hr hlimit err
  · rw [hc]
    exact hzero
  · exact hzero
  · rw [hc]
    exact hr err

/-- Without a valid packet and a `reset`, a call counts its failure and nothing else. -/
theorem counted_next (h : r.next i = some r') (hnone : r.TakesNone i) (hreset : ¬ r.Resets i) :
    counted ReceiverError.kinds r.errCounters + (r.failure i).toList.length ≤
      counted ReceiverError.kinds r'.errCounters := by
  rcases next_cases h with ⟨e, hfail, rfl⟩ | ⟨hfail, ⟨hvalid, -⟩ | ⟨hst, -⟩ | ⟨-, hc⟩⟩
  · have hlimit : r.errCounters e + 1 ≠ maxErrors := fun hl => hreset (.inr ⟨e, hfail, hl⟩)
    rw [errCounters_error hlimit, counted_bump (ReceiverError.mem_kinds e), hfail]
    exact Nat.le_refl _
  · exact absurd hnone hvalid
  · exact absurd (.inl hst) hreset
  · rw [hc, hfail]
    exact Nat.le_refl _

theorem cleared_of_resets (hreset : r.Resets i) (h : r.next i = some r') : r'.Cleared := by
  rcases next_cases h with ⟨e, hfail, rfl⟩ | ⟨hfail, hrest⟩
  · rcases hreset with hst | ⟨e', he', hlimit⟩
    · simp [failure, hst] at hfail
    · rw [hfail] at he'
      cases he'
      exact error_limit hlimit _
  · rcases hreset with hst | ⟨e', he', -⟩
    · rcases hrest with ⟨hvalid, -⟩ | ⟨-, rfl⟩ | ⟨hne, -⟩
      · exact absurd (fun hrec => by simp [hst] at hrec) hvalid
      · exact cleared_reset _
      · exact absurd hst hne
    · simp [hfail] at he'

/-- What the counters promise in a state: they are below the limit, nine failures without a valid
packet include a `reset`, and a `reset` leaves nothing behind. -/
structure Bounded (r : ModemReceiver) : Prop where
  counters_lt : ∀ err, r.errCounters err < maxErrors
  resets : ∀ is r', run next r is = some r' → Meets next TakesNone r is → 9 ≤ r.failures is →
    ∃ is₁ i is₂ t, is = is₁ ++ i :: is₂ ∧ run next r is₁ = some t ∧ t.Resets i ∧
      r.failures is₁ < 9
  cleared : ∀ i r', r.Resets i → r.next i = some r' → r'.Cleared

theorem bounded_of_counters_lt (hr : ∀ err, r.errCounters err < maxErrors) : r.Bounded where
  counters_lt := hr
  resets is r' hrun hm hnine := by
    have hheavy : ReceiverError.kinds.card * (maxErrors - 1) <
        counted ReceiverError.kinds r.errCounters + r.failures is := by
      have hcard : ReceiverError.kinds.card * (maxErrors - 1) = 8 := rfl
      omega
    obtain ⟨is₁, i, is₂, t, rfl, ht, -, hreset, hle⟩ :=
      exists_of_lt_tally (I := fun r => ∀ err, r.errCounters err < maxErrors)
        (G := fun r i => ¬ r.Resets i) (w := fun r => counted ReceiverError.kinds r.errCounters)
        (fun _ _ _ hlt hnone hreset h => ⟨counters_lt_next hlt h, counted_next h hnone hreset⟩)
        (fun _ hlt => counted_le hlt) hr hm hrun hheavy
    have hfew : counted ReceiverError.kinds r.errCounters + r.failures is₁ ≤ 8 := hle
    exact ⟨is₁, i, is₂, t, rfl, ht, not_not.mp hreset, by omega⟩
  cleared _ _ := cleared_of_resets

end ModemReceiver

/-! ## The sender -/

/-- The kinds of errors that the sender passes to `error`: all but `ERROR_BAD_TYPE`. -/
def SenderError.used : Finset SenderError := {.ackTimeout, .incorrectLength, .badFormat}

namespace ModemSender

/-- The error that the call passes to `error`, with its text. -/
def failure (s : ModemSender) (i : PollInput) : Option (SenderError × String) :=
  if s.state = .waitACK then
    match i.received with
    | some (p, packetSize) => s.checkAck p packetSize
    | none =>
      if i.timeStop - s.nTimeMs > maxWaitTime then
        some (.ackTimeout, "timeout over " ++ toString (i.timeStop - s.nTimeMs) ++ "ms")
      else
        none
  else
    none

/-- The call is the failure that brings the counter of its kind `err` to the limit. -/
def GivesUp (s : ModemSender) (i : PollInput) (err : SenderError) : Prop :=
  ∃ msg, s.failure i = some (err, msg) ∧ s.errCounters err + 1 = maxErrors

/-- The call ends in `reset`: everything is delivered, or the sender gives up. -/
def Resets (s : ModemSender) : Input → Prop
  | .hand _ => False
  | .poll i => (s.poll i).2.2 = .acked 0 ∨ ∃ err, s.GivesUp i err

/-- The call receives no valid packet. -/
def TakesNone (s : ModemSender) : Input → Prop
  | .hand _ => True
  | .poll i => s.state = .waitACK → ∀ p size, i.received = some (p, size) → s.checkAck p size ≠ none

/-- The failures of one call: one or none. -/
def failed (s : ModemSender) : Input → Nat
  | .hand _ => 0
  | .poll i => (s.failure i).toList.length

/-- The number of failures in a run. -/
def failures (s : ModemSender) (es : List Input) : Nat := tally step failed s es

/-- Everything a transfer leaves behind is gone. -/
structure Cleared (s : ModemSender) : Prop where
  state : s.state = .idle
  block : s.blockToModem = []
  mask : s.pReceivedPacketsMask = []
  total : s.nTotalPackets = 0
  idx : s.nCurrentIdx = 0
  acked : s.bIsRTSAcked = false
  counters : ∀ err, s.errCounters err = 0

variable {s s' : ModemSender} {i : PollInput} {e : Input} {err : SenderError} {msg : String}
  {p : Packet} {size : Nat} {t : Int}

theorem cleared_reset (s : ModemSender) : s.reset.Cleared :=
  ⟨rfl, rfl, rfl, rfl, rfl, rfl, fun _ => rfl⟩

/-- The checks name no other kinds. -/
theorem mem_used_of_checkAck (h : s.checkAck p size = some (err, msg)) :
    err ∈ SenderError.used := by
  simp only [checkAck] at h
  split at h
  · cases h; decide
  · split at h
    · cases h; decide
    · split at h
      · cases h; decide
      · split at h
        · cases h; decide
        · cases h

theorem mem_used_of_failure (h : s.failure i = some (err, msg)) : err ∈ SenderError.used := by
  unfold failure at h
  split at h
  · split at h
    · exact mem_used_of_checkAck h
    · split at h
      · cases h; decide
      · cases h
  · cases h

/-- At the limit `error` leaves a message, and resets. -/
theorem error_limit (h : s.errCounters err + 1 = maxErrors) (msg : String) (t : Int) :
    (s.error err msg t).Cleared ∧
      (s.error err msg t).strMessageToClient = errorMessage err msg := by
  simp only [error, Function.update_self, if_pos h]
  exact ⟨cleared_reset _, rfl⟩

/-- Below it `error` counts. -/
theorem error_below (h : s.errCounters err + 1 ≠ maxErrors) (msg : String) (t : Int) :
    (s.error err msg t).errCounters = bump s.errCounters err ∧
      (s.error err msg t).strMessageToClient = s.strMessageToClient := by
  simp only [error, Function.update_self, if_neg h]
  split <;> exact ⟨rfl, rfl⟩

theorem acceptAck_frame (s : ModemSender) (p : Packet) :
    (∀ err, (s.acceptAck p).errCounters err = 0) ∧
      (s.acceptAck p).strMessageToClient = s.strMessageToClient := by
  unfold acceptAck
  split <;> exact ⟨fun _ => rfl, rfl⟩

/-- What a call does to the counters and the message. -/
theorem poll_cases (s : ModemSender) (i : PollInput) :
    (∃ err msg, s.failure i = some (err, msg) ∧ (s.poll i).2.2 ≠ .acked 0 ∧
        (s.poll i).1 = s.error err msg i.timeStart) ∨
      s.failure i = none ∧
        (¬ s.TakesNone (.poll i) ∧
            (∃ p, (s.poll i).2.2 = .acked p.needPacketsCount ∧ (s.poll i).1 = s.acceptAck p) ∨
          (s.poll i).2.2 ≠ .acked 0 ∧ (s.poll i).1.errCounters = s.errCounters ∧
            (s.poll i).1.strMessageToClient = s.strMessageToClient) := by
  unfold failure
  cases hst : s.state with
  | idle =>
    refine .inr ⟨rfl, .inr ?_⟩
    simp only [poll, hst]
    split <;> exact ⟨SenderEvent.noConfusion, rfl, rfl⟩
  | sendRTS =>
    rw [poll_sendRTS hst]
    exact .inr ⟨rfl, .inr ⟨SenderEvent.noConfusion, rfl, rfl⟩⟩
  | waitACK =>
    rw [poll_waitACK hst, if_pos rfl]
    unfold waitACK
    cases hrec : i.received with
    | some x =>
      cases hcheck : s.checkAck x.1 x.2 with
      | some y => exact .inl ⟨y.1, y.2, hcheck, by simp [hcheck], by simp [hcheck]⟩
      | none =>
        have hvalid : ¬ s.TakesNone (.poll i) := fun hnone => hnone hst x.1 x.2 hrec hcheck
        exact .inr ⟨hcheck, .inl ⟨hvalid, x.1, by simp [hcheck], by simp [hcheck]⟩⟩
    | none =>
      dsimp only
      split
      · exact .inl ⟨_, _, rfl, SenderEvent.noConfusion, rfl⟩
      · exact .inr ⟨rfl, .inr ⟨SenderEvent.noConfusion, rfl, rfl⟩⟩
  | sendData =>
    refine .inr ⟨rfl, .inr ?_⟩
    rw [poll_sendData hst]
    simp only [sendNext]
    split <;> exact ⟨SenderEvent.noConfusion, rfl, rfl⟩

/-- **The counters stay below the limit.** -/
theorem counters_lt_step (hs : ∀ err, s.errCounters err < maxErrors) (h : s.step e = some s')
    (err : SenderError) : s'.errCounters err < maxErrors := by
  have hzero : 0 < maxErrors := by decide
  cases e with
  | hand b =>
    cases h
    exact hs err
  | poll i =>
    cases h
    rcases poll_cases s i with ⟨e, msg, -, -, heq⟩ | ⟨-, ⟨-, p, -, heq⟩ | ⟨-, hc, -⟩⟩
    · rw [heq]
      by_cases hlimit : s.errCounters e + 1 = maxErrors
      · rw [(error_limit hlimit _ _).1.counters]
        exact hzero
      · rw [(error_below hlimit _ _).1]
        exact bump_lt hs hlimit err
    · rw [heq, (acceptAck_frame s p).1]
      exact hzero
    · rw [hc]
      exact hs err

/-- Without a valid packet and a `reset`, a call counts its failure and nothing else. -/
theorem counted_step (h : s.step e = some s') (hnone : s.TakesNone e) (hreset : ¬ s.Resets e) :
    counted SenderError.used s.errCounters + s.failed e ≤
      counted SenderError.used s'.errCounters := by
  cases e with
  | hand b =>
    cases h
    exact Nat.le_refl _
  | poll i =>
    cases h
    show counted _ s.errCounters + (s.failure i).toList.length ≤
      counted _ (s.poll i).1.errCounters
    rcases poll_cases s i with ⟨e, msg, hfail, -, heq⟩ | ⟨hfail, ⟨hvalid, -⟩ | ⟨-, hc, -⟩⟩
    · have hlimit : s.errCounters e + 1 ≠ maxErrors :=
        fun hl => hreset (.inr ⟨e, msg, hfail, hl⟩)
      rw [heq, (error_below hlimit _ _).1, counted_bump (mem_used_of_failure hfail), hfail]
      exact Nat.le_refl _
    · exact absurd hnone hvalid
    · rw [hc, hfail]
      exact Nat.le_refl _

theorem cleared_of_resets (hreset : s.Resets (.poll i)) : (s.poll i).1.Cleared := by
  rcases poll_cases s i with ⟨e, msg, hfail, hne, heq⟩ | ⟨hfail, hrest⟩
  · rcases hreset with hack | ⟨e', msg', he', hlimit⟩
    · exact absurd hack hne
    · rw [hfail] at he'
      cases he'
      rw [heq]
      exact (error_limit hlimit _ _).1
  · rcases hreset with hack | ⟨e', msg', he', -⟩
    · rcases hrest with ⟨-, p, hev, heq⟩ | ⟨hne, -⟩
      · have hneed : p.needPacketsCount = 0 := by simpa using hev.symm.trans hack
        rw [heq, acceptAck, if_neg (Nat.not_lt.mpr (Nat.le_of_eq hneed))]
        exact cleared_reset _
      · exact absurd hack hne
    · rw [hfail] at he'
      cases he'

/-- The message is written when the sender gives up, and only then. -/
theorem message_cases (s : ModemSender) (i : PollInput) :
    (∃ err, s.GivesUp i err ∧ s.Resets (.poll i) ∧
        ∃ details, (s.poll i).1.strMessageToClient = err.message ++ details) ∨
      (∀ err, ¬ s.GivesUp i err) ∧
        (s.poll i).1.strMessageToClient = s.strMessageToClient := by
  rcases poll_cases s i with ⟨e, msg, hfail, -, heq⟩ | ⟨hfail, hrest⟩
  · rw [heq]
    by_cases hlimit : s.errCounters e + 1 = maxErrors
    · have hup : s.GivesUp i e := ⟨msg, hfail, hlimit⟩
      exact .inl ⟨e, hup, .inr ⟨e, hup⟩, _, (error_limit hlimit _ _).2⟩
    · refine .inr ⟨fun e' ⟨msg', he', hlimit'⟩ => ?_, (error_below hlimit _ _).2⟩
      rw [hfail] at he'
      cases he'
      exact hlimit hlimit'
  · refine .inr ⟨fun e' ⟨msg', he', _⟩ => by simp [hfail] at he', ?_⟩
    rcases hrest with ⟨-, p, -, heq⟩ | ⟨-, -, hmsg⟩
    · rw [heq, (acceptAck_frame s p).2]
    · exact hmsg

/-- What the counters promise in a state: they are below the limit, seven failures without a valid
packet include a `reset`, a `reset` leaves nothing behind, and the client is told of it when the
sender gives up, with the name of what it gave up for. -/
structure Bounded (s : ModemSender) : Prop where
  counters_lt : ∀ err, s.errCounters err < maxErrors
  resets : ∀ es s', run step s es = some s' → Meets step TakesNone s es → 7 ≤ s.failures es →
    ∃ es₁ e es₂ t, es = es₁ ++ e :: es₂ ∧ run step s es₁ = some t ∧ t.Resets e ∧
      s.failures es₁ < 7
  cleared : ∀ i, s.Resets (.poll i) → (s.poll i).1.Cleared
  message : ∀ i,
    (∃ err, s.GivesUp i err ∧ s.Resets (.poll i) ∧
        ∃ details, (s.poll i).1.strMessageToClient = err.message ++ details) ∨
      (∀ err, ¬ s.GivesUp i err) ∧
        (s.poll i).1.strMessageToClient = s.strMessageToClient

theorem bounded_of_counters_lt (hs : ∀ err, s.errCounters err < maxErrors) : s.Bounded where
  counters_lt := hs
  resets es s' hrun hm hseven := by
    have hheavy : SenderError.used.card * (maxErrors - 1) <
        counted SenderError.used s.errCounters + s.failures es := by
      have hcard : SenderError.used.card * (maxErrors - 1) = 6 := rfl
      omega
    obtain ⟨es₁, e, es₂, t, rfl, ht, -, hreset, hle⟩ :=
      exists_of_lt_tally (I := fun s => ∀ err, s.errCounters err < maxErrors)
        (G := fun s e => ¬ s.Resets e) (w := fun s => counted SenderError.used s.errCounters)
        (fun _ _ _ hlt hnone hreset h => ⟨counters_lt_step hlt h, counted_step h hnone hreset⟩)
        (fun _ hlt => counted_le hlt) hs hm hrun hheavy
    have hfew : counted SenderError.used s.errCounters + s.failures es₁ ≤ 6 := hle
    exact ⟨es₁, e, es₂, t, rfl, ht, not_not.mp hreset, by omega⟩
  cleared _ := cleared_of_resets
  message := message_cases s

end ModemSender

/-! ## Whole runs -/

/-- **Every stall is bounded**: whatever is received and whenever, the counters of both machines
keep their promises in every state reached. -/
theorem run_bounded {is : List PollInput} {es : List ModemSender.Input} {r : ModemReceiver}
    {s : ModemSender} (hr : run ModemReceiver.next .init is = some r)
    (hs : run ModemSender.step .init es = some s) : r.Bounded ∧ s.Bounded := by
  constructor
  · refine ModemReceiver.bounded_of_counters_lt ?_
    refine run_invariant (I := fun r => ∀ err, r.errCounters err < ModemReceiver.maxErrors)
      (fun _ _ _ hlt h => ModemReceiver.counters_lt_next hlt h) ?_ hr
    exact fun _ => (by decide : 0 < 3)
  · refine ModemSender.bounded_of_counters_lt ?_
    refine run_invariant (I := fun s => ∀ err, s.errCounters err < ModemSender.maxErrors)
      (fun _ _ _ hlt h => ModemSender.counters_lt_step hlt h) ?_ hs
    exact fun _ => (by decide : 0 < 3)

/-- An RTS, the ACK, and two timeouts with the ACK again after each. -/
def twoTimeouts : List PollInput :=
  ⟨some (rtsPacket 1 0), 0, 0, 0⟩ :: List.replicate 4 ⟨none, 2000, 0, 0⟩

theorem run_bounded_twoTimeouts :
    (∃ r, run ModemReceiver.next .init twoTimeouts = some r ∧ r.Bounded) ∧
      ∃ s, run ModemSender.step .init [.hand [7]] = some s ∧ s.Bounded := by
  have hsome : (run ModemReceiver.next .init twoTimeouts).isSome = true := by decide +kernel
  obtain ⟨r, hr⟩ := Option.isSome_iff_exists.mp hsome
  have hs : run ModemSender.step .init [.hand [7]] = some (ModemSender.init.hand [7]) := rfl
  exact ⟨⟨r, hr, (run_bounded hr hs).1⟩, _, hs, (run_bounded hr hs).2⟩

end ModemFhss.Transport
