import ModemFhss.Library.Log
import ModemFhss.Library.Machine
import ModemFhss.Net.Device

/-!
# Reading from the modem (`mfhssdrv_read`, `chrdrv_read`)

The receive interrupt sets a flag. A read waits for it, reads the length from the DMA register `DL`,
copies the DMA buffer to the caller and clears the flag. `wait_event_interruptible_timeout` returns
0 if the time is over and the flag is not set, a negative number if a signal comes while it is not
set, and a positive one otherwise; a read returns 0 after the first and goes on after either of the
others.

An interrupt can come between any two steps: the modem has then put a packet into the DMA buffer and
its length into `DL`. `history` records what happened; the drivers do not know it.
-/

namespace ModemFhss.CharDriver

open Machine Net

/-- In what the two drivers differ. -/
structure ReadDriver where
  /-- How long a call waits for a packet, in milliseconds. -/
  timeout : Nat
  /-- How much of a packet of `n` bytes is copied for a caller that asks for `count`. -/
  copyLen (n count : Nat) : Nat
  copyLen_le : ∀ n count, copyLen n count ≤ n

def mfhssdrvRead : ReadDriver where
  timeout := 1
  copyLen n count := if n ≤ count then n else count
  copyLen_le n count := by split <;> omega

def chrdrvRead : ReadDriver where
  timeout := 1000
  copyLen n _ := n
  copyLen_le n _ := Nat.le_refl n

inductive ReadPhase where
  | idle
  /-- In `wait_event_interruptible_timeout`. -/
  | waiting
  /-- Before `DL` is read. -/
  | woken
  /-- Before the buffer is copied. -/
  | sampled
  /-- Before the flag is cleared. -/
  | copied
  deriving DecidableEq

inductive ReadAction where
  | interrupt (packet : List UInt8)
  | call (count : Nat)
  /-- A signal ends the wait. -/
  | signal
  /-- The buffer is copied by a call that asks for `count` bytes and has read `n` from `DL`. -/
  | take (count n : Nat) (data : List UInt8)
  | ret (n : Nat)
  deriving DecidableEq

structure Reader where
  dstAddr : List UInt8
  dl : Nat
  rxInterrupt : Bool
  phase : ReadPhase
  count : Nat
  n : Nat
  history : List ReadAction

inductive ReadEvent where
  | read (count : Nat)
  /-- The next step of a call that does not wait. -/
  | next
  /-- The wait ends because the flag is set. -/
  | wake
  /-- The wait ends after this time, in milliseconds. -/
  | elapsed (ms : Nat)
  | signal
  | interrupt (packet : List UInt8)

namespace Reader

def init (dstAddr : List UInt8) : Reader where
  dstAddr
  dl := 0
  rxInterrupt := false
  phase := .idle
  count := 0
  n := 0
  history := []

def step (d : ReadDriver) (s : Reader) : ReadEvent → Option Reader
  | .read count =>
    if s.phase = .idle then
      some { s with phase := .waiting, count, history := s.history ++ [.call count] }
    else
      none
  | .next =>
    match s.phase with
    | .woken => some { s with phase := .sampled, n := s.dl }
    | .sampled =>
      some { s with
        phase := .copied
        history := s.history ++ [.take s.count s.n (s.dstAddr.take (d.copyLen s.n s.count))] }
    | .copied =>
      some { s with phase := .idle, rxInterrupt := false, history := s.history ++ [.ret s.n] }
    | .idle | .waiting => none
  | .wake =>
    if s.phase = .waiting ∧ s.rxInterrupt = true then some { s with phase := .woken } else none
  | .elapsed ms =>
    if s.phase = .waiting ∧ s.rxInterrupt = false ∧ d.timeout ≤ ms then
      some { s with phase := .idle, history := s.history ++ [.ret 0] }
    else
      none
  -- a negative result is not told from a positive one
  | .signal =>
    if s.phase = .waiting ∧ s.rxInterrupt = false then
      some { s with phase := .woken, history := s.history ++ [.signal] }
    else
      none
  | .interrupt packet =>
    some { s with
      dstAddr := memcpy s.dstAddr packet packet.length
      dl := packet.length
      rxInterrupt := true
      history := s.history ++ [.interrupt packet] }

end Reader

/-! ## What arrived and what was reported -/

/-- The last packet, if it arrived after the last copy. -/
def untaken (history : List ReadAction) : Option (List UInt8) :=
  history.foldl
    (fun packet a =>
      match a with
      | .interrupt packet => some packet
      | .take _ _ _ => none
      | .call _ | .signal | .ret _ => packet)
    none

/-- A length other than 0 is returned by a call that has copied a packet which arrived after the
copy before. -/
def NoPhantom (before : List ReadAction) (a : ReadAction) : Prop :=
  ∀ n, a = .ret n → n ≠ 0 → ∃ earlier count data later,
    before = earlier ++ .take count n data :: later ∧ (∀ count, .call count ∉ later) ∧
      untaken earlier ≠ none

/-- A call has copied the packet and returned its length. -/
def Reported (d : ReadDriver) (packet : List UInt8) (after : List ReadAction) : Prop :=
  ∃ first count during later,
    after = first ++ .take count packet.length (packet.take (d.copyLen packet.length count)) ::
      (during ++ .ret packet.length :: later) ∧
    ∀ count, .call count ∉ during

/-- Another packet came before anything was copied: the buffer has room for one. -/
def Replaced (after : List ReadAction) : Prop :=
  ∃ first packet later, after = first ++ .interrupt packet :: later ∧
    ∀ count n data, .take count n data ∉ first

/-- Whenever a packet arrived, and wherever the call was that went on then: when a call returns that
began later, the packet has been reported. -/
def NoLoss (d : ReadDriver) (before : List ReadAction) (a : ReadAction) : Prop :=
  ∀ n, a = .ret n → ∀ earlier packet after, before = earlier ++ .interrupt packet :: after →
    (∃ count, .call count ∈ after) → Reported d packet (after ++ [.ret n])

/-- The same but for a packet that another one has replaced. -/
def NoLossButReplaced (d : ReadDriver) (before : List ReadAction) (a : ReadAction) : Prop :=
  ∀ n, a = .ret n → ∀ earlier packet after, before = earlier ++ .interrupt packet :: after →
    (∃ count, .call count ∈ after) → Replaced after ∨ Reported d packet (after ++ [.ret n])

namespace Reader

/-- What a caller relies on. -/
structure Faithful (d : ReadDriver) (s : Reader) : Prop where
  noPhantom : Log.Always NoPhantom s.history
  noLoss : Log.Always (NoLossButReplaced d) s.history
  /-- A packet that waits is what the next call returns, which cannot run out of time. -/
  next : ∀ packet, s.phase = .idle → untaken s.history = some packet → ∀ count,
    ∃ s', run (step d) s [.read count, .wake, .next, .next, .next] = some s' ∧
      s'.history = s.history ++
        [.call count, .take count packet.length (packet.take (d.copyLen packet.length count)),
          .ret packet.length]

/-- No interrupt comes between the load of `DL` and the clearing of the flag, unless it comes before
the copy and its packet has the length that was loaded. And where a signal has ended the wait and no
interrupt has come since, `DL` is loaded while it is 0. -/
def InTurn (s : Reader) : ReadEvent → Prop
  | .interrupt packet => s.phase ≠ .copied ∧ (s.phase = .sampled → packet.length = s.n)
  | .next => s.phase = .woken → s.history.getLast? = some .signal → s.dl = 0
  | .read _ | .wake | .elapsed _ | .signal => True

instance : ∀ (s : Reader) (e : ReadEvent), Decidable (s.InTurn e)
  | s, .interrupt packet =>
    inferInstanceAs (Decidable (s.phase ≠ .copied ∧ (s.phase = .sampled → packet.length = s.n)))
  | s, .next =>
    inferInstanceAs
      (Decidable (s.phase = .woken → s.history.getLast? = some .signal → s.dl = 0))
  | _, .read _ | _, .wake | _, .elapsed _ | _, .signal => isTrue trivial

/-- Each interrupt finds the packet before it copied. -/
def Spaced (s : Reader) : ReadEvent → Prop
  | .interrupt _ => untaken s.history = none
  | .read _ | .next | .wake | .elapsed _ | .signal => True

instance : ∀ (s : Reader) (e : ReadEvent), Decidable (s.Spaced e)
  | s, .interrupt _ => inferInstanceAs (Decidable (untaken s.history = none))
  | _, .read _ | _, .next | _, .wake | _, .elapsed _ | _, .signal => isTrue trivial

end Reader

/-! ## The history, one action at a time -/

section History

variable {d : ReadDriver} {history after : List ReadAction} {packet data : List UInt8}
  {n count : Nat} {a : ReadAction}

@[simp] theorem untaken_interrupt :
    untaken (history ++ [.interrupt packet]) = some packet := by
  simp [untaken]

@[simp] theorem untaken_take : untaken (history ++ [.take count n data]) = none := by
  simp [untaken]

@[simp] theorem untaken_call : untaken (history ++ [.call count]) = untaken history := by
  simp [untaken]

@[simp] theorem untaken_signal : untaken (history ++ [.signal]) = untaken history := by
  simp [untaken]

@[simp] theorem untaken_ret : untaken (history ++ [.ret n]) = untaken history := by
  simp [untaken]

theorem Reported.concat (h : Reported d packet after) : Reported d packet (after ++ [a]) := by
  obtain ⟨first, count, during, later, rfl, hcall⟩ := h
  exact ⟨first, count, during, later ++ [a], by simp, hcall⟩

theorem Replaced.concat (h : Replaced after) : Replaced (after ++ [a]) := by
  obtain ⟨first, packet, later, rfl, htake⟩ := h
  exact ⟨first, packet, later ++ [a], by simp, htake⟩

/-- A packet is not accounted for where no other came and no copy has its length. -/
theorem not_reported_or_replaced (hinterrupt : ∀ packet, .interrupt packet ∉ after)
    (htake : ∀ count data, .take count packet.length data ∉ after ++ [.ret n]) :
    ¬ (Replaced after ∨ Reported d packet (after ++ [.ret n])) := by
  rintro (⟨first, other, later, rfl, -⟩ | ⟨first, count, during, later, heq, -⟩)
  · exact hinterrupt other (by simp)
  · refine htake count (packet.take (d.copyLen packet.length count)) ?_
    rw [heq]
    simp

theorem not_replaced_nil : ¬ Replaced [] := by
  rintro ⟨first, packet, later, heq, -⟩
  simp at heq

/-- Where a packet is replaced at the end of a history, it was not, and nothing was copied. -/
theorem Replaced.of_concat (h : Replaced (after ++ [a])) : Replaced after ∨
    (∃ packet, a = .interrupt packet) ∧ ∀ count n data, .take count n data ∉ after := by
  obtain ⟨first, packet, later, heq, htake⟩ := h
  rcases List.eq_nil_or_concat later with rfl | ⟨later, b, rfl⟩
  · obtain ⟨rfl, ha⟩ := List.append_inj' heq rfl
    cases ha
    exact .inr ⟨⟨packet, rfl⟩, htake⟩
  · rw [List.concat_eq_append, ← List.cons_append, ← List.append_assoc] at heq
    exact .inl ⟨first, packet, later, List.append_inj_left' heq rfl, htake⟩

/-- No packet is replaced, and where nothing has been copied since one came, one waits. -/
def Unreplaced (history : List ReadAction) : Prop :=
  Log.Since (fun a after => ∀ packet, a = .interrupt packet → ¬ Replaced after ∧
    ((∀ count n data, .take count n data ∉ after) → untaken history ≠ none)) history

theorem Unreplaced.concat (h : Unreplaced history)
    (ha : (∃ packet, a = .interrupt packet) → untaken history = none) :
    Unreplaced (history ++ [a]) := by
  refine Log.since_concat.mpr ⟨h.imp fun b after hb packet hpacket => ?_, fun packet hpacket => ?_⟩
  · obtain ⟨hnot, hwaits⟩ := hb packet hpacket
    refine ⟨fun hreplaced => ?_, fun htake => ?_⟩
    · rcases hreplaced.of_concat with hreplaced | ⟨hinterrupt, htake⟩
      · exact hnot hreplaced
      · exact hwaits htake (ha hinterrupt)
    · have hwaits' := hwaits fun count n data hmem =>
        htake count n data (List.mem_append_left _ hmem)
      cases a with
      | interrupt packet => simp
      | take count n data => exact absurd (by simp) (htake count n data)
      | call count => simpa using hwaits'
      | signal => simpa using hwaits'
      | ret n => simpa using hwaits'
  · subst hpacket
    exact ⟨not_replaced_nil, by simp⟩

theorem Unreplaced.noLoss (h : Unreplaced history)
    (hloss : Log.Always (NoLossButReplaced d) history) : Log.Always (NoLoss d) history := by
  intro before a later heq n hret earlier packet after hbefore hcall
  rcases hloss before a later heq n hret earlier packet after hbefore hcall with
    hreplaced | hreported
  · -- what is replaced before the return is replaced in the end
    obtain ⟨first, other, rest, rfl, htake⟩ := hreplaced
    refine absurd ⟨first, other, rest ++ a :: later, by simp, htake⟩
      (h earlier _ (first ++ .interrupt other :: rest ++ a :: later) ?_ packet rfl).1
    rw [heq, hbefore]
    simp
  · exact hreported

end History

/-! ## Interrupts in turn -/

namespace Reader

variable {d : ReadDriver} {s s' : Reader} {e : ReadEvent} {es : List ReadEvent}
  {dstAddr : List UInt8}

/-- What holds of the call that goes on, by where it is. -/
def Stage (s : Reader) : Prop :=
  match s.phase with
  | .idle | .waiting => s.rxInterrupt = (untaken s.history).isSome
  | .woken => s.rxInterrupt = (untaken s.history).isSome ∧
      (s.rxInterrupt = false → s.history.getLast? = some .signal)
  | .sampled => s.rxInterrupt = (untaken s.history).isSome ∧ s.n = s.dl ∧
      (s.n ≠ 0 → untaken s.history ≠ none)
  | .copied => untaken s.history = none ∧
      ∃ earlier data, s.history = earlier ++ [.take s.count s.n data] ∧
        (s.n ≠ 0 → untaken earlier ≠ none)

/-- What has come of a packet: another has replaced it, it has been reported, it still waits, or it
is copied and about to be returned. -/
def Kept (d : ReadDriver) (s : Reader) (packet : List UInt8) (after : List ReadAction) : Prop :=
  (Replaced after ∨ Reported d packet after) ∨
  (untaken s.history = some packet ∧ ∀ count n data, .take count n data ∉ after) ∨
  s.phase = .copied ∧ s.n = packet.length ∧ ∃ first count,
    after = first ++ [.take count packet.length (packet.take (d.copyLen packet.length count))]

structure Inv (d : ReadDriver) (s : Reader) : Prop where
  noPhantom : Log.Always NoPhantom s.history
  noLoss : Log.Always (NoLossButReplaced d) s.history
  /-- What the modem has put down for the driver. -/
  present : ∀ packet, untaken s.history = some packet →
    s.dl = packet.length ∧ s.dstAddr.take packet.length = packet
  kept : Log.Since (fun a after => ∀ packet, a = .interrupt packet → s.Kept d packet after)
    s.history
  stage : s.Stage

theorem Inv.kept_of_eq {earlier after : List ReadAction} {packet : List UInt8} (h : s.Inv d)
    (heq : s.history = earlier ++ .interrupt packet :: after) : s.Kept d packet after :=
  h.kept earlier _ after heq packet rfl

theorem Kept.of_eq {packet : List UInt8} {after : List ReadAction} (h : s.Kept d packet after)
    (hphase : s.phase ≠ .copied) (hhistory : s'.history = s.history) :
    s'.Kept d packet after := by
  rcases h with hsettled | hwaits | ⟨hcopied, -⟩
  · exact .inl hsettled
  · exact .inr (.inl (hhistory ▸ hwaits))
  · exact absurd hcopied hphase

/-- What an action that is neither a packet nor a copy leaves of a packet. -/
theorem Kept.concat {packet : List UInt8} {after : List ReadAction} {a : ReadAction}
    (h : s.Kept d packet after) (hphase : s.phase ≠ .copied)
    (huntaken : untaken s'.history = untaken s.history)
    (htake : ∀ count n data, a ≠ .take count n data) : s'.Kept d packet (after ++ [a]) := by
  rcases h with (hreplaced | hreported) | ⟨hwaits, hnone⟩ | ⟨hcopied, -⟩
  · exact .inl (.inl hreplaced.concat)
  · exact .inl (.inr hreported.concat)
  · refine .inr (.inl ⟨huntaken.trans hwaits, fun count n data hmem => ?_⟩)
    rcases List.mem_append.mp hmem with hmem | hmem
    · exact hnone count n data hmem
    · exact htake count n data (List.mem_singleton.mp hmem).symm
  · exact absurd hcopied hphase

/-- A step that neither brings a packet nor copies one. -/
theorem Inv.concat {a : ReadAction} (h : s.Inv d) (hphase : s.phase ≠ .copied)
    (hhistory : s'.history = s.history ++ [a]) (hdl : s'.dl = s.dl) (hdst : s'.dstAddr = s.dstAddr)
    (hinterrupt : ∀ packet, a ≠ .interrupt packet) (htake : ∀ count n data, a ≠ .take count n data)
    (hphantom : NoPhantom s.history a) (hloss : NoLossButReplaced d s.history a)
    (hstage : s'.Stage) : s'.Inv d := by
  have huntaken : untaken s'.history = untaken s.history := by
    rw [hhistory]
    cases a with
    | interrupt packet => exact absurd rfl (hinterrupt packet)
    | take count n data => exact absurd rfl (htake count n data)
    | call count => exact untaken_call
    | signal => exact untaken_signal
    | ret n => exact untaken_ret
  refine ⟨?_, ?_, ?_, ?_, hstage⟩
  · rw [hhistory]
    exact Log.always_concat.mpr ⟨h.noPhantom, hphantom⟩
  · rw [hhistory]
    exact Log.always_concat.mpr ⟨h.noLoss, hloss⟩
  · rw [huntaken, hdl, hdst]
    exact h.present
  · rw [hhistory]
    refine Log.since_concat.mpr ⟨h.kept.imp fun b after hkept packet hb => ?_, fun packet ha => ?_⟩
    · exact (hkept packet hb).concat hphase huntaken htake
    · exact absurd ha (hinterrupt packet)

theorem stage_interrupt {packet : List UInt8} (hphase : s.phase ≠ .copied)
    (hlen : s.phase = .sampled → packet.length = s.n) :
    Stage { s with
      dstAddr := memcpy s.dstAddr packet packet.length
      dl := packet.length
      rxInterrupt := true
      history := s.history ++ [.interrupt packet] } := by
  cases hp : s.phase with
  | idle => simp [Stage]
  | waiting => simp [Stage]
  | woken => simp [Stage]
  | sampled => simp [Stage, hlen hp]
  | copied => exact absurd hp hphase

theorem Inv.interrupt {packet : List UInt8} (h : s.Inv d) (hturn : s.InTurn (.interrupt packet))
    (hs : step d s (.interrupt packet) = some s') : s'.Inv d := by
  obtain ⟨hphase, hlen⟩ := hturn
  simp only [step] at hs
  cases hs
  have hfirst : (memcpy s.dstAddr packet packet.length).take packet.length = packet := by
    rw [take_memcpy (Nat.le_refl _), List.take_length]
  exact
    { noPhantom := Log.always_concat.mpr ⟨h.noPhantom, by simp [NoPhantom]⟩
      noLoss := Log.always_concat.mpr ⟨h.noLoss, by simp [NoLossButReplaced]⟩
      present := by
        intro other hother
        rw [untaken_interrupt] at hother
        cases hother
        exact ⟨rfl, hfirst⟩
      kept := by
        refine Log.since_concat.mpr ⟨h.kept.imp fun b after hkept other hb => ?_, ?_⟩
        · rcases hkept other hb with (hreplaced | hreported) | ⟨-, hnone⟩ | ⟨hcopied, -⟩
          · exact .inl (.inl hreplaced.concat)
          · exact .inl (.inr hreported.concat)
          · exact .inl (.inl ⟨after, packet, [], rfl, hnone⟩)
          · exact absurd hcopied hphase
        · intro other ha
          cases ha
          exact .inr (.inl ⟨untaken_interrupt, by simp⟩)
      stage := stage_interrupt hphase hlen }

theorem Inv.read {count : Nat} (h : s.Inv d) (hs : step d s (.read count) = some s') :
    s'.Inv d := by
  simp only [step] at hs
  split at hs
  next hidle =>
    cases hs
    have hstage := h.stage
    simp only [Stage, hidle] at hstage
    exact h.concat (by simp [hidle]) rfl rfl rfl (by simp) (by simp) (by simp [NoPhantom])
      (by simp [NoLossButReplaced]) (by simpa [Stage] using hstage)
  · cases hs

theorem Inv.wake (h : s.Inv d) (hs : step d s .wake = some s') : s'.Inv d := by
  simp only [step] at hs
  split at hs
  next hwait =>
    cases hs
    obtain ⟨hphase, hset⟩ := hwait
    have hstage := h.stage
    simp only [Stage, hphase] at hstage
    refine { h with kept := h.kept.imp fun b after hkept packet hb => ?_, stage := ?_ }
    · exact (hkept packet hb).of_eq (by simp [hphase]) rfl
    · exact ⟨hstage, fun hunset => by simp [hset] at hunset⟩
  · cases hs

theorem Inv.signal (h : s.Inv d) (hs : step d s .signal = some s') : s'.Inv d := by
  simp only [step] at hs
  split at hs
  next hwait =>
    cases hs
    obtain ⟨hphase, -⟩ := hwait
    have hstage := h.stage
    simp only [Stage, hphase] at hstage
    exact h.concat (by simp [hphase]) rfl rfl rfl (by simp) (by simp) (by simp [NoPhantom])
      (by simp [NoLossButReplaced]) (by simpa [Stage] using hstage)
  · cases hs

/-- Where nothing waits and nothing is about to be returned, each packet has been seen to. -/
theorem Inv.settled {earlier after : List ReadAction} {packet : List UInt8} (h : s.Inv d)
    (hnone : untaken s.history = none) (hphase : s.phase ≠ .copied)
    (heq : s.history = earlier ++ .interrupt packet :: after) :
    Replaced after ∨ Reported d packet after := by
  rcases h.kept_of_eq heq with hsettled | ⟨hwaits, -⟩ | ⟨hcopied, -⟩
  · exact hsettled
  · simp [hnone] at hwaits
  · exact absurd hcopied hphase

theorem Inv.elapsed {ms : Nat} (h : s.Inv d) (hs : step d s (.elapsed ms) = some s') :
    s'.Inv d := by
  simp only [step] at hs
  split at hs
  next hwait =>
    cases hs
    obtain ⟨hphase, hunset, -⟩ := hwait
    have hstage := h.stage
    simp only [Stage, hphase] at hstage
    have hnone : untaken s.history = none := by
      rw [hunset, eq_comm, Option.isSome_eq_false_iff, Option.isNone_iff_eq_none] at hstage
      exact hstage
    refine h.concat (by simp [hphase]) rfl rfl rfl (by simp) (by simp) ?_ ?_
      (by simpa [Stage] using hstage)
    · intro n hret hpos
      cases hret
      exact absurd rfl hpos
    · intro n hret earlier packet after heq _
      exact (h.settled hnone (by simp [hphase]) heq).imp_right Reported.concat
  · cases hs

/-- `DL` is loaded. -/
theorem Inv.sample (h : s.Inv d) (hphase : s.phase = .woken) (hturn : s.InTurn .next) :
    Inv d { s with phase := .sampled, n := s.dl } := by
  have hstage := h.stage
  simp only [Stage, hphase] at hstage
  obtain ⟨hflag, hsignal⟩ := hstage
  refine { h with kept := h.kept.imp fun b after hkept packet hb => ?_, stage := ?_ }
  · exact (hkept packet hb).of_eq (by simp [hphase]) rfl
  · refine ⟨hflag, rfl, fun hpos => ?_⟩
    -- the flag is set, or the signal that has ended the wait was the last that happened
    cases hset : s.rxInterrupt with
    | true =>
      rw [hset, eq_comm, Option.isSome_iff_ne_none] at hflag
      exact hflag
    | false => exact absurd (hturn hphase (hsignal hset)) hpos

theorem Inv.present_take {packet : List UInt8} (h : s.Inv d)
    (hwaits : untaken s.history = some packet) (count : Nat) :
    s.dstAddr.take (d.copyLen packet.length count) =
      packet.take (d.copyLen packet.length count) := by
  obtain ⟨-, hdata⟩ := h.present packet hwaits
  have hle := d.copyLen_le packet.length count
  calc s.dstAddr.take (d.copyLen packet.length count)
      = (s.dstAddr.take packet.length).take (d.copyLen packet.length count) := by
        rw [List.take_take, Nat.min_eq_left hle]
    _ = packet.take (d.copyLen packet.length count) := by rw [hdata]

theorem Inv.take (h : s.Inv d) (hphase : s.phase = .sampled) :
    Inv d { s with
      phase := .copied
      history := s.history ++ [.take s.count s.n (s.dstAddr.take (d.copyLen s.n s.count))] } := by
  have hstage := h.stage
  simp only [Stage, hphase] at hstage
  obtain ⟨-, hn, hfound⟩ := hstage
  exact
    { noPhantom := Log.always_concat.mpr ⟨h.noPhantom, by simp [NoPhantom]⟩
      noLoss := Log.always_concat.mpr ⟨h.noLoss, by simp [NoLossButReplaced]⟩
      present := by simp
      kept := by
        refine Log.since_concat.mpr ⟨h.kept.imp fun b after hkept packet hb => ?_, by simp⟩
        rcases hkept packet hb with (hreplaced | hreported) | ⟨hwaits, -⟩ | ⟨hcopied, -⟩
        · exact .inl (.inl hreplaced.concat)
        · exact .inl (.inr hreported.concat)
        · have hlen : s.n = packet.length := hn.trans (h.present packet hwaits).1
          refine .inr (.inr ⟨rfl, hlen, after, s.count, ?_⟩)
          rw [hlen, h.present_take hwaits]
        · exact absurd hcopied (by simp [hphase])
      stage := ⟨untaken_take, s.history, _, rfl, hfound⟩ }

/-- The flag is cleared, and the call returns. -/
theorem Inv.clear (h : s.Inv d) (hphase : s.phase = .copied) :
    Inv d { s with phase := .idle, rxInterrupt := false, history := s.history ++ [.ret s.n] } := by
  have hstage := h.stage
  simp only [Stage, hphase] at hstage
  obtain ⟨hnone, earlier, data, hlast, hfound⟩ := hstage
  have hseen : ∀ packet after, s.Kept d packet after →
      Replaced after ∨ Reported d packet (after ++ [.ret s.n]) := by
    rintro packet after ((hreplaced | hreported) | ⟨hwaits, -⟩ | ⟨-, hlen, first, count, rfl⟩)
    · exact .inl hreplaced
    · exact .inr hreported.concat
    · simp [hnone] at hwaits
    · exact .inr ⟨first, count, [], [], by simp [hlen], by simp⟩
  exact
    { noPhantom := by
        refine Log.always_concat.mpr ⟨h.noPhantom, fun n hret hpos => ?_⟩
        cases hret
        exact ⟨earlier, s.count, data, [], hlast, by simp, hfound hpos⟩
      noLoss := by
        refine Log.always_concat.mpr ⟨h.noLoss, fun n hret => ?_⟩
        cases hret
        intro earlier packet after heq _
        exact hseen packet after (h.kept_of_eq heq)
      present := by simp [hnone]
      kept := by
        refine Log.since_concat.mpr ⟨h.kept.imp fun b after hkept packet hb => ?_, by simp⟩
        exact .inl ((hseen packet after (hkept packet hb)).imp_left Replaced.concat)
      stage := by simp [Stage, hnone] }

theorem Inv.next (h : s.Inv d) (hturn : s.InTurn .next) (hs : step d s .next = some s') :
    s'.Inv d := by
  simp only [step] at hs
  split at hs
  next hphase =>
    cases hs
    exact h.sample hphase hturn
  next hphase =>
    cases hs
    exact h.take hphase
  next hphase =>
    cases hs
    exact h.clear hphase
  · cases hs
  · cases hs

theorem Inv.step (h : s.Inv d) (hturn : s.InTurn e) (hs : Reader.step d s e = some s') :
    s'.Inv d := by
  cases e with
  | read count => exact h.read hs
  | next => exact h.next hturn hs
  | wake => exact h.wake hs
  | elapsed ms => exact h.elapsed hs
  | signal => exact h.signal hs
  | interrupt packet => exact h.interrupt hturn hs

theorem inv_init : (init dstAddr).Inv d where
  noPhantom := Log.always_nil
  noLoss := Log.always_nil
  present := fun _ hpacket => by cases hpacket
  kept := Log.since_nil
  stage := rfl

theorem Inv.faithful (h : s.Inv d) : s.Faithful d where
  noPhantom := h.noPhantom
  noLoss := h.noLoss
  next := by
    intro packet hidle hwaits count
    have hstage := h.stage
    simp only [Stage, hidle, hwaits, Option.isSome_some] at hstage
    have hdl := (h.present packet hwaits).1
    refine ⟨_, by simp [run, Reader.step, hidle, hstage]; rfl, ?_⟩
    simp [hdl, h.present_take hwaits]

/-! ## Packets that do not replace each other -/

theorem history_step (hs : step d s e = some s') : s'.history = s.history ∨
    ∃ a, s'.history = s.history ++ [a] ∧
      ((∃ packet, a = .interrupt packet) → ∃ packet, e = .interrupt packet) := by
  cases e with
  | interrupt packet =>
    simp only [step] at hs
    cases hs
    exact .inr ⟨_, rfl, fun _ => ⟨packet, rfl⟩⟩
  | next =>
    simp only [step] at hs
    split at hs
    · cases hs; exact .inl rfl
    · cases hs; exact .inr ⟨_, rfl, by simp⟩
    · cases hs; exact .inr ⟨_, rfl, by simp⟩
    · cases hs
    · cases hs
  | read count =>
    simp only [step] at hs
    split at hs
    · cases hs; exact .inr ⟨_, rfl, by simp⟩
    · cases hs
  | wake =>
    simp only [step] at hs
    split at hs
    · cases hs; exact .inl rfl
    · cases hs
  | elapsed ms =>
    simp only [step] at hs
    split at hs
    · cases hs; exact .inr ⟨_, rfl, by simp⟩
    · cases hs
  | signal =>
    simp only [step] at hs
    split at hs
    · cases hs; exact .inr ⟨_, rfl, by simp⟩
    · cases hs

theorem unreplaced_step (h : Unreplaced s.history) (hspaced : s.Spaced e)
    (hs : step d s e = some s') : Unreplaced s'.history := by
  rcases history_step hs with heq | ⟨a, heq, hevent⟩
  · rwa [heq]
  · rw [heq]
    refine h.concat fun hinterrupt => ?_
    obtain ⟨packet, rfl⟩ := hevent hinterrupt
    exact hspaced

theorem run_unreplaced (hr : run (step d) (init dstAddr) es = some s)
    (hspaced : Meets (step d) Spaced (init dstAddr) es) : Unreplaced s.history :=
  have hinit : Unreplaced (init dstAddr).history := Log.since_nil
  run_invariant_of_meets (I := fun s => Unreplaced s.history)
    (fun _ _ _ h hg hs => unreplaced_step h hg hs) hinit hspaced hr

/-- **Nothing lost and nothing made up, if the interrupts come in turn**: in every run whose steps
all keep to the condition, with waits that end in any of the three ways. No packet at all is lost if
besides each interrupt finds the packet before it copied. -/
theorem run_noneLost (hr : run (step d) (init dstAddr) es = some s)
    (hturn : Meets (step d) InTurn (init dstAddr) es) :
    s.Faithful d ∧
      (Meets (step d) Spaced (init dstAddr) es → Log.Always (NoLoss d) s.history) := by
  have h := (run_invariant_of_meets (fun _ _ _ h hg hs => h.step hg hs) inv_init hturn hr).faithful
  exact ⟨h, fun hspaced => (run_unreplaced hr hspaced).noLoss h.noLoss⟩

/-- A read that times out, one that a packet ends, and one that a signal ends just before the next
packet comes. -/
def threeReads : List ReadEvent :=
  [.read 1024, .elapsed 1, .interrupt [1, 2], .read 1024, .wake, .next, .next, .next,
    .read 1024, .signal, .interrupt [3], .next, .next, .next]

theorem run_noneLost_threeReads :
    ∃ s, run (step mfhssdrvRead) (init []) threeReads = some s ∧
      s.Faithful mfhssdrvRead ∧ Log.Always (NoLoss mfhssdrvRead) s.history :=
  exists_of_isSome (by decide +kernel) fun _ hr =>
    have h := run_noneLost hr (by decide +kernel)
    ⟨h.1, h.2 (by decide +kernel)⟩

/-- The second packet comes between the copy of the first and the clearing of the flag. -/
def erased : List ReadEvent :=
  [.read 1024, .interrupt [1], .wake, .next, .next, .interrupt [2], .next,
    .read 1024, .elapsed 1]

/-- Between the load of `DL` for the second packet and the copy a longer one comes. -/
def outgrown : List ReadEvent :=
  [.interrupt [1], .read 1024, .wake, .next, .next, .next, .read 1024, .interrupt [2], .wake, .next,
    .interrupt [3, 4, 5], .next, .next, .read 1024, .elapsed 1]

/-- A signal ends the wait for a second packet. -/
def phantom : List ReadEvent :=
  [.interrupt [1], .read 1024, .wake, .next, .next, .next,
    .read 1024, .signal, .next, .next, .next]

theorem erased_phantom_not_faithful :
    (∃ s, run (step mfhssdrvRead) (init []) erased = some s ∧ ¬ s.Faithful mfhssdrvRead) ∧
      (∃ s, run (step mfhssdrvRead) (init []) outgrown = some s ∧ ¬ s.Faithful mfhssdrvRead) ∧
      ∃ s, run (step mfhssdrvRead) (init []) phantom = some s ∧ ¬ s.Faithful mfhssdrvRead := by
  have herased : ∃ s, run (step mfhssdrvRead) (init []) erased = some s ∧
      s.history =
        [.call 1024, .interrupt [1], .take 1024 1 [1], .interrupt [2], .ret 1, .call 1024] ++
          [.ret 0] := by
    decide +kernel
  have houtgrown : ∃ s, run (step mfhssdrvRead) (init []) outgrown = some s ∧
      s.history =
        [.interrupt [1], .call 1024, .take 1024 1 [1], .ret 1, .call 1024, .interrupt [2],
          .interrupt [3, 4, 5], .take 1024 1 [3], .ret 1, .call 1024] ++ [.ret 0] := by
    decide +kernel
  have hphantom : ∃ s, run (step mfhssdrvRead) (init []) phantom = some s ∧
      s.history =
        [.interrupt [1], .call 1024, .take 1024 1 [1], .ret 1, .call 1024, .signal,
          .take 1024 1 [1]] ++ [.ret 1] := by
    decide +kernel
  obtain ⟨s, hs, hlost⟩ := herased
  obtain ⟨s', hs', hgrown⟩ := houtgrown
  obtain ⟨s'', hs'', hmade⟩ := hphantom
  refine ⟨⟨s, hs, fun h => ?_⟩, ⟨s', hs', fun h => ?_⟩, s'', hs'', fun h => ?_⟩
  · refine (not_reported_or_replaced ?_ ?_) (h.noLoss _ _ _ hlost 0 rfl
      [.call 1024, .interrupt [1], .take 1024 1 [1]] [2] [.ret 1, .call 1024] rfl ⟨1024, by simp⟩)
    · simp
    · simp
  · refine (not_reported_or_replaced ?_ ?_) (h.noLoss _ _ _ hgrown 0 rfl
      [.interrupt [1], .call 1024, .take 1024 1 [1], .ret 1, .call 1024, .interrupt [2]] [3, 4, 5]
      [.take 1024 1 [3], .ret 1, .call 1024] rfl ⟨1024, by simp⟩)
    · simp
    · simp
  · obtain ⟨earlier, count, data, later, heq, hlater, huntaken⟩ :=
      h.noPhantom _ _ _ hmade 1 rfl (by decide)
    have hcut : later = [.ret 1, .call 1024, .signal, .take 1024 1 [1]] ∨
        earlier = [.interrupt [1], .call 1024, .take 1024 1 [1], .ret 1, .call 1024, .signal] := by
      simp only [List.cons_eq_append_iff, List.nil_eq_append_iff] at heq
      grind
    rcases hcut with rfl | rfl
    · exact hlater 1024 (by simp)
    · exact huntaken rfl

end Reader

end ModemFhss.CharDriver
