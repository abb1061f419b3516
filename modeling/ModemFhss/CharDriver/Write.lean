import Mathlib.Algebra.Order.Ring.Nat
import ModemFhss.Library.Log
import ModemFhss.Library.Machine
import ModemFhss.Net.Device

/-!
# Writing to the modem (`mfhssdrv_write`, `chrdrv_write`)

Both drivers copy at most a DMA buffer's worth of the caller's data, start the transfer and wait for
the flag that the transmit interrupt sets: `wait_event_interruptible_timeout` returns 0 if the time
is over and the flag is not set, a negative number if a signal comes while it is not set, and a
positive one otherwise. They return 0 after the first, clear the flag and return the number of bytes
after either of the others. The flag is not cleared before a transfer is started.

An interrupt can come between any two steps. Each belongs to a transfer, and transfers end in the
order in which they were started; what a transfer puts on the air is what the buffer holds when it
ends. `history` records what happened, each call under its number; the drivers do not know it.
-/

namespace ModemFhss.CharDriver

open Machine Net

/-- In what the two drivers differ. -/
structure WriteDriver where
  /-- The length of the DMA source buffer. -/
  dmaSize : Nat
  /-- How long a call waits for its interrupt, in milliseconds. -/
  timeout : Nat

def mfhssdrvWrite : WriteDriver := ⟨1024, 2000⟩

def chrdrvWrite : WriteDriver := ⟨1024, 1000⟩

inductive WritePhase where
  | idle
  /-- Before `SL` is written. -/
  | copied
  /-- Before `CR` is written. -/
  | sized
  /-- In `wait_event_interruptible_timeout`. -/
  | waiting
  /-- Before the flag is cleared. -/
  | woken
  deriving DecidableEq

inductive WriteAction where
  /-- `copy_from_user` writes to the DMA source buffer. -/
  | copy (call : Nat)
  | start (call : Nat)
  /-- The transfer of a call is over, and this was on the air. -/
  | interrupt (call : Nat) (data : List UInt8)
  | ret (call : Nat) (ubuff : List UInt8) (count : Nat)
  deriving DecidableEq

structure Writer where
  srcAddr : List UInt8
  sl : Nat
  txInterrupt : Bool
  phase : WritePhase
  /-- The number of the call that goes on, or of the next one. -/
  call : Nat
  ubuff : List UInt8
  count : Nat
  /-- The transfers that are not over: the call and the length of each. -/
  outstanding : List (Nat × Nat)
  history : List WriteAction

inductive WriteEvent where
  | write (ubuff : List UInt8)
  /-- The next step of a call that does not wait. -/
  | next
  /-- The wait ends because the flag is set. -/
  | wake
  /-- The wait ends after this time, in milliseconds. -/
  | elapsed (ms : Nat)
  | signal
  | interrupt

namespace Writer

def init (d : WriteDriver) : Writer where
  srcAddr := List.replicate d.dmaSize 0
  sl := 0
  txInterrupt := false
  phase := .idle
  call := 0
  ubuff := []
  count := 0
  outstanding := []
  history := []

/-- The call returns. -/
def ret (s : Writer) (count : Nat) : Writer :=
  { s with
    phase := .idle
    call := s.call + 1
    history := s.history ++ [.ret s.call s.ubuff count] }

def step (d : WriteDriver) (s : Writer) : WriteEvent → Option Writer
  | .write ubuff =>
    if s.phase = .idle then
      let count := min ubuff.length d.dmaSize
      some { s with
        srcAddr := memcpy s.srcAddr ubuff count
        phase := .copied
        ubuff
        count
        history := s.history ++ [.copy s.call] }
    else
      none
  | .next =>
    match s.phase with
    | .copied => some { s with sl := s.count, phase := .sized }
    | .sized =>
      some { s with
        phase := .waiting
        outstanding := s.outstanding ++ [(s.call, s.sl)]
        history := s.history ++ [.start s.call] }
    | .woken => some ({ s with txInterrupt := false }.ret s.count)
    | .idle | .waiting => none
  | .wake =>
    if s.phase = .waiting ∧ s.txInterrupt = true then some { s with phase := .woken } else none
  | .elapsed ms =>
    if s.phase = .waiting ∧ s.txInterrupt = false ∧ d.timeout ≤ ms then some (s.ret 0) else none
  -- a negative result is not told from a positive one
  | .signal =>
    if s.phase = .waiting ∧ s.txInterrupt = false then some { s with phase := .woken } else none
  | .interrupt =>
    match s.outstanding with
    | [] => none
    | (k, len) :: outstanding =>
      some { s with
        txInterrupt := true
        outstanding
        history := s.history ++ [.interrupt k (s.srcAddr.take len)] }

end Writer

/-! ## What was written and what was sent -/

/-- What was on the air. -/
def sent (history : List WriteAction) : List UInt8 :=
  (history.map fun
    | .interrupt _ data => data
    | _ => []).flatten

/-- The calls that returned: the data they got, and what they returned. -/
def returned (history : List WriteAction) : List (List UInt8 × Nat) :=
  history.filterMap fun
    | .ret _ ubuff count => some (ubuff, count)
    | _ => none

/-- What the calls say was written. -/
def written (calls : List (List UInt8 × Nat)) : List UInt8 :=
  (calls.map fun c => c.1.take c.2).flatten

/-- The calls are those of `write_modem` for these blocks, one after the other: it has written
`bytes` of the first, goes on where it is, and takes the next one when it has written all. -/
def WriteModem : List (List UInt8) → Nat → List (List UInt8 × Nat) → Prop
  | _, _, [] => True
  | [], _, _ :: _ => False
  | block :: blocks, bytes, (ubuff, count) :: calls =>
    ubuff = block.drop bytes ∧
      if bytes + count = block.length then WriteModem blocks 0 calls
      else WriteModem (block :: blocks) (bytes + count) calls

/-- The interrupt of a call has come. -/
def Over (history : List WriteAction) (call : Nat) : Prop :=
  ∃ data, .interrupt call data ∈ history

/-- A positive count is returned after the interrupt of the same call. -/
def Own (before : List WriteAction) (a : WriteAction) : Prop :=
  ∀ call ubuff count, a = .ret call ubuff count → 0 < count → Over before call

/-- The buffer is written to when every transfer is over. -/
def Undisturbed (before : List WriteAction) (a : WriteAction) : Prop :=
  ∀ call, a = .copy call → ∀ other, .start other ∈ before → Over before other

namespace Writer

/-- What a caller relies on. -/
structure ExactlyOnce (s : Writer) : Prop where
  own : Log.Always Own s.history
  undisturbed : Log.Always Undisturbed s.history
  /-- What `write_modem` was told to be written was sent, in order and once, and nothing else. -/
  sent : s.phase = .idle → ∀ blocks, WriteModem blocks 0 (returned s.history) →
    s.outstanding = [] ∧
      sent s.history = blocks.flatten.take ((returned s.history).map Prod.snd).sum

/-- Each wait ends because the flag is set. -/
def InTime : WriteEvent → Prop
  | .elapsed _ | .signal => False
  | .write _ | .next | .wake | .interrupt => True

instance : DecidablePred InTime
  | .elapsed _ | .signal => isFalse id
  | .write _ | .next | .wake | .interrupt => isTrue trivial

end Writer

/-! ## The history, one action at a time -/

section History

variable {history : List WriteAction} {call other count : Nat} {ubuff data : List UInt8}
  {a : WriteAction} {calls : List (List UInt8 × Nat)}

theorem sent_interrupt : sent (history ++ [.interrupt call data]) = sent history ++ data := by
  simp [sent]

theorem sent_of_not_interrupt (h : ∀ call data, a ≠ .interrupt call data) :
    sent (history ++ [a]) = sent history := by
  cases a with
  | interrupt call data => exact absurd rfl (h call data)
  | copy call => simp [sent]
  | start call => simp [sent]
  | ret call ubuff count => simp [sent]

theorem returned_ret :
    returned (history ++ [.ret call ubuff count]) = returned history ++ [(ubuff, count)] := by
  simp [returned]

theorem returned_of_not_ret (h : ∀ call ubuff count, a ≠ .ret call ubuff count) :
    returned (history ++ [a]) = returned history := by
  cases a with
  | ret call ubuff count => exact absurd rfl (h call ubuff count)
  | copy call => simp [returned]
  | start call => simp [returned]
  | interrupt call data => simp [returned]

theorem written_concat :
    written (calls ++ [(ubuff, count)]) = written calls ++ ubuff.take count := by
  simp [written]

theorem Over.concat (h : Over history call) : Over (history ++ [a]) call := by
  obtain ⟨data, hmem⟩ := h
  exact ⟨data, List.mem_append_left _ hmem⟩

theorem over_interrupt : Over (history ++ [.interrupt call data]) call :=
  ⟨data, List.mem_append_right _ (List.mem_singleton_self _)⟩

/-- The calls of `write_modem` write the blocks from where it is, as far as they say. -/
theorem written_of_writeModem {blocks : List (List UInt8)} {bytes : Nat}
    (h : WriteModem blocks bytes calls) (hcount : ∀ c ∈ calls, c.2 ≤ c.1.length)
    (hbytes : ∀ block ∈ blocks.head?, bytes ≤ block.length) :
    written calls = (blocks.flatten.drop bytes).take (calls.map Prod.snd).sum := by
  induction calls generalizing blocks bytes with
  | nil => simp [written]
  | cons c calls ih =>
    obtain ⟨ubuff, count⟩ := c
    cases blocks with
    | nil => exact h.elim
    | cons block blocks =>
      obtain ⟨rfl, hnext⟩ := h
      have hle : bytes ≤ block.length := hbytes block rfl
      have hlen : count ≤ (block.drop bytes).length := hcount _ (List.mem_cons_self ..)
      have htail : ∀ c ∈ calls, c.2 ≤ c.1.length :=
        fun c hc => hcount c (List.mem_cons_of_mem _ hc)
      have hfirst : written ((block.drop bytes, count) :: calls) =
          (block.drop bytes).take count ++ written calls := by simp [written]
      have hstream : (block :: blocks).flatten.drop bytes = block.drop bytes ++ blocks.flatten := by
        rw [List.flatten_cons, List.drop_append_of_le_length hle]
      have hrest : (block.drop bytes ++ blocks.flatten).drop count =
          block.drop (bytes + count) ++ blocks.flatten := by
        rw [List.drop_append_of_le_length hlen, List.drop_drop]
      rw [hfirst, hstream, List.map_cons, List.sum_cons, List.take_add,
        List.take_append_of_le_length hlen, hrest]
      congr 1
      split at hnext
      next hall =>
        rw [ih hnext htail (fun _ _ => Nat.zero_le _), hall, List.drop_length, List.nil_append,
          List.drop_zero]
      next hmore =>
        rw [List.length_drop] at hlen
        have hfront : bytes + count ≤ block.length := by omega
        rw [ih hnext htail (fun b hb => by cases hb; exact hfront), List.flatten_cons,
          List.drop_append_of_le_length hfront]

end History

/-! ## Waits that end in time -/

namespace Writer

variable {d : WriteDriver} {s s' : Writer} {e : WriteEvent} {es : List WriteEvent}

/-- What holds of the call that goes on, by where it is. -/
def Stage (s : Writer) : Prop :=
  match s.phase with
  | .idle => s.txInterrupt = false ∧ s.outstanding = [] ∧
      CharDriver.sent s.history = written (returned s.history)
  | .copied => s.txInterrupt = false ∧ s.outstanding = [] ∧
      CharDriver.sent s.history = written (returned s.history) ∧
      s.srcAddr.take s.count = s.ubuff.take s.count
  | .sized => s.txInterrupt = false ∧ s.outstanding = [] ∧
      CharDriver.sent s.history = written (returned s.history) ∧
      s.srcAddr.take s.count = s.ubuff.take s.count ∧ s.sl = s.count
  | .waiting =>
    (s.txInterrupt = false ∧ s.outstanding = [(s.call, s.count)] ∧
      CharDriver.sent s.history = written (returned s.history) ∧
      s.srcAddr.take s.count = s.ubuff.take s.count) ∨
    (s.txInterrupt = true ∧ s.outstanding = [] ∧
      CharDriver.sent s.history = written (returned s.history) ++ s.ubuff.take s.count ∧
      Over s.history s.call)
  | .woken => s.outstanding = [] ∧
      CharDriver.sent s.history = written (returned s.history) ++ s.ubuff.take s.count ∧
      Over s.history s.call

structure Inv (s : Writer) : Prop where
  own : Log.Always Own s.history
  undisturbed : Log.Always Undisturbed s.history
  /-- A transfer is over or outstanding. -/
  started : ∀ call, .start call ∈ s.history →
    Over s.history call ∨ call ∈ s.outstanding.map Prod.fst
  counts : ∀ c ∈ returned s.history, c.2 ≤ c.1.length
  count_le : s.phase ≠ .idle → s.count ≤ s.ubuff.length
  stage : s.Stage

theorem Inv.exactlyOnce (h : s.Inv) : s.ExactlyOnce where
  own := h.own
  undisturbed := h.undisturbed
  sent := by
    intro hidle blocks hcalls
    have hstage := h.stage
    simp only [Stage, hidle] at hstage
    obtain ⟨-, hout, hsent⟩ := hstage
    refine ⟨hout, ?_⟩
    rw [hsent, written_of_writeModem hcalls h.counts (fun _ _ => Nat.zero_le _), List.drop_zero]

theorem Inv.write (h : s.Inv) {ubuff : List UInt8} (hs : step d s (.write ubuff) = some s') :
    s'.Inv := by
  simp only [step] at hs
  split at hs
  next hidle =>
    cases hs
    have hstage := h.stage
    simp only [Stage, hidle] at hstage
    obtain ⟨hflag, hout, hsent⟩ := hstage
    have hkept : CharDriver.sent (s.history ++ [.copy s.call]) =
        written (returned (s.history ++ [.copy s.call])) := by
      rw [sent_of_not_interrupt (by simp), returned_of_not_ret (by simp), hsent]
    exact
      { own := Log.always_concat.mpr ⟨h.own, by simp [Own]⟩
        undisturbed := by
          refine Log.always_concat.mpr ⟨h.undisturbed, fun call _ other hother => ?_⟩
          rcases h.started other hother with hover | hmem
          · exact hover
          · rw [hout] at hmem
            exact absurd hmem List.not_mem_nil
        started := by
          intro call hmem
          have hbefore : .start call ∈ s.history := by simpa using hmem
          exact (h.started call hbefore).imp Over.concat id
        counts := by
          rw [returned_of_not_ret (by simp)]
          exact h.counts
        count_le := fun _ => Nat.min_le_left _ _
        stage := ⟨hflag, hout, hkept, take_memcpy (Nat.min_le_left _ _)⟩ }
  · cases hs

theorem Inv.ret (h : s.Inv) (hphase : s.phase = .woken) :
    ({ s with txInterrupt := false }.ret s.count).Inv := by
  have hstage := h.stage
  simp only [Stage, hphase] at hstage
  obtain ⟨hout, hsent, hover⟩ := hstage
  have hle : s.count ≤ s.ubuff.length := h.count_le (by simp [hphase])
  have hkept : CharDriver.sent (s.history ++ [.ret s.call s.ubuff s.count]) =
      written (returned (s.history ++ [.ret s.call s.ubuff s.count])) := by
    rw [sent_of_not_interrupt (by simp), returned_ret, written_concat, hsent]
  exact
    { own := by
        refine Log.always_concat.mpr ⟨h.own, fun call ubuff count heq _ => ?_⟩
        cases heq
        exact hover
      undisturbed := Log.always_concat.mpr ⟨h.undisturbed, by simp [Undisturbed]⟩
      started := by
        intro call hmem
        have hbefore : .start call ∈ s.history := by simpa [Writer.ret] using hmem
        exact (h.started call hbefore).imp Over.concat id
      counts := by
        intro c hc
        simp only [Writer.ret, returned_ret, List.mem_append, List.mem_singleton] at hc
        rcases hc with hc | rfl
        · exact h.counts c hc
        · exact hle
      count_le := fun hne => absurd rfl hne
      stage := ⟨rfl, hout, hkept⟩ }

theorem Inv.start (h : s.Inv) (hphase : s.phase = .sized) :
    Inv { s with
      phase := .waiting
      outstanding := s.outstanding ++ [(s.call, s.sl)]
      history := s.history ++ [.start s.call] } := by
  have hstage := h.stage
  simp only [Stage, hphase] at hstage
  obtain ⟨hflag, hout, hsent, hcopy, hsl⟩ := hstage
  have hkept : CharDriver.sent (s.history ++ [.start s.call]) =
      written (returned (s.history ++ [.start s.call])) := by
    rw [sent_of_not_interrupt (by simp), returned_of_not_ret (by simp), hsent]
  exact
    { own := Log.always_concat.mpr ⟨h.own, by simp [Own]⟩
      undisturbed := Log.always_concat.mpr ⟨h.undisturbed, by simp [Undisturbed]⟩
      started := by
        intro call hmem
        rcases List.mem_append.mp hmem with hmem | hmem
        · refine (h.started call hmem).imp Over.concat fun hcall => ?_
          rw [List.map_append]
          exact List.mem_append_left _ hcall
        · cases List.mem_singleton.mp hmem
          exact .inr (by simp)
      counts := by
        rw [returned_of_not_ret (by simp)]
        exact h.counts
      count_le := fun _ => h.count_le (by simp [hphase])
      stage := .inl ⟨hflag, by simp [hout, hsl], hkept, hcopy⟩ }

theorem Inv.next (h : s.Inv) (hs : step d s .next = some s') : s'.Inv := by
  simp only [step] at hs
  split at hs
  next hphase =>
    cases hs
    have hstage := h.stage
    simp only [Stage, hphase] at hstage
    obtain ⟨hflag, hout, hsent, hcopy⟩ := hstage
    exact
      { h with
        count_le := fun _ => h.count_le (by simp [hphase])
        stage := ⟨hflag, hout, hsent, hcopy, rfl⟩ }
  next hphase =>
    cases hs
    exact h.start hphase
  next hphase =>
    cases hs
    exact h.ret hphase
  · cases hs
  · cases hs

theorem Inv.wake (h : s.Inv) (hs : step d s .wake = some s') : s'.Inv := by
  simp only [step] at hs
  split at hs
  next hwake =>
    cases hs
    obtain ⟨hphase, hflag⟩ := hwake
    have hstage := h.stage
    simp only [Stage, hphase] at hstage
    rcases hstage with ⟨hunset, -⟩ | ⟨-, hout, hsent, hover⟩
    · rw [hunset] at hflag
      cases hflag
    · exact
        { h with
          count_le := fun _ => h.count_le (by simp [hphase])
          stage := ⟨hout, hsent, hover⟩ }
  · cases hs

/-- A transfer is outstanding only while its call waits. -/
theorem Inv.waiting (h : s.Inv) (hout : s.outstanding ≠ []) :
    s.phase = .waiting ∧ s.outstanding = [(s.call, s.count)] ∧
      CharDriver.sent s.history = written (returned s.history) ∧
      s.srcAddr.take s.count = s.ubuff.take s.count := by
  have hstage := h.stage
  unfold Stage at hstage
  split at hstage
  · exact absurd hstage.2.1 hout
  · exact absurd hstage.2.1 hout
  · exact absurd hstage.2.1 hout
  next hphase =>
    rcases hstage with ⟨-, hone, hsent, hcopy⟩ | ⟨-, hnone, -⟩
    · exact ⟨hphase, hone, hsent, hcopy⟩
    · exact absurd hnone hout
  · exact absurd hstage.1 hout

theorem Inv.interrupt (h : s.Inv) (hs : step d s .interrupt = some s') : s'.Inv := by
  simp only [step] at hs
  split at hs
  · cases hs
  next k len outstanding hout =>
    cases hs
    obtain ⟨hphase, hone, hsent, hcopy⟩ := h.waiting (by simp [hout])
    rw [hout] at hone
    cases hone
    have hkept :
        CharDriver.sent (s.history ++ [.interrupt s.call (s.srcAddr.take s.count)]) =
        written (returned (s.history ++ [.interrupt s.call (s.srcAddr.take s.count)])) ++
          s.ubuff.take s.count := by
      rw [sent_interrupt, returned_of_not_ret (by simp), hsent, hcopy]
    exact
      { own := Log.always_concat.mpr ⟨h.own, by simp [Own]⟩
        undisturbed := Log.always_concat.mpr ⟨h.undisturbed, by simp [Undisturbed]⟩
        started := by
          intro call hmem
          have hbefore : .start call ∈ s.history := by simpa using hmem
          rcases h.started call hbefore with hover | hcall
          · exact .inl hover.concat
          · rw [hout] at hcall
            cases List.mem_singleton.mp hcall
            exact .inl over_interrupt
        counts := by
          rw [returned_of_not_ret (by simp)]
          exact h.counts
        count_le := h.count_le
        stage := by
          simp only [Stage, hphase]
          exact .inr ⟨trivial, trivial, hkept, over_interrupt⟩ }

theorem Inv.step (h : s.Inv) (htime : InTime e) (hs : Writer.step d s e = some s') : s'.Inv := by
  cases e with
  | write ubuff => exact h.write hs
  | next => exact h.next hs
  | wake => exact h.wake hs
  | elapsed ms => exact htime.elim
  | signal => exact htime.elim
  | interrupt => exact h.interrupt hs

theorem inv_init : (init d).Inv where
  own := Log.always_nil
  undisturbed := Log.always_nil
  started := fun _ hmem => absurd hmem List.not_mem_nil
  counts := fun _ hmem => absurd hmem List.not_mem_nil
  count_le := fun hne => absurd rfl hne
  stage := ⟨rfl, rfl, rfl⟩

/-- **Exactly once, if no wait ends early**: in every run in which each wait ends because the flag
is set, whatever is written and whenever the interrupts come. -/
theorem run_exactlyOnce (hr : run (step d) (init d) es = some s)
    (htime : Meets (step d) (fun _ e => InTime e) (init d) es) : s.ExactlyOnce :=
  (run_invariant_of_meets (fun _ _ _ h hg hs => h.step hg hs) inv_init htime hr).exactlyOnce

/-- Two calls, the first with an interrupt that comes before the wait. -/
def twoWrites : List WriteEvent :=
  [.write [1, 2], .next, .next, .interrupt, .wake, .next,
    .write [3], .next, .next, .interrupt, .wake, .next]

theorem run_exactlyOnce_twoWrites :
    ∃ s, run (step mfhssdrvWrite) (init mfhssdrvWrite) twoWrites = some s ∧ s.ExactlyOnce :=
  exists_of_isSome (by decide +kernel) fun _ hr => run_exactlyOnce hr (by decide +kernel)

/-- The interrupt of the first call comes after its wait is over; the second call takes it for its
own. -/
def lateInterrupt : List WriteEvent :=
  [.write [1, 2], .next, .next, .elapsed 2000, .interrupt,
    .write [1, 2], .next, .next, .wake, .next]

theorem lateInterrupt_not_exactlyOnce :
    ∃ s, run (step mfhssdrvWrite) (init mfhssdrvWrite) lateInterrupt = some s ∧
      ¬ s.ExactlyOnce := by
  have hrun : ∃ s, run (step mfhssdrvWrite) (init mfhssdrvWrite) lateInterrupt = some s ∧
      s.history =
        [.copy 0, .start 0, .ret 0 [1, 2] 0, .interrupt 0 [1, 2], .copy 1, .start 1] ++
          [.ret 1 [1, 2] 2] := by
    decide +kernel
  obtain ⟨s, hs, hhistory⟩ := hrun
  refine ⟨s, hs, fun h => ?_⟩
  obtain ⟨data, hmem⟩ := h.own _ _ _ hhistory 1 [1, 2] 2 rfl (by decide)
  simp at hmem

end Writer

end ModemFhss.CharDriver
