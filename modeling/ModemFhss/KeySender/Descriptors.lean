import ModemFhss.KeySender.Station
import ModemFhss.Library.Machine
import ModemFhss.Library.Resource

/-!
# The descriptors of a station (`daemon_c`, `exec`)

`MODEM_PING` and `MODEM_SEND_KEYS` make a `daemon_c`: its constructor opens a pipe and forks, `exec`
waits for the child, and then it is destroyed. The parent closes the end that the child writes to;
the other end is closed by `Stdout()` only, which is called if `DBG_PROCESS_TRACE` is defined.

All else that the loop opens (the log, the key files, the register files) it closes in the same
iteration, so only the pipes are followed here, by what `close` does to the list of the open
descriptors. `balanced_iff` says which attempts leave as many open as there were, and
`length_descriptors` counts what a run leaves open.
-/

namespace ModemFhss.KeySender

open Machine Resource

/-- What `pipe(pipefd)` does. -/
inductive Pipe where
  | opened (readEnd writeEnd : Nat)
  /-- The result is not looked at, and `pipefd` is not initialised. -/
  | failed (junk₀ junk₁ : Nat)
  deriving DecidableEq, Repr

namespace Pipe

/-- `pipefd[0]` -/
def fd₀ : Pipe → Nat
  | opened readEnd _ => readEnd
  | failed junk₀ _ => junk₀

/-- `pipefd[1]` -/
def fd₁ : Pipe → Nat
  | opened _ writeEnd => writeEnd
  | failed _ junk₁ => junk₁

def ops : Pipe → List (Op Nat)
  | opened readEnd writeEnd => [.acquire readEnd, .acquire writeEnd]
  | failed _ _ => []

end Pipe

/-- What the kernel does for one `daemon_c`. -/
structure Spawn where
  pipe : Pipe
  /-- `fork()` did not fail. -/
  forks : Bool

namespace Spawn

/-- The constructor, as far as the parent goes. -/
def construct (a : Spawn) : List (Op Nat) :=
  a.pipe.ops ++ if a.forks then [.release a.pipe.fd₁] else []

/-- `exec` in the parent: `Stdout()` is there for the trace only. -/
def exec (trace : Bool) (a : Spawn) : List (Op Nat) :=
  if trace then [.release a.pipe.fd₀] else []

/-- What the parent opens and closes; the destructor closes nothing. -/
def ops (trace : Bool) (a : Spawn) : List (Op Nat) :=
  if a.forks then a.construct ++ a.exec trace else a.construct

end Spawn

/-- A station, with the descriptors that are open in its process. -/
structure Process where
  station : Station
  descriptors : List Nat

/-- One iteration of the loop, and what the kernel does if it makes a `daemon_c`. -/
structure Iteration where
  input : Input
  spawn : Spawn

namespace Process

/-- The iteration runs `MODEM_PING` or `MODEM_SEND_KEYS`. -/
def Attempts (p : Process) (i : Iteration) : Prop :=
  p.station.Turns i.input ∧ (p.station.state = .ping ∨ p.station.state = .sendKeys)

instance (p : Process) (i : Iteration) : Decidable (p.Attempts i) :=
  inferInstanceAs (Decidable (_ ∧ _))

/-- One iteration. If `fork` fails, a `daemonExc_c` is thrown, which the handler does not know. -/
def step (trace : Bool) (p : Process) (i : Iteration) : Option Process :=
  if p.station.ended ≠ none then
    none
  else if p.Attempts i then
    some
      { station := if i.spawn.forks then p.station.loop i.input else p.station.stop .terminate
        descriptors := held p.descriptors (i.spawn.ops trace) }
  else
    some { p with station := p.station.loop i.input }

/-- As many descriptors are open after an attempt as before, if the process is still there. -/
def Balanced (trace : Bool) (p : Process) (i : Iteration) : Prop :=
  ∀ p' ∈ p.step trace i, p.Attempts i → p'.station.ended = none →
    p'.descriptors.length = p.descriptors.length

/-- How the child of the attempt ended. -/
def status (p : Process) (i : Iteration) : WaitStatus :=
  if p.station.state = .ping then i.input.ping else i.input.sshpass

/-- An attempt that leaves no descriptor: it ends the process, or there was no pipe and nothing is
open by the number that is closed. -/
def Spares (p : Process) (i : Iteration) : Prop :=
  p.Attempts i → i.spawn.forks = false ∨ p.status i = .signaled ∨
    ∃ junk₀ junk₁, i.spawn.pipe = .failed junk₀ junk₁ ∧ junk₁ ∉ p.descriptors

/-! ## One attempt -/

variable {p p' : Process} {i : Iteration} {trace : Bool} {es : List Iteration}

theorem ended_of_attempts (h : p.Attempts i) : p.station.ended = none := h.1.1

theorem step_of_attempts (h : p.Attempts i) : p.step trace i = some
    { station := if i.spawn.forks then p.station.loop i.input else p.station.stop .terminate
      descriptors := held p.descriptors (i.spawn.ops trace) } := by
  have hended := ended_of_attempts h
  unfold step
  rw [if_neg (by simp [hended]), if_pos h]

theorem step_of_not_attempts (h : ¬ p.Attempts i) (hended : p.station.ended = none) :
    p.step trace i = some { p with station := p.station.loop i.input } := by
  unfold step
  rw [if_neg (by simp [hended]), if_neg h]

/-- After an attempt the process is still there if it forked and the child exited. -/
theorem ended_loop (h : p.Attempts i) :
    (p.station.loop i.input).ended = none ↔ p.status i ≠ .signaled := by
  have hended := ended_of_attempts h
  rw [Station.loop_of_turns h.1]
  unfold status Station.turn
  rcases h.2 with hstate | hstate
  · rw [hstate]
    simp only [if_true]
    cases i.input.ping with
    | signaled => simp [Station.stop]
    | exited code =>
      refine iff_of_true ?_ (by simp)
      by_cases hcode : code = 0 <;> simp [hcode, hended]
  · rw [hstate]
    simp only [reduceCtorEq, if_false]
    cases i.input.sshpass with
    | signaled => simp [Station.stop]
    | exited code =>
      refine iff_of_true ?_ (by simp)
      by_cases hcode : code = 0 <;> simp [hcode, hended]

/-- **What an attempt leaves open** in a process that goes on: one end of the pipe. -/
theorem held_ops (hforks : i.spawn.forks = true) :
    held p.descriptors (i.spawn.ops false) =
      match i.spawn.pipe with
      | .opened readEnd _ => readEnd :: p.descriptors
      | .failed _ junk₁ => p.descriptors.erase junk₁ := by
  unfold Spawn.ops Spawn.construct Spawn.exec
  cases i.spawn.pipe with
  | opened readEnd writeEnd => simp [hforks, Pipe.ops, Pipe.fd₁]
  | failed junk₀ junk₁ => simp [hforks, Pipe.ops, Pipe.fd₁]

theorem length_erase_eq_iff (l : List Nat) (fd : Nat) :
    (l.erase fd).length = l.length ↔ fd ∉ l := by
  constructor
  · intro hlen hmem
    rw [List.length_erase_of_mem hmem] at hlen
    have := List.length_pos_of_mem hmem
    omega
  · intro hmem
    rw [List.erase_of_not_mem hmem]

theorem balanced_iff : p.Balanced false i ↔ p.Spares i := by
  unfold Balanced Spares
  by_cases h : p.Attempts i
  · rw [step_of_attempts h]
    cases hforks : i.spawn.forks with
    | false => simp [Station.stop]
    | true =>
      have hheld := held_ops (p := p) hforks
      simp only [Option.mem_def, Option.some.injEq, forall_eq', if_true, h, true_implies,
        ended_loop h, hheld]
      by_cases hstatus : p.status i = .signaled
      · simp [hstatus]
      · cases i.spawn.pipe with
        | opened readEnd writeEnd => simp [hstatus]
        | failed junk₀ junk₁ =>
          simpa [hstatus] using length_erase_eq_iff p.descriptors junk₁
  · simp [h]

/-- With the trace, `Stdout()` closes the other end. -/
theorem balanced_trace {readEnd writeEnd : Nat} (hpipe : i.spawn.pipe = .opened readEnd writeEnd) :
    p.Balanced true i := by
  intro p' hp' h hended
  rw [step_of_attempts h] at hp'
  cases hp'
  have hforks : i.spawn.forks = true := by
    by_contra hnot
    simp [hnot, Station.stop] at hended
  simp [Spawn.ops, Spawn.construct, Spawn.exec, hforks, hpipe, Pipe.ops, Pipe.fd₀, Pipe.fd₁]

/-! ## Whole runs -/

/-- In each state that the run passes, as many descriptors are open as at the start, for as long as
the process is there. -/
def KeepsDescriptors (trace : Bool) (p : Process) (es : List Iteration) : Prop :=
  ∀ es', es' <+: es → ∀ p' ∈ run (step trace) p es', p'.station.ended = none →
    p'.descriptors.length = p.descriptors.length

/-- The attempts of a run. -/
def attempts (trace : Bool) : Process → List Iteration → Nat
  | _, [] => 0
  | p, i :: es =>
    (if p.Attempts i then 1 else 0) +
      match p.step trace i with
      | none => 0
      | some p' => attempts trace p' es

/-- Every pipe is opened. -/
def Opens (p : Process) (i : Iteration) : Prop :=
  p.Attempts i → ∃ readEnd writeEnd, i.spawn.pipe = .opened readEnd writeEnd

/-- What a process goes on from it had not ended at. -/
theorem ended_of_step (hstep : p.step trace i = some p') : p.station.ended = none := by
  by_contra hended
  rw [step, if_pos hended] at hstep
  cases hstep

/-- An iteration that makes no attempt leaves the descriptors alone. -/
theorem descriptors_of_not_attempts (h : ¬ p.Attempts i) (hstep : p.step trace i = some p') :
    p'.descriptors = p.descriptors := by
  rw [step_of_not_attempts h (ended_of_step hstep)] at hstep
  cases hstep
  rfl

/-- A process that is there at the end has been there all the time. -/
theorem ended_of_run (hr : run (step trace) p es = some p') (hended : p'.station.ended = none) :
    p.station.ended = none := by
  cases es with
  | nil =>
    cases hr
    exact hended
  | cons i es =>
    obtain ⟨q, hq, -⟩ := run_cons_eq_some.mp hr
    exact ended_of_step hq

/-- **One descriptor for each attempt**: as many more are open at the end of a run as there were
attempts, if no pipe failed. -/
theorem length_descriptors (hm : Meets (step false) Opens p es)
    (hr : run (step false) p es = some p') (hended : p'.station.ended = none) :
    p'.descriptors.length = p.descriptors.length + attempts false p es := by
  induction es generalizing p with
  | nil =>
    cases hr
    rfl
  | cons i es ih =>
    obtain ⟨q, hq, hrest⟩ := run_cons_eq_some.mp hr
    obtain ⟨hopens, hm⟩ := meets_cons.mp hm
    have hlater := ih (hm q hq) hrest
    have hqended := ended_of_run hrest hended
    unfold attempts
    simp only [hq]
    by_cases h : p.Attempts i
    · obtain ⟨readEnd, writeEnd, hpipe⟩ := hopens h
      rw [step_of_attempts h] at hq
      cases hq
      have hforks : i.spawn.forks = true := by
        by_contra hnot
        simp [hnot, Station.stop] at hqended
      rw [if_pos h, hlater, held_ops hforks, hpipe, List.length_cons]
      omega
    · rw [if_neg h, hlater, descriptors_of_not_attempts h hq]
      omega

/-- **Where every step spares the descriptors**, as many are open at the end as at the start. -/
theorem length_descriptors_of_meets (hm : Meets (step false) Spares p es)
    (hr : run (step false) p es = some p') (hended : p'.station.ended = none) :
    p'.descriptors.length = p.descriptors.length := by
  induction es generalizing p with
  | nil =>
    cases hr
    rfl
  | cons i es ih =>
    obtain ⟨q, hq, hrest⟩ := run_cons_eq_some.mp hr
    obtain ⟨hspares, hm⟩ := meets_cons.mp hm
    have hqended := ended_of_run hrest hended
    rw [ih (hm q hq) hrest]
    by_cases h : p.Attempts i
    · exact balanced_iff.mpr hspares q hq h hqended
    · rw [descriptors_of_not_attempts h hq]

/-- **Which runs leave no descriptor behind.** -/
theorem keepsDescriptors_iff (p : Process) (es : List Iteration) :
    KeepsDescriptors false p es ↔ Meets (step false) Spares p es := by
  constructor
  · intro hkeeps
    induction es generalizing p with
    | nil => trivial
    | cons i es ih =>
      have hone : ∀ q, p.step false i = some q → q.station.ended = none →
          q.descriptors.length = p.descriptors.length := by
        intro q hq hended
        exact hkeeps [i] ⟨es, rfl⟩ q (run_cons hq) hended
      refine meets_cons.mpr ⟨balanced_iff.mp fun q hq _ => hone q hq, fun q hq => ih q ?_⟩
      -- the rest of the run, seen from the next state
      intro es' hinitial p' hr hended
      have hend := hkeeps (i :: es') ((List.prefix_cons_inj i).mpr hinitial) p'
        ((run_cons hq).trans hr) hended
      rw [hend, hone q hq (ended_of_run hr hended)]
  · intro hm es' hinitial p' hr hended
    exact length_descriptors_of_meets (meets_initial hinitial hm) hr hended

/-- A master that pings. -/
def pinging : Process where
  station :=
    { type := .rtkU
      isMaster := true
      state := .ping
      srcfile := none
      keyfile := none
      hw := fun _ => 0
      ended := none }
  descriptors := [3, 1]

/-- No answer. -/
def noAnswer : Iteration where
  input :=
    { signal := none
      online := true
      ping := .exited 1
      sshpass := .exited 0
      values := fun _ => ⟨0, 0⟩ }
  spawn := ⟨.opened 4 5, true⟩

/-- After one ping that is not answered there is a descriptor more. -/
theorem not_keepsDescriptors : ¬ KeepsDescriptors false pinging [noAnswer] := by
  intro hkeeps
  have hone := hkeeps [noAnswer] (List.prefix_refl _) _ rfl rfl
  exact absurd hone (by decide)

end Process

end ModemFhss.KeySender
