import ModemFhss.KeySender.Keygen

/-!
# One station (`daemonTool_c::Run`)

Each iteration of the loop takes a pending signal and then acts by its state. A master that sees the
link up pings the slave, creates keys in `srcfile`, sends the file to the slave, saves it as its own
key file and waits for the link to go off; a slave that sees the link up only waits for it to go
off. Either then installs the keys from its key file (`dstdir + srcfile`) and starts over.

`Station` holds what the loop reads and writes: its state, the two files and the registers. What the
rest of the world does to one iteration (`ping`, `sshpass`, the signal, the link, the values drawn)
is in the `Input`; what `sshpass scp` does to the other station is not seen from here.
-/

namespace ModemFhss.KeySender

/-- `daemonTool_c::state_t`. -/
inductive State where
  | waitConnect
  | ping
  | createKeys
  | sendKeys
  | saveKeys
  | waitDisconnect
  deriving DecidableEq, Repr

/-- The signals in `sigset`. -/
inductive Signal where
  | sigquit
  | sigint
  | sigterm
  | sigchld
  | sigusr1
  deriving DecidableEq, Repr

/-- The loop calls `exit(0)` on these. -/
def Signal.Exits : Signal → Prop
  | .sigquit | .sigterm | .sigusr1 => True
  | .sigint | .sigchld => False

instance : ∀ s : Signal, Decidable s.Exits
  | .sigquit | .sigterm | .sigusr1 => isTrue trivial
  | .sigint | .sigchld => isFalse id

/-- How a child process ended. -/
inductive WaitStatus where
  | exited (code : UInt8)
  | signaled
  deriving DecidableEq, Repr

/-- How the station's own process ended. -/
inductive Ending where
  | exit (code : Int)
  /-- A `keyGenExc_c` fails the `dynamic_cast` in the handler. -/
  | terminate
  deriving DecidableEq, Repr

structure Station where
  type : ModemType
  /-- What `hw->IsMaster()` says. -/
  isMaster : Bool
  state : State
  srcfile : Option Text
  /-- `dstdir + srcfile` -/
  keyfile : Option Text
  hw : Registers
  ended : Option Ending

/-- What one iteration meets. -/
structure Input where
  signal : Option Signal
  /-- What `hw->IsOnline()` says. -/
  online : Bool
  ping : WaitStatus
  sshpass : WaitStatus
  /-- What `Generate` draws for each key. -/
  values : KeyClass → KeyValue

/-- The copy loop of `saveKeysToFile`: 256 bytes at a time, until nothing was read. -/
def copyLoop : Nat → Text → Text → Text
  | 0, _, out => out
  | fuel + 1, left, out =>
    if left.take 256 = [] then out else copyLoop fuel (left.drop 256) (out ++ left.take 256)

def copyFile (src : Text) : Text := copyLoop (src.length + 1) src []

/-- `hw_c::Reset` -/
def reset (hw : Registers) : Registers :=
  Function.update (Function.update hw "m/rst".toList 1) "m/rst".toList 0

namespace Station

def keys (s : Station) : List KeyClass := s.type.keys

/-- An exception reached the handler, or a signal asked to stop. -/
def stop (s : Station) (e : Ending) : Station := { s with ended := some e }

def saveKeysToFile (s : Station) : Station :=
  match s.srcfile with
  | some src =>
    { s with keyfile := some (copyFile src), srcfile := none, state := .waitDisconnect }
  | none =>
    -- the destination was opened, and so emptied, before the test
    { s with keyfile := some [] }.stop (.exit (-1))

def install (s : Station) : Station :=
  match installKeys s.keys s.keyfile s.hw with
  | (hw, none) => { s with hw := reset hw, state := .waitConnect }
  | (hw, some _) => { s with hw }.stop .terminate

/-- The `switch` on the state. -/
def turn (s : Station) (i : Input) : Station :=
  match s.state with
  | .waitConnect =>
    if i.online then { s with state := if s.isMaster then .ping else .waitDisconnect } else s
  | .ping =>
    match i.ping with
    | .exited code => if code = 0 then { s with state := .createKeys } else s
    | .signaled => s.stop (.exit (-1))
  | .createKeys =>
    { s with
      srcfile := some (createKeys s.keys i.values (s.srcfile.getD []))
      state := .sendKeys }
  | .sendKeys =>
    match i.sshpass with
    | .exited code => if code = 0 then { s with state := .saveKeys } else s
    | .signaled => s.stop (.exit (-1))
  | .saveKeys => s.saveKeysToFile
  | .waitDisconnect => if i.online then s else s.install

/-- The process is alive and its pending signal, if any, does not end it. -/
def Turns (s : Station) (i : Input) : Prop := s.ended = none ∧ ∀ sig ∈ i.signal, ¬ sig.Exits

instance (s : Station) (i : Input) : Decidable (s.Turns i) :=
  inferInstanceAs (Decidable (s.ended = none ∧ ∀ sig ∈ i.signal, ¬ sig.Exits))

/-- One iteration of the loop. -/
def loop (s : Station) (i : Input) : Station :=
  if s.Turns i then s.turn i
  else if s.ended = none then s.stop (.exit 0)
  else s

/-! ## What the pieces do -/

variable {s : Station} {i : Input}

theorem copyLoop_eq {fuel : Nat} {left out : Text} (h : left.length < fuel) :
    copyLoop fuel left out = out ++ left := by
  induction fuel generalizing left out with
  | zero => exact absurd h (Nat.not_lt_zero _)
  | succ fuel ih =>
    unfold copyLoop
    split
    · next hnone =>
      have hempty : left = [] := by
        rcases List.take_eq_nil_iff.mp hnone with hzero | hnil
        · exact absurd hzero (by decide)
        · exact hnil
      rw [hempty, List.append_nil]
    · next hsome =>
      have hpos : left ≠ [] := fun hnil => hsome (by rw [hnil, List.take_nil])
      have hlen : 0 < left.length := List.length_pos_iff.mpr hpos
      rw [ih (by rw [List.length_drop]; omega), List.append_assoc, List.take_append_drop]

/-- The copy is the file. -/
theorem copyFile_eq (src : Text) : copyFile src = src := copyLoop_eq (Nat.lt_succ_self _)

theorem loop_of_turns (h : s.Turns i) : s.loop i = s.turn i := if_pos h

/-- An iteration that takes no turn changes nothing but the process's end. -/
theorem loop_of_not_turns (h : ¬ s.Turns i) : ∃ e, s.loop i = { s with ended := e } := by
  unfold loop
  rw [if_neg h]
  split
  · exact ⟨_, rfl⟩
  · exact ⟨s.ended, rfl⟩

theorem reset_of_ne {r : Text} (h : r ≠ "m/rst".toList) (hw : Registers) : reset hw r = hw r := by
  unfold reset
  rw [Function.update_of_ne h, Function.update_of_ne h]

/-- The reset register is not a key. -/
theorem holds_reset {t : ModemType} {file : Option Text} {hw : Registers}
    (h : Holds t.keys file hw) : Holds t.keys file (reset hw) := by
  have hrst : "m/rst".toList ∉ t.keys.flatMap KeyClass.registers := by
    cases t <;> decide +kernel
  intro k hk
  obtain ⟨value, hread, hwords⟩ := h k hk
  refine ⟨value, hread, fun w hw => ?_⟩
  have hne : w.1 ≠ "m/rst".toList := by
    rintro heq
    apply hrst
    rw [← heq]
    refine List.mem_flatMap.mpr ⟨k, hk, ?_⟩
    rw [← map_fst_words k value]
    exact List.mem_map_of_mem hw
  rw [reset_of_ne hne]
  exact hwords w hw

/-- **An installation** leaves the keys of the key file in the registers, or ends the process. -/
theorem install_cases (s : Station) :
    (∃ hw, s.install = { s with hw, state := .waitConnect } ∧ Holds s.keys s.keyfile hw) ∨
      ∃ hw, s.install = { s with hw, ended := some .terminate } := by
  unfold install
  generalize hinst : installKeys s.keys s.keyfile s.hw = r
  obtain ⟨hw, err⟩ := r
  cases err with
  | some err => exact .inr ⟨hw, rfl⟩
  | none =>
    have hholds : Holds s.keys s.keyfile (installKeys s.keys s.keyfile s.hw).1 :=
      holds_installKeys s.type.nodup_registers (by rw [hinst])
    rw [hinst] at hholds
    exact .inl ⟨_, rfl, holds_reset hholds⟩

end Station

end ModemFhss.KeySender
