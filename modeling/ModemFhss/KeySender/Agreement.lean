import ModemFhss.Library.Machine
import ModemFhss.KeySender.Station

/-!
# Two stations

A master and a slave with the same keys, iterating in any order, on a link that goes up and down at
any time. The two share the level of the link and one file copy; the slave says nothing back, so the
master cannot know whether it has seen the link go up and off.

Whenever the master waits for the link again, the two key files are the same and its own registers
hold what they say (`Inv`). The slave's registers hold it exactly if the slave has installed its
file since it last changed. `SlaveReady` says that it has whenever the master installs.
-/

namespace ModemFhss.KeySender

open Machine

structure Stations where
  master : Station
  slave : Station
  link : Bool

inductive StationEvent where
  | link (up : Bool)
  /-- An iteration of the master. In `MODEM_SEND_KEYS`, the slave's key file is replaced if
  `copied`; what `online` says in the input is replaced by the link. -/
  | master (i : Input) (copied : Bool)
  | slave (i : Input)

namespace Stations

/-- The iteration runs `sshpass scp`. -/
def Sends (s : Stations) (i : Input) : Prop := s.master.Turns i ∧ s.master.state = .sendKeys

instance (s : Stations) (i : Input) : Decidable (s.Sends i) :=
  inferInstanceAs (Decidable (s.master.Turns i ∧ s.master.state = .sendKeys))

/-- The slave after `scp`, which may have replaced its key file. -/
def afterCopy (s : Stations) (copied : Bool) : Station :=
  if copied then { s.slave with keyfile := s.master.srcfile } else s.slave

def step (s : Stations) : StationEvent → Option Stations
  | .link up => some { s with link := up }
  | .master i copied =>
    if s.Sends i then
      -- scp exits with 0 only after the copy
      if i.sshpass = .exited 0 ∧ copied = false then
        none
      else
        some { s with
          master := s.master.loop { i with online := s.link }
          slave := s.afterCopy copied }
    else
      some { s with master := s.master.loop { i with online := s.link } }
  | .slave i => some { s with slave := s.slave.loop { i with online := s.link } }

/-- The registers of every key are equal. -/
def Agree (s : Stations) : Prop :=
  ∀ k ∈ s.master.keys, ∀ r ∈ k.registers, s.master.hw r = s.slave.hw r

instance (s : Stations) : Decidable s.Agree := inferInstanceAs (Decidable (∀ k ∈ _, ∀ r ∈ _, _))

/-- The slave's registers hold what its key file says. -/
def SlaveHolds (s : Stations) : Prop := Holds s.slave.keys s.slave.keyfile s.slave.hw

instance (s : Stations) : Decidable s.SlaveHolds := inferInstanceAs (Decidable (Holds _ _ _))

/-- How the two start. -/
structure Starts (s : Stations) : Prop where
  type : s.slave.type = s.master.type
  masterRole : s.master.isMaster = true
  slaveRole : s.slave.isMaster = false
  masterState : s.master.state = .waitConnect
  slaveState : s.slave.state = .waitConnect
  srcfile : s.master.srcfile = none
  keyfile : s.master.keyfile = s.slave.keyfile
  masterHolds : Holds s.master.keys s.master.keyfile s.master.hw
  slaveHolds : s.SlaveHolds

/-- When the master installs, a slave that waits for the link has installed its key file. -/
def SlaveReady (s : Stations) : StationEvent → Prop
  | .master i _ => s.master.Turns i → s.master.state = .waitDisconnect → s.link = false →
    s.slave.state = .waitConnect → s.SlaveHolds
  | _ => True

instance : ∀ (s : Stations) (e : StationEvent), Decidable (SlaveReady s e)
  | _, .link _ => isTrue trivial
  | _, .slave _ => isTrue trivial
  | _, .master .. => inferInstanceAs (Decidable (_ → _ → _ → _ → _))

/-! ## The invariant -/

/-- What the files and the master's registers are, by the master's state. -/
def Phase (s : Stations) : State → Prop
  | .waitConnect | .ping | .createKeys => s.master.srcfile = none ∧
    s.master.keyfile = s.slave.keyfile ∧ Holds s.master.keys s.master.keyfile s.master.hw
  | .sendKeys => s.master.srcfile.isSome
  | .saveKeys => s.master.srcfile.isSome ∧ s.slave.keyfile = s.master.srcfile
  | .waitDisconnect => s.master.srcfile = none ∧ s.master.keyfile = s.slave.keyfile

structure Inv (s : Stations) : Prop where
  type : s.slave.type = s.master.type
  masterRole : s.master.isMaster = true
  slaveRole : s.slave.isMaster = false
  slaveState : s.slave.state = .waitConnect ∨ s.slave.state = .waitDisconnect
  phase : s.Phase s.master.state

variable {s s' s₀ : Stations} {i : Input} {copied : Bool}

/-- `Phase` reads the master's files and registers, and the slave's key file. -/
theorem Phase.congr {st : State} (h : s.Phase st) (htype : s'.master.type = s.master.type)
    (hsrc : s'.master.srcfile = s.master.srcfile) (hkey : s'.master.keyfile = s.master.keyfile)
    (hhw : s'.master.hw = s.master.hw) (hslave : s'.slave.keyfile = s.slave.keyfile) :
    s'.Phase st := by
  cases st <;> simpa only [Phase, Station.keys, htype, hsrc, hkey, hhw, hslave] using h

theorem Starts.inv (h : s.Starts) : s.Inv where
  type := h.type
  masterRole := h.masterRole
  slaveRole := h.slaveRole
  slaveState := .inl h.slaveState
  phase := by
    rw [h.masterState]
    exact ⟨h.srcfile, h.keyfile, h.masterHolds⟩

/-- What an iteration of the slave can do: it keeps its files, and comes back to
`MODEM_WAIT_CONNECT` only with its key file installed. -/
structure SlaveMoves (s s' : Station) : Prop where
  type : s'.type = s.type
  role : s'.isMaster = s.isMaster
  keyfile : s'.keyfile = s.keyfile
  state : s'.state = .waitConnect ∨ s'.state = .waitDisconnect
  installed : s'.state = .waitConnect →
    s.state = .waitConnect ∧ s'.hw = s.hw ∨ Holds s'.keys s'.keyfile s'.hw

theorem slaveMoves_loop {s : Station} (hrole : s.isMaster = false)
    (hstate : s.state = .waitConnect ∨ s.state = .waitDisconnect) : SlaveMoves s (s.loop i) := by
  have hstays : ∀ e, SlaveMoves s { s with ended := e } := fun e =>
    ⟨rfl, rfl, rfl, hstate, fun hw => .inl ⟨hw, rfl⟩⟩
  by_cases hturns : s.Turns i
  · rw [Station.loop_of_turns hturns]
    unfold Station.turn
    rcases hstate with hst | hst
    · rw [hst]
      dsimp only
      split
      · -- a slave takes the shorter way
        have hnext : (if s.isMaster then State.ping else .waitDisconnect) = .waitDisconnect := by
          rw [hrole]
          rfl
        exact ⟨rfl, rfl, rfl, .inr hnext, fun h => absurd (hnext.symm.trans h) (by decide)⟩
      · exact hstays s.ended
    · rw [hst]
      dsimp only
      split
      · exact hstays s.ended
      · rcases s.install_cases with ⟨hw, hinst, hholds⟩ | ⟨hw, hinst⟩
        · rw [hinst]
          exact ⟨rfl, rfl, rfl, .inl rfl, fun _ => .inr hholds⟩
        · rw [hinst]
          exact ⟨rfl, rfl, rfl, .inr hst, fun h => absurd (hst.symm.trans h) (by decide)⟩
  · obtain ⟨e, he⟩ := Station.loop_of_not_turns hturns
    rw [he]
    exact hstays e

theorem Inv.slave (h : s.Inv) : Inv { s with slave := s.slave.loop i } := by
  have hm : SlaveMoves s.slave (s.slave.loop i) := slaveMoves_loop h.slaveRole h.slaveState
  exact ⟨hm.type.trans h.type, h.masterRole, hm.role.trans h.slaveRole, hm.state,
    h.phase.congr rfl rfl rfl rfl hm.keyfile⟩

/-- An iteration of the master that sends nothing. -/
theorem Inv.master_local (h : s.Inv) (hsend : ¬ s.Sends i) :
    Inv { s with master := s.master.loop i } := by
  have hphase := h.phase
  have hstays : ∀ e, Inv { s with master := { s.master with ended := e } } := fun e =>
    ⟨h.type, h.masterRole, h.slaveRole, h.slaveState, hphase.congr rfl rfl rfl rfl rfl⟩
  by_cases hturns : s.master.Turns i
  · rw [Station.loop_of_turns hturns]
    cases hst : s.master.state with
    | waitConnect =>
      rw [hst] at hphase
      simp only [Station.turn, hst]
      split
      · rw [h.masterRole]
        exact ⟨h.type, rfl, h.slaveRole, h.slaveState, hphase⟩
      · exact hstays s.master.ended
    | ping =>
      rw [hst] at hphase
      simp only [Station.turn, hst]
      split
      · split
        · exact ⟨h.type, h.masterRole, h.slaveRole, h.slaveState, hphase⟩
        · exact hstays s.master.ended
      · exact hstays _
    | createKeys =>
      simp only [Station.turn, hst]
      exact ⟨h.type, h.masterRole, h.slaveRole, h.slaveState, rfl⟩
    | sendKeys => exact absurd ⟨hturns, hst⟩ hsend
    | saveKeys =>
      rw [hst] at hphase
      obtain ⟨hsome, hcopy⟩ := hphase
      -- the key file becomes what the slave got, and the source file is removed
      obtain ⟨src, hsrc⟩ := Option.isSome_iff_exists.mp hsome
      simp only [Station.turn, hst, Station.saveKeysToFile, hsrc]
      refine ⟨h.type, h.masterRole, h.slaveRole, h.slaveState, rfl, ?_⟩
      show some (copyFile src) = s.slave.keyfile
      rw [Station.copyFile_eq, hcopy, hsrc]
    | waitDisconnect =>
      rw [hst] at hphase
      simp only [Station.turn, hst]
      split
      · exact hstays s.master.ended
      · rcases s.master.install_cases with ⟨hw, hinst, hholds⟩ | ⟨hw, hinst⟩
        · rw [hinst]
          exact ⟨h.type, h.masterRole, h.slaveRole, h.slaveState, hphase.1, hphase.2, hholds⟩
        · rw [hinst]
          refine ⟨h.type, h.masterRole, h.slaveRole, h.slaveState, ?_⟩
          show Phase _ s.master.state
          rw [hst]
          exact hphase
  · obtain ⟨e, he⟩ := Station.loop_of_not_turns hturns
    rw [he]
    exact hstays e

@[simp] theorem type_afterCopy : (s.afterCopy copied).type = s.slave.type := by
  cases copied <;> rfl

@[simp] theorem isMaster_afterCopy : (s.afterCopy copied).isMaster = s.slave.isMaster := by
  cases copied <;> rfl

@[simp] theorem state_afterCopy : (s.afterCopy copied).state = s.slave.state := by
  cases copied <;> rfl

/-- An iteration of the master that runs `scp`. -/
theorem Inv.master_sends (h : s.Inv) (hsend : s.Sends i)
    (hscp : ¬ (i.sshpass = .exited 0 ∧ copied = false)) :
    Inv { s with master := s.master.loop i, slave := s.afterCopy copied } := by
  obtain ⟨hturns, hst⟩ := hsend
  have hphase := h.phase
  rw [hst] at hphase
  have hmoves : ∀ master : Station, master.type = s.master.type → master.isMaster = true →
      Phase { s with master, slave := s.afterCopy copied } master.state →
      Inv { s with master, slave := s.afterCopy copied } := by
    intro master htype hrole hph
    exact ⟨by simpa [htype] using h.type, hrole, by simpa using h.slaveRole,
      by simpa using h.slaveState, hph⟩
  have hstays : ∀ e, Inv { s with
      master := { s.master with ended := e }, slave := s.afterCopy copied } := by
    intro e
    refine hmoves { s.master with ended := e } rfl h.masterRole ?_
    show Phase _ s.master.state
    rw [hst]
    exact hphase
  rw [Station.loop_of_turns hturns]
  simp only [Station.turn, hst]
  split
  · next code hexit =>
    split
    · next hzero =>
      -- with exit status 0 the copy was made
      have hcopied : copied = true := by
        subst hzero
        simpa [hexit] using hscp
      subst hcopied
      exact hmoves { s.master with state := .saveKeys } rfl h.masterRole ⟨hphase, rfl⟩
    · exact hstays s.master.ended
  · exact hstays _

theorem Inv.step {e : StationEvent} (h : s.Inv) (hs : s.step e = some s') : s'.Inv := by
  cases e with
  | link up =>
    cases hs
    exact ⟨h.type, h.masterRole, h.slaveRole, h.slaveState, h.phase.congr rfl rfl rfl rfl rfl⟩
  | slave i => cases hs; exact h.slave
  | master i copied =>
    simp only [Stations.step] at hs
    split at hs
    · next hsend =>
      split at hs
      · cases hs
      · next hscp => cases hs; exact h.master_sends hsend hscp
    · next hsend => cases hs; exact h.master_local hsend

/-! ## When the slave has kept up -/

/-- Between an installation and the next copy, a waiting slave holds its key file. -/
def KeptUp (s : Stations) : Prop :=
  s.master.state = .waitConnect ∨ s.master.state = .ping ∨ s.master.state = .createKeys →
    s.slave.state = .waitConnect → s.SlaveHolds

theorem KeptUp.slave (h : s.KeptUp) (hinv : s.Inv) :
    KeptUp { s with slave := s.slave.loop i } := by
  have hm : SlaveMoves s.slave (s.slave.loop i) :=
    slaveMoves_loop hinv.slaveRole hinv.slaveState
  intro hst hwait
  rcases hm.installed hwait with ⟨hbefore, hhw⟩ | hholds
  · have hold : Holds s.slave.keys s.slave.keyfile s.slave.hw := h hst hbefore
    show Holds (s.slave.loop i).type.keys (s.slave.loop i).keyfile (s.slave.loop i).hw
    rw [hm.type, hm.keyfile, hhw]
    exact hold
  · exact hholds

/-- Between an installation and the next copy comes nothing but an installation. -/
theorem state_loop {s : Station} :
    (s.loop i).state = .waitConnect ∨ (s.loop i).state = .ping ∨
      (s.loop i).state = .createKeys →
    (s.state = .waitConnect ∨ s.state = .ping ∨ s.state = .createKeys) ∨
      s.Turns i ∧ s.state = .waitDisconnect ∧ i.online = false := by
  intro hnext
  by_cases hturns : s.Turns i
  · cases hst : s.state with
    | waitConnect => exact .inl (.inl rfl)
    | ping => exact .inl (.inr (.inl rfl))
    | createKeys => exact .inl (.inr (.inr rfl))
    | sendKeys =>
      rw [Station.loop_of_turns hturns] at hnext
      simp only [Station.turn, hst] at hnext
      split at hnext
      · split at hnext
        · simp at hnext
        · simp [hst] at hnext
      · simp [Station.stop, hst] at hnext
    | saveKeys =>
      rw [Station.loop_of_turns hturns] at hnext
      simp only [Station.turn, hst, Station.saveKeysToFile] at hnext
      split at hnext
      · simp at hnext
      · simp [Station.stop] at hnext
    | waitDisconnect =>
      refine .inr ⟨hturns, rfl, ?_⟩
      rw [Station.loop_of_turns hturns] at hnext
      simp only [Station.turn, hst] at hnext
      split at hnext
      · simp [hst] at hnext
      · next hoff => simpa using hoff
  · obtain ⟨e, he⟩ := Station.loop_of_not_turns hturns
    rw [he] at hnext
    exact .inl hnext

theorem KeptUp.step {e : StationEvent} (h : s.KeptUp) (hinv : s.Inv) (hg : SlaveReady s e)
    (hs : s.step e = some s') : s'.KeptUp := by
  cases e with
  | link up => cases hs; exact h
  | slave i => cases hs; exact h.slave hinv
  | master i copied =>
    simp only [Stations.step] at hs
    split at hs
    · next hsend =>
      split at hs
      · cases hs
      · cases hs
        intro hst
        -- after a copy the master has keys to save or to send again
        rcases state_loop hst with (hbefore | hbefore | hbefore) | ⟨-, hbefore, -⟩
        all_goals exact absurd (hsend.2.symm.trans hbefore) (by decide)
    · cases hs
      intro hst hwait
      rcases state_loop hst with hbefore | ⟨hturns, hdisc, hoff⟩
      · exact h hbefore hwait
      · exact hg hturns hdisc hoff hwait

/-! ## Agreement -/

theorem mem_registers_iff {k : KeyClass} {r : Text} (value : KeyValue) :
    r ∈ k.registers ↔ ∃ w ∈ k.words value, w.1 = r := by
  rw [← map_fst_words k value, List.mem_map]

/-- Registers that hold one file are equal. -/
theorem agree_of_holds (htype : s.slave.type = s.master.type)
    (hkeyfile : s.master.keyfile = s.slave.keyfile)
    (hm : Holds s.master.keys s.master.keyfile s.master.hw) (hs : s.SlaveHolds) : s.Agree := by
  intro k hk r hr
  have hk' : k ∈ s.slave.keys := by
    show k ∈ s.slave.type.keys
    rw [htype]
    exact hk
  obtain ⟨value, hread, hwords⟩ := hm k hk
  obtain ⟨value', hread', hwords'⟩ := hs k hk'
  rw [← hkeyfile, hread] at hread'
  cases hread'
  obtain ⟨w, hw, rfl⟩ := (mem_registers_iff value).mp hr
  rw [hwords w hw, hwords' w hw]

/-- Registers equal to ones that hold the file hold it too. -/
theorem slaveHolds_of_agree (htype : s.slave.type = s.master.type)
    (hkeyfile : s.master.keyfile = s.slave.keyfile)
    (hm : Holds s.master.keys s.master.keyfile s.master.hw) (ha : s.Agree) : s.SlaveHolds := by
  intro k hk
  have hk' : k ∈ s.master.keys := by
    show k ∈ s.master.type.keys
    rw [← htype]
    exact hk
  obtain ⟨value, hread, hwords⟩ := hm k hk'
  refine ⟨value, hkeyfile ▸ hread, fun w hw => ?_⟩
  rw [← ha k hk' w.1 ((mem_registers_iff value).mpr ⟨w, hw, rfl⟩)]
  exact hwords w hw

/-- **When both stations wait for the link**, their key files are the same, and their registers are
equal exactly if the slave has installed its file; they are if it has kept up with the master. -/
theorem run_agree {es : List StationEvent} (h₀ : s₀.Starts)
    (hr : Machine.run Stations.step s₀ es = some s) (hm : s.master.state = .waitConnect)
    (hs : s.slave.state = .waitConnect) :
    s.master.keyfile = s.slave.keyfile ∧ (s.Agree ↔ s.SlaveHolds) ∧
      (Meets Stations.step SlaveReady s₀ es → s.Agree) := by
  have hinv : s.Inv := run_invariant (fun _ _ _ h hstep => h.step hstep) h₀.inv hr
  have hphase := hinv.phase
  rw [hm] at hphase
  obtain ⟨-, hkeyfile, hholds⟩ := hphase
  refine ⟨hkeyfile, ⟨slaveHolds_of_agree hinv.type hkeyfile hholds,
    agree_of_holds hinv.type hkeyfile hholds⟩, fun hready => ?_⟩
  have hkept : s.Inv ∧ s.KeptUp := run_invariant_of_meets (I := fun s => s.Inv ∧ s.KeptUp)
    (fun _ _ _ h hg hstep => ⟨h.1.step hstep, h.2.step h.1 hg hstep⟩)
    ⟨h₀.inv, fun _ _ => h₀.slaveHolds⟩ hready hr
  exact agree_of_holds hinv.type hkeyfile hholds (hkept.2 (.inl hm) hs)

/-- Two stations whose key files and registers are all zeros. -/
def atRest : Stations :=
  let station (isMaster : Bool) : Station :=
    { type := .rtkV, isMaster, state := .waitConnect, srcfile := none
      keyfile := some (createKeys ModemType.rtkV.keys (fun _ => ⟨0, 0⟩) [])
      hw := fun _ => 0, ended := none }
  ⟨station true, station false, false⟩

theorem starts_atRest : atRest.Starts :=
  ⟨rfl, rfl, rfl, rfl, rfl, rfl, rfl, by decide +kernel, by decide +kernel⟩

/-- An iteration in which everything goes well; the new keys are ones. -/
def goesWell : Input := ⟨none, false, .exited 0, .exited 0, fun _ => ⟨1, 1⟩⟩

/-- The link goes up, and the master pings, creates, sends and saves. -/
def distribution : List StationEvent :=
  [.link true, .master goesWell false, .master goesWell false, .master goesWell false,
    .master goesWell true, .master goesWell false]

/-- The slave sees the link go up and off, and installs before the master does. -/
def bothInstall : List StationEvent :=
  distribution ++ [.slave goesWell, .link false, .slave goesWell, .master goesWell false]

theorem run_agree_bothInstall : ∃ s, Machine.run Stations.step atRest bothInstall = some s ∧
    s.master.hw "phy/key_common".toList = 1 ∧ s.Agree := by
  have hready : Meets Stations.step SlaveReady atRest bothInstall := by decide +kernel
  obtain ⟨s, hs, hmaster, hslave, hone⟩ : ∃ s,
      Machine.run Stations.step atRest bothInstall = some s ∧ s.master.state = .waitConnect ∧
        s.slave.state = .waitConnect ∧ s.master.hw "phy/key_common".toList = 1 := by
    decide +kernel
  exact ⟨s, hs, hone, (run_agree starts_atRest hs hmaster hslave).2.2 hready⟩

/-- The slave is not polled while the link is up. -/
def missedPulse : List StationEvent := distribution ++ [.link false, .master goesWell false]

/-- Both stations wait for the link, the master with new keys and the slave with the old ones. -/
theorem missedPulse_not_agree : atRest.Starts ∧
    ∃ s, Machine.run Stations.step atRest missedPulse = some s ∧ s.master.state = .waitConnect ∧
      s.slave.state = .waitConnect ∧ ¬ s.Agree := by
  refine ⟨starts_atRest, ?_⟩
  decide +kernel

end Stations

end ModemFhss.KeySender
