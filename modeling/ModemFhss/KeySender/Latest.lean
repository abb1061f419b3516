import ModemFhss.Library.Machine
import ModemFhss.KeySender.RoundTrip
import ModemFhss.KeySender.Station

/-!
# Which keys a master installs

A master over its whole life: the loop of `daemonTool_c::Run`, ended by a signal or an error and
started again with the files that are there. `MODEM_CREATE_KEYS` appends to `srcfile`, which
`MODEM_SAVE_KEYS` copies and removes, and `MODEM_WAIT_DISCONNECT` takes the first line for each key.
So a `srcfile` that is left over from a cycle that was cut short comes before the keys created
later. If there is none whenever keys are created, those installed are the latest
(`run_installsLatest`).

`latest` and `installs` record what was generated and what was written to the registers.
-/

namespace ModemFhss.KeySender

open Machine

structure Master where
  station : Station
  /-- The words of all keys that the last `MODEM_CREATE_KEYS` generated. -/
  latest : Option (List (Text × Nat))
  /-- For each `MODEM_WAIT_DISCONNECT` that saw the link off: the words generated last until then,
  and the words written to the registers. -/
  installs : List (Option (List (Text × Nat)) × List (Text × Nat))

inductive MasterEvent where
  /-- An iteration of the loop. -/
  | loop (i : Input)
  /-- An iteration in which `WriteTo` throws after `n` keys. -/
  | fail (i : Input) (n : Nat)
  /-- The process has ended, and is started again. -/
  | restart

/-- What an installation writes to the registers, in order. -/
def installWords : List KeyClass → Option Text → List (Text × Nat)
  | [], _ => []
  | k :: v, file =>
    match k.readFrom file with
    | .error _ => []
    | .ok value => k.words value ++ installWords v file

namespace Master

/-- The iteration runs `MODEM_CREATE_KEYS`. -/
def Creates (m : Master) (i : Input) : Prop := m.station.Turns i ∧ m.station.state = .createKeys

/-- The iteration runs `MODEM_WAIT_DISCONNECT` with the link off. -/
def Installs (m : Master) (i : Input) : Prop :=
  m.station.Turns i ∧ m.station.state = .waitDisconnect ∧ i.online = false

instance (m : Master) (i : Input) : Decidable (m.Creates i) :=
  inferInstanceAs (Decidable (_ ∧ _))

instance (m : Master) (i : Input) : Decidable (m.Installs i) :=
  inferInstanceAs (Decidable (_ ∧ _ ∧ _))

/-- The values drawn are of the keys' types. -/
def Typed (m : Master) (i : Input) : Prop := ∀ k ∈ m.station.keys, k.Range (i.values k)

instance (m : Master) (i : Input) : Decidable (m.Typed i) :=
  inferInstanceAs (Decidable (∀ k ∈ m.station.keys, k.Range (i.values k)))

def step (m : Master) : MasterEvent → Option Master
  | .loop i =>
    if m.station.ended = none ∧ m.Typed i then
      some
        { station := m.station.loop i
          latest := if m.Creates i then some (allWords m.station.keys i.values) else m.latest
          installs :=
            if m.Installs i then
              m.installs ++ [(m.latest, installWords m.station.keys m.station.keyfile)]
            else
              m.installs }
    else
      none
  | .fail i n =>
    if m.station.ended = none ∧ m.Typed i ∧ m.Creates i then
      some { m with
        station :=
          { m.station with
            srcfile :=
              some (createKeys (m.station.keys.take n) i.values (m.station.srcfile.getD []))
            ended := some .terminate } }
    else
      none
  | .restart =>
    if m.station.ended ≠ none then
      some { m with station := { m.station with state := .waitConnect, ended := none } }
    else
      none

/-- A master at the start of its loop; the files and the registers are as they are. -/
structure Starts (m : Master) : Prop where
  role : m.station.isMaster = true
  state : m.station.state = .waitConnect
  installs : m.installs = []

/-- What was written to the registers are the words of all keys that were generated last. -/
def InstallsLatest (m : Master) : Prop := ∀ e ∈ m.installs, e.1 = some e.2

instance (m : Master) : Decidable m.InstallsLatest :=
  inferInstanceAs (Decidable (∀ e ∈ m.installs, e.1 = some e.2))

/-- When keys are created, there is nothing left over in `srcfile`. -/
def Clean (m : Master) : MasterEvent → Prop
  | .loop i => m.Creates i → m.station.srcfile.getD [] = []
  | .fail _ _ | .restart => True

instance : ∀ (m : Master) (e : MasterEvent), Decidable (m.Clean e)
  | m, .loop i => inferInstanceAs (Decidable (m.Creates i → m.station.srcfile.getD [] = []))
  | _, .fail _ _ | _, .restart => isTrue trivial

/-! ## What an installation writes -/

variable {m m' : Master} {e : MasterEvent} {es : List MasterEvent} {i : Input}

/-- The registers after an installation are those it was seen to write. -/
theorem installKeys_eq_foldl (v : List KeyClass) (file : Option Text) (hw : Registers) :
    (installKeys v file hw).1 =
      (installWords v file).foldl (fun hw w => Function.update hw w.1 w.2) hw := by
  induction v generalizing hw with
  | nil => rfl
  | cons k v ih =>
    cases hread : k.readFrom file with
    | error err => simp only [installKeys, installWords, hread, List.foldl_nil]
    | ok value =>
      simp only [installKeys, installWords, hread, List.foldl_append]
      rw [ih]
      rfl

theorem installWords_keyFile {t : ModemType} {values : KeyClass → KeyValue}
    (hrange : ∀ k ∈ t.keys, k.Range (values k)) :
    installWords t.keys (some (t.keyFile values)) = allWords t.keys values := by
  have hread : ∀ k ∈ t.keys, k.readFrom (some (t.keyFile values)) = .ok (values k) :=
    fun k hk => readFrom_keyFile hrange hk
  unfold allWords
  generalize t.keys = v at hread ⊢
  induction v with
  | nil => rfl
  | cons k v ih =>
    simp only [installWords, hread k (List.mem_cons_self ..), List.flatMap_cons]
    rw [ih fun k hk => hread k (List.mem_cons_of_mem _ hk)]

/-! ## A life without leftovers -/

/-- `file` is the file of the keys generated last. -/
def Holding (m : Master) (file : Option Text) : Prop :=
  ∃ values, (∀ k ∈ m.station.keys, k.Range (values k)) ∧
    m.latest = some (allWords m.station.keys values) ∧
    file = some (m.station.type.keyFile values)

structure Inv (m : Master) : Prop where
  role : m.station.isMaster = true
  /-- Where the keys generated last are, by where the loop is. -/
  files : m.station.ended = none →
    match m.station.state with
    | .waitConnect | .ping | .createKeys => True
    | .sendKeys | .saveKeys => m.Holding m.station.srcfile
    | .waitDisconnect => m.Holding m.station.keyfile
  installs : m.InstallsLatest

theorem Starts.inv (h : m.Starts) : m.Inv where
  role := h.role
  files := by
    intro _
    rw [h.state]
    trivial
  installs := by
    intro e he
    rw [h.installs] at he
    exact absurd he List.not_mem_nil

/-- An iteration that is not taken leaves everything but the end of the process. -/
theorem Inv.loop_of_not_turns (h : m.Inv) (halive : m.station.ended = none)
    (hturns : ¬ m.station.Turns i) : Inv { m with station := m.station.loop i } := by
  obtain ⟨ended, heq⟩ := m.station.loop_of_not_turns hturns
  rw [heq]
  exact { role := h.role, files := fun _ => h.files halive, installs := h.installs }

/-- `MODEM_CREATE_KEYS`, with nothing left over. -/
theorem Inv.create (h : m.Inv) (htyped : m.Typed i) (hstate : m.station.state = .createKeys)
    (hclean : m.station.srcfile.getD [] = []) :
    Inv { m with
      station := m.station.turn i
      latest := some (allWords m.station.keys i.values) } := by
  have hturn : m.station.turn i = { m.station with
      srcfile := some (createKeys m.station.keys i.values []), state := .sendKeys } := by
    unfold Station.turn
    rw [hstate, hclean]
  rw [hturn]
  exact
    { role := h.role
      files := fun _ => ⟨i.values, htyped, rfl, rfl⟩
      installs := h.installs }

/-- `MODEM_SAVE_KEYS` -/
theorem Inv.save (h : m.Inv) (hstate : m.station.state = .saveKeys)
    (halive : m.station.ended = none) : Inv { m with station := m.station.saveKeysToFile } := by
  have hfiles := h.files halive
  rw [hstate] at hfiles
  obtain ⟨values, htyped, hlatest, hsrc⟩ := hfiles
  unfold Station.saveKeysToFile
  rw [hsrc]
  dsimp only
  rw [Station.copyFile_eq]
  exact
    { role := h.role
      files := fun _ => ⟨values, htyped, hlatest, rfl⟩
      installs := h.installs }

/-- `MODEM_WAIT_DISCONNECT` with the link off. -/
theorem Inv.install (h : m.Inv) (hstate : m.station.state = .waitDisconnect)
    (halive : m.station.ended = none) :
    Inv { m with
      station := m.station.install
      installs := m.installs ++ [(m.latest, installWords m.station.keys m.station.keyfile)] } := by
  have hfiles := h.files halive
  rw [hstate] at hfiles
  obtain ⟨values, htyped, hlatest, hkey⟩ := hfiles
  have hwords : installWords m.station.keys m.station.keyfile = allWords m.station.keys values := by
    rw [hkey]
    exact installWords_keyFile htyped
  have hinstalls : ∀ e ∈ m.installs ++
      [(m.latest, installWords m.station.keys m.station.keyfile)], e.1 = some e.2 := by
    intro e he
    rcases List.mem_append.mp he with he | he
    · exact h.installs e he
    · rw [List.mem_singleton.mp he, hlatest, hwords]
  rcases m.station.install_cases with ⟨hw, heq, -⟩ | ⟨hw, heq⟩
  · rw [heq]
    exact { role := h.role, files := fun _ => trivial, installs := hinstalls }
  · rw [heq]
    exact
      { role := h.role
        files := fun hnone => absurd hnone (Option.some_ne_none _)
        installs := hinstalls }

/-- What an iteration does that neither creates keys nor saves or installs them. -/
theorem Inv.turn (h : m.Inv) (halive : m.station.ended = none)
    (hcreate : m.station.state ≠ .createKeys) (hsave : m.station.state ≠ .saveKeys)
    (hinstall : m.station.state = .waitDisconnect → i.online = true) :
    Inv { m with station := m.station.turn i } := by
  have hfiles := h.files halive
  have hstop : ∀ e, Inv { m with station := m.station.stop e } := fun e =>
    { role := h.role
      files := fun hnone => absurd hnone (Option.some_ne_none _)
      installs := h.installs }
  unfold Station.turn
  cases hstate : m.station.state with
  | waitConnect =>
    dsimp only
    split
    · refine { role := h.role, files := fun _ => ?_, installs := h.installs }
      dsimp only
      rw [if_pos h.role]
      trivial
    · exact h
  | ping =>
    dsimp only
    split
    · split
      · exact { role := h.role, files := fun _ => trivial, installs := h.installs }
      · exact h
    · exact hstop _
  | createKeys => exact absurd hstate hcreate
  | sendKeys =>
    rw [hstate] at hfiles
    dsimp only
    split
    · split
      · exact { role := h.role, files := fun _ => hfiles, installs := h.installs }
      · exact h
    · exact hstop _
  | saveKeys => exact absurd hstate hsave
  | waitDisconnect =>
    dsimp only
    rw [if_pos (hinstall hstate)]
    exact h

/-- An iteration in which the state has its turn: it creates keys, installs or saves them, or does
something else. -/
theorem Inv.loop_of_turns (h : m.Inv) (hclean : m.Clean (.loop i)) (halive : m.station.ended = none)
    (htyped : m.Typed i) (hturns : m.station.Turns i) : Inv
      { station := m.station.turn i
        latest := if m.Creates i then some (allWords m.station.keys i.values) else m.latest
        installs :=
          if m.Installs i then
            m.installs ++ [(m.latest, installWords m.station.keys m.station.keyfile)]
          else
            m.installs } := by
  by_cases hcreate : m.station.state = .createKeys
  · have hcreates : m.Creates i := ⟨hturns, hcreate⟩
    have hnot : ¬ m.Installs i := by
      rintro ⟨-, hstate, -⟩
      rw [hcreate] at hstate
      cases hstate
    rw [if_pos hcreates, if_neg hnot]
    exact h.create htyped hcreate (hclean hcreates)
  have hnot : ¬ m.Creates i := fun hcreates => hcreate hcreates.2
  rw [if_neg hnot]
  by_cases hinstalls : m.Installs i
  · rw [if_pos hinstalls]
    obtain ⟨-, hstate, hoff⟩ := hinstalls
    have hturn : m.station.turn i = m.station.install := by
      unfold Station.turn
      rw [hstate, hoff]
      rfl
    rw [hturn]
    exact h.install hstate halive
  rw [if_neg hinstalls]
  by_cases hsave : m.station.state = .saveKeys
  · have hturn : m.station.turn i = m.station.saveKeysToFile := by
      unfold Station.turn
      rw [hsave]
    rw [hturn]
    exact h.save hsave halive
  -- what waits for the link to go off is still waiting, or it would have installed the keys
  apply h.turn halive hcreate hsave
  intro hstate
  exact eq_true_of_ne_false fun hoff => hinstalls ⟨hturns, hstate, hoff⟩

theorem Inv.step (h : m.Inv) (hclean : m.Clean e) (hs : Master.step m e = some m') : m'.Inv := by
  cases e with
  | loop i =>
    simp only [Master.step] at hs
    split at hs
    next hguard =>
      cases hs
      obtain ⟨halive, htyped⟩ := hguard
      by_cases hturns : m.station.Turns i
      · rw [Station.loop_of_turns hturns]
        exact h.loop_of_turns hclean halive htyped hturns
      · rw [if_neg fun hcreates => hturns hcreates.1, if_neg fun hinstalls => hturns hinstalls.1]
        exact h.loop_of_not_turns halive hturns
    · cases hs
  | fail i n =>
    simp only [Master.step] at hs
    split at hs
    · cases hs
      exact
        { role := h.role
          files := fun hnone => absurd hnone (Option.some_ne_none _)
          installs := h.installs }
    · cases hs
  | restart =>
    simp only [Master.step] at hs
    split at hs
    · cases hs
      exact { role := h.role, files := fun _ => trivial, installs := h.installs }
    · cases hs

/-- **The latest keys are installed, if nothing is left over** when keys are created, whenever the
process ends and is started again. -/
theorem run_installsLatest (hstart : m.Starts) (hr : run step m es = some m')
    (hclean : Meets step Clean m es) : m'.InstallsLatest :=
  (run_invariant_of_meets (fun _ _ _ h hg hs => h.step hg hs) hstart.inv hclean hr).installs

/-- A master without any files. -/
def fresh : Master where
  station :=
    { type := .rtkV, isMaster := true, state := .waitConnect, srcfile := none, keyfile := none
      hw := fun _ => 0, ended := none }
  latest := none
  installs := []

theorem starts_fresh : fresh.Starts := ⟨rfl, rfl, rfl⟩

/-- An iteration in which everything goes well and every word drawn is `n`. -/
def draws (n : Nat) (online : Bool) : Input where
  signal := none
  online
  ping := .exited 0
  sshpass := .exited 0
  values k := ⟨n, if k.type = .pair then n else 0⟩

/-- Keys are created, sent, saved and installed. -/
def cycle : List MasterEvent :=
  [.loop (draws 1 true), .loop (draws 1 true), .loop (draws 1 true), .loop (draws 1 true),
    .loop (draws 1 true), .loop (draws 1 false)]

theorem run_installsLatest_cycle : ∃ m', run step fresh cycle = some m' ∧ m'.InstallsLatest :=
  exists_of_isSome (by decide +kernel) fun _ hr =>
    run_installsLatest starts_fresh hr (by decide +kernel)

/-- A signal ends the process after the keys `1` were created. The next one creates the keys `2`. -/
def cutShort : List MasterEvent :=
  [.loop (draws 1 true), .loop (draws 1 true), .loop (draws 1 true),
    .loop { draws 1 true with signal := some .sigterm }, .restart,
    .loop (draws 2 true), .loop (draws 2 true), .loop (draws 2 true), .loop (draws 2 true),
    .loop (draws 2 true), .loop (draws 2 false)]

theorem cutShort_not_installsLatest :
    fresh.Starts ∧ ∃ m', run step fresh cutShort = some m' ∧ ¬ m'.InstallsLatest := by
  refine ⟨starts_fresh, ?_⟩
  decide +kernel

end Master

end ModemFhss.KeySender
