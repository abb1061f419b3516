import ModemFhss.KeySender.Latest

/-!
# What an installation has written when it fails

`MODEM_WAIT_DISCONNECT` and `InstallKeys` go through the keys one by one: `ReadFrom`, then
`WriteToHW`. So when a key cannot be read, those before it are in their registers already. Here the
loop is run with the list of the register words written, in their order, and with what else can stop
it, a register file that cannot be opened.

`installLoop_eq` says that what is written are the words of the first keys, all of them and in full,
and that the loop ends early at a key it cannot read or write. Nothing is written, then, only if it
ends at the first (`allOrNothing_iff`).
-/

namespace ModemFhss.KeySender

/-- What stops an installation. -/
inductive InstallError where
  /-- From `ReadFrom` or `WriteToHW`. -/
  | key (err : KeyGenError)
  /-- `hw->IsOnline()` throws. -/
  | ioctl
  deriving DecidableEq, Repr

/-- `WriteToHW`, with the register files that can be opened. Those of a pair are both opened before
either is written; `sysfs_store_reg` takes every value. -/
def KeyClass.writeOut (opens : Text → Bool) (k : KeyClass) (value : KeyValue) :
    List (Text × Nat) × Option KeyGenError :=
  if ∀ w ∈ k.words value, opens w.1 then (k.words value, none) else ([], some .openFile)

/-- The loop over the keys, with what has been written. -/
def installLoop (opens : Text → Bool) (file : Option Text) :
    List KeyClass → List (Text × Nat) → List (Text × Nat) × Option KeyGenError
  | [], written => (written, none)
  | k :: v, written =>
    match k.readFrom file with
    | .error err => (written, some err)
    | .ok value =>
      match k.writeOut opens value with
      | (words, none) => installLoop opens file v (written ++ words)
      | (words, some err) => (written ++ words, some err)

/-- The two places where keys are installed. -/
inductive InstallStep where
  /-- With what `hw->IsOnline()` says, unless it throws. -/
  | waitDisconnect (online : Option Bool)
  | installKeys
  deriving DecidableEq, Repr

/-- The words written to key registers, and the exception. The registers are written before
`hw->Reset`, which writes none of a key. -/
def InstallStep.perform (step : InstallStep) (opens : Text → Bool) (v : List KeyClass)
    (file : Option Text) : List (Text × Nat) × Option InstallError :=
  match step with
  | .waitDisconnect none => ([], some .ioctl)
  | .waitDisconnect (some true) => ([], none)
  | .waitDisconnect (some false) | .installKeys =>
    let (written, err) := installLoop opens file v []
    (written, err.map .key)

/-- The key can be read from the file. -/
def KeyClass.Reads (k : KeyClass) (file : Option Text) : Prop :=
  ∃ value, k.readFrom file = .ok value

/-- All register files of the key can be opened. -/
def KeyClass.Opens (k : KeyClass) (opens : Text → Bool) : Prop := ∀ r ∈ k.registers, opens r = true

/-- Registers are written only if every key can be read. -/
def InstallStep.AllOrNothing (step : InstallStep) (opens : Text → Bool) (v : List KeyClass)
    (file : Option Text) : Prop :=
  (step.perform opens v file).1 ≠ [] → ∀ k ∈ v, k.Reads file

/-- The step comes to installing keys. -/
def InstallStep.Begins (step : InstallStep) : Prop :=
  step = .waitDisconnect (some false) ∨ step = .installKeys

instance (k : KeyClass) (file : Option Text) : Decidable (k.Reads file) :=
  match h : k.readFrom file with
  | .error _ => isFalse fun ⟨_, hread⟩ => by rw [h] at hread; cases hread
  | .ok value => isTrue ⟨value, h⟩

instance (k : KeyClass) (opens : Text → Bool) : Decidable (k.Opens opens) :=
  inferInstanceAs (Decidable (∀ r ∈ k.registers, opens r = true))

instance (step : InstallStep) (opens : Text → Bool) (v : List KeyClass) (file : Option Text) :
    Decidable (step.AllOrNothing opens v file) :=
  inferInstanceAs (Decidable (_ → ∀ k ∈ v, k.Reads file))

/-! ## What the loop writes -/

variable {opens : Text → Bool} {k : KeyClass} {v : List KeyClass} {file : Option Text}
  {value : KeyValue} {written : List (Text × Nat)} {step : InstallStep}

theorem KeyClass.writeOut_of_opens (h : k.Opens opens) :
    k.writeOut opens value = (k.words value, none) := by
  have hall : ∀ w ∈ k.words value, opens w.1 = true := by
    intro w hw
    apply h
    rw [← map_fst_words k value]
    exact List.mem_map_of_mem hw
  exact if_pos hall

theorem KeyClass.writeOut_of_not_opens (h : ¬ k.Opens opens) :
    k.writeOut opens value = ([], some .openFile) := by
  apply if_neg
  intro hall
  apply h
  intro r hr
  rw [← map_fst_words k value] at hr
  obtain ⟨w, hw, rfl⟩ := List.mem_map.mp hr
  exact hall w hw

/-- **The loop writes the words of the first `n` keys**, which can be read and written, and stops at
the next, if there is one, because it cannot. -/
theorem installLoop_eq (opens : Text → Bool) (file : Option Text) (v : List KeyClass)
    (written : List (Text × Nat)) : ∃ n ≤ v.length,
      (installLoop opens file v written).1 = written ++ installWords (v.take n) file ∧
      (∀ k ∈ v.take n, k.Reads file ∧ k.Opens opens) ∧
      (∀ k ∈ v[n]?, ¬ (k.Reads file ∧ k.Opens opens)) ∧
      ((installLoop opens file v written).2 = none ↔ n = v.length) := by
  induction v generalizing written with
  | nil =>
    refine ⟨0, Nat.le_refl 0, (List.append_nil written).symm, ?_, ?_, ?_⟩
    · exact fun k hk => absurd hk List.not_mem_nil
    · intro k hk
      cases hk
    · exact iff_of_true rfl rfl
  | cons k v ih =>
    cases hread : k.readFrom file with
    | error err =>
      refine ⟨0, Nat.zero_le _, ?_, fun k hk => absurd hk List.not_mem_nil, ?_, ?_⟩
      · simp [installLoop, hread, installWords]
      · rintro k' ⟨⟩ ⟨⟨value, hvalue⟩, -⟩
        rw [hread] at hvalue
        cases hvalue
      · simp [installLoop, hread]
    | ok value =>
      by_cases hopens : k.Opens opens
      · obtain ⟨n, hle, hwords, hbefore, hat, hend⟩ := ih (written ++ k.words value)
        have hloop : installLoop opens file (k :: v) written =
            installLoop opens file v (written ++ k.words value) := by
          simp only [installLoop, hread, KeyClass.writeOut_of_opens hopens]
        refine ⟨n + 1, Nat.succ_le_succ hle, ?_, ?_, hat, ?_⟩
        · rw [hloop, hwords, List.take_succ_cons, List.append_assoc]
          simp only [installWords, hread]
        · rw [List.take_succ_cons]
          exact List.forall_mem_cons.mpr ⟨⟨⟨value, hread⟩, hopens⟩, hbefore⟩
        · rw [hloop, hend, List.length_cons, Nat.succ_inj]
      · refine ⟨0, Nat.zero_le _, ?_, fun k hk => absurd hk List.not_mem_nil, ?_, ?_⟩
        · simp [installLoop, hread, KeyClass.writeOut_of_not_opens hopens, installWords]
        · rintro k' ⟨⟩ ⟨-, hk⟩
          exact hopens hk
        · simp [installLoop, hread, KeyClass.writeOut_of_not_opens hopens]

/-- Where all register files can be opened, this is `installKeys`. -/
theorem installLoop_installKeys (hopens : ∀ k ∈ v, k.Opens opens) (hw : Registers) :
    installLoop opens file v written =
      (written ++ installWords v file, (installKeys v file hw).2) := by
  induction v generalizing written hw with
  | nil => simp [installLoop, installWords, installKeys]
  | cons k v ih =>
    obtain ⟨hk, hv⟩ := List.forall_mem_cons.mp hopens
    cases hread : k.readFrom file with
    | error err => simp [installLoop, installWords, installKeys, hread]
    | ok value =>
      simp only [installLoop, installWords, installKeys, hread, KeyClass.writeOut_of_opens hk]
      rw [ih hv (k.writeToHW value hw), List.append_assoc]

/-! ## All or nothing -/

theorem words_ne_nil (k : KeyClass) (value : KeyValue) : k.words value ≠ [] := by
  unfold KeyClass.words
  split <;> exact List.cons_ne_nil _ _

/-- Nothing is written if and only if there is no first key, or it cannot be read or written. -/
theorem installLoop_eq_nil : (installLoop opens file v []).1 = [] ↔
    ∀ k ∈ v.head?, ¬ (k.Reads file ∧ k.Opens opens) := by
  obtain ⟨n, -, hwords, hbefore, hat, -⟩ := installLoop_eq opens file v []
  rw [hwords, List.nil_append]
  cases v with
  | nil =>
    rw [List.take_nil]
    exact iff_of_true rfl fun k hk => by cases hk
  | cons k v =>
    cases n with
    | zero => exact iff_of_true rfl hat
    | succ n =>
      rw [List.take_succ_cons] at hbefore ⊢
      obtain ⟨⟨value, hread⟩, hopens⟩ := hbefore k List.mem_cons_self
      apply iff_of_false
      · intro hnil
        simp only [installWords, hread, List.append_eq_nil_iff] at hnil
        exact words_ne_nil k value hnil.1
      · intro h
        exact h k rfl ⟨⟨value, hread⟩, hopens⟩

theorem perform_eq_nil : (step.perform opens v file).1 = [] ↔
    (step.Begins → ∀ k ∈ v.head?, ¬ (k.Reads file ∧ k.Opens opens)) := by
  have hbegins (h : step.Begins) : (step.perform opens v file).1 =
      (installLoop opens file v []).1 := by
    rcases h with rfl | rfl <;> rfl
  by_cases h : step.Begins
  · rw [hbegins h, installLoop_eq_nil]
    exact ⟨fun hall _ => hall, fun hall => hall h⟩
  · apply iff_of_true
    · rcases step with online | _
      · rcases online with _ | _ | _
        · rfl
        · exact absurd (.inl rfl) h
        · rfl
      · exact absurd (.inr rfl) h
    · intro hb
      exact absurd hb h

/-- **When an installation is all or nothing**: every key can be read, or the step does not come to
the first key's registers. -/
theorem allOrNothing_iff (step : InstallStep) (opens : Text → Bool) (v : List KeyClass)
    (file : Option Text) : step.AllOrNothing opens v file ↔
      (∀ k ∈ v, k.Reads file) ∨
        (step.Begins → ∀ k ∈ v.head?, ¬ (k.Reads file ∧ k.Opens opens)) := by
  unfold InstallStep.AllOrNothing
  rw [Ne, ← perform_eq_nil]
  tauto

/-- The file lacks `sap/key_sap`: the link going off installs the pair before it. -/
theorem not_allOrNothing : ¬ (InstallStep.waitDisconnect (some false)).AllOrNothing (fun _ => true)
    ModemType.rtkU.keys (some "ci/key_lsb:1\nci/key_msb:2\n".toList) := by
  decide +kernel

end ModemFhss.KeySender
