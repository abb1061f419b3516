import ModemFhss.Registers.Requests

/-!
# What the requests say

A request should return zero exactly if the object that was asked for is there and was made by it,
and if it returns an error nothing should be left of it (`Truthful`). This fails for two kinds of
requests: a file for a directory that does not exist, of which both drivers say that it was made,
and one that reaches the kernel under another name (`run_truthful_iff`).
-/

namespace ModemFhss.Registers

open Errno Net Machine

/-- The directory or the file that was asked for is there, and its object was not before. -/
def Created (s s' : DynamicRegs) : Request → Prop
  | .makeDir nodeName _ => ∃ k ∈ s'.dirs, k.name = nodeName.1 ∧ k.block ∉ s.live
  | .makeFile descr _ => ∃ k ∈ s'.dirs, k.name = descr.targetNode.1 ∧
      ∃ file ∈ k.files, file.name = descr.regName.1 ∧ file.address = descr.address ∧
        ∃ block, file.block = some block ∧ block ∉ s.live

/-- Zero is returned exactly if the object was made, and with an error everything is as before. -/
structure Truthful (driver : Driver) (s : DynamicRegs) (e : Event) : Prop where
  zero_iff : (ioctl driver s e).1 = 0 ↔ Created s (ioctl driver s e).2 e.request
  error : (ioctl driver s e).1 ≠ 0 →
    (ioctl driver s e).2.dirs = s.dirs ∧ (ioctl driver s e).2.live = s.live

/-- The kernel lets the object be made. -/
def Event.Granted (e : Event) : Prop := e.kzalloc = true ∧ e.res = 0

/-- The directory of a file is there, and what the kernel does not refuse reaches it under the name
that was asked for. -/
def Addressed (driver : Driver) (s : DynamicRegs) (e : Event) : Prop :=
  driver.checksAccess = true ∧ e.accessOk = false ∨
    match e.request with
    | .makeDir nodeName copied => e.Granted → kobjectName copied.1 = nodeName.1
    | .makeFile descr copied =>
      copied.targetNode.1 ∈ s.dirs.map Subdir.name ∧ (e.Granted → copied = descr)

variable {driver : Driver} {s s' : DynamicRegs} {e : Event} {request : Request}
  {nodeName copied : FieldName} {descr descr' : FileDescr} {dirs : List Subdir} {k : Subdir}
  {file : RegFile} {targetNode regName name : Name} {address : UInt32}

/-! ## What a request does -/

/-- An error, and everything is as before. -/
def Failed (s : DynamicRegs) (r : Int × DynamicRegs) : Prop :=
  r.1 ≠ 0 ∧ r.2.dirs = s.dirs ∧ r.2.live = s.live

theorem failed_enomem : Failed s (-enomem, s) := by
  refine ⟨?_, rfl, rfl⟩
  show (-enomem : Int) ≠ 0
  decide

theorem failed_refused {res : Int} (h : res ≠ 0) :
    Failed s (driver.refused res, s.kzalloc.kfree s.allocs) :=
  ⟨driver.refused_ne_zero res h, rfl, kfree_kzalloc⟩

theorem makeDir_failed {kzalloc : Bool} {res : Int} (h : ¬ (kzalloc = true ∧ res = 0)) :
    Failed s (makeDir driver s kzalloc res name) := by
  unfold makeDir
  split_ifs with halloc hres
  · exact failed_refused hres
  · exact absurd ⟨halloc, not_not.mp hres⟩ h
  · exact failed_enomem

theorem makeFile_failed {kzalloc : Bool} {res : Int} (htarget : targetNode ∈ s.dirs.map Subdir.name)
    (h : ¬ (kzalloc = true ∧ res = 0)) :
    Failed s (makeFile driver s kzalloc res regName targetNode address) := by
  unfold makeFile
  rw [if_pos htarget]
  split_ifs with halloc hres
  · exact failed_refused hres
  · exact absurd ⟨halloc, not_not.mp hres⟩ h
  · exact failed_enomem

/-! ## When a request is truthful -/

/-- What was there before was not made now. -/
theorem not_created (h : s.WellFormed) (hdirs : s'.dirs = s.dirs) : ¬ Created s s' request := by
  intro hcreated
  cases request with
  | makeDir nodeName copied =>
    obtain ⟨k, hk, -, hnew⟩ := hcreated
    exact hnew (h.dirs k (hdirs ▸ hk))
  | makeFile descr copied =>
    obtain ⟨k, hk, -, file, hfile, -, -, block, hblock, hnew⟩ := hcreated
    exact hnew (h.files k (hdirs ▸ hk) file hfile block hblock)

theorem truthful_of_failed (h : s.WellFormed) (hfailed : Failed s (ioctl driver s e)) :
    Truthful driver s e :=
  ⟨iff_of_false hfailed.1 (not_created h hfailed.2.1), fun _ => hfailed.2⟩

theorem created_makeDir (h : s.WellFormed)
    (hdirs : s'.dirs = s.dirs ++ [{ name, files := defaultFiles, block := s.allocs }]) :
    Created s s' (.makeDir nodeName copied) ↔ name = nodeName.1 := by
  constructor
  · rintro ⟨k, hk, hname, hnew⟩
    rw [hdirs] at hk
    rcases List.mem_append.mp hk with hold | hlast
    · exact absurd (h.dirs k hold) hnew
    · rw [List.mem_singleton.mp hlast] at hname
      exact hname
  · intro hname
    refine ⟨{ name, files := defaultFiles, block := s.allocs }, ?_, hname, h.fresh⟩
    rw [hdirs]
    exact List.mem_append_right _ (List.mem_singleton_self _)

theorem created_makeFile (h : s.WellFormed)
    (htarget : descr'.targetNode.1 ∈ s.dirs.map Subdir.name)
    (hdirs : s'.dirs = putFile descr'.targetNode.1
      { name := descr'.regName.1, address := descr'.address, block := some s.allocs } s.dirs) :
    Created s s' (.makeFile descr descr') ↔ descr' = descr := by
  constructor
  · rintro ⟨k, hk, hname, file, hfile, hregName, haddress, block, hblock, hnew⟩
    rw [hdirs] at hk
    rcases mem_putFile hk with hold | ⟨k', hk', hname', rfl⟩
    · exact absurd (h.files k hold file hfile block hblock) hnew
    · rcases List.mem_append.mp hfile with hold | hlast
      · exact absurd (h.files k' hk' file hold block hblock) hnew
      · rw [List.mem_singleton.mp hlast] at hregName haddress
        have htargetNode : descr'.targetNode = descr.targetNode :=
          Subtype.ext (hname'.symm.trans hname)
        have hreg : descr'.regName = descr.regName := Subtype.ext hregName
        cases descr
        cases descr'
        simp_all
  · rintro rfl
    obtain ⟨k, hk, hname, hfile⟩ := exists_mem_putFile htarget
    rw [← hdirs] at hk
    exact ⟨k, hk, hname, _, hfile, rfl, rfl, s.allocs, rfl, h.fresh⟩

theorem truthful_of_zero (hres : (ioctl driver s e).1 = 0) :
    Truthful driver s e ↔ Created s (ioctl driver s e).2 e.request := by
  constructor
  · intro htruthful
    exact htruthful.zero_iff.mp hres
  · intro hcreated
    exact ⟨iff_of_true hres hcreated, fun hne => absurd hres hne⟩

/-- **When a request says truly what it did.** -/
theorem truthful_iff (h : s.WellFormed) : Truthful driver s e ↔ Addressed driver s e := by
  by_cases haccess : driver.checksAccess = true ∧ e.accessOk = false
  · have hioctl : ioctl driver s e = (-efault, s) := if_pos haccess
    refine iff_of_true (truthful_of_failed h ?_) (.inl haccess)
    rw [hioctl]
    exact ⟨show (-efault : Int) ≠ 0 by decide, rfl, rfl⟩
  · obtain ⟨request, accessOk, kzalloc, res⟩ := e
    unfold Addressed
    rw [or_iff_right haccess]
    cases request with
    | makeDir nodeName copied =>
      have hioctl : ioctl driver s ⟨.makeDir nodeName copied, accessOk, kzalloc, res⟩ =
          makeDir driver s kzalloc res copied.1 := if_neg haccess
      by_cases hgranted : kzalloc = true ∧ res = 0
      · obtain ⟨rfl, rfl⟩ := hgranted
        rw [truthful_of_zero (by rw [hioctl]; rfl), hioctl]
        rw [created_makeDir h rfl]
        exact ⟨fun hname _ => hname, fun hname => hname ⟨rfl, rfl⟩⟩
      · refine iff_of_true (truthful_of_failed h ?_) fun hcontra => absurd hcontra hgranted
        rw [hioctl]
        exact makeDir_failed hgranted
    | makeFile descr copied =>
      have hioctl : ioctl driver s ⟨.makeFile descr copied, accessOk, kzalloc, res⟩ =
          makeFile driver s kzalloc res copied.regName.1 copied.targetNode.1 copied.address :=
        if_neg haccess
      by_cases htarget : copied.targetNode.1 ∈ s.dirs.map Subdir.name
      · by_cases hgranted : kzalloc = true ∧ res = 0
        · obtain ⟨rfl, rfl⟩ := hgranted
          have hmade : makeFile driver s true 0 copied.regName.1 copied.targetNode.1
              copied.address = (0, { s.kzalloc with
                dirs := putFile copied.targetNode.1
                  { name := copied.regName.1, address := copied.address,
                    block := some s.allocs } s.dirs }) := if_pos htarget
          rw [truthful_of_zero (by rw [hioctl, hmade]), hioctl, hmade]
          rw [created_makeFile h htarget rfl]
          exact ⟨fun heq => ⟨htarget, fun _ => heq⟩, fun heq => heq.2 ⟨rfl, rfl⟩⟩
        · refine iff_of_true (truthful_of_failed h ?_)
            ⟨htarget, fun hcontra => absurd hcontra hgranted⟩
          rw [hioctl]
          exact makeFile_failed htarget hgranted
      · -- The search ends without a directory.
        have hnone : makeFile driver s kzalloc res copied.regName.1 copied.targetNode.1
            copied.address = (0, s) := if_neg htarget
        rw [truthful_of_zero (by rw [hioctl, hnone]), hioctl, hnone]
        exact iff_of_false (not_created h rfl) fun hboth => htarget hboth.1

/-- In every run of requests, those that are truthful are those that are addressed. -/
theorem meets_truthful_iff (driver : Driver) (es : List Event) :
    Meets (step driver) (Truthful driver) .empty es ↔
      Meets (step driver) (Addressed driver) .empty es := by
  have hstep : ∀ s e s', DynamicRegs.WellFormed s → step driver s e = some s' →
      s'.WellFormed := by
    intro s e s' h hs
    cases hs
    exact wellFormed_ioctl h
  constructor
  · intro hmeets
    exact meets_of_invariant (fun s e s' h _ => hstep s e s' h)
      (fun s e h htruthful => (truthful_iff h).mp htruthful) wellFormed_empty hmeets
  · intro hmeets
    exact meets_of_invariant (fun s e s' h _ => hstep s e s' h)
      (fun s e h haddressed => (truthful_iff h).mpr haddressed) wellFormed_empty hmeets

/-- **The requests of a run say truly what they did**, in either driver, if the directory of every
file exists and what the kernel takes is what was asked for, and only then. -/
theorem run_truthful_iff (es : List Event) :
    (Meets (step mfhssnet) (Truthful mfhssnet) .empty es ↔
      Meets (step mfhssnet) (Addressed mfhssnet) .empty es) ∧
    (Meets (step mfhssdrv) (Truthful mfhssdrv) .empty es ↔
      Meets (step mfhssdrv) (Addressed mfhssdrv) .empty es) :=
  ⟨meets_truthful_iff mfhssnet es, meets_truthful_iff mfhssdrv es⟩

/-- `dsp` -/
def dsp : FieldName := ⟨"dsp".toList, by decide⟩

/-- The register `dsp/gain`. -/
def gain : FileDescr where
  regName := ⟨"gain".toList, by decide⟩
  targetNode := dsp
  address := 4

/-- A file for a directory that does not exist: success is returned, and nothing was made. -/
theorem makeFile_not_truthful :
    (mfhssIoctl .empty ⟨.makeFile gain gain, true, true, 0⟩ = (0, .empty) ∧
      mfhssdrvIoctl .empty ⟨.makeFile gain gain, true, true, 0⟩ = (0, .empty)) ∧
    ¬ Truthful mfhssnet .empty ⟨.makeFile gain gain, true, true, 0⟩ ∧
    ¬ Truthful mfhssdrv .empty ⟨.makeFile gain gain, true, true, 0⟩ := by
  have hnone : ∀ s' : DynamicRegs, s' = .empty → ¬ Created .empty s' (.makeFile gain gain) := by
    rintro s' rfl
    exact not_created wellFormed_empty rfl
  refine ⟨⟨rfl, rfl⟩, fun h => ?_, fun h => ?_⟩
  · exact hnone _ rfl (h.zero_iff.mp rfl)
  · exact hnone _ rfl (h.zero_iff.mp rfl)

end ModemFhss.Registers
