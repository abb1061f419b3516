import ModemFhss.Library.Machine
import ModemFhss.Net.Sysfs

/-!
# Making directories and files of registers (`mfhss_ioctl`, `mfhssdrv_ioctl`)

Both drivers have a directory for registers that are declared at run time, and two requests: one
makes a subdirectory, the other a file in a subdirectory that was made before. A request allocates
the object, and if the kernel does not take it the object is freed again.

Whether there is memory and what `kobject_add` or `sysfs_create_file` returns is part of an `Event`,
as is what `copy_from_user` leaves in the descriptor, whose result neither driver looks at. An
object is known by the number of its allocation, so that one can tell what a request has made.

Whatever the kernel answers, the objects of the directories are allocated (`wellFormed_ioctl`), and
in `mfhssnet` the directories are those of `Net.ioctl` (`mfhssIoctl_regDirs`).
-/

namespace ModemFhss.Registers

open Errno Net Machine

/-- A string that ends in a field of `REG_NAME_SIZE` bytes. -/
def FieldName : Type := { name : Name // name.length < regNameSize ∧ '\x00' ∉ name }

instance : DecidableEq FieldName := inferInstanceAs (DecidableEq (Subtype _))

/-- A file: a `reg_attribute` with the number of its allocation. `value` is not allocated. -/
structure RegFile where
  name : Name
  address : UInt32
  block : Option Nat
  deriving DecidableEq, Repr

/-- A subdirectory: a `reg_dir` or a `reg_group`. -/
structure Subdir where
  name : Name
  files : List RegFile
  block : Nat
  deriving DecidableEq, Repr

/-- The directory `dynamic_regs`, and the memory that the requests have. -/
structure DynamicRegs where
  dirs : List Subdir
  /-- The objects that are allocated. -/
  live : List Nat
  /-- How many were allocated until now. -/
  allocs : Nat
  deriving DecidableEq, Repr

/-- `MFHSS_FILE_TypeDef` and `MFHSS_REG_TypeDef`, with the strings in the fields. -/
structure FileDescr where
  regName : FieldName
  targetNode : FieldName
  address : UInt32
  deriving DecidableEq

/-- A request, and what `copy_from_user` leaves of it in the descriptor. -/
inductive Request where
  /-- `MFHSS_IOMAKEDIR` and `MFHSSDRV_IOMAKEGROUP`. -/
  | makeDir (nodeName copied : FieldName)
  /-- `MFHSS_IOMAKEFILE` and `MFHSSDRV_IOMAKEREG`. -/
  | makeFile (descr copied : FileDescr)

/-- A request with what the kernel answers. -/
structure Event where
  request : Request
  /-- What `access_ok` says. -/
  accessOk : Bool
  /-- `kzalloc` gets the memory. -/
  kzalloc : Bool
  /-- What `kobject_add` or `sysfs_create_file` returns. -/
  res : Int

/-- Where the drivers differ. -/
structure Driver where
  /-- Whether `access_ok` is asked. -/
  checksAccess : Bool
  /-- What is returned when the kernel has refused an object with this. -/
  refused : Int → Int
  refused_ne_zero : ∀ res, res ≠ 0 → refused res ≠ 0

def mfhssnet : Driver where
  checksAccess := false
  refused := id
  refused_ne_zero _ h := h

def mfhssdrv : Driver where
  checksAccess := true
  refused _ := -enomem
  refused_ne_zero _ _ := by decide

/-- `default_reg_attrs` -/
def defaultFiles : List RegFile := [{ name := "value".toList, address := 0, block := none }]

namespace DynamicRegs

/-- After the probe. -/
def empty : DynamicRegs := { dirs := [], live := [], allocs := 0 }

/-- `kzalloc` of the object with the number `allocs`. -/
def kzalloc (s : DynamicRegs) : DynamicRegs :=
  { s with live := s.allocs :: s.live, allocs := s.allocs + 1 }

def kfree (s : DynamicRegs) (block : Nat) : DynamicRegs := { s with live := s.live.erase block }

end DynamicRegs

/-- A file in the first subdirectory with the target's name. -/
def putFile (targetNode : Name) (file : RegFile) : List Subdir → List Subdir
  | [] => []
  | k :: dirs =>
    if k.name = targetNode then
      { k with files := k.files ++ [file] } :: dirs
    else
      k :: putFile targetNode file dirs

/-- `create_dir`, and the case `MFHSSDRV_IOMAKEGROUP`. -/
def makeDir (driver : Driver) (s : DynamicRegs) (kzalloc : Bool) (res : Int) (nodeName : Name) :
    Int × DynamicRegs :=
  if kzalloc then
    if res ≠ 0 then
      -- `kobject_put`
      (driver.refused res, s.kzalloc.kfree s.allocs)
    else
      (0, { s.kzalloc with
        dirs := s.dirs ++ [{ name := kobjectName nodeName, files := defaultFiles,
                             block := s.allocs }] })
  else
    (-enomem, s)

/-- The case `MFHSS_IOMAKEFILE` with `create_file`, and the case `MFHSSDRV_IOMAKEREG`: the search
for the subdirectory ends at the first one, and nothing is done if there is none. -/
def makeFile (driver : Driver) (s : DynamicRegs) (kzalloc : Bool) (res : Int)
    (regName targetNode : Name) (address : UInt32) : Int × DynamicRegs :=
  if targetNode ∈ s.dirs.map Subdir.name then
    if kzalloc then
      if res ≠ 0 then
        (driver.refused res, s.kzalloc.kfree s.allocs)
      else
        (0, { s.kzalloc with
          dirs := putFile targetNode { name := regName, address, block := some s.allocs } s.dirs })
    else
      (-enomem, s)
  else
    (0, s)

def ioctl (driver : Driver) (s : DynamicRegs) (e : Event) : Int × DynamicRegs :=
  if driver.checksAccess ∧ e.accessOk = false then
    (-efault, s)
  else
    match e.request with
    | .makeDir _ nodeName => makeDir driver s e.kzalloc e.res nodeName.1
    | .makeFile _ descr =>
      makeFile driver s e.kzalloc e.res descr.regName.1 descr.targetNode.1 descr.address

/-- The two requests of `mfhss_ioctl`. -/
def mfhssIoctl : DynamicRegs → Event → Int × DynamicRegs := ioctl mfhssnet

/-- The two requests of `mfhssdrv_ioctl`. -/
def mfhssdrvIoctl : DynamicRegs → Event → Int × DynamicRegs := ioctl mfhssdrv

/-- A request of a run. -/
def step (driver : Driver) (s : DynamicRegs) (e : Event) : Option DynamicRegs :=
  some (ioctl driver s e).2

/-! ## What there is has been allocated -/

namespace DynamicRegs

/-- The objects of the directories are allocated, under numbers that were given out. -/
structure WellFormed (s : DynamicRegs) : Prop where
  dirs : ∀ k ∈ s.dirs, k.block ∈ s.live
  files : ∀ k ∈ s.dirs, ∀ file ∈ k.files, ∀ block, file.block = some block → block ∈ s.live
  live : ∀ block ∈ s.live, block < s.allocs

end DynamicRegs

variable {driver : Driver} {s s' : DynamicRegs} {e : Event} {request : Request}
  {nodeName copied : FieldName} {descr descr' : FileDescr} {dirs : List Subdir} {k : Subdir}
  {file : RegFile} {targetNode regName name : Name} {address : UInt32}

theorem DynamicRegs.WellFormed.fresh (h : s.WellFormed) : s.allocs ∉ s.live := by
  intro hmem
  exact Nat.lt_irrefl _ (h.live _ hmem)

theorem kfree_kzalloc : (s.kzalloc.kfree s.allocs).live = s.live := List.erase_cons_head _ _

theorem mem_putFile (h : k ∈ putFile targetNode file dirs) :
    k ∈ dirs ∨ ∃ k' ∈ dirs, k'.name = targetNode ∧ k = { k' with files := k'.files ++ [file] } := by
  induction dirs with
  | nil => cases h
  | cons k' dirs ih =>
    unfold putFile at h
    split at h
    · next hname =>
      rcases List.mem_cons.mp h with rfl | hmem
      · exact .inr ⟨k', List.mem_cons_self, hname, rfl⟩
      · exact .inl (List.mem_cons_of_mem _ hmem)
    · rcases List.mem_cons.mp h with rfl | hmem
      · exact .inl List.mem_cons_self
      · rcases ih hmem with hold | ⟨k'', hk'', hname, heq⟩
        · exact .inl (List.mem_cons_of_mem _ hold)
        · exact .inr ⟨k'', List.mem_cons_of_mem _ hk'', hname, heq⟩

theorem exists_mem_putFile (h : targetNode ∈ dirs.map Subdir.name) :
    ∃ k ∈ putFile targetNode file dirs, k.name = targetNode ∧ file ∈ k.files := by
  induction dirs with
  | nil => cases h
  | cons k' dirs ih =>
    unfold putFile
    split
    · next hname => exact ⟨_, List.mem_cons_self, hname, by simp⟩
    · next hname =>
      have hmem : targetNode ∈ dirs.map Subdir.name := by
        rcases List.mem_cons.mp h with heq | hmem
        · exact absurd heq.symm hname
        · exact hmem
      obtain ⟨k, hk, hfile⟩ := ih hmem
      exact ⟨k, List.mem_cons_of_mem _ hk, hfile⟩

theorem wellFormed_kzalloc (h : s.WellFormed) : s.kzalloc.WellFormed where
  dirs k hk := List.mem_cons_of_mem _ (h.dirs k hk)
  files k hk file hfile block hblock :=
    List.mem_cons_of_mem _ (h.files k hk file hfile block hblock)
  live block hblock := by
    rcases List.mem_cons.mp hblock with rfl | hmem
    · exact Nat.lt_succ_self _
    · exact Nat.lt_succ_of_lt (h.live block hmem)

theorem wellFormed_kfree (h : s.WellFormed) : (s.kzalloc.kfree s.allocs).WellFormed where
  dirs k hk := by
    rw [kfree_kzalloc]
    exact h.dirs k hk
  files k hk file hfile block hblock := by
    rw [kfree_kzalloc]
    exact h.files k hk file hfile block hblock
  live block hblock := by
    rw [kfree_kzalloc] at hblock
    exact Nat.lt_succ_of_lt (h.live block hblock)

theorem wellFormed_makeDir (h : s.WellFormed) (kzalloc : Bool) (res : Int) :
    (makeDir driver s kzalloc res name).2.WellFormed := by
  unfold makeDir
  split_ifs
  · exact wellFormed_kfree h
  · have hgrown := wellFormed_kzalloc h
    refine ⟨?_, ?_, hgrown.live⟩
    · intro k hk
      rcases List.mem_append.mp hk with hold | hnew
      · exact hgrown.dirs k hold
      · rw [List.mem_singleton.mp hnew]
        exact List.mem_cons_self
    · intro k hk file hfile block hblock
      rcases List.mem_append.mp hk with hold | hnew
      · exact hgrown.files k hold file hfile block hblock
      · rw [List.mem_singleton.mp hnew] at hfile
        rw [List.mem_singleton.mp hfile] at hblock
        cases hblock
  · exact h

theorem wellFormed_makeFile (h : s.WellFormed) (kzalloc : Bool) (res : Int) :
    (makeFile driver s kzalloc res regName targetNode address).2.WellFormed := by
  unfold makeFile
  split_ifs
  · exact wellFormed_kfree h
  · have hgrown := wellFormed_kzalloc h
    refine ⟨?_, ?_, hgrown.live⟩
    · intro k hk
      rcases mem_putFile hk with hold | ⟨k', hk', -, rfl⟩
      · exact hgrown.dirs k hold
      · exact hgrown.dirs k' hk'
    · intro k hk file hfile block hblock
      rcases mem_putFile hk with hold | ⟨k', hk', -, rfl⟩
      · exact hgrown.files k hold file hfile block hblock
      · rcases List.mem_append.mp hfile with hold | hnew
        · exact hgrown.files k' hk' file hold block hblock
        · rw [List.mem_singleton.mp hnew] at hblock
          cases hblock
          exact List.mem_cons_self
  · exact h
  · exact h

theorem wellFormed_ioctl (h : s.WellFormed) : (ioctl driver s e).2.WellFormed := by
  unfold ioctl
  split
  · exact h
  · cases e.request with
    | makeDir nodeName copied => exact wellFormed_makeDir h _ _
    | makeFile descr copied => exact wellFormed_makeFile h _ _

theorem wellFormed_empty : DynamicRegs.empty.WellFormed where
  dirs _ hk := absurd hk List.not_mem_nil
  files _ hk := absurd hk List.not_mem_nil
  live _ hblock := absurd hblock List.not_mem_nil

/-! ## The directories are those of the network driver's model -/

def Subdir.regDir (k : Subdir) : RegDir where
  name := k.name
  files := k.files.map fun file => (file.name, file.address)

theorem makeDir_eq_createDir (kzalloc memory : Bool) :
    let r := makeDir mfhssnet s kzalloc (kobjectAdd memory (s.dirs.map Subdir.regDir) name) name
    (r.1, r.2.dirs.map Subdir.regDir) =
      createDir kzalloc memory (s.dirs.map Subdir.regDir) name := by
  unfold makeDir createDir
  dsimp only
  cases kzalloc with
  | false => rfl
  | true =>
    rw [if_pos rfl, if_pos rfl]
    by_cases hres : kobjectAdd memory (s.dirs.map Subdir.regDir) name = 0
    · rw [if_neg (not_not.mpr hres), if_pos hres, List.map_append]
      rfl
    · rw [if_pos hres, if_neg hres]
      rfl

theorem net_makeFile_of_find (hfind : dirs.find? (fun k => k.name = targetNode) = some k)
    (kzalloc memory : Bool) (block : Option Nat) :
    Net.makeFile kzalloc memory targetNode regName address (dirs.map Subdir.regDir) =
      if kzalloc then
        if sysfsCreateFile memory k.regDir regName = 0 then
          (0, (putFile targetNode { name := regName, address, block } dirs).map Subdir.regDir)
        else
          (sysfsCreateFile memory k.regDir regName, dirs.map Subdir.regDir)
      else
        (-enomem, dirs.map Subdir.regDir) := by
  induction dirs with
  | nil => cases hfind
  | cons k' dirs ih =>
    unfold putFile
    rw [List.map_cons, Net.makeFile]
    by_cases hname : k'.name = targetNode
    · have hname' : k'.regDir.name = targetNode := hname
      rw [List.find?_cons_of_pos (by simpa using hname)] at hfind
      cases hfind
      rw [if_pos hname, if_pos hname', createFile]
      split_ifs
      · simp [Subdir.regDir]
      · rfl
      · rfl
    · have hname' : k'.regDir.name ≠ targetNode := hname
      rw [List.find?_cons_of_neg (by simpa using hname)] at hfind
      rw [if_neg hname, if_neg hname', ih hfind]
      split_ifs
      · rfl
      · rfl
      · rfl

theorem net_makeFile_of_not_mem (h : targetNode ∉ dirs.map Subdir.name) (kzalloc memory : Bool) :
    Net.makeFile kzalloc memory targetNode regName address (dirs.map Subdir.regDir) =
      (0, dirs.map Subdir.regDir) := by
  induction dirs with
  | nil => rfl
  | cons k' dirs ih =>
    obtain ⟨hname, hrest⟩ := not_or.mp (List.mem_cons.not.mp h)
    have hname' : k'.regDir.name ≠ targetNode := Ne.symm hname
    rw [List.map_cons, Net.makeFile, if_neg hname', ih hrest]

/-- What `sysfs_create_file` returns for a file of the target's directory. -/
def createResult (memory : Bool) (targetNode regName : Name) (dirs : List Subdir) : Int :=
  match dirs.find? fun k => k.name = targetNode with
  | none => 0
  | some k => sysfsCreateFile memory k.regDir regName

theorem makeFile_eq_makeFile (kzalloc memory : Bool) :
    let r := makeFile mfhssnet s kzalloc (createResult memory targetNode regName s.dirs) regName
      targetNode address
    (r.1, r.2.dirs.map Subdir.regDir) =
      Net.makeFile kzalloc memory targetNode regName address (s.dirs.map Subdir.regDir) := by
  dsimp only
  unfold makeFile createResult
  cases hfind : s.dirs.find? fun k => k.name = targetNode with
  | none =>
    have hmem : targetNode ∉ s.dirs.map Subdir.name := by
      intro hmem
      obtain ⟨k, hk, hname⟩ := List.mem_map.mp hmem
      have hnone := List.find?_eq_none.mp hfind k hk
      exact hnone (decide_eq_true hname)
    rw [net_makeFile_of_not_mem hmem, if_neg hmem]
  | some k =>
    have hname : k.name = targetNode := by simpa using List.find?_some hfind
    have hmem : targetNode ∈ s.dirs.map Subdir.name := by
      rw [← hname]
      exact List.mem_map_of_mem (List.mem_of_find?_eq_some hfind)
    rw [net_makeFile_of_find hfind kzalloc memory (some s.allocs), if_pos hmem]
    dsimp only
    by_cases hres : sysfsCreateFile memory k.regDir regName = 0
    · rw [if_neg (not_not.mpr hres), if_pos hres]
      cases kzalloc <;> rfl
    · rw [if_pos hres, if_neg hres]
      cases kzalloc <;> rfl

/-- **What the kernel answers decides**: with its answers as `Net.ioctl` has them, the requests make
the directories that it makes. -/
theorem mfhssIoctl_regDirs (memory : Bool) (hres : e.res =
      match e.request with
      | .makeDir _ nodeName => kobjectAdd memory (s.dirs.map Subdir.regDir) nodeName.1
      | .makeFile _ descr => createResult memory descr.targetNode.1 descr.regName.1 s.dirs) :
    ((mfhssIoctl s e).1, (mfhssIoctl s e).2.dirs.map Subdir.regDir) =
      match e.request with
      | .makeDir _ nodeName => createDir e.kzalloc memory (s.dirs.map Subdir.regDir) nodeName.1
      | .makeFile _ descr => Net.makeFile e.kzalloc memory descr.targetNode.1 descr.regName.1
          descr.address (s.dirs.map Subdir.regDir) := by
  obtain ⟨request, accessOk, kzalloc, res⟩ := e
  cases request with
  | makeDir asked nodeName =>
    cases hres
    exact makeDir_eq_createDir kzalloc memory
  | makeFile asked descr =>
    cases hres
    exact makeFile_eq_makeFile kzalloc memory

end ModemFhss.Registers
