import ModemFhss.Library.Errno
import ModemFhss.Net.Device

/-!
# Register directories (`mfhssfs.c`)

The driver has a directory for registers that are declared at run time. `MFHSS_IOMAKEDIR` makes a
subdirectory in it and `MFHSS_IOMAKEFILE` a file in a subdirectory, bound to a register's address.
Every subdirectory is made with the attributes of its type, `default_reg_attrs`: a file `value`.

Names come in fixed fields of 32 bytes (`mfhssioctl.h`). Text is a list of characters, one for each
byte.
-/

namespace ModemFhss.Net

open Errno

abbrev Name := List Char

-- what decides whether a directory has a name
instance : LawfulBEq Name := inferInstance

/-- `REG_NAME_SIZE` -/
def regNameSize : Nat := 32

/-- A subdirectory and its files, with the addresses they are bound to. -/
structure RegDir where
  name : Name
  files : List (Name × UInt32)
  deriving DecidableEq, Repr

/-- The string in a field of `REG_NAME_SIZE` bytes; `none` if it does not end there. -/
def fieldString (bytes : Name) : Option Name :=
  if '\x00' ∈ bytes then some (bytes.takeWhile (· ≠ '\x00')) else none

/-- `default_reg_attrs` -/
def defaultRegAttrs : List (Name × UInt32) := [("value".toList, 0)]

/-- The name that an object gets from `kobject_add`. -/
def kobjectName (name : Name) : Name := name.map fun c => if c = '/' then '!' else c

/-- `kobject_add` of a directory with this name. `memory` says whether it gets the memory it needs,
here and below. -/
def kobjectAdd (memory : Bool) (dirs : List RegDir) (name : Name) : Int :=
  if name = [] then -einval
  else if kobjectName name ∈ dirs.map RegDir.name then -eexist
  else if memory then 0
  else -enomem

def sysfsCreateFile (memory : Bool) (dir : RegDir) (name : Name) : Int :=
  if name ∈ dir.files.map Prod.fst then -eexist
  else if memory then 0
  else -enomem

/-- `create_dir` in the directory with the subdirectories `dirs`. `kzalloc` says whether its own
allocation succeeds. -/
def createDir (kzalloc memory : Bool) (dirs : List RegDir) (name : Name) : Int × List RegDir :=
  if kzalloc then
    if kobjectAdd memory dirs name = 0 then
      (0, dirs ++ [{ name := kobjectName name, files := defaultRegAttrs }])
    else
      (kobjectAdd memory dirs name, dirs)
  else
    (-enomem, dirs)

/-- `create_file` -/
def createFile (kzalloc memory : Bool) (dir : RegDir) (name : Name) (address : UInt32) :
    Int × RegDir :=
  if kzalloc then
    if sysfsCreateFile memory dir name = 0 then
      (0, { dir with files := dir.files ++ [(name, address)] })
    else
      (sysfsCreateFile memory dir name, dir)
  else
    (-enomem, dir)

/-- `MFHSS_IOMAKEFILE`: the file goes into the first subdirectory with the target's name. Without
one nothing is done, and that is no error. -/
def makeFile (kzalloc memory : Bool) (target name : Name) (address : UInt32) :
    List RegDir → Int × List RegDir
  | [] => (0, [])
  | k :: dirs =>
    if k.name = target then
      ((createFile kzalloc memory k name address).1,
        (createFile kzalloc memory k name address).2 :: dirs)
    else
      ((makeFile kzalloc memory target name address dirs).1,
        k :: (makeFile kzalloc memory target name address dirs).2)

/-- The requests of `mfhss_ioctl` that make directories and files, with their descriptors. -/
inductive Request where
  /-- `MFHSS_IOMAKEDIR` with an `MFHSS_DIR_TypeDef`. -/
  | makeDir (nodeName : Name)
  /-- `MFHSS_IOMAKEFILE` with an `MFHSS_FILE_TypeDef`. -/
  | makeFile (regName targetNode : Name) (address : UInt32)

/-- `mfhss_ioctl`: the result and the subdirectories; `none` if a string in the descriptor is read
past its field. -/
def ioctl (kzalloc memory : Bool) (dirs : List RegDir) : Request → Option (Int × List RegDir)
  | .makeDir nodeName => (fieldString nodeName).map fun name => createDir kzalloc memory dirs name
  | .makeFile regName targetNode address =>
    match fieldString targetNode, fieldString regName with
    | some target, some name => some (makeFile kzalloc memory target name address dirs)
    | _, _ => none

/-! ## When the memory suffices -/

variable {dirs : List RegDir} {name target : Name} {address : UInt32} {files : List (Name × UInt32)}

theorem kobjectName_eq_self (h : '/' ∉ name) : kobjectName name = name := by
  unfold kobjectName
  conv_rhs => rw [← List.map_id name]
  apply List.map_congr_left
  intro c hc
  have hne : c ≠ '/' := by
    rintro rfl
    exact h hc
  rw [if_neg hne]
  rfl

theorem createDir_ok (hname : name ≠ []) (hslash : '/' ∉ name)
    (hnew : name ∉ dirs.map RegDir.name) :
    createDir true true dirs name = (0, dirs ++ [{ name, files := defaultRegAttrs }]) := by
  have hadd : kobjectAdd true dirs name = 0 := by
    unfold kobjectAdd
    rw [kobjectName_eq_self hslash, if_neg hname, if_neg hnew, if_pos rfl]
  unfold createDir
  rw [if_pos rfl, if_pos hadd, kobjectName_eq_self hslash]

/-- The file is made in the last subdirectory, whose name is its own. -/
theorem makeFile_last (hnew : target ∉ dirs.map RegDir.name) :
    makeFile true true target name address (dirs ++ [{ name := target, files }]) =
      if name ∈ files.map Prod.fst then
        (-eexist, dirs ++ [{ name := target, files }])
      else
        (0, dirs ++ [{ name := target, files := files ++ [(name, address)] }]) := by
  induction dirs with
  | nil =>
    rw [List.nil_append, makeFile, if_pos rfl, createFile, if_pos rfl, sysfsCreateFile]
    by_cases hmem : name ∈ files.map Prod.fst
    · simp [hmem, eexist]
    · simp [hmem]
  | cons k dirs ih =>
    have hk : k.name ≠ target := fun heq => hnew (heq ▸ List.mem_cons_self)
    have hrest := ih fun hmem => hnew (List.mem_cons_of_mem _ hmem)
    rw [List.cons_append, makeFile, if_neg hk, hrest]
    split
    · rfl
    · rfl

end ModemFhss.Net
