import ModemFhss.RegParser.Declaration
import ModemFhss.RegParser.Device

/-!
# Names in fixed fields (`mfhssioctl.h`)

From the parser to the driver a register's names are copied three times into fields of
`REG_NAME_SIZE` bytes: into the descriptors of `MFHSS_IOMAKEDIR` and `MFHSS_IOMAKEFILE` by
`MakeDeviceRegs`, and from the latter into the `reg_attribute` by `create_file`. Nothing on the way
looks at a length, neither the expression of a name nor the copies, so they stay in their fields if
the names happen to be shorter (`inBounds_iff`).
-/

namespace ModemFhss.RegParser

open Net

/-- `MFHSS_FILE_TypeDef` -/
structure FileDescr where
  regName : Text
  targetNode : Text
  address : UInt32
  deriving DecidableEq, Repr

def addressBytes (address : UInt32) : Text :=
  (List.range 4).map fun i => Char.ofNat (address.toNat / 256 ^ i % 256)

/-- What is in memory from its first byte on: the structure is packed. -/
def FileDescr.bytes (descr : FileDescr) : Text :=
  descr.regName ++ descr.targetNode ++ addressBytes descr.address

/-- `regDescr` in `MakeDeviceRegs`; `none` if a copy leaves its field. -/
def regDescr (nodeName : Text) (r : Reg) : Option FileDescr :=
  match field nodeName, field r.1 with
  | some targetNode, some regName => some { regName, targetNode, address := r.2 }
  | _, _ => none

/-- `strcpy` into the zeroed `name` of a `reg_attribute`, from the beginning of a memory; `none` if
it leaves the field or the memory. -/
def strcpyName (memory : Text) : Option Text :=
  if '\x00' ∈ memory then
    field (memory.takeWhile (· ≠ '\x00') ++ ['\x00'])
  else
    none

/-- A name is in its field, with a zero after it. -/
def Terminated (name : Text) : Prop := ∃ bytes, field name = some bytes ∧ '\x00' ∈ bytes

/-- The copies of the names of a node and of its registers stay in their fields. -/
structure InBounds (e : Regentry) : Prop where
  nodeName : Terminated e.nodeName
  regName : ∀ r ∈ e.regs, Terminated r.1
  name : ∀ r ∈ e.regs, ∃ descr, regDescr e.nodeName r = some descr ∧
    ∃ bytes, strcpyName descr.bytes = some bytes ∧ '\x00' ∈ bytes

variable {name nodeName text stack deviceName interface : Text} {r : Reg} {e : Regentry}
  {regmap : List RegMapEntry} {entries : List Regentry} {dirs : List RegDir}
  {long : UnsignedLong} {fd : Int}

theorem terminated_iff (h : '\x00' ∉ name) : Terminated name ↔ name.length < regNameSize := by
  constructor
  · rintro ⟨bytes, hfield, hzero⟩
    unfold field at hfield
    split at hfield
    · next hle =>
      cases hfield
      rcases List.mem_append.mp hzero with hmem | hmem
      · exact absurd hmem h
      · have hne : regNameSize - name.length ≠ 0 := (List.mem_replicate.mp hmem).1
        omega
    · cases hfield
  · intro hlt
    refine ⟨_, if_pos hlt.le, ?_⟩
    apply List.mem_append_right
    rw [List.mem_replicate]
    exact ⟨by omega, rfl⟩

/-- What `strcpy` takes from a descriptor is the name that was copied to it. -/
theorem strcpyName_regDescr (hnode : Terminated nodeName) (hreg : Terminated r.1)
    (hzero : '\x00' ∉ r.1) :
    ∃ descr, regDescr nodeName r = some descr ∧
      ∃ bytes, strcpyName descr.bytes = some bytes ∧ '\x00' ∈ bytes := by
  have hlt := (terminated_iff hzero).mp hreg
  obtain ⟨targetNode, hfield, -⟩ := hnode
  obtain ⟨k, hk⟩ : ∃ k, regNameSize - r.1.length = k + 1 :=
    ⟨regNameSize - r.1.length - 1, by omega⟩
  have hfield' : field r.1 = some (r.1 ++ '\x00' :: List.replicate k '\x00') := by
    rw [field, if_pos hlt.le, hk, List.replicate_succ]
  refine ⟨_, by rw [regDescr, hfield, hfield'], ?_⟩
  have hbytes : FileDescr.bytes
      { regName := r.1 ++ '\x00' :: List.replicate k '\x00', targetNode, address := r.2 } =
      r.1 ++ '\x00' :: (List.replicate k '\x00' ++ targetNode ++ addressBytes r.2) := by
    simp [FileDescr.bytes]
  rw [hbytes, strcpyName, if_pos (by simp), takeWhile_eq_self hzero, field, if_pos]
  · exact ⟨_, rfl, by simp⟩
  · rw [List.length_append]
    exact hlt

/-- A descriptor whose names end in their fields is read by the driver. -/
theorem fieldString_ne_none (h : Terminated name) :
    ∃ bytes, field name = some bytes ∧ ∃ str, fieldString bytes = some str := by
  obtain ⟨bytes, hfield, hzero⟩ := h
  exact ⟨bytes, hfield, _, if_pos hzero⟩

/-- An error that no round gives is not that of the loop. -/
theorem foldlM_ne_error {σ α ε : Type} {f : σ → α → Except ε σ} {fault : ε} {xs : List α} {s : σ}
    (h : ∀ x ∈ xs, ∀ s, f s x ≠ .error fault) : xs.foldlM f s ≠ .error fault := by
  induction xs generalizing s with
  | nil => exact nofun
  | cons x xs ih =>
    obtain ⟨hx, hxs⟩ := List.forall_mem_cons.mp h
    rw [List.foldlM_cons]
    cases hstep : f s x with
    | error fault' =>
      rintro ⟨⟩
      exact hx s hstep
    | ok s' => exact ih hxs

theorem socketIoctl_ne_none {request : Request} (interface : Text) (dirs : List RegDir)
    (h : ∀ dirs, ioctl true true dirs request ≠ none) :
    ∃ res dirs', socketIoctl interface dirs request = some (res, dirs') := by
  unfold socketIoctl
  split
  · obtain ⟨⟨res, dirs'⟩, hioctl⟩ := Option.ne_none_iff_exists'.mp (h dirs)
    exact ⟨res, dirs', hioctl⟩
  · exact ⟨_, _, rfl⟩

theorem makeReg_ne_undefined (hnode : Terminated nodeName) (hreg : Terminated r.1) :
    makeReg interface nodeName dirs r ≠ .error .undefined := by
  obtain ⟨targetNode, hfield, target, hstring⟩ := fieldString_ne_none hnode
  obtain ⟨regName, hfield', str, hstring'⟩ := fieldString_ne_none hreg
  have hioctl : ∀ dirs, ioctl true true dirs (.makeFile regName targetNode r.2) ≠ none := by
    intro dirs
    simp [ioctl, hstring, hstring']
  obtain ⟨res, dirs', hsocket⟩ := socketIoctl_ne_none interface dirs hioctl
  unfold makeReg
  simp only [hfield, hfield', hsocket]
  split
  · intro heq
    cases heq
  · intro heq
    cases heq

theorem makeGroup_ne_undefined (h : InBounds e) :
    makeGroup interface dirs e ≠ .error .undefined := by
  obtain ⟨nodeName, hfield, target, hstring⟩ := fieldString_ne_none h.nodeName
  have hioctl : ∀ dirs, ioctl true true dirs (.makeDir nodeName) ≠ none := by
    intro dirs
    simp [ioctl, hstring]
  obtain ⟨res, dirs', hsocket⟩ := socketIoctl_ne_none interface dirs hioctl
  unfold makeGroup
  simp only [hfield, hsocket]
  split
  · intro heq
    cases heq
  · apply foldlM_ne_error
    intro r hr dirs
    exact makeReg_ne_undefined h.nodeName (h.regName r hr)

/-- **Within bounds `MakeDeviceRegs` returns**, or throws what it is written to throw. -/
theorem makeDeviceRegs_ne_undefined (h : ∀ e ∈ entries, InBounds e) :
    makeDeviceRegs fd stack deviceName entries dirs ≠ .error .undefined := by
  unfold makeDeviceRegs
  split
  · exact nofun
  · apply foldlM_ne_error
    intro e he dirs
    exact makeGroup_ne_undefined (h e he)

/-- **When the names of a parsed text stay in their fields**: the node and the file that a name says
are shorter than a field. -/
theorem inBounds_iff (h : parse long text = some (.ok regmap)) :
    (∀ e ∈ doEntries regmap, InBounds e) ↔
      ∀ reg ∈ regmap, (path reg.name).1.length < regNameSize ∧
        (path reg.name).2.length < regNameSize := by
  have hzero : ∀ reg ∈ regmap, '\x00' ∉ (path reg.name).1 ∧ '\x00' ∉ (path reg.name).2 := by
    intro reg hreg
    exact zero_not_mem_path (parsed_of_parse h reg hreg).zero_not_mem
  constructor
  · intro hall reg hreg
    obtain ⟨hnode, hfile⟩ := hzero reg hreg
    obtain ⟨e, he, hname⟩ := List.mem_map.mp (mem_nodeNames.mpr ⟨reg, hreg, rfl⟩)
    have hbounds := hall e he
    have hmem : ((path reg.name).2, reg.address) ∈ e.regs := by
      rw [regs_eq he, List.mem_map]
      exact ⟨reg, List.mem_filter.mpr ⟨hreg, decide_eq_true hname.symm⟩, rfl⟩
    constructor
    · apply (terminated_iff hnode).mp
      rw [← hname]
      exact hbounds.nodeName
    · apply (terminated_iff hfile).mp
      exact hbounds.regName _ hmem
  · intro hall e he
    have hnode : Terminated e.nodeName := by
      obtain ⟨reg, hreg, hname⟩ := mem_nodeNames.mp (List.mem_map_of_mem he)
      rw [← hname]
      exact (terminated_iff (hzero reg hreg).1).mpr (hall reg hreg).1
    have hreg : ∀ r ∈ e.regs, '\x00' ∉ r.1 ∧ Terminated r.1 := by
      intro r hr
      obtain ⟨reg, hreg, hpath⟩ := exists_of_mem_regs he hr
      have hfile : (path reg.name).2 = r.1 := congrArg Prod.snd hpath
      rw [← hfile]
      exact ⟨(hzero reg hreg).2, (terminated_iff (hzero reg hreg).2).mpr (hall reg hreg).2⟩
    refine ⟨hnode, fun r hr => (hreg r hr).2, ?_⟩
    intro r hr
    exact strcpyName_regDescr hnode (hreg r hr).2 (hreg r hr).1

/-- A name of 31 letters. -/
theorem inBounds_iff_longest :
    (∀ e ∈ doEntries [⟨List.replicate 31 'a', 4⟩], InBounds e) ↔
      ∀ reg ∈ ([⟨List.replicate 31 'a', 4⟩] : List RegMapEntry),
        (path reg.name).1.length < regNameSize ∧ (path reg.name).2.length < regNameSize := by
  have hparse : parse { bits := 32, le_bits := le_rfl }
      ("constant ADDR_REG_".toList ++ List.replicate 31 'A' ++ ":integer:=1;".toList) =
      some (.ok [⟨List.replicate 31 'a', 4⟩]) := by
    decide +kernel
  exact inBounds_iff hparse

/-- With one letter more there is no room for the zero and `strcpy` leaves its field, and with two
the first copy does. -/
theorem not_inBounds :
    (∃ regmap, parse { bits := 32, le_bits := le_rfl }
        ("constant ADDR_REG_".toList ++ List.replicate 32 'A' ++ ":integer:=1;".toList) =
          some (.ok regmap) ∧
      ∃ e ∈ doEntries regmap, ∃ r ∈ e.regs, field r.1 = some r.1 ∧ '\x00' ∉ r.1 ∧
        (regDescr e.nodeName r).map (fun descr => strcpyName descr.bytes) = some none) ∧
    ∃ regmap, parse { bits := 32, le_bits := le_rfl }
        ("constant ADDR_REG_".toList ++ List.replicate 33 'A' ++ ":integer:=1;".toList) =
          some (.ok regmap) ∧
      ∃ e ∈ doEntries regmap, ∃ r ∈ e.regs, field r.1 = none := by
  have hfull : parse { bits := 32, le_bits := le_rfl }
      ("constant ADDR_REG_".toList ++ List.replicate 32 'A' ++ ":integer:=1;".toList) =
      some (.ok [⟨List.replicate 32 'a', 4⟩]) := by
    decide +kernel
  have hpast : parse { bits := 32, le_bits := le_rfl }
      ("constant ADDR_REG_".toList ++ List.replicate 33 'A' ++ ":integer:=1;".toList) =
      some (.ok [⟨List.replicate 33 'a', 4⟩]) := by
    decide +kernel
  exact ⟨⟨_, hfull, by decide +kernel⟩, ⟨_, hpast, by decide +kernel⟩⟩

end ModemFhss.RegParser
