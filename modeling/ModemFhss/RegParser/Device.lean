import ModemFhss.Net.Sysfs
import ModemFhss.RegParser.Entries

/-!
# From the register map to the driver's directories (`regmap.cpp`)

`MakeDeviceRegs` asks the driver for a directory for each node and a file for each of its registers.
The directories then mirror the map (`Mirrors`), unless a register's file is called `value`: every
directory is made with a file of that name, and the driver refuses a second one.

The request goes to the interface named in an `ifreq` on the stack. Only the letters of the name are
written to it, so the bytes after them are whatever was there, and the kernel reads the name up to
the first zero byte or colon.
-/

namespace ModemFhss.RegParser

open Errno Net

/-- How `MakeDeviceRegs` ends when it does not return: an exception, with what it is about, or a
write or read outside a field. -/
inductive DeviceFault where
  | openDevice (deviceName : Text)
  | makeGroup (nodeName : Text)
  | makeReg (regName : Text)
  | undefined
  deriving DecidableEq, Repr

/-- `string::copy` into a zeroed field; `none` if it does not fit. -/
def field (str : Text) : Option Text :=
  if str.length ≤ regNameSize then
    some (str ++ List.replicate (regNameSize - str.length) '\x00')
  else
    none

/-- The interface that the kernel looks up. `stack` is what was in `ifr_name` before the name was
copied to its beginning. -/
def interfaceName (stack deviceName : Text) : Text :=
  ((deviceName ++ stack.drop deviceName.length).take 15).takeWhile fun c => c ≠ '\x00' ∧ c ≠ ':'

/-- The name of the driver's interface. -/
def mfhss0 : Text := "mfhss0".toList

/-- `ioctl` on the socket. -/
def socketIoctl (interface : Text) (dirs : List RegDir) (request : Request) :
    Option (Int × List RegDir) :=
  if interface = mfhss0 then Net.ioctl true true dirs request else some (-enodev, dirs)

/-- One round of the inner loop of `MakeDeviceRegs`. -/
def makeReg (interface nodeName : Text) (dirs : List RegDir) (r : Reg) :
    Except DeviceFault (List RegDir) :=
  match field nodeName, field r.1 with
  | some targetNode, some regName =>
    match socketIoctl interface dirs (.makeFile regName targetNode r.2) with
    | none => .error .undefined
    | some (res, dirs) => if res ≠ 0 then .error (.makeReg r.1) else .ok dirs
  | _, _ => .error .undefined

/-- One round of the outer loop. -/
def makeGroup (interface : Text) (dirs : List RegDir) (e : Regentry) :
    Except DeviceFault (List RegDir) :=
  match field e.nodeName with
  | none => .error .undefined
  | some nodeName =>
    match socketIoctl interface dirs (.makeDir nodeName) with
    | none => .error .undefined
    | some (res, dirs) =>
      if res ≠ 0 then
        .error (.makeGroup e.nodeName)
      else
        e.regs.foldlM (makeReg interface e.nodeName) dirs

/-- `regcreator_c::MakeDeviceRegs`, with the result of `socket`: the subdirectories it leaves. -/
def makeDeviceRegs (fd : Int) (stack deviceName : Text) (entries : List Regentry)
    (dirs : List RegDir) : Except DeviceFault (List RegDir) :=
  if fd = -1 then
    .error (.openDevice deviceName)
  else
    entries.foldlM (makeGroup (interfaceName stack deviceName)) dirs

/-! ## Names that fit -/

/-- A name that a field can hold, and that the kernel does not change. -/
structure Fits (name : Text) : Prop where
  ne_nil : name ≠ []
  length : name.length < regNameSize
  zero : '\x00' ∉ name
  slash : '/' ∉ name

variable {name nodeName interface : Text} {dirs dirs' : List RegDir} {files : List Reg} {r : Reg}
  {regs : List Reg} {e : Regentry} {entries : List Regentry}

theorem takeWhile_eq_self (h : '\x00' ∉ name) (post : Text) :
    (name ++ '\x00' :: post).takeWhile (· ≠ '\x00') = name := by
  rw [List.takeWhile_append_of_pos]
  · simp
  · intro c hc
    simp only [ne_eq, decide_eq_true_eq]
    intro heq
    exact h (heq ▸ hc)

/-- What is copied into a field is read back from it. -/
theorem fieldString_field (h : Fits name) :
    ∃ bytes, field name = some bytes ∧ fieldString bytes = some name := by
  obtain ⟨k, hk⟩ : ∃ k, regNameSize - name.length = k + 1 :=
    ⟨regNameSize - name.length - 1, by have := h.length; omega⟩
  refine ⟨_, if_pos (Nat.le_of_lt h.length), ?_⟩
  rw [hk, List.replicate_succ, fieldString, if_pos (by simp), takeWhile_eq_self h.zero]

/-! ## The two loops -/

theorem makeReg_last (hnode : Fits nodeName) (hreg : Fits r.1)
    (hnew : nodeName ∉ dirs.map RegDir.name) :
    makeReg mfhss0 nodeName (dirs ++ [{ name := nodeName, files }]) r =
      if r.1 ∈ files.map Prod.fst then
        .error (.makeReg r.1)
      else
        .ok (dirs ++ [{ name := nodeName, files := files ++ [r] }]) := by
  obtain ⟨targetNode, hfield, hstring⟩ := fieldString_field hnode
  obtain ⟨regName, hfield', hstring'⟩ := fieldString_field hreg
  unfold makeReg socketIoctl
  simp only [hfield, hfield', if_true, ioctl, hstring, hstring', makeFile_last hnew]
  by_cases hmem : r.1 ∈ files.map Prod.fst
  · rw [if_pos hmem, if_pos hmem]
    rfl
  · rw [if_neg hmem, if_neg hmem]
    rfl

/-- **The files of a node are made** if no two of them, nor one of them and a file that is there,
have the same name, and only then. -/
theorem makeRegs_ok_iff (hnode : Fits nodeName) (hregs : ∀ r ∈ regs, Fits r.1)
    (hnew : nodeName ∉ dirs.map RegDir.name) (hfiles : (files.map Prod.fst).Nodup) :
    regs.foldlM (makeReg mfhss0 nodeName) (dirs ++ [{ name := nodeName, files }]) = .ok dirs' ↔
      ((files ++ regs).map Prod.fst).Nodup ∧
        dirs' = dirs ++ [{ name := nodeName, files := files ++ regs }] := by
  induction regs generalizing files with
  | nil =>
    rw [List.append_nil, List.foldlM_nil]
    constructor
    · intro h
      cases h
      exact ⟨hfiles, rfl⟩
    · rintro ⟨-, rfl⟩
      rfl
  | cons r regs ih =>
    obtain ⟨hr, hregs'⟩ := List.forall_mem_cons.mp hregs
    rw [List.foldlM_cons, makeReg_last hnode hr hnew]
    by_cases hmem : r.1 ∈ files.map Prod.fst
    · rw [if_pos hmem]
      refine iff_of_false (fun h => by cases h) fun h => ?_
      rw [List.map_append, List.map_cons] at h
      exact (List.nodup_append.mp h.1).2.2 _ hmem _ List.mem_cons_self rfl
    · rw [if_neg hmem]
      have hfiles' : ((files ++ [r]).map Prod.fst).Nodup := by
        rw [List.map_append, List.map_singleton, ← List.concat_eq_append]
        exact hfiles.concat hmem
      have hrest := ih hregs' hfiles'
      rw [List.append_assoc, List.singleton_append] at hrest
      exact hrest

/-- The directory of a node. -/
def Regentry.dir (e : Regentry) : RegDir :=
  { name := e.nodeName, files := defaultRegAttrs ++ e.regs }

theorem makeGroup_ok_iff (hnode : Fits e.nodeName) (hregs : ∀ r ∈ e.regs, Fits r.1)
    (hnew : e.nodeName ∉ dirs.map RegDir.name) : makeGroup mfhss0 dirs e = .ok dirs' ↔
      (e.dir.files.map Prod.fst).Nodup ∧ dirs' = dirs ++ [e.dir] := by
  obtain ⟨nodeName, hfield, hstring⟩ := fieldString_field hnode
  have hdefault : (defaultRegAttrs.map Prod.fst).Nodup := by decide
  rw [Regentry.dir, ← makeRegs_ok_iff hnode hregs hnew hdefault]
  unfold makeGroup socketIoctl
  simp only [hfield, if_true, ioctl, hstring, Option.map_some, createDir_ok hnode.ne_nil hnode.slash hnew]
  rfl

theorem makeGroups_ok_iff (hnodes : ∀ e ∈ entries, Fits e.nodeName)
    (hregs : ∀ e ∈ entries, ∀ r ∈ e.regs, Fits r.1)
    (hnew : (dirs.map RegDir.name ++ entries.map Regentry.nodeName).Nodup) :
    entries.foldlM (makeGroup mfhss0) dirs = .ok dirs' ↔
      (∀ e ∈ entries, (e.dir.files.map Prod.fst).Nodup) ∧
        dirs' = dirs ++ entries.map Regentry.dir := by
  induction entries generalizing dirs with
  | nil =>
    rw [List.foldlM_nil, List.map_nil, List.append_nil]
    constructor
    · intro h
      cases h
      exact ⟨fun e he => absurd he List.not_mem_nil, rfl⟩
    · rintro ⟨-, rfl⟩
      rfl
  | cons e entries ih =>
    obtain ⟨hnode, hnodes'⟩ := List.forall_mem_cons.mp hnodes
    obtain ⟨hreg, hregs'⟩ := List.forall_mem_cons.mp hregs
    have hfresh : e.nodeName ∉ dirs.map RegDir.name := fun hmem =>
      (List.nodup_append.mp hnew).2.2 _ hmem _ List.mem_cons_self rfl
    have hnew' : ((dirs ++ [e.dir]).map RegDir.name ++ entries.map Regentry.nodeName).Nodup := by
      rw [List.map_append, List.append_assoc]
      exact hnew
    rw [List.foldlM_cons, List.forall_mem_cons, List.map_cons]
    cases hgroup : makeGroup mfhss0 dirs e with
    | error fault =>
      refine iff_of_false (fun h => by cases h) fun h => ?_
      have hok := (makeGroup_ok_iff hnode hreg hfresh).mpr ⟨h.1.1, rfl⟩
      rw [hgroup] at hok
      cases hok
    | ok dirs₁ =>
      obtain ⟨hfiles, rfl⟩ := (makeGroup_ok_iff hnode hreg hfresh).mp hgroup
      have hrest := ih hnodes' hregs' hnew'
      rw [List.append_assoc, List.singleton_append] at hrest
      refine Iff.trans hrest ?_
      simp [hfiles]

/-! ## The whole map -/

/-- The subdirectories are those of the map: one for each node, and in it, after the files that
every directory has, one file for each register of the node, bound to the register's address. -/
structure Mirrors (regmap : List RegMapEntry) (dirs : List RegDir) : Prop where
  nodup : (dirs.map RegDir.name).Nodup
  nodes : ∀ nodeName, nodeName ∈ dirs.map RegDir.name ↔
    ∃ reg ∈ regmap, (path reg.name).1 = nodeName
  files : ∀ dir ∈ dirs, dir.files = defaultRegAttrs ++
    (regmap.filter fun reg => (path reg.name).1 = dir.name).map
      fun reg => ((path reg.name).2, reg.address)
  distinct : ∀ dir ∈ dirs, (dir.files.map Prod.fst).Nodup

variable {regmap : List RegMapEntry} {stack : Text} {fd : Int}

theorem mirrors_doEntries (h : ∀ e ∈ doEntries regmap, (e.dir.files.map Prod.fst).Nodup) :
    Mirrors regmap ((doEntries regmap).map Regentry.dir) := by
  have hnames : ((doEntries regmap).map Regentry.dir).map RegDir.name =
      (doEntries regmap).map Regentry.nodeName := by
    rw [List.map_map]
    rfl
  refine ⟨hnames ▸ nodup_nodeNames, fun nodeName => hnames ▸ mem_nodeNames, ?_, ?_⟩
  · intro dir hdir
    obtain ⟨e, he, rfl⟩ := List.mem_map.mp hdir
    exact congrArg (defaultRegAttrs ++ ·) (regs_eq he)
  · intro dir hdir
    obtain ⟨e, he, rfl⟩ := List.mem_map.mp hdir
    exact h e he

/-- Registers of one node have files of different names if their paths differ. -/
theorem nodup_files (hpaths : (regmap.map fun reg => path reg.name).Nodup)
    (he : e ∈ doEntries regmap) : (e.regs.map Prod.fst).Nodup := by
  rw [regs_eq he, List.map_map]
  have hsub : ((regmap.filter fun reg => (path reg.name).1 = e.nodeName).map
      fun reg => path reg.name).Nodup := hpaths.sublist (List.filter_sublist.map _)
  have hpair : (regmap.filter fun reg => (path reg.name).1 = e.nodeName).map
      (fun reg => path reg.name) = ((regmap.filter fun reg => (path reg.name).1 = e.nodeName).map
        fun reg => (path reg.name).2).map fun file => (e.nodeName, file) := by
    rw [List.map_map]
    apply List.map_congr_left
    intro reg hreg
    have hnode := (List.mem_filter.mp hreg).2
    rw [decide_eq_true_eq] at hnode
    exact Prod.ext hnode rfl
  rw [hpair] at hsub
  exact hsub.of_map

/-- Every register's file is in its node. -/
theorem exists_reg {reg : RegMapEntry} (h : reg ∈ regmap) :
    ∃ e ∈ doEntries regmap, ((path reg.name).2, reg.address) ∈ e.regs := by
  obtain ⟨e, he, hname⟩ := List.mem_map.mp (mem_nodeNames.mpr ⟨reg, h, rfl⟩)
  refine ⟨e, he, ?_⟩
  rw [regs_eq he, List.mem_map]
  exact ⟨reg, List.mem_filter.mpr ⟨h, decide_eq_true hname.symm⟩, rfl⟩

theorem exists_of_mem_regs (he : e ∈ doEntries regmap) (hr : r ∈ e.regs) :
    ∃ reg ∈ regmap, path reg.name = (e.nodeName, r.1) := by
  rw [regs_eq he, List.mem_map] at hr
  obtain ⟨reg, hreg, rfl⟩ := hr
  obtain ⟨hmem, hnode⟩ := List.mem_filter.mp hreg
  exact ⟨reg, hmem, Prod.ext (decide_eq_true_eq.mp hnode) rfl⟩

/-- Nothing clashes exactly if no file is called `value`. -/
theorem nodup_dirs_iff (hpaths : (regmap.map fun reg => path reg.name).Nodup) :
    (∀ e ∈ doEntries regmap, (e.dir.files.map Prod.fst).Nodup) ↔
      ∀ reg ∈ regmap, (path reg.name).2 ≠ "value".toList := by
  have hdir : ∀ e : Regentry, e.dir.files.map Prod.fst = "value".toList :: e.regs.map Prod.fst :=
    fun _ => rfl
  constructor
  · intro h reg hreg heq
    obtain ⟨e, he, hmem⟩ := exists_reg hreg
    have hnodup := h e he
    rw [hdir, List.nodup_cons] at hnodup
    apply hnodup.1
    rw [← heq]
    exact List.mem_map_of_mem hmem
  · intro h e he
    rw [hdir, List.nodup_cons]
    refine ⟨fun hmem => ?_, nodup_files hpaths he⟩
    obtain ⟨r, hr, heq⟩ := List.mem_map.mp hmem
    obtain ⟨reg, hreg, hpath⟩ := exists_of_mem_regs he hr
    exact h reg hreg ((congrArg Prod.snd hpath).trans heq)

theorem not_mem_path {c : Char} (h : c ∉ name) (hcommon : c ∉ "common".toList) :
    c ∉ (path name).1 ∧ c ∉ (path name).2 := by
  unfold path
  split
  · exact ⟨fun hmem => h (List.mem_of_mem_take hmem), fun hmem => h (List.mem_of_mem_drop hmem)⟩
  · exact ⟨hcommon, h⟩

theorem zero_not_mem_path (h : '\x00' ∉ name) :
    '\x00' ∉ (path name).1 ∧ '\x00' ∉ (path name).2 :=
  not_mem_path h (by decide)

theorem slash_not_mem_path (h : '/' ∉ name) : '/' ∉ (path name).1 ∧ '/' ∉ (path name).2 :=
  not_mem_path h (by decide)

/-- A name of a directory or a file. -/
def IsFileName (name : Text) : Prop := name ≠ [] ∧ name.length < regNameSize

instance (name : Text) : Decidable (IsFileName name) := inferInstanceAs (Decidable (_ ∧ _))

theorem fits_entries (hparsed : ∀ reg ∈ regmap, Parsed reg)
    (hnames : ∀ reg ∈ regmap, IsFileName (path reg.name).1 ∧ IsFileName (path reg.name).2)
    (he : e ∈ doEntries regmap) : Fits e.nodeName ∧ ∀ r ∈ e.regs, Fits r.1 := by
  constructor
  · obtain ⟨reg, hreg, hnode⟩ := mem_nodeNames.mp (List.mem_map_of_mem he)
    obtain ⟨⟨hne, hlength⟩, -⟩ := hnames reg hreg
    exact hnode ▸ ⟨hne, hlength, (zero_not_mem_path (hparsed reg hreg).zero_not_mem).1,
      (slash_not_mem_path (hparsed reg hreg).slash_not_mem).1⟩
  · intro r hr
    obtain ⟨reg, hreg, hpath⟩ := exists_of_mem_regs he hr
    obtain ⟨-, hne, hlength⟩ := hnames reg hreg
    have hfile : (path reg.name).2 = r.1 := congrArg Prod.snd hpath
    exact hfile ▸ ⟨hne, hlength, (zero_not_mem_path (hparsed reg hreg).zero_not_mem).2,
      (slash_not_mem_path (hparsed reg hreg).slash_not_mem).2⟩

/-- Without the driver's name in the request, the first directory is not made. -/
theorem makeGroups_of_ne (hinterface : interface ≠ mfhss0) (hentries : entries ≠ []) :
    entries.foldlM (makeGroup interface) dirs ≠ .ok dirs' := by
  obtain ⟨e, entries, rfl⟩ := List.exists_cons_of_ne_nil hentries
  have hgroup : ∃ fault, makeGroup interface dirs e = .error fault := by
    unfold makeGroup socketIoctl
    split
    · exact ⟨_, rfl⟩
    · rw [if_neg hinterface]
      exact ⟨_, rfl⟩
  obtain ⟨fault, hfault⟩ := hgroup
  rw [List.foldlM_cons, hfault]
  intro h
  cases h

/-- **When the directories come to mirror the map**: the request names the driver's interface, and
no register's file has the name of the file that every directory has from the start. -/
theorem makeDeviceRegs_mirrors (hfd : fd ≠ -1) (hparsed : ∀ reg ∈ regmap, Parsed reg)
    (hpaths : (regmap.map fun reg => path reg.name).Nodup)
    (hnames : ∀ reg ∈ regmap, IsFileName (path reg.name).1 ∧ IsFileName (path reg.name).2) :
    (∃ dirs, makeDeviceRegs fd stack mfhss0 (doEntries regmap) [] = .ok dirs ∧
        Mirrors regmap dirs) ↔
      (regmap ≠ [] → interfaceName stack mfhss0 = mfhss0) ∧
        ∀ reg ∈ regmap, (path reg.name).2 ≠ "value".toList := by
  have hrun : makeDeviceRegs fd stack mfhss0 (doEntries regmap) [] =
      (doEntries regmap).foldlM (makeGroup (interfaceName stack mfhss0)) [] := if_neg hfd
  have hgroups : ∀ dirs', (doEntries regmap).foldlM (makeGroup mfhss0) [] = .ok dirs' ↔
      (∀ e ∈ doEntries regmap, (e.dir.files.map Prod.fst).Nodup) ∧
        dirs' = (doEntries regmap).map Regentry.dir := fun _ =>
    makeGroups_ok_iff (fun _ he => (fits_entries hparsed hnames he).1)
      (fun _ he => (fits_entries hparsed hnames he).2) nodup_nodeNames
  rw [hrun, ← nodup_dirs_iff hpaths]
  constructor
  · rintro ⟨dirs, hok, hmirrors⟩
    refine ⟨fun hne => ?_, ?_⟩
    · by_contra hinterface
      refine makeGroups_of_ne hinterface (fun hnil => ?_) hok
      obtain ⟨reg, regmap, rfl⟩ := List.exists_cons_of_ne_nil hne
      obtain ⟨e, he, -⟩ := @exists_reg (reg :: regmap) _ List.mem_cons_self
      rw [hnil] at he
      cases he
    · by_cases hinterface : interfaceName stack mfhss0 = mfhss0
      · rw [hinterface] at hok
        exact ((hgroups dirs).mp hok).1
      · intro e he
        exact absurd hok (makeGroups_of_ne hinterface (List.ne_nil_of_mem he))
  · rintro ⟨hinterface, hfiles⟩
    refine ⟨_, ?_, mirrors_doEntries hfiles⟩
    by_cases hne : regmap = []
    · subst hne
      rfl
    · rw [hinterface hne]
      exact (hgroups _).mpr ⟨hfiles, rfl⟩

/-- Two registers of one node. -/
theorem makeDeviceRegs_mirrors_dma :
    (∃ dirs, makeDeviceRegs 3 (List.replicate 16 '\x00') mfhss0
        (doEntries [⟨"dma_cr".toList, 4⟩, ⟨"dma_sr".toList, 8⟩]) [] = .ok dirs ∧
        Mirrors [⟨"dma_cr".toList, 4⟩, ⟨"dma_sr".toList, 8⟩] dirs) ↔
      ([⟨"dma_cr".toList, 4⟩, ⟨"dma_sr".toList, 8⟩] ≠ ([] : List RegMapEntry) →
        interfaceName (List.replicate 16 '\x00') mfhss0 = mfhss0) ∧
        ∀ reg ∈ ([⟨"dma_cr".toList, 4⟩, ⟨"dma_sr".toList, 8⟩] : List RegMapEntry),
          (path reg.name).2 ≠ "value".toList := by
  refine makeDeviceRegs_mirrors (by decide) ?_ (by decide) (by decide)
  intro reg hreg
  rcases List.mem_cons.mp hreg with rfl | hreg
  · exact ⟨"ADDR_REG_DMA_CR".toList,
      ⟨"DMA_CR".toList, by decide, by decide, List.all_eq_true.mp (by decide)⟩, by decide⟩
  · cases List.mem_singleton.mp hreg
    exact ⟨"ADDR_REG_DMA_SR".toList,
      ⟨"DMA_SR".toList, by decide, by decide, List.all_eq_true.mp (by decide)⟩, by decide⟩

/-- A register whose file is called `value`: the driver says that it exists. -/
theorem value_refused :
    Parsed ⟨"dma_value".toList, 4⟩ ∧ path "dma_value".toList = ("dma".toList, "value".toList) ∧
      makeDeviceRegs 3 (List.replicate 16 '\x00') mfhss0
        (doEntries [⟨"dma_value".toList, 4⟩]) [] = .error (.makeReg "value".toList) :=
  ⟨⟨"ADDR_REG_DMA_VALUE".toList,
    ⟨"DMA_VALUE".toList, by decide, by decide, List.all_eq_true.mp (by decide)⟩, by decide⟩,
    by decide, by decide⟩

end ModemFhss.RegParser
