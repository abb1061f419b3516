import ModemFhss.Library.Grouping
import ModemFhss.RegParser.Parse

/-!
# Grouping registers by node (`regmap.cpp`)

`DoEntries` takes the register map and puts every register under the node that its name says: what
stands before the first underscore is the node and what follows is the register's file, unless there
is no underscore or nothing before it; such a register is a file of the node `common`. `SaysPath` is
that rule, and `doEntries_partition` what the grouping keeps of a map: all of it.
-/

namespace ModemFhss.RegParser

/-- `reg_t`: a register's file and its address. -/
abbrev Reg := Text × UInt32

/-- `regentry_c`: a node and its registers. -/
structure Regentry where
  nodeName : Text
  regs : List Reg
  deriving DecidableEq, Repr

/-- The node and the file that a register's name stands for. -/
def path (name : Text) : Text × Text :=
  match name.findIdx? (· == '_') with
  | some (pos + 1) => (name.take (pos + 1), name.drop (pos + 2))
  | _ => ("common".toList, name)

/-- What the loop of `DoEntries` does with one register: it goes to the node `find_if` finds, or to
a new one at the end. -/
def addEntry (nodeName : Text) (reg : Reg) : List Regentry → List Regentry
  | [] => [{ nodeName, regs := [reg] }]
  | e :: entries =>
    if nodeName = e.nodeName then
      { e with regs := e.regs ++ [reg] } :: entries
    else
      e :: addEntry nodeName reg entries

/-- `regcreator_c::DoEntries` of a new `regcreator_c`. -/
def doEntries (regmap : List RegMapEntry) : List Regentry :=
  regmap.foldl (fun entries reg =>
    addEntry (path reg.name).1 ((path reg.name).2, reg.address) entries) []

example : doEntries [⟨"dma_cr".toList, 4⟩, ⟨"rst".toList, 8⟩, ⟨"dma_tx_cnt".toList, 12⟩] =
    [⟨"dma".toList, [("cr".toList, 4), ("tx_cnt".toList, 12)]⟩,
      ⟨"common".toList, [("rst".toList, 8)]⟩] := by decide

/-! ## It is grouping -/

variable {regmap : List RegMapEntry} {entries : List Regentry} {e : Regentry} {nodeName : Text}
  {reg : Reg}

/-- A register with its node as key. -/
def place (reg : RegMapEntry) : Text × Reg := ((path reg.name).1, (path reg.name).2, reg.address)

def Regentry.group (e : Regentry) : Text × List Reg := (e.nodeName, e.regs)

theorem group_addEntry : (addEntry nodeName reg entries).map Regentry.group =
    Grouping.add nodeName reg (entries.map Regentry.group) := by
  induction entries with
  | nil => rfl
  | cons e entries ih =>
    unfold addEntry
    rw [List.map_cons, Grouping.add]
    by_cases h : nodeName = e.nodeName
    · have hgroup : e.group.1 = nodeName := h.symm
      rw [if_pos h, if_pos hgroup]
      rfl
    · have hgroup : e.group.1 ≠ nodeName := Ne.symm h
      rw [if_neg h, if_neg hgroup, List.map_cons, ih]

/-- **`DoEntries` groups the registers by node.** -/
theorem group_doEntries :
    (doEntries regmap).map Regentry.group = Grouping.collect (regmap.map place) := by
  induction regmap using List.reverseRecOn with
  | nil => rfl
  | append_singleton regmap reg ih =>
    rw [List.map_append, List.map_singleton, Grouping.collect_concat, ← ih, ← group_addEntry]
    simp [doEntries, place]

theorem nodeNames_eq : (doEntries regmap).map Regentry.nodeName =
    (Grouping.collect (regmap.map place)).map Prod.fst := by
  rw [← group_doEntries, List.map_map]
  rfl

/-- There is one node of each name. -/
theorem nodup_nodeNames : ((doEntries regmap).map Regentry.nodeName).Nodup := by
  rw [nodeNames_eq]
  exact Grouping.nodup_keys_collect

theorem mem_nodeNames : nodeName ∈ (doEntries regmap).map Regentry.nodeName ↔
    ∃ reg ∈ regmap, (path reg.name).1 = nodeName := by
  rw [nodeNames_eq, Grouping.mem_keys_collect, List.map_map, List.mem_map]
  rfl

/-- A node has the registers that name it, in order. -/
theorem regs_eq (h : e ∈ doEntries regmap) : e.regs =
    (regmap.filter fun reg => (path reg.name).1 = e.nodeName).map
      fun reg => ((path reg.name).2, reg.address) := by
  have hmem : e.group ∈ Grouping.collect (regmap.map place) := by
    rw [← group_doEntries]
    exact List.mem_map_of_mem h
  have hregs : e.regs = _ := Grouping.eq_of_mem_collect hmem
  rw [hregs, List.filter_map, List.map_map]
  rfl

/-! ## It keeps the registers -/

/-- A register that the map puts into no node of its own: it has no underscore, or begins with
one. -/
def IsCommon (name : Text) : Prop := '_' ∉ name ∨ name.head? = some '_'

instance (name : Text) : Decidable (IsCommon name) := inferInstanceAs (Decidable (_ ∨ _))

/-- The node and the file that a name says. -/
inductive SaysPath : Text → Text → Text → Prop
  | node {front rest : Text} (hfront : front ≠ []) (hfirst : '_' ∉ front) :
      SaysPath (front ++ '_' :: rest) front rest
  | common {name : Text} (h : IsCommon name) : SaysPath name "common".toList name

variable {front rest name : Text}

theorem path_node (hfront : front ≠ []) (hfirst : '_' ∉ front) :
    path (front ++ '_' :: rest) = (front, rest) := by
  have hnone : front.findIdx? (· == '_') = none := by
    rw [List.findIdx?_eq_none_iff]
    intro c hc
    rw [beq_eq_false_iff_ne]
    rintro rfl
    exact hfirst hc
  obtain ⟨n, hn⟩ := Nat.exists_eq_succ_of_ne_zero (List.length_pos_iff.mpr hfront).ne'
  have hfind : (front ++ '_' :: rest).findIdx? (· == '_') = some (n + 1) := by
    rw [List.findIdx?_append, hnone, List.findIdx?_cons, hn]
    simp
  have htake : (front ++ '_' :: rest).take (n + 1) = front := List.take_left' hn
  have hdrop : (front ++ '_' :: rest).drop (n + 2) = rest := by
    rw [List.append_cons]
    apply List.drop_left'
    rw [List.length_append, hn]
    rfl
  unfold path
  rw [hfind]
  dsimp only
  rw [htake, hdrop]

theorem path_common (h : IsCommon name) : path name = ("common".toList, name) := by
  have hfind : name.findIdx? (· == '_') = none ∨ name.findIdx? (· == '_') = some 0 := by
    rcases h with hnone | hhead
    · left
      rw [List.findIdx?_eq_none_iff]
      intro c hc
      rw [beq_eq_false_iff_ne]
      rintro rfl
      exact hnone hc
    · right
      cases name with
      | nil => cases hhead
      | cons c name =>
        cases hhead
        rfl
  unfold path
  rcases hfind with hnone | hzero
  · rw [hnone]
  · rw [hzero]

/-- Every name says a path, the one that `DoEntries` takes. -/
theorem saysPath_path (name : Text) : SaysPath name (path name).1 (path name).2 := by
  by_cases h : IsCommon name
  · rw [path_common h]
    exact .common h
  · obtain ⟨hmem, hhead⟩ := not_or.mp h
    obtain ⟨front, rest, rfl, hfirst⟩ := List.eq_append_cons_of_mem (not_not.mp hmem)
    have hfront : front ≠ [] := by
      rintro rfl
      exact hhead rfl
    rw [path_node hfront hfirst]
    exact .node hfront hfirst

/-- All registers, each with its node. -/
def flatten (entries : List Regentry) : List (Text × Reg) :=
  entries.flatMap fun e => e.regs.map (Prod.mk e.nodeName)

theorem flatten_doEntries : (flatten (doEntries regmap)).Perm (regmap.map place) := by
  have hgroups : flatten (doEntries regmap) =
      Grouping.flatten ((doEntries regmap).map Regentry.group) := by
    rw [Grouping.flatten, List.flatMap_map]
    rfl
  rw [hgroups, group_doEntries]
  exact Grouping.flatten_collect

/-- `regcreator_c::DoEntries` with the entries that are there: what it returns, and the entries. -/
def regcreatorDoEntries (entries : List Regentry) (regmap : List RegMapEntry) :
    Nat × List Regentry :=
  let entries := regmap.foldl (fun entries reg =>
    addEntry (path reg.name).1 ((path reg.name).2, reg.address) entries) entries
  (entries.length, entries)

/-- **Grouping loses nothing.** The nodes are those that the names say, in the order in which they
come first; a node has the registers that say it, in order; no register is lost or there twice. -/
theorem doEntries_partition (regmap : List RegMapEntry) :
    ∃ entries, regcreatorDoEntries [] regmap = (entries.length, entries) ∧
      (entries.map Regentry.nodeName).Nodup ∧
      entries.map Regentry.nodeName = (regmap.map fun reg => (path reg.name).1).eraseDups ∧
      (∀ e ∈ entries, e.regs = (regmap.filter fun reg => (path reg.name).1 = e.nodeName).map
        fun reg => ((path reg.name).2, reg.address)) ∧
      (∀ reg ∈ regmap, SaysPath reg.name (path reg.name).1 (path reg.name).2) ∧
      (flatten entries).Perm (regmap.map place) := by
  refine ⟨doEntries regmap, rfl, nodup_nodeNames, ?_, ?_, ?_, flatten_doEntries⟩
  · rw [nodeNames_eq, Grouping.keys_collect, List.map_map]
    rfl
  · intro e he
    exact regs_eq he
  · intro reg _
    exact saysPath_path reg.name

end ModemFhss.RegParser
