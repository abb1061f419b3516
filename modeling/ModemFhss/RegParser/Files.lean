import ModemFhss.RegParser.Declaration
import ModemFhss.RegParser.Entries

/-!
# The files of the registers

The node and the file that `DoEntries` takes from a name. A name that ends with its first underscore
leaves the file without a name (`DoEntries` looks only at an underscore in front), and the node
`common` is also the node of the names that begin with `common_`: such a name and the rest of it are
the same file (`Clash`). Nothing else goes wrong (`files_iff`).
-/

namespace ModemFhss.RegParser

/-- The node and the file of each register. -/
def files (entries : List Regentry) : List (Text × Text) :=
  (flatten entries).map fun x => (x.1, x.2.1)

/-- Something is left of a name for the file: it is not empty, and its first underscore is not the
last character, unless it is the first one as well. -/
def NamesFile (name : Text) : Prop :=
  name ≠ [] ∧ ∀ front, name = front ++ ['_'] → front = [] ∨ '_' ∈ front

/-- A register of `common`, and one whose name says that file of `common`. -/
def Clash (name other : Text) : Prop := IsCommon name ∧ other = "common_".toList ++ name

variable {regmap : List RegMapEntry} {name other node file : Text}

theorem files_doEntries :
    (files (doEntries regmap)).Perm ((regmap.map RegMapEntry.name).map path) := by
  have hmap : (regmap.map RegMapEntry.name).map path =
      (regmap.map place).map fun x => (x.1, x.2.1) := by
    rw [List.map_map, List.map_map]
    rfl
  rw [hmap]
  exact flatten_doEntries.map _

/-! ## Names of files -/

theorem path_fst_ne_nil (name : Text) : (path name).1 ≠ [] := by
  intro hnil
  have hsays := saysPath_path name
  rw [hnil] at hsays
  generalize (path name).2 = file at hsays
  cases hsays with
  | node hfront _ => exact hfront rfl

theorem path_snd_ne_nil_iff : (path name).2 ≠ [] ↔ NamesFile name := by
  constructor
  · intro hfile
    refine ⟨?_, ?_⟩
    · rintro rfl
      exact hfile rfl
    · rintro front rfl
      by_contra hboth
      obtain ⟨hfront, hfirst⟩ := not_or.mp hboth
      rw [path_node hfront hfirst] at hfile
      exact hfile rfl
  · rintro ⟨hne, hlast⟩ hnil
    have hsays := saysPath_path name
    rw [hnil] at hsays
    generalize (path name).1 = node at hsays
    cases hsays with
    | node hfront hfirst =>
      rcases hlast node rfl with rfl | hmem
      · exact hfront rfl
      · exact hfirst hmem
    | common h => exact hne rfl

/-! ## Names of one file -/

theorem Clash.ne (h : Clash name other) : name ≠ other := by
  rintro rfl
  have hlength := congrArg List.length h.2
  rw [List.length_append] at hlength
  have hpos : 0 < "common_".toList.length := by decide
  omega

theorem Clash.path_eq (h : Clash name other) : path name = path other := by
  obtain ⟨hcommon, rfl⟩ := h
  have hother : "common_".toList ++ name = "common".toList ++ '_' :: name := rfl
  rw [path_common hcommon, hother, path_node (by decide) (by decide)]

theorem SaysPath.clash (h : SaysPath name node file) (h' : SaysPath other node file) :
    name = other ∨ Clash name other ∨ Clash other name := by
  cases h with
  | node hfront hfirst =>
    cases h' with
    | node hfront' hfirst' => exact .inl rfl
    | common hcommon => exact .inr (.inr ⟨hcommon, rfl⟩)
  | common hcommon =>
    cases h' with
    | node hfront' hfirst' => exact .inr (.inl ⟨hcommon, rfl⟩)
    | common hcommon' => exact .inl rfl

/-- **Two names are one file** only through `common`. -/
theorem path_eq_path_iff :
    path name = path other ↔ name = other ∨ Clash name other ∨ Clash other name := by
  constructor
  · intro heq
    have hsays := saysPath_path name
    rw [heq] at hsays
    exact hsays.clash (saysPath_path other)
  · rintro (rfl | hclash | hclash)
    · rfl
    · exact hclash.path_eq
    · exact hclash.path_eq.symm

theorem nodup_paths_iff {names : List Text} (hnames : names.Nodup) :
    (names.map path).Nodup ↔ ∀ name ∈ names, ∀ other ∈ names, ¬ Clash name other := by
  rw [List.nodup_map_iff_inj_on hnames]
  constructor
  · intro hinj name hname other hother hclash
    apply hclash.ne
    exact hinj name hname other hother hclash.path_eq
  · intro hnone name hname other hother heq
    rcases path_eq_path_iff.mp heq with rfl | hclash | hclash
    · rfl
    · exact absurd hclash (hnone name hname other hother)
    · exact absurd hclash (hnone other hother name hname)

/-- **When the registers have files of their own**: every name leaves one a name, and no name says a
file of `common` that is another register's. -/
theorem files_iff (hnames : (regmap.map RegMapEntry.name).Nodup) :
    ((files (doEntries regmap)).Nodup ∧
        ∀ file ∈ files (doEntries regmap), file.1 ≠ [] ∧ file.2 ≠ []) ↔
      (∀ reg ∈ regmap, NamesFile reg.name) ∧
        ∀ reg ∈ regmap, ∀ other ∈ regmap, ¬ Clash reg.name other.name := by
  have hparts : (∀ file ∈ files (doEntries regmap), file.1 ≠ [] ∧ file.2 ≠ []) ↔
      ∀ reg ∈ regmap, NamesFile reg.name := by
    simp only [files_doEntries.mem_iff, List.forall_mem_map, path_snd_ne_nil_iff,
      path_fst_ne_nil, ne_eq, not_false_eq_true, true_and]
  rw [hparts, files_doEntries.nodup_iff, nodup_paths_iff hnames, and_comm]
  simp only [List.forall_mem_map]

/-- Two registers, none of them in a node of its own. -/
theorem files_iff_reset :
    ((files (doEntries [⟨"reset".toList, 4⟩, ⟨"_ctl".toList, 8⟩])).Nodup ∧
        ∀ file ∈ files (doEntries [⟨"reset".toList, 4⟩, ⟨"_ctl".toList, 8⟩]),
          file.1 ≠ [] ∧ file.2 ≠ []) ↔
      (∀ reg ∈ ([⟨"reset".toList, 4⟩, ⟨"_ctl".toList, 8⟩] : List RegMapEntry),
        NamesFile reg.name) ∧
        ∀ reg ∈ ([⟨"reset".toList, 4⟩, ⟨"_ctl".toList, 8⟩] : List RegMapEntry),
          ∀ other ∈ ([⟨"reset".toList, 4⟩, ⟨"_ctl".toList, 8⟩] : List RegMapEntry),
            ¬ Clash reg.name other.name :=
  files_iff (by decide)

/-- Two registers that are one file, and one whose file has no name. -/
theorem files_not_distinct :
    (∃ regmap, parse { bits := 32, le_bits := le_rfl }
        ("constant ADDR_REG_X:integer:=1;".toList ++
          "constant ADDR_REG_COMMON_X:integer:=2;".toList) = some (.ok regmap) ∧
      (regmap.map RegMapEntry.name).Nodup ∧ ¬ (files (doEntries regmap)).Nodup) ∧
    ∃ regmap, parse { bits := 32, le_bits := le_rfl }
        "constant ADDR_REG_DMA_:integer:=1;".toList = some (.ok regmap) ∧
      (regmap.map RegMapEntry.name).Nodup ∧ ∃ file ∈ files (doEntries regmap), file.2 = [] := by
  have hclash : parse { bits := 32, le_bits := le_rfl }
      ("constant ADDR_REG_X:integer:=1;".toList ++
        "constant ADDR_REG_COMMON_X:integer:=2;".toList) =
      some (.ok [⟨"x".toList, 4⟩, ⟨"common_x".toList, 8⟩]) := by
    decide +kernel
  have hempty : parse { bits := 32, le_bits := le_rfl }
      "constant ADDR_REG_DMA_:integer:=1;".toList = some (.ok [⟨"dma_".toList, 4⟩]) := by
    decide +kernel
  exact ⟨⟨_, hclash, by decide, by decide⟩, ⟨_, hempty, by decide, by decide⟩⟩

end ModemFhss.RegParser
