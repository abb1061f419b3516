import ModemFhss.Daemon.Conf
import ModemFhss.Library.Paths

/-!
# What a request opens

`set` and `get` open the file of a register: its name, any token of the request, is put after the
path of the registers' directory. Nothing looks at the name, so it can lead out of the directory by
`..`, or out and in again (`confined_iff`).
-/

namespace ModemFhss.Daemon.ModemConf

open Paths

variable {sys sys' : System} {buffer name value path : Block} {token args : List Block}

/-! ## Tokens -/

/-- **Taking a request apart undoes joining tokens with single spaces**, and nothing else does. -/
theorem parserMsg_inverse :
    (∀ buffer, ∃ token, parserMsg buffer = some token ∧ token ≠ [] ∧ (∀ w ∈ token, space ∉ w) ∧
      [space].intercalate token = buffer) ∧
    ∀ token, token ≠ [] → (∀ w ∈ token, space ∉ w) →
      parserMsg ([space].intercalate token) = some token := by
  constructor
  · intro buffer
    refine ⟨buffer.splitOn space, parserMsg_eq, List.splitOn_ne_nil _ _, ?_, ?_⟩
    · intro w hw
      exact (Words.of_mem_splitOn hw).1
    · exact List.intercalate_splitOn space
  · intro token hne hplain
    rw [parserMsg_eq, List.splitOn_intercalate space hplain hne]

/-- Empty tokens are kept, at both ends and between two spaces. -/
theorem parserMsg_inverse_empty :
    parserMsg ([space].intercalate [[], ascii "get", [], ascii "dma", []]) =
      some [[], ascii "get", [], ascii "dma", []] := by
  apply parserMsg_inverse.2
  · exact List.cons_ne_nil _ _
  · decide

/-! ## Files -/

/-- The paths that `open` sees in the `set` branch of `run_py_func`. -/
def openedSet : List Block → List Block
  | [name, value] => if isDigits value then [cStr (reg name)] else []
  | _ => []

/-- Those in the `get` branch. -/
def openedGet : List Block → List Block
  | [name] => [cStr (reg name)]
  | _ => []

/-- Those of a request. -/
def opened (buffer : Block) : List Block :=
  match parserMsg buffer with
  | some (command :: args) =>
    if command = ascii "set" then openedSet args
    else if command = ascii "get" then openedGet args
    else []
  | _ => []

/-- The requests that have a register's file opened, and the name in them. -/
inductive Names : Block → Block → Prop where
  | set {name value : Block} : space ∉ name → isDigits value = true →
      Names (ascii "set " ++ name ++ ascii " " ++ value) name
  | get {name : Block} : space ∉ name → Names (ascii "get " ++ name) name

theorem space_not_mem_of_isDigits (h : isDigits value = true) : space ∉ value := by
  intro hmem
  have hdigit := List.all_eq_true.mp h space hmem
  exact absurd hdigit (by decide)

theorem opened_eq : opened buffer = match buffer.splitOn space with
    | command :: args =>
      if command = ascii "set" then openedSet args
      else if command = ascii "get" then openedGet args
      else []
    | [] => [] := by
  unfold opened
  rw [parserMsg_eq]
  cases buffer.splitOn space with
  | nil => rfl
  | cons command args => rfl

/-- The requests are tokens joined with spaces. -/
theorem intercalate_set : [space].intercalate [ascii "set", name, value] =
    ascii "set " ++ name ++ ascii " " ++ value := by
  rw [List.intercalate_cons_cons, List.intercalate_cons_cons, List.intercalate_singleton]
  simp only [← List.append_assoc]
  rfl

theorem intercalate_get : [space].intercalate [ascii "get", name] = ascii "get " ++ name := by
  rw [List.intercalate_cons_cons, List.intercalate_singleton]
  rfl

theorem splitOn_set (hname : space ∉ name) (hvalue : isDigits value = true) :
    (ascii "set " ++ name ++ ascii " " ++ value).splitOn space =
      [ascii "set", name, value] := by
  have hplain : ∀ w ∈ [ascii "set", name, value], space ∉ w := by
    intro w hw
    simp only [List.mem_cons, List.not_mem_nil, or_false] at hw
    obtain rfl | rfl | rfl := hw
    · decide
    · exact hname
    · exact space_not_mem_of_isDigits hvalue
  rw [← intercalate_set]
  exact List.splitOn_intercalate space hplain (List.cons_ne_nil _ _)

theorem splitOn_get (hname : space ∉ name) :
    (ascii "get " ++ name).splitOn space = [ascii "get", name] := by
  have hplain : ∀ w ∈ [ascii "get", name], space ∉ w := by
    intro w hw
    simp only [List.mem_cons, List.not_mem_nil, or_false] at hw
    obtain rfl | rfl := hw
    · decide
    · exact hname
  rw [← intercalate_get]
  exact List.splitOn_intercalate space hplain (List.cons_ne_nil _ _)

theorem opened_of_names (h : Names buffer name) : opened buffer = [cStr (reg name)] := by
  rw [opened_eq]
  cases h with
  | set hname hvalue =>
    rw [splitOn_set hname hvalue]
    dsimp only
    rw [if_pos rfl, openedSet, if_pos hvalue]
  | get hname =>
    rw [splitOn_get hname]
    dsimp only
    rw [if_neg (by decide), if_pos rfl, openedGet]

theorem of_mem_openedSet (h : path ∈ openedSet args) : ∃ name value,
    args = [name, value] ∧ isDigits value = true ∧ path = cStr (reg name) := by
  unfold openedSet at h
  split at h
  · next name value =>
    split at h
    · next hdigits => exact ⟨name, value, rfl, hdigits, List.mem_singleton.mp h⟩
    · cases h
  · cases h

theorem of_mem_openedGet (h : path ∈ openedGet args) :
    ∃ name, args = [name] ∧ path = cStr (reg name) := by
  unfold openedGet at h
  split at h
  · next name => exact ⟨name, rfl, List.mem_singleton.mp h⟩
  · cases h

/-- A file is opened for a name only. -/
theorem exists_names_of_mem_opened (h : path ∈ opened buffer) :
    ∃ name, Names buffer name ∧ path = cStr (reg name) := by
  rw [opened_eq] at h
  have hjoin := @List.intercalate_splitOn _ buffer _ _ space
  have hplain : ∀ w ∈ buffer.splitOn space, space ∉ w := by
    intro w hw
    exact (Words.of_mem_splitOn hw).1
  generalize buffer.splitOn space = token at h hjoin hplain
  split at h
  · next command args =>
    split at h
    · next hset =>
      obtain ⟨name, value, rfl, hdigits, hpath⟩ := of_mem_openedSet h
      refine ⟨name, ?_, hpath⟩
      have hnames := Names.set (hplain name (by simp)) hdigits
      rw [← hjoin, hset, intercalate_set]
      exact hnames
    · split at h
      · next hget =>
        obtain ⟨name, rfl, hpath⟩ := of_mem_openedGet h
        refine ⟨name, ?_, hpath⟩
        have hnames := Names.get (hplain name (by simp))
        rw [← hjoin, hget, intercalate_get]
        exact hnames
      · cases h
  · cases h

theorem mem_opened_iff :
    path ∈ opened buffer ↔ ∃ name, Names buffer name ∧ path = cStr (reg name) := by
  constructor
  · exact exists_names_of_mem_opened
  · rintro ⟨name, hnames, rfl⟩
    rw [opened_of_names hnames]
    exact List.mem_singleton_self _

/-! ## What the answer depends on -/

/-- Two systems that have the same in every file but this one. -/
structure ButFor (path : Block) (sys sys' : System) : Prop where
  openWrite : ∀ p ≠ path, sys.openWrite p = sys'.openWrite p
  readFile : ∀ p ≠ path, sys.readFile p = sys'.readFile p
  modemSendData : sys.modemSendData = sys'.modemSendData

theorem runSet_congr (h : ButFor path sys sys') (hpath : path ∉ openedSet args) :
    runSet sys args = runSet sys' args := by
  unfold runSet
  unfold openedSet at hpath
  split
  · next name value =>
    split
    · next hdigits =>
      dsimp only at hpath
      rw [if_pos hdigits, List.mem_singleton] at hpath
      rw [h.openWrite _ (Ne.symm hpath)]
    · rfl
  · rfl

theorem runGet_congr (h : ButFor path sys sys') (hpath : path ∉ openedGet args) :
    runGet sys args = runGet sys' args := by
  unfold runGet
  unfold openedGet at hpath
  split
  · next name =>
    rw [List.mem_singleton] at hpath
    rw [h.readFile _ (Ne.symm hpath)]
  · rfl

/-- A file that is not opened makes no difference. -/
theorem runConf_congr (h : ButFor path sys sys') (hpath : path ∉ opened buffer) :
    runConf sys buffer = runConf sys' buffer := by
  rw [opened_eq] at hpath
  rw [runConf_eq, runConf_eq]
  generalize buffer.splitOn space = token at hpath
  cases token with
  | nil => rfl
  | cons command args =>
    simp only [runPyFunc]
    dsimp only at hpath
    split
    · next hset =>
      rw [if_pos hset] at hpath
      exact runSet_congr h hpath
    · next hset =>
      rw [if_neg hset] at hpath
      split
      · next hget =>
        rw [if_pos hget] at hpath
        exact runGet_congr h hpath
      · unfold runSend
        rw [h.modemSendData]

/-- `set` says whether it could open the file. -/
theorem exists_differ_set (hname : space ∉ name) (hvalue : isDigits value = true) :
    ∃ sys sys', ButFor (cStr (reg name)) sys sys' ∧
      runConf sys (ascii "set " ++ name ++ ascii " " ++ value) ≠
        runConf sys' (ascii "set " ++ name ++ ascii " " ++ value) := by
  refine ⟨.bare, { System.bare with openWrite := fun p => p = cStr (reg name) },
    ⟨?_, ?_, ?_⟩, ?_⟩
  · intro p hne
    simp [System.bare, hne]
  · exact fun _ _ => rfl
  · rfl
  · rw [runConf_eq, runConf_eq, splitOn_set hname hvalue]
    have hset : ∀ sys : System, runSet sys [name, value] =
        some (ascii "write " ++ value ++ ascii " to " ++ reg name ++
          if sys.openWrite (cStr (reg name)) then ascii " success" else ascii " fail") :=
      fun sys => if_pos hvalue
    show runSet _ [name, value] ≠ runSet _ [name, value]
    rw [hset, hset]
    intro heq
    have hlength := congrArg List.length (Option.some.inj heq)
    rw [length_written, length_written] at hlength
    simp [System.bare] at hlength

/-- `get` says what it found in it. -/
theorem exists_differ_get (hname : space ∉ name) :
    ∃ sys sys', ButFor (cStr (reg name)) sys sys' ∧
      runConf sys (ascii "get " ++ name) ≠ runConf sys' (ascii "get " ++ name) := by
  refine ⟨.bare, { System.bare with
    readFile := fun p => if p = cStr (reg name) then some [] else none }, ⟨?_, ?_, ?_⟩, ?_⟩
  · exact fun _ _ => rfl
  · intro p hne
    simp [System.bare, hne]
  · rfl
  · rw [runConf_eq, runConf_eq, splitOn_get hname]
    have hread : runGet { System.bare with
        readFile := fun p => if p = cStr (reg name) then some [] else none } [name] =
          some (ascii "read " ++ reg name ++ ascii " success: " ++ []) := by
      unfold runGet
      dsimp only
      rw [if_pos rfl]
      rfl
    show some (ascii "read " ++ reg name ++ ascii " fail") ≠ runGet _ [name]
    rw [hread]
    intro heq
    have hlength := congrArg List.length (Option.some.inj heq)
    rw [length_unread, length_read, List.length_nil] at hlength
    omega

/-- **The files opened are those that the answer depends on.** -/
theorem mem_opened_iff_differ : path ∈ opened buffer ↔
    ∃ sys sys', ButFor path sys sys' ∧ runConf sys buffer ≠ runConf sys' buffer := by
  constructor
  · intro hpath
    obtain ⟨name, hnames, rfl⟩ := exists_names_of_mem_opened hpath
    cases hnames with
    | set hname hvalue => exact exists_differ_set hname hvalue
    | get hname => exact exists_differ_get hname
  · rintro ⟨sys, sys', h, hne⟩
    by_contra hpath
    exact hne (runConf_congr h hpath)

/-! ## Confinement -/

def slash : UInt8 := 47

def dot : UInt8 := 46

/-- The directory of the registers. -/
def registers : List Block := [ascii "sys", ascii "mfhssdrv-registers"]

/-- The path of the directory goes to `open` whole. -/
theorem cStr_reg : cStr (reg name) = ascii "/sys/mfhssdrv-registers" ++ slash :: cStr name := by
  have hall : (ascii "/sys/mfhssdrv-registers/").all (fun c => c != 0) = true := by decide
  have hnonzero : ∀ c ∈ ascii "/sys/mfhssdrv-registers/", decide (c ≠ 0) = true := by
    intro c hc
    simpa using List.all_eq_true.mp hall c hc
  have hslash : ascii "/sys/mfhssdrv-registers/" =
      ascii "/sys/mfhssdrv-registers" ++ [slash] := by decide
  unfold cStr reg
  rw [List.takeWhile_append_of_pos hnonzero, hslash, List.append_assoc]
  rfl

theorem resolve_reg : resolve slash dot (cStr (reg name)) =
    walk registers (steps slash dot (cStr name)) := by
  have hdir : resolve slash dot (ascii "/sys/mfhssdrv-registers") = registers := by decide
  rw [cStr_reg, resolve_append, hdir]

/-- **When a request stays with the registers**: the name in it, if there is one, goes down again by
the names that it goes up by. -/
theorem confined_iff :
    (∀ path ∈ opened buffer, registers <+: resolve slash dot path) ↔
      ∀ name, Names buffer name →
        registers.drop (registers.length - (relative (steps slash dot (cStr name))).ups) <+:
          (relative (steps slash dot (cStr name))).downs := by
  constructor
  · intro h name hnames
    have hpath := h (cStr (reg name)) (mem_opened_iff.mpr ⟨name, hnames, rfl⟩)
    rw [resolve_reg] at hpath
    exact (prefix_walk_iff registers _).mp hpath
  · intro h path hpath
    obtain ⟨name, hnames, rfl⟩ := mem_opened_iff.mp hpath
    rw [resolve_reg]
    exact (prefix_walk_iff registers _).mpr (h name hnames)

/-- A name that climbs out of the directory. -/
theorem not_confined :
    ¬ ∀ buffer, ∀ path ∈ opened buffer, registers <+: resolve slash dot path := by
  intro h
  have hpath := h (ascii "get ../../etc/passwd")
    (ascii "/sys/mfhssdrv-registers/../../etc/passwd") (by decide)
  exact absurd hpath (by decide)

end ModemFhss.Daemon.ModemConf
