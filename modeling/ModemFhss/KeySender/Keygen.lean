import Mathlib.Logic.Function.Basic
import ModemFhss.Library.Hex
import ModemFhss.Library.Numeral

/-!
# The keys and their files (`keygen.hpp`)

A key is one register of 16 or 32 bits, or a pair of 32-bit registers. A key file is text, a line
`name:value` for each register, in hexadecimal; `WriteTo` appends the lines of one key, `ReadFrom`
looks for them, and `WriteToHW` writes the values to the register files under `/sys/mfhss-dynamic`.

The `key` member of the C++ classes is set right before each use (by `Generate` before `WriteTo`, by
`ReadFrom` before `WriteToHW`), so here the value is passed along instead.
-/

namespace ModemFhss.KeySender

open Numeral (isSpace)

abbrev Text := List Char

/-- The registers under `/sys/mfhss-dynamic`, by name. -/
abbrev Registers := Text → Nat

/-- The type parameter of `Keygen`. -/
inductive KeyType where
  | uint16
  | uint32
  /-- `std::uint32_t[2]` -/
  | pair
  deriving DecidableEq, Repr

/-- A class derived from `Keygen`: the type and the register name it passes to the constructor. -/
structure KeyClass where
  regname : Text
  type : KeyType
  deriving DecidableEq, Repr

def ciKey : KeyClass := ⟨"ci/key_".toList, .pair⟩
def sapKey : KeyClass := ⟨"sap/key_sap".toList, .uint16⟩
def sapIntrKey : KeyClass := ⟨"sap/key_intr".toList, .uint32⟩
def dLinkCoderKey : KeyClass := ⟨"dlink/coder_key".toList, .uint16⟩
def hopSeedKey : KeyClass := ⟨"hop/seed".toList, .uint32⟩
def dLinkDataPreampbleKey : KeyClass := ⟨"dlink/data_preample_".toList, .pair⟩
def dLinkCommonKey : KeyClass := ⟨"dlink/key_common".toList, .uint16⟩
def phyCommonKey : KeyClass := ⟨"phy/key_common".toList, .uint16⟩

/-- `modem_type` in the configuration. -/
inductive ModemType where
  | rtkU
  | rtkV
  deriving DecidableEq, Repr

/-- The vector of keys the constructor of `daemonTool_c` creates. -/
def ModemType.keys : ModemType → List KeyClass
  | .rtkU => [ciKey, sapKey, sapIntrKey, dLinkCoderKey, hopSeedKey, dLinkDataPreampbleKey]
  | .rtkV => [ciKey, sapKey, sapIntrKey, dLinkCommonKey, phyCommonKey]

/-- The value of a key: `key`, or `key.words`. A single word is `l`. -/
structure KeyValue where
  l : Nat
  h : Nat
  deriving DecidableEq, Repr

/-- `keyGenExc_c::errCode_t`, with the description thrown along. -/
inductive KeyGenError where
  | openFile
  | parseKey (line : Text)
  | notFoundKey (regname : Text)
  deriving DecidableEq, Repr

/-! ## Writing -/

/-- `ofs << name << ":" << std::hex << n << std::endl`. -/
def fileLine (name : Text) (n : Nat) : Text := name ++ ':' :: Hex.digits n ++ ['\n']

namespace KeyClass

/-- The registers of a key with the values that go into them. -/
def words (k : KeyClass) (v : KeyValue) : List (Text × Nat) :=
  match k.type with
  | .uint16 | .uint32 => [(k.regname, v.l)]
  | .pair => [(k.regname ++ "lsb".toList, v.l), (k.regname ++ "msb".toList, v.h)]

/-- What `WriteTo` leaves in a file that held `file`; one that is not there is created. -/
def writeTo (k : KeyClass) (v : KeyValue) (file : Text) : Text :=
  (k.words v).foldl (fun file w => file ++ fileLine w.1 w.2) file

def writeToHW (k : KeyClass) (v : KeyValue) (hw : Registers) : Registers :=
  (k.words v).foldl (fun hw w => Function.update hw w.1 w.2) hw

end KeyClass

/-! ## Reading -/

/-- The values of `line` after each `ifs >> line`, until the end of the file is met. At the end a
`>>` that finds nothing leaves `line` as it was. -/
def linesFrom : Nat → Text → Text → List Text
  | 0, _, _ => []
  | fuel + 1, file, line =>
    let file := file.dropWhile isSpace
    if file = [] then
      [line]
    else
      let line := file.takeWhile fun c => ! isSpace c
      let left := file.dropWhile fun c => ! isSpace c
      if left = [] then [line] else line :: linesFrom fuel left line

/-- Every `>>` takes a character or meets the end. -/
def lines (file : Text) : List Text := linesFrom (file.length + 1) file []

/-- `regex_search(line, m, ":[a-f0-9]+")`: the digits after the first `:` that has any. -/
def searchDigits : Text → Option Text
  | [] => none
  | c :: cs =>
    if c = ':' ∧ cs.takeWhile Hex.isDigit ≠ [] then some (cs.takeWhile Hex.isDigit)
    else searchDigits cs

/-- `ss >> std::hex >> key` for a type whose largest value is `max`: a number that is too large sets
the key to `max`. -/
def extract (max : Nat) (digits : Text) : Nat := min max (Hex.value digits)

/-- `Keygen<T>::ReadFrom`, over the lines: `regex_match(line, "^" + regname + ".*")` says that the
line starts with the name. -/
def readWord (name : Text) (max : Nat) : List Text → Except KeyGenError Nat
  | [] => .error (.notFoundKey name)
  | line :: rest =>
    if name.isPrefixOf line then
      match searchDigits line with
      | some digits => .ok (extract max digits)
      | none => .error (.parseKey line)
    else
      readWord name max rest

/-- `Keygen<std::uint32_t[2]>::ReadFrom`, over the lines, with what has been found. -/
def readPair (name : Text) : Option Nat → Option Nat → List Text → Except KeyGenError KeyValue
  | some l, some h, _ => .ok ⟨l, h⟩
  | _, _, [] => .error (.notFoundKey name)
  | l, h, line :: rest =>
    if (name ++ "lsb".toList).isPrefixOf line then
      match searchDigits line with
      | some digits => readPair name (some (extract 0xFFFFFFFF digits)) h rest
      | none => .error (.parseKey line)
    else if (name ++ "msb".toList).isPrefixOf line then
      match searchDigits line with
      | some digits => readPair name l (some (extract 0xFFFFFFFF digits)) rest
      | none => .error (.parseKey line)
    else
      readPair name l h rest

/-- `ReadFrom` on a file, if there is one. -/
def KeyClass.readFrom (k : KeyClass) : Option Text → Except KeyGenError KeyValue
  | none => .error .openFile
  | some file =>
    match k.type with
    | .uint16 => (readWord k.regname 0xFFFF (lines file)).map fun n => ⟨n, 0⟩
    | .uint32 => (readWord k.regname 0xFFFFFFFF (lines file)).map fun n => ⟨n, 0⟩
    | .pair => readPair k.regname none none (lines file)

/-! ## All keys -/

/-- `MODEM_CREATE_KEYS`: each key is generated (`values` is what `Generate` draws for it) and
written. -/
def createKeys (v : List KeyClass) (values : KeyClass → KeyValue) (file : Text) : Text :=
  v.foldl (fun file k => k.writeTo (values k) file) file

/-- `MODEM_WAIT_DISCONNECT` after the link went off: each key is read and written to its registers.
An exception leaves the registers written so far. -/
def installKeys : List KeyClass → Option Text → Registers → Registers × Option KeyGenError
  | [], _, hw => (hw, none)
  | k :: v, file, hw =>
    match k.readFrom file with
    | .error err => (hw, some err)
    | .ok value => installKeys v file (k.writeToHW value hw)

/-! ## What an installation leaves in the registers -/

variable {k : KeyClass} {v : List KeyClass} {file : Option Text} {hw hw' : Registers}
  {value : KeyValue} {r : Text}

/-- The registers of a key. -/
def KeyClass.registers (k : KeyClass) : List Text := (k.words ⟨0, 0⟩).map Prod.fst

/-- The registers hold the keys that `file` says. -/
def Holds (v : List KeyClass) (file : Option Text) (hw : Registers) : Prop :=
  ∀ k ∈ v, ∃ value, k.readFrom file = .ok value ∧ ∀ w ∈ k.words value, hw w.1 = w.2

instance decidableReads (k : KeyClass) (file : Option Text) (hw : Registers) :
    Decidable (∃ value, k.readFrom file = .ok value ∧ ∀ w ∈ k.words value, hw w.1 = w.2) :=
  match k.readFrom file with
  | .error _ => isFalse fun ⟨_, hread, _⟩ => by cases hread
  | .ok value => decidable_of_iff (∀ w ∈ k.words value, hw w.1 = w.2)
    ⟨fun hwords => ⟨value, rfl, hwords⟩, fun ⟨_, hread, hwords⟩ => by cases hread; exact hwords⟩

instance (v : List KeyClass) (file : Option Text) (hw : Registers) : Decidable (Holds v file hw) :=
  inferInstanceAs (Decidable (∀ k ∈ v, _))

theorem map_fst_words (k : KeyClass) (value : KeyValue) :
    (k.words value).map Prod.fst = k.registers := by
  unfold KeyClass.registers KeyClass.words
  split <;> rfl

/-- Writing registers leaves the others alone. -/
theorem foldl_update_of_notMem {ws : List (Text × Nat)} (h : r ∉ ws.map Prod.fst)
    (hw : Registers) : ws.foldl (fun hw w => Function.update hw w.1 w.2) hw r = hw r := by
  induction ws generalizing hw with
  | nil => rfl
  | cons w ws ih =>
    rw [List.map_cons, List.mem_cons, not_or] at h
    rw [List.foldl_cons, ih h.2, Function.update_of_ne h.1]

/-- Distinct registers keep what was written to them. -/
theorem foldl_update_of_mem {ws : List (Text × Nat)} (hnd : (ws.map Prod.fst).Nodup)
    {w : Text × Nat} (hmem : w ∈ ws) (hw : Registers) :
    ws.foldl (fun hw w => Function.update hw w.1 w.2) hw w.1 = w.2 := by
  induction ws generalizing hw with
  | nil => cases hmem
  | cons u ws ih =>
    rw [List.map_cons, List.nodup_cons] at hnd
    rw [List.foldl_cons]
    rcases List.mem_cons.mp hmem with rfl | hmem
    · rw [foldl_update_of_notMem hnd.1, Function.update_self]
    · exact ih hnd.2 hmem _

theorem KeyClass.writeToHW_of_notMem (h : r ∉ k.registers) : k.writeToHW value hw r = hw r := by
  rw [← map_fst_words k value] at h
  exact foldl_update_of_notMem h hw

theorem KeyClass.writeToHW_of_mem (hnd : k.registers.Nodup) {w : Text × Nat}
    (hmem : w ∈ k.words value) : k.writeToHW value hw w.1 = w.2 := by
  rw [← map_fst_words k value] at hnd
  exact foldl_update_of_mem hnd hmem hw

theorem installKeys_of_notMem (h : r ∉ v.flatMap KeyClass.registers) :
    (installKeys v file hw).1 r = hw r := by
  induction v generalizing hw with
  | nil => rfl
  | cons k v ih =>
    rw [List.flatMap_cons, List.mem_append, not_or] at h
    unfold installKeys
    split
    · rfl
    · rw [ih h.2, k.writeToHW_of_notMem h.1]

/-- **An installation that ends without an exception** leaves in the registers what the file says,
if no two keys share a register. -/
theorem holds_installKeys (hnd : (v.flatMap KeyClass.registers).Nodup)
    (h : (installKeys v file hw).2 = none) : Holds v file (installKeys v file hw).1 := by
  induction v generalizing hw with
  | nil => exact fun k hk => absurd hk (List.not_mem_nil)
  | cons k v ih =>
    rw [List.flatMap_cons, List.nodup_append] at hnd
    obtain ⟨hk, hv, hdisjoint⟩ := hnd
    cases hread : k.readFrom file with
    | error err =>
      simp only [installKeys, hread] at h
      cases h
    | ok value =>
      simp only [installKeys, hread] at h ⊢
      intro k' hk'
      rcases List.mem_cons.mp hk' with rfl | hk'
      · -- the keys after it do not write to its registers
        refine ⟨value, hread, fun w hw => ?_⟩
        have hmem : w.1 ∈ k'.registers := by
          rw [← map_fst_words k' value]
          exact List.mem_map_of_mem hw
        rw [installKeys_of_notMem fun hin => hdisjoint _ hmem _ hin rfl]
        exact k'.writeToHW_of_mem hk hw
      · exact ih hv h k' hk'

/-- No two keys of a modem share a register. -/
theorem ModemType.nodup_registers (t : ModemType) :
    (t.keys.flatMap KeyClass.registers).Nodup := by
  cases t <;> decide +kernel

end ModemFhss.KeySender
