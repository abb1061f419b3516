import Mathlib.Logic.Function.Basic
import ModemFhss.Library.Machine
import ModemFhss.Library.Numeral
import ModemFhss.KeySender.RoundTrip

/-!
# Reading and writing the files of registers (`sysfs_show_reg`, `sysfs_store_reg`)

A file of a register is a `reg_attribute`: the register's address, and a `value` that the last read
or write of the file has left. A read fetches it from the device. A write lets `sscanf` put a number
there and gives it to the device, also if the text had no number: then the device gets what the file
was left with, and the caller is told that all is well.

The functions are the same text in `mfhssfs.c` and `mfhssdrv.c`, and once more in `MAKE_DIR_OPS` and
`MAKE_GROUP_OPS` for the registers that are declared at compile time.
-/

namespace ModemFhss.Registers

open Machine Numeral

abbrev Text := List Char

/-! ## `sscanf` -/

/-- The number that `%d` matches at the beginning of a text. -/
def decimal (buf : Text) : Option Int := (Numeral.read isSpace 10 buf).map Prod.fst

/-- An `int` in 32 bits. -/
def toU32 (n : Int) : UInt32 := UInt32.ofNat (n % 2 ^ 32).toNat

/-- `sscanf(buf, "%d", &value)`, with what `value` was. -/
def sscanf (buf : Text) (value : UInt32) : UInt32 :=
  match decimal buf with
  | some n => toU32 n
  | none => value

/-- `scnprintf(buf, PAGE_SIZE, "%d\n", value)` -/
def scnprintf (value : UInt32) : Text :=
  (if value.toNat < 2 ^ 31 then Nat.toDigits 10 value.toNat
    else '-' :: Nat.toDigits 10 (2 ^ 32 - value.toNat)) ++ ['\n']

example : decimal " \t-12abc".toList = some (-12) ∧ decimal "- 12".toList = none ∧
    sscanf "4294967297".toList 7 = 1 ∧ scnprintf 0xFFFFFFFF = "-1\n".toList := by decide

/-! ## The files -/

variable {ι : Type} [DecidableEq ι]

/-- The `value` of each `reg_attribute`, and the registers of the device by address. -/
structure RegFiles (ι : Type) where
  value : ι → UInt32
  hw : UInt32 → UInt32

/-- The `sysfs_show` functions: the text that is read. -/
def sysfsShowReg (address : ι → UInt32) (s : RegFiles ι) (a : ι) : Text × RegFiles ι :=
  let value := s.hw (address a)
  (scnprintf value, { s with value := Function.update s.value a value })

/-- The `sysfs_store` functions: what they return. -/
def sysfsStoreReg (address : ι → UInt32) (s : RegFiles ι) (a : ι) (buf : Text) :
    Int × RegFiles ι :=
  let value := sscanf buf (s.value a)
  (buf.length, { value := Function.update s.value a value
                 hw := Function.update s.hw (address a) value })

inductive FileEvent (ι : Type) where
  | sysfsShow (a : ι)
  | sysfsStore (a : ι) (buf : Text)
  /-- The device changes one of its registers. -/
  | device (address value : UInt32)

def fileStep (address : ι → UInt32) (s : RegFiles ι) : FileEvent ι → Option (RegFiles ι)
  | .sysfsShow a => some (sysfsShowReg address s a).2
  | .sysfsStore a buf => some (sysfsStoreReg address s a buf).2
  | .device addr value => some { s with hw := Function.update s.hw addr value }

/-- What a write should do: a number goes to the register, and anything else is refused. -/
def Honoured (address : ι → UInt32) (s : RegFiles ι) : FileEvent ι → Prop
  | .sysfsStore a buf =>
    match decimal buf with
    | some n => (sysfsStoreReg address s a buf).1 = buf.length ∧
        (sysfsStoreReg address s a buf).2.hw = Function.update s.hw (address a) (toU32 n)
    | none => (sysfsStoreReg address s a buf).1 < 0 ∧ (sysfsStoreReg address s a buf).2.hw = s.hw
  | _ => True

variable {address : ι → UInt32} {s : RegFiles ι} {a : ι} {buf text : Text} {n : Int}

/-! ## What a number is -/

/-- **What `%d` matches**: a number at the beginning of the text, after blanks. -/
theorem decimal_eq_some_iff :
    decimal buf = some n ↔ ∃ blanks sign digits rest,
      Begins isSpace 10 buf blanks sign digits rest ∧
        n = signed (sign = ['-']) (Numeral.value 10 digits) := by
  have hread : decimal buf = some n ↔ ∃ rest, Numeral.read isSpace 10 buf = some (n, rest) := by
    simp [decimal]
  rw [hread]
  constructor
  · rintro ⟨rest, h⟩
    obtain ⟨blanks, sign, digits, hbegins, hn⟩ :=
      (read_eq_some_iff (by decide) (by decide) fun _ => not_isDigit_of_isSpace).mp h
    exact ⟨blanks, sign, digits, rest, hbegins, hn⟩
  · rintro ⟨blanks, sign, digits, rest, hbegins, hn⟩
    refine ⟨rest, ?_⟩
    apply (read_eq_some_iff (by decide) (by decide) fun _ => not_isDigit_of_isSpace).mpr
    exact ⟨blanks, sign, digits, hbegins, hn⟩

theorem toU32_natCast (n : Nat) : (toU32 n).toNat = n % 2 ^ 32 := by
  have hmod : ((n : Int) % 2 ^ 32).toNat = n % 2 ^ 32 := by omega
  unfold toU32
  rw [hmod, UInt32.toNat_ofNat']
  exact Nat.mod_mod _ _

/-- A text of digits is read as where the key files are written to the registers. -/
theorem sscanf_eq_keySender {digit : Char} (h : digit.isDigit = true) (value : UInt32) :
    (sscanf (digit :: text) value).toNat = KeySender.sscanf (digit :: text) value.toNat := by
  have hdigits : ∀ c ∈ (digit :: text).takeWhile Char.isDigit, isDigit 10 c = true := by
    intro c hc
    rw [isDigit_ten]
    exact List.mem_takeWhile_imp hc
  have hne : (digit :: text).takeWhile Char.isDigit ≠ [] := by simp [h]
  have hbegins : Begins isSpace 10 (digit :: text) [] [] ((digit :: text).takeWhile Char.isDigit)
      ((digit :: text).dropWhile Char.isDigit) := by
    refine ⟨List.takeWhile_append_dropWhile.symm, nofun, .inl rfl, hne, hdigits, ?_⟩
    intro c hc
    have hstop := List.head?_dropWhile_not Char.isDigit (digit :: text)
    rw [hc] at hstop
    rw [isDigit_ten]
    exact hstop
  have hdecimal := decimal_eq_some_iff.mpr ⟨_, _, _, _, hbegins, rfl⟩
  unfold sscanf KeySender.sscanf
  rw [hdecimal, if_neg hne, value_ten hdigits]
  exact toU32_natCast _

/-! ## What a write does -/

theorem sysfsStoreReg_of_some (h : decimal buf = some n) : sysfsStoreReg address s a buf =
    ((buf.length : Int), { value := Function.update s.value a (toU32 n)
                           hw := Function.update s.hw (address a) (toU32 n) }) := by
  unfold sysfsStoreReg sscanf
  rw [h]

/-- Without a number, what the file was left with goes to the device. -/
theorem sysfsStoreReg_of_none (h : decimal buf = none) : sysfsStoreReg address s a buf =
    ((buf.length : Int),
      { value := s.value, hw := Function.update s.hw (address a) (s.value a) }) := by
  unfold sysfsStoreReg sscanf
  rw [h]
  dsimp only
  rw [Function.update_eq_self]

/-- What the device was left with goes there if nothing but this file has touched the register. -/
theorem sysfsStoreReg_hw_eq_self_iff (h : decimal buf = none) :
    (sysfsStoreReg address s a buf).2.hw = s.hw ↔ s.value a = s.hw (address a) := by
  rw [sysfsStoreReg_of_none h]
  exact Function.update_eq_self_iff

theorem honoured_store_iff :
    Honoured address s (.sysfsStore a buf) ↔ (decimal buf).isSome = true := by
  unfold Honoured
  cases h : decimal buf with
  | some n => simp [h, sysfsStoreReg_of_some h]
  | none =>
    have hlength : ¬ (buf.length : Int) < 0 := by omega
    simp [h, sysfsStoreReg_of_none h, hlength]

/-- **The writes that do what they should** are those of numbers, in every run of reads and writes
with a device that changes its registers. -/
theorem meets_honoured_iff (address : ι → UInt32) (s : RegFiles ι) (es : List (FileEvent ι)) :
    Meets (fileStep address) (Honoured address) s es ↔
      ∀ a buf, .sysfsStore a buf ∈ es → (decimal buf).isSome = true := by
  induction es generalizing s with
  | nil => simp
  | cons e es ih =>
    have hnext : ∃ s', fileStep address s e = some s' := by
      cases e <;> exact ⟨_, rfl⟩
    obtain ⟨s', hs'⟩ := hnext
    have hhead : Honoured address s e ↔
        ∀ a buf, e = .sysfsStore a buf → (decimal buf).isSome = true := by
      cases e with
      | sysfsStore a buf =>
        rw [honoured_store_iff]
        constructor
        · rintro h a' buf' ⟨⟩
          exact h
        · intro h
          exact h a buf rfl
      | sysfsShow a => exact iff_of_true trivial nofun
      | device addr value => exact iff_of_true trivial nofun
    rw [meets_cons, hhead]
    constructor
    · rintro ⟨hfirst, hrest⟩ a buf hmem
      rcases List.mem_cons.mp hmem with heq | hmem
      · exact hfirst a buf heq.symm
      · exact (ih s').mp (hrest s' hs') a buf hmem
    · intro hall
      refine ⟨fun a buf heq => hall a buf (heq ▸ List.mem_cons_self), fun t ht => ?_⟩
      cases hs'.symm.trans ht
      exact (ih s').mpr fun a buf hmem => hall a buf (List.mem_cons_of_mem _ hmem)

/-- The file was read when the register was 5; the device has counted on to 6, and a text without a
number sets it back. -/
theorem store_not_honoured :
    ∃ s, run (fileStep fun _ : Unit => 4) { value := fun _ => 0, hw := fun _ => 5 }
        [.sysfsShow (), .device 4 6] = some s ∧ s.hw 4 = 6 ∧
      sysfsStoreReg (fun _ : Unit => 4) s () "reset".toList =
        (5, (sysfsStoreReg (fun _ : Unit => 4) s () "reset".toList).2) ∧
      (sysfsStoreReg (fun _ : Unit => 4) s () "reset".toList).2.hw 4 = 5 ∧
      ¬ Honoured (fun _ : Unit => 4) s (.sysfsStore () "reset".toList) := by
  refine ⟨_, rfl, rfl, rfl, rfl, ?_⟩
  rw [honoured_store_iff]
  decide

end ModemFhss.Registers
