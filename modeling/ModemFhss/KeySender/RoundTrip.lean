import Mathlib.Algebra.Order.Ring.Int
import Mathlib.Data.List.Infix
import Mathlib.Data.List.TakeWhile
import ModemFhss.KeySender.Keygen

/-!
# From a key to its register (`WriteTo`, `ReadFrom`, `WriteToHW`, `sysfs_store_reg`)

`WriteToHW` writes a value as decimal text to the file of its register under `/sys/mfhss-dynamic`,
where `sysfs_store_reg` of the driver reads it with `sscanf` and writes it to the device. Here it is
shown that this is the same as writing the value to the register (`storeToFiles_hw`), and that a
file to which all keys of a modem were written gives each of them its value back
(`readFrom_keyFile`), for all values that the types of the keys can hold.

`ReadFrom` takes the first line that starts with the key's name, so what matters is that no name of
a modem's registers is the beginning of another.
-/

namespace ModemFhss.KeySender

open Numeral (isSpace)

/-! ## The files of the registers -/

/-- The register files: the member `value` of each `struct reg_attribute`, and the device. -/
structure RegFiles where
  value : Text → Nat
  hw : Registers

/-- `sscanf(buf, "%d", &value)`, with what `value` was. -/
def sscanf (buf : Text) (value : Nat) : Nat :=
  if buf.takeWhile Char.isDigit = [] then value
  else Nat.ofDigitChars 10 (buf.takeWhile Char.isDigit) 0 % 2 ^ 32

def RegFiles.sysfsStoreReg (d : RegFiles) (name buf : Text) : RegFiles :=
  let value := sscanf buf (d.value name)
  { value := Function.update d.value name value
    hw := Function.update d.hw name value }

namespace KeyClass

/-- `WriteToHW`, through the files. -/
def storeToFiles (k : KeyClass) (v : KeyValue) (d : RegFiles) : RegFiles :=
  (k.words v).foldl (fun d w => d.sysfsStoreReg w.1 (Nat.toDigits 10 w.2)) d

/-- The values that the key's type can hold. -/
def Range (k : KeyClass) (v : KeyValue) : Prop :=
  match k.type with
  | .uint16 => v.l < 2 ^ 16 ∧ v.h = 0
  | .uint32 => v.l < 2 ^ 32 ∧ v.h = 0
  | .pair => v.l < 2 ^ 32 ∧ v.h < 2 ^ 32

instance : (k : KeyClass) → (v : KeyValue) → Decidable (k.Range v)
  | ⟨_, .uint16⟩, v => inferInstanceAs (Decidable (v.l < 2 ^ 16 ∧ v.h = 0))
  | ⟨_, .uint32⟩, v => inferInstanceAs (Decidable (v.l < 2 ^ 32 ∧ v.h = 0))
  | ⟨_, .pair⟩, v => inferInstanceAs (Decidable (v.l < 2 ^ 32 ∧ v.h < 2 ^ 32))

end KeyClass

/-- Each key is read and written to the files of its registers, as in `installKeys`. -/
def installFiles : List KeyClass → Option Text → RegFiles → RegFiles × Option KeyGenError
  | [], _, d => (d, none)
  | k :: v, file, d =>
    match k.readFrom file with
    | .error err => (d, some err)
    | .ok value => installFiles v file (k.storeToFiles value d)

variable {k : KeyClass} {v : List KeyClass} {value : KeyValue} {file : Option Text} {d : RegFiles}
  {name : Text} {n : Nat}

theorem sscanf_toDigits (hn : n < 2 ^ 32) (old : Nat) : sscanf (Nat.toDigits 10 n) old = n := by
  have hall : (Nat.toDigits 10 n).takeWhile Char.isDigit = Nat.toDigits 10 n :=
    List.takeWhile_eq_self_iff.mpr fun c hc =>
      Nat.isDigit_of_mem_toDigits (by decide) (by decide) hc
  unfold sscanf
  rw [hall, if_neg Nat.toDigits_ne_nil, Nat.ofDigitChars_ten_toDigits, Nat.mod_eq_of_lt hn]

theorem word_lt (h : k.Range value) : ∀ w ∈ k.words value, w.2 < 2 ^ 32 := by
  unfold KeyClass.Range at h
  intro w hw
  cases htype : k.type with
  | uint16 =>
    simp only [htype, KeyClass.words, List.mem_singleton] at h hw
    rw [hw]
    exact Nat.lt_trans h.1 (by decide)
  | uint32 =>
    simp only [htype, KeyClass.words, List.mem_singleton] at h hw
    rw [hw]
    exact h.1
  | pair =>
    simp only [htype, KeyClass.words, List.mem_cons, List.not_mem_nil, or_false] at h hw
    rcases hw with rfl | rfl
    · exact h.1
    · exact h.2

/-- **Text or number, the registers hold the same.** -/
theorem storeToFiles_hw (h : k.Range value) :
    (k.storeToFiles value d).hw = k.writeToHW value d.hw := by
  have hall := word_lt h
  unfold KeyClass.storeToFiles KeyClass.writeToHW
  generalize k.words value = ws at hall
  induction ws generalizing d with
  | nil => rfl
  | cons w ws ih =>
    have hw : (d.sysfsStoreReg w.1 (Nat.toDigits 10 w.2)).hw = Function.update d.hw w.1 w.2 := by
      simp only [RegFiles.sysfsStoreReg, sscanf_toDigits (hall w (List.mem_cons_self ..))]
    rw [List.foldl_cons, List.foldl_cons, ih fun u hu => hall u (List.mem_cons_of_mem _ hu), hw]

theorem installFiles_hw (h : ∀ k ∈ v, ∀ value, k.readFrom file = .ok value → k.Range value) :
    (installFiles v file d).1.hw = (installKeys v file d.hw).1 ∧
      (installFiles v file d).2 = (installKeys v file d.hw).2 := by
  induction v generalizing d with
  | nil => exact ⟨rfl, rfl⟩
  | cons k v ih =>
    cases hread : k.readFrom file with
    | error err => simp only [installFiles, installKeys, hread, and_self]
    | ok value =>
      simp only [installFiles, installKeys, hread]
      rw [← storeToFiles_hw (d := d) (h k (List.mem_cons_self ..) value hread)]
      exact ih fun k hk => h k (List.mem_cons_of_mem _ hk)

theorem installKeys_eq_none {hw : Registers}
    (h : ∀ k ∈ v, ∃ value, k.readFrom file = .ok value) : (installKeys v file hw).2 = none := by
  induction v generalizing hw with
  | nil => rfl
  | cons k v ih =>
    obtain ⟨value, hread⟩ := h k (List.mem_cons_self ..)
    simp only [installKeys, hread]
    exact ih fun k hk => h k (List.mem_cons_of_mem _ hk)

/-! ## The lines of a key file -/

/-- A line of a key file. -/
def keyLine (w : Text × Nat) : Text := w.1 ++ ':' :: Hex.digits w.2

/-- The words that `createKeys` writes. -/
def allWords (v : List KeyClass) (values : KeyClass → KeyValue) : List (Text × Nat) :=
  v.flatMap fun k => k.words (values k)

theorem createKeys_eq (values : KeyClass → KeyValue) (file : Text) :
    createKeys v values file =
      file ++ ((allWords v values).map keyLine).flatMap (· ++ ['\n']) := by
  have hkey (k : KeyClass) (file : Text) : k.writeTo (values k) file =
      file ++ ((k.words (values k)).map keyLine).flatMap (· ++ ['\n']) := by
    unfold KeyClass.writeTo
    generalize k.words (values k) = ws
    induction ws generalizing file with
    | nil => simp
    | cons w ws ih =>
      rw [List.foldl_cons, ih]
      simp [fileLine, keyLine]
  unfold createKeys allWords
  induction v generalizing file with
  | nil => simp
  | cons k v ih =>
    rw [List.foldl_cons, ih, hkey]
    simp

theorem isSpace_of_isDigit {c : Char} (h : Hex.isDigit c = true) : isSpace c = false := by
  rw [Bool.eq_false_iff]
  intro hspace
  simp only [isSpace, Bool.or_eq_true, decide_eq_true_eq] at hspace
  rcases hspace with ((((rfl | rfl) | rfl) | rfl) | rfl) | rfl
  all_goals exact absurd h (by decide)

theorem length_le_flatMap (ls : List Text) : ls.length ≤ (ls.flatMap (· ++ ['\n'])).length := by
  induction ls with
  | nil => exact Nat.zero_le _
  | cons l ls ih =>
    rw [List.flatMap_cons, List.length_append, List.length_append, List.length_cons]
    simp only [List.length_singleton]
    omega

/-- Lines without spaces are read as they were written; the last is met once more at the end. -/
theorem linesFrom_eq {ls : List Text} {sp prev : Text} {fuel : Nat} (hfuel : ls.length < fuel)
    (hsp : ∀ c ∈ sp, isSpace c = true) (hls : ∀ l ∈ ls, l ≠ [] ∧ ∀ c ∈ l, isSpace c = false) :
    linesFrom fuel (sp ++ ls.flatMap (· ++ ['\n'])) prev = ls ++ [ls.getLastD prev] := by
  induction ls generalizing fuel sp prev with
  | nil =>
    obtain ⟨fuel, rfl⟩ := Nat.exists_eq_succ_of_ne_zero (Nat.ne_of_gt hfuel)
    have hnone : (sp ++ ([] : List Text).flatMap (· ++ ['\n'])).dropWhile isSpace = [] := by
      simpa [List.dropWhile_eq_nil_iff] using hsp
    simp only [linesFrom, hnone, if_true]
    rfl
  | cons l ls ih =>
    obtain ⟨fuel, rfl⟩ := Nat.exists_eq_succ_of_ne_zero (Nat.ne_of_gt (Nat.zero_lt_of_lt hfuel))
    obtain ⟨hne, hplain⟩ := hls l (List.mem_cons_self ..)
    have hshape : sp ++ (l :: ls).flatMap (· ++ ['\n']) =
        sp ++ (l ++ (['\n'] ++ ls.flatMap (· ++ ['\n']))) := by simp
    have hdrop : (sp ++ (l ++ (['\n'] ++ ls.flatMap (· ++ ['\n'])))).dropWhile isSpace =
        l ++ (['\n'] ++ ls.flatMap (· ++ ['\n'])) := by
      rw [List.dropWhile_append_of_pos hsp]
      obtain ⟨c, cs, rfl⟩ := List.exists_cons_of_ne_nil hne
      rw [List.cons_append, List.dropWhile_cons_of_neg]
      simp [hplain c (List.mem_cons_self ..)]
    have hword : ∀ c ∈ l, (! isSpace c) = true := by simpa using hplain
    have htake : (l ++ (['\n'] ++ ls.flatMap (· ++ ['\n']))).takeWhile (fun c => ! isSpace c) =
        l := by
      rw [List.takeWhile_append_of_pos hword]
      simp [isSpace]
    have hleft : (l ++ (['\n'] ++ ls.flatMap (· ++ ['\n']))).dropWhile (fun c => ! isSpace c) =
        ['\n'] ++ ls.flatMap (· ++ ['\n']) := by
      rw [List.dropWhile_append_of_pos hword]
      simp [isSpace]
    have hrest := @ih ['\n'] l fuel (by simpa using hfuel) (by simp [isSpace])
      fun l' hl' => hls l' (List.mem_cons_of_mem _ hl')
    rw [hshape]
    unfold linesFrom
    simp only [hdrop, htake, hleft]
    rw [if_neg (by simp [hne]), if_neg (by simp), hrest, List.getLastD_cons, List.cons_append]

/-! ## Finding a line -/

/-- Names that a line can be looked up by. -/
structure Distinct (names : List Text) : Prop where
  nodup : names.Nodup
  /-- No name is the beginning of another. -/
  prefixFree : ∀ a ∈ names, ∀ b ∈ names, a <+: b → a = b
  plain : ∀ a ∈ names, ∀ c ∈ a, c ≠ ':' ∧ isSpace c = false

theorem ModemType.distinct (t : ModemType) : Distinct (t.keys.flatMap KeyClass.registers) where
  nodup := t.nodup_registers
  prefixFree := by cases t <;> decide +kernel
  plain := by
    have hall : ∀ a ∈ t.keys.flatMap KeyClass.registers,
        (a.all fun c => c != ':' && !isSpace c) = true := by
      cases t <;> decide +kernel
    intro a ha c hc
    simpa using List.all_eq_true.mp (hall a ha) c hc

theorem map_fst_allWords (v : List KeyClass) (values : KeyClass → KeyValue) :
    (allWords v values).map Prod.fst = v.flatMap KeyClass.registers := by
  unfold allWords
  rw [List.map_flatMap]
  congr 1
  funext k
  exact map_fst_words k (values k)

section Find

variable {names : List Text} {ws : List (Text × Nat)} {extra : List Text} {w : Text × Nat}
  {a b max : Nat}

/-- A line starts with a name if it is the line of that name. -/
theorem Distinct.isPrefixOf_keyLine (hd : Distinct names) (hname : name ∈ names)
    (hw : w.1 ∈ names) : name.isPrefixOf (keyLine w) = true ↔ w.1 = name := by
  rw [List.isPrefixOf_iff_prefix]
  constructor
  · intro hprefix
    have hline : w.1 <+: keyLine w := List.prefix_append _ _
    rcases Nat.le_total name.length w.1.length with hle | hge
    · exact (hd.prefixFree _ hname _ hw (List.prefix_of_prefix_length_le hprefix hline hle)).symm
    · exact hd.prefixFree _ hw _ hname (List.prefix_of_prefix_length_le hline hprefix hge)
  · rintro rfl
    exact List.prefix_append _ _

/-- The digits after the name are found. -/
theorem searchDigits_keyLine (hplain : ∀ c ∈ w.1, c ≠ ':') :
    searchDigits (keyLine w) = some (Hex.digits w.2) := by
  obtain ⟨name, n⟩ := w
  unfold keyLine
  induction name with
  | nil =>
    have hall : (Hex.digits n).takeWhile Hex.isDigit = Hex.digits n :=
      List.takeWhile_eq_self_iff.mpr fun c hc => Hex.isDigit_of_mem_digits hc
    have hne : Hex.digits n ≠ [] := Nat.toDigits_ne_nil
    simp only [List.nil_append, searchDigits, hall]
    rw [if_pos ⟨trivial, hne⟩]
  | cons c name ih =>
    have hc : c ≠ ':' := hplain c (List.mem_cons_self ..)
    simp only [List.cons_append, searchDigits]
    rw [if_neg fun h => hc h.1]
    exact ih fun c hc => hplain c (List.mem_cons_of_mem _ hc)

theorem extract_digits (h : n ≤ max) : extract max (Hex.digits n) = n := by
  unfold extract
  rw [Hex.value_digits, Nat.min_eq_right h]

theorem Distinct.readWord_eq (hd : Distinct names) (hws : ∀ w ∈ ws, w.1 ∈ names)
    (hnd : (ws.map Prod.fst).Nodup) (hmem : (name, n) ∈ ws) (hmax : n ≤ max) :
    readWord name max (ws.map keyLine ++ extra) = .ok n := by
  have hname : name ∈ names := hws _ hmem
  induction ws with
  | nil => cases hmem
  | cons w ws ih =>
    have hw := hws w (List.mem_cons_self ..)
    rw [List.map_cons, List.nodup_cons] at hnd
    simp only [List.map_cons, List.cons_append, readWord]
    rcases List.mem_cons.mp hmem with rfl | hmem
    · rw [if_pos ((hd.isPrefixOf_keyLine hname hw).mpr rfl),
        searchDigits_keyLine fun c hc => (hd.plain _ hw c hc).1]
      simp only [extract_digits hmax]
    · have hother : w.1 ≠ name := by
        intro heq
        rw [heq] at hnd
        exact hnd.1 (List.mem_map.mpr ⟨_, hmem, rfl⟩)
      rw [if_neg fun h => hother ((hd.isPrefixOf_keyLine hname hw).mp h)]
      exact ih (fun w hw => hws w (List.mem_cons_of_mem _ hw)) hnd.2 hmem

/-- What is left to find of one half of a pair: nothing, or its line is ahead. -/
def Ahead (name : Text) (a : Nat) (ws : List (Text × Nat)) (found : Option Nat) : Prop :=
  found = some a ∧ name ∉ ws.map Prod.fst ∨ found = none ∧ (name, a) ∈ ws

theorem Ahead.next {found : Option Nat} (h : Ahead name a (w :: ws) found) (hw : w.1 ≠ name) :
    Ahead name a ws found := by
  rcases h with ⟨hfound, hnone⟩ | ⟨hfound, hmem⟩
  · refine .inl ⟨hfound, fun hin => hnone ?_⟩
    exact List.mem_cons_of_mem _ hin
  · rcases List.mem_cons.mp hmem with rfl | hmem
    · exact absurd rfl hw
    · exact .inr ⟨hfound, hmem⟩

theorem Ahead.here {found : Option Nat} (h : Ahead w.1 a (w :: ws) found)
    (hnd : ((w :: ws).map Prod.fst).Nodup) : w.2 = a ∧ Ahead w.1 a ws (some a) := by
  rw [List.map_cons, List.nodup_cons] at hnd
  refine ⟨?_, .inl ⟨rfl, hnd.1⟩⟩
  rcases h with ⟨-, hnone⟩ | ⟨-, hmem⟩
  · exact absurd (List.mem_cons_self ..) hnone
  · rcases List.mem_cons.mp hmem with heq | hmem
    · rw [← heq]
    · exact absurd (List.mem_map_of_mem hmem) hnd.1

theorem readPair_cons {l h : Option Nat} {line : Text} {rest : List Text}
    (hopen : l = none ∨ h = none) :
    readPair name l h (line :: rest) =
      if (name ++ "lsb".toList).isPrefixOf line then
        match searchDigits line with
        | some digits => readPair name (some (extract 0xFFFFFFFF digits)) h rest
        | none => .error (.parseKey line)
      else if (name ++ "msb".toList).isPrefixOf line then
        match searchDigits line with
        | some digits => readPair name l (some (extract 0xFFFFFFFF digits)) rest
        | none => .error (.parseKey line)
      else
        readPair name l h rest := by
  rcases hopen with rfl | rfl
  · cases h <;> rfl
  · cases l <;> rfl

theorem Distinct.readPair_eq {l h : Option Nat} (hd : Distinct names)
    (hws : ∀ w ∈ ws, w.1 ∈ names) (hnd : (ws.map Prod.fst).Nodup)
    (hlsb : name ++ "lsb".toList ∈ names) (hmsb : name ++ "msb".toList ∈ names)
    (hl : Ahead (name ++ "lsb".toList) a ws l) (hh : Ahead (name ++ "msb".toList) b ws h)
    (ha : a ≤ 0xFFFFFFFF) (hb : b ≤ 0xFFFFFFFF) :
    readPair name l h (ws.map keyLine ++ extra) = .ok ⟨a, b⟩ := by
  have hne : name ++ "lsb".toList ≠ name ++ "msb".toList := by simp
  induction ws generalizing l h with
  | nil =>
    rcases hl with ⟨rfl, -⟩ | ⟨-, hmem⟩
    · rcases hh with ⟨rfl, -⟩ | ⟨-, hmem⟩
      · simp only [readPair]
      · cases hmem
    · cases hmem
  | cons w ws ih =>
    have hw := hws w (List.mem_cons_self ..)
    have hws' : ∀ w ∈ ws, w.1 ∈ names := fun w hw => hws w (List.mem_cons_of_mem _ hw)
    have hdigits := searchDigits_keyLine fun c hc => (hd.plain _ hw c hc).1
    have hnd' : (ws.map Prod.fst).Nodup := by
      rw [List.map_cons, List.nodup_cons] at hnd
      exact hnd.2
    by_cases hopen : l = none ∨ h = none
    · rw [List.map_cons, List.cons_append, readPair_cons hopen, hdigits]
      by_cases hislsb : w.1 = name ++ "lsb".toList
      · rw [if_pos ((hd.isPrefixOf_keyLine hlsb hw).mpr hislsb)]
        rw [← hislsb] at hl
        obtain ⟨hval, hl'⟩ := hl.here hnd
        rw [hislsb] at hl'
        dsimp only
        rw [extract_digits (hval.trans_le ha), hval]
        exact ih hws' hnd' hl' (hh.next (hislsb.trans_ne hne))
      -- no other name begins like this one, so the line is the other half's or of another key
      rw [if_neg fun h => hislsb ((hd.isPrefixOf_keyLine hlsb hw).mp h)]
      by_cases hismsb : w.1 = name ++ "msb".toList
      · rw [if_pos ((hd.isPrefixOf_keyLine hmsb hw).mpr hismsb)]
        rw [← hismsb] at hh
        obtain ⟨hval, hh'⟩ := hh.here hnd
        rw [hismsb] at hh'
        dsimp only
        rw [extract_digits (hval.trans_le hb), hval]
        exact ih hws' hnd' (hl.next hislsb) hh'
      · rw [if_neg fun h => hismsb ((hd.isPrefixOf_keyLine hmsb hw).mp h)]
        exact ih hws' hnd' (hl.next hislsb) (hh.next hismsb)
    · rcases hl with ⟨rfl, -⟩ | ⟨rfl, -⟩
      · rcases hh with ⟨rfl, -⟩ | ⟨rfl, -⟩
        · simp only [readPair]
        · exact absurd (.inr rfl) hopen
      · exact absurd (.inl rfl) hopen

end Find

/-! ## All keys of a modem -/

/-- The file to which all keys of a modem were written. -/
def ModemType.keyFile (t : ModemType) (values : KeyClass → KeyValue) : Text :=
  createKeys t.keys values []

variable {t : ModemType} {values : KeyClass → KeyValue}

theorem lines_keyFile (t : ModemType) (values : KeyClass → KeyValue) : ∃ last,
    lines (t.keyFile values) = (allWords t.keys values).map keyLine ++ [last] := by
  have hfile : t.keyFile values =
      [] ++ ((allWords t.keys values).map keyLine).flatMap (· ++ ['\n']) :=
    createKeys_eq values []
  have hplain : ∀ l ∈ (allWords t.keys values).map keyLine,
      l ≠ [] ∧ ∀ c ∈ l, isSpace c = false := by
    intro l hl
    obtain ⟨w, hw, rfl⟩ := List.mem_map.mp hl
    have hname : w.1 ∈ t.keys.flatMap KeyClass.registers := by
      rw [← map_fst_allWords t.keys values]
      exact List.mem_map_of_mem hw
    refine ⟨by simp [keyLine], fun c hc => ?_⟩
    rcases List.mem_append.mp hc with hc | hc
    · exact (t.distinct.plain _ hname c hc).2
    · rcases List.mem_cons.mp hc with rfl | hc
      · decide
      · exact isSpace_of_isDigit (Hex.isDigit_of_mem_digits hc)
  have hlen : ((allWords t.keys values).map keyLine).length < (t.keyFile values).length + 1 := by
    rw [hfile]
    exact Nat.lt_succ_of_le (length_le_flatMap _)
  refine ⟨((allWords t.keys values).map keyLine).getLastD [], ?_⟩
  unfold lines
  rw [hfile] at hlen ⊢
  exact linesFrom_eq hlen (fun _ hc => absurd hc List.not_mem_nil) hplain

/-- Each key of the file is read as it was written. -/
theorem readFrom_keyFile (hrange : ∀ k ∈ t.keys, k.Range (values k)) (hk : k ∈ t.keys) :
    k.readFrom (some (t.keyFile values)) = .ok (values k) := by
  obtain ⟨last, hlines⟩ := lines_keyFile t values
  have hd := t.distinct
  have hmem : ∀ w ∈ k.words (values k), w ∈ allWords t.keys values :=
    fun w hw => List.mem_flatMap.mpr ⟨k, hk, hw⟩
  have hnames : ∀ w ∈ allWords t.keys values, w.1 ∈ t.keys.flatMap KeyClass.registers := by
    intro w hw
    rw [← map_fst_allWords t.keys values]
    exact List.mem_map_of_mem hw
  have hnd : ((allWords t.keys values).map Prod.fst).Nodup := by
    rw [map_fst_allWords]
    exact hd.nodup
  have hfits := hrange k hk
  -- a single word has no upper half
  have hsingle : ∀ l, l = (values k).l → (values k).h = 0 → KeyValue.mk l 0 = values k := by
    rintro l rfl hzero
    rw [← hzero]
  unfold KeyClass.readFrom
  cases htype : k.type with
  | uint16 =>
    simp only [KeyClass.Range, KeyClass.words, htype, List.mem_singleton] at hfits hmem
    dsimp only
    rw [hlines, hd.readWord_eq hnames hnd (hmem _ rfl) (Nat.le_of_lt_succ hfits.1)]
    exact congrArg Except.ok (hsingle _ rfl hfits.2)
  | uint32 =>
    simp only [KeyClass.Range, KeyClass.words, htype, List.mem_singleton] at hfits hmem
    dsimp only
    rw [hlines, hd.readWord_eq hnames hnd (hmem _ rfl) (Nat.le_of_lt_succ hfits.1)]
    exact congrArg Except.ok (hsingle _ rfl hfits.2)
  | pair =>
    simp only [KeyClass.Range, KeyClass.words, htype] at hfits hmem
    have hl := hmem _ (List.mem_cons_self ..)
    have hh := hmem _ (List.mem_cons_of_mem _ (List.mem_cons_self ..))
    dsimp only
    rw [hlines]
    exact hd.readPair_eq hnames hnd (hnames _ hl) (hnames _ hh) (.inr ⟨rfl, hl⟩) (.inr ⟨rfl, hh⟩)
      (Nat.le_of_lt_succ hfits.1) (Nat.le_of_lt_succ hfits.2)

/-- **From the key to its register**: for either modem and all values that its keys can hold, the
file gives every key its value, and installing the keys from it, through the files of the registers,
leaves every word in its register. -/
theorem installFiles_keyFile (t : ModemType) (values : KeyClass → KeyValue) (d : RegFiles)
    (hrange : ∀ k ∈ t.keys, k.Range (values k)) :
    (∀ k ∈ t.keys, k.readFrom (some (t.keyFile values)) = .ok (values k)) ∧
      (installFiles t.keys (some (t.keyFile values)) d).2 = none ∧
      ∀ k ∈ t.keys, ∀ w ∈ k.words (values k),
        (installFiles t.keys (some (t.keyFile values)) d).1.hw w.1 = w.2 := by
  have hread : ∀ k ∈ t.keys, k.readFrom (some (t.keyFile values)) = .ok (values k) :=
    fun k hk => readFrom_keyFile hrange hk
  have hfits : ∀ k ∈ t.keys, ∀ value, k.readFrom (some (t.keyFile values)) = .ok value →
      k.Range value := by
    intro k hk value hvalue
    rw [hread k hk] at hvalue
    cases hvalue
    exact hrange k hk
  obtain ⟨hhw, herr⟩ := installFiles_hw (d := d) hfits
  have hnone : (installKeys t.keys (some (t.keyFile values)) d.hw).2 = none :=
    installKeys_eq_none fun k hk => ⟨_, hread k hk⟩
  refine ⟨hread, herr.trans hnone, fun k hk w hw => ?_⟩
  obtain ⟨value, hvalue, hwords⟩ := holds_installKeys t.nodup_registers hnone k hk
  rw [hread k hk] at hvalue
  cases hvalue
  rw [hhw]
  exact hwords w hw

/-- The largest values. -/
def largest (k : KeyClass) : KeyValue :=
  match k.type with
  | .uint16 => ⟨0xFFFF, 0⟩
  | .uint32 => ⟨0xFFFFFFFF, 0⟩
  | .pair => ⟨0xFFFFFFFF, 0xFFFFFFFF⟩

theorem installFiles_keyFile_largest :
    let d := installFiles ModemType.rtkU.keys (some (ModemType.rtkU.keyFile largest))
      ⟨fun _ => 0, fun _ => 0⟩
    (∀ k ∈ ModemType.rtkU.keys,
        k.readFrom (some (ModemType.rtkU.keyFile largest)) = .ok (largest k)) ∧
      d.2 = none ∧
      ∀ k ∈ ModemType.rtkU.keys, ∀ w ∈ k.words (largest k), d.1.hw w.1 = w.2 :=
  installFiles_keyFile .rtkU largest _ (by decide +kernel)

end ModemFhss.KeySender
