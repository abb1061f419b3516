import ModemFhss.KeySender.RoundTrip

/-!
# What a key file has to look like

`ReadFrom` takes the digits behind a `:` somewhere in the line that starts with the key's name, cuts
a number that is too large down to the largest, and, for a pair, changes the key word by word before
it knows whether there are both. `readInto` is `ReadFrom` with the member `key` that it changes.

`ReadsExactly` is what a caller may expect of a file: the key is the number written in the first
token that starts with its name, the whole rest of it after the `:`, or it is what it was and there
is an exception. `WellWritten` says which files are read like that (`readsExactly_iff`).
-/

namespace ModemFhss.KeySender

open Numeral (isSpace)

/-- The two words of a pair, by the end of their names. -/
inductive Half where
  | lsb
  | msb
  deriving DecidableEq, Repr

def Half.ending : Half → Text
  | lsb => "lsb".toList
  | msb => "msb".toList

def Half.other : Half → Half
  | lsb => msb
  | msb => lsb

namespace KeyValue

/-- `key.words.L` or `key.words.H`. -/
def word (v : KeyValue) : Half → Nat
  | .lsb => v.l
  | .msb => v.h

def setWord (v : KeyValue) (half : Half) (n : Nat) : KeyValue :=
  match half with
  | .lsb => { v with l := n }
  | .msb => { v with h := n }

end KeyValue

/-! ## Reading into the key -/

/-- `Keygen<T>::ReadFrom`, over the lines: the key is set when the number is found. -/
def readWordInto (name : Text) (max : Nat) (lines : List Text) (key : KeyValue) :
    KeyValue × Option KeyGenError :=
  match readWord name max lines with
  | .ok n => ({ key with l := n }, none)
  | .error err => (key, some err)

/-- `Keygen<std::uint32_t[2]>::ReadFrom`, over the lines: a word is set when its line is met. -/
def readPairInto (name : Text) : KeyValue → Bool → Bool → List Text → KeyValue × Option KeyGenError
  | key, true, true, _ => (key, none)
  | key, _, _, [] => (key, some (.notFoundKey name))
  | key, isLSBFound, isMSBFound, line :: rest =>
    if (name ++ "lsb".toList).isPrefixOf line then
      match searchDigits line with
      | some digits =>
        readPairInto name { key with l := extract 0xFFFFFFFF digits } true isMSBFound rest
      | none => (key, some (.parseKey line))
    else if (name ++ "msb".toList).isPrefixOf line then
      match searchDigits line with
      | some digits =>
        readPairInto name { key with h := extract 0xFFFFFFFF digits } isLSBFound true rest
      | none => (key, some (.parseKey line))
    else
      readPairInto name key isLSBFound isMSBFound rest

namespace KeyClass

/-- `ReadFrom`: what becomes of the key, and the exception. -/
def readInto (k : KeyClass) (file : Option Text) (key : KeyValue) :
    KeyValue × Option KeyGenError :=
  match file with
  | none => (key, some .openFile)
  | some file =>
    match k.type with
    | .uint16 => readWordInto k.regname 0xFFFF (lines file) key
    | .uint32 => readWordInto k.regname 0xFFFFFFFF (lines file) key
    | .pair => readPairInto k.regname key false false (lines file)

end KeyClass

variable {name file line : Text} {max n : Nat} {k : KeyClass} {key value : KeyValue}
  {ls : List Text} {err : KeyGenError}

theorem readPairInto_cons {isLSBFound isMSBFound : Bool} {rest : List Text}
    (hopen : isLSBFound = false ∨ isMSBFound = false) :
    readPairInto name key isLSBFound isMSBFound (line :: rest) =
      if (name ++ "lsb".toList).isPrefixOf line then
        match searchDigits line with
        | some digits =>
          readPairInto name { key with l := extract 0xFFFFFFFF digits } true isMSBFound rest
        | none => (key, some (.parseKey line))
      else if (name ++ "msb".toList).isPrefixOf line then
        match searchDigits line with
        | some digits =>
          readPairInto name { key with h := extract 0xFFFFFFFF digits } isLSBFound true rest
        | none => (key, some (.parseKey line))
      else
        readPairInto name key isLSBFound isMSBFound rest := by
  rcases hopen with rfl | rfl
  · cases isMSBFound <;> rfl
  · cases isLSBFound <;> rfl

/-- `readPair` keeps the words apart until both are found. -/
theorem readPair_eq {l h : Option Nat} (hl : ∀ n ∈ l, key.l = n) (hh : ∀ n ∈ h, key.h = n) :
    readPair name l h ls =
      match readPairInto name key l.isSome h.isSome ls with
      | (value, none) => .ok value
      | (_, some err) => .error err := by
  have hboth : ∀ a b, l = some a → h = some b → key = ⟨a, b⟩ := by
    rintro a b rfl rfl
    obtain ⟨rfl, rfl⟩ : key.l = a ∧ key.h = b := ⟨hl a rfl, hh b rfl⟩
    rfl
  induction ls generalizing key l h with
  | nil =>
    cases l with
    | none => cases h <;> rfl
    | some a =>
      cases h with
      | none => rfl
      | some b =>
        obtain rfl := hboth a b rfl rfl
        rfl
  | cons line rest ih =>
    by_cases hopen : l = none ∨ h = none
    · have hflags : l.isSome = false ∨ h.isSome = false := by simpa using hopen
      rw [readPair_cons hopen, readPairInto_cons hflags]
      by_cases hlsb : (name ++ "lsb".toList).isPrefixOf line = true
      · rw [if_pos hlsb, if_pos hlsb]
        cases hdigits : searchDigits line with
        | none => rfl
        | some digits =>
          refine ih (by simp) hh ?_
          rintro a b ⟨⟩ rfl
          rw [← hh b rfl]
      · rw [if_neg hlsb, if_neg hlsb]
        by_cases hmsb : (name ++ "msb".toList).isPrefixOf line = true
        · rw [if_pos hmsb, if_pos hmsb]
          cases hdigits : searchDigits line with
          | none => rfl
          | some digits =>
            refine ih hl (by simp) ?_
            rintro a b rfl ⟨⟩
            rw [← hl a rfl]
        · rw [if_neg hmsb, if_neg hmsb]
          exact ih hl hh hboth
    · -- both words are known, and no line is looked at any more
      obtain ⟨hl', hh'⟩ := not_or.mp hopen
      obtain ⟨a, rfl⟩ := Option.ne_none_iff_exists'.mp hl'
      obtain ⟨b, rfl⟩ := Option.ne_none_iff_exists'.mp hh'
      obtain rfl := hboth a b rfl rfl
      rfl

/-- **`readInto` is `readFrom`**, with the key that is left. -/
theorem readFrom_eq (k : KeyClass) (file : Option Text) (hkey : k.Range key) :
    k.readFrom file =
      match k.readInto file key with
      | (value, none) => .ok value
      | (_, some err) => .error err := by
  have hword (max : Nat) (ls : List Text) (hzero : key.h = 0) :
      ((readWord k.regname max ls).map fun n => (⟨n, 0⟩ : KeyValue)) =
        match readWordInto k.regname max ls key with
        | (value, none) => .ok value
        | (_, some err) => .error err := by
    unfold readWordInto
    cases readWord k.regname max ls with
    | error err => rfl
    | ok n => simp [Except.map, hzero]
  cases file with
  | none => rfl
  | some file =>
    unfold KeyClass.Range at hkey
    unfold KeyClass.readFrom KeyClass.readInto
    cases htype : k.type with
    | uint16 =>
      simp only [htype] at hkey
      exact hword _ _ hkey.2
    | uint32 =>
      simp only [htype] at hkey
      exact hword _ _ hkey.2
    | pair => exact readPair_eq (by simp) (by simp)

/-! ## The tokens of a file -/

/-- What stands between the spaces. -/
def tokens (file : Text) : List Text := (file.splitOnP isSpace).filter (· ≠ [])

theorem tokens_cons_space {c : Char} (hc : isSpace c = true) :
    tokens (c :: file) = tokens file := by
  simp [tokens, List.splitOnP_cons_eq_if_modifyHead, hc]

theorem tokens_dropWhile (file : Text) : tokens (file.dropWhile isSpace) = tokens file := by
  induction file with
  | nil => rfl
  | cons c cs ih =>
    by_cases hc : isSpace c = true
    · rw [List.dropWhile_cons_of_pos hc, ih, tokens_cons_space hc]
    · rw [List.dropWhile_cons_of_neg hc]

/-- A word up to the next space, and what is left. -/
theorem tokens_word (hfile : file ≠ []) (hhead : ∀ c ∈ file.head?, isSpace c = false) :
    tokens file = (file.takeWhile fun c => ! isSpace c) ::
      tokens (file.dropWhile fun c => ! isSpace c) := by
  have hword : ∀ c ∈ file.takeWhile (fun c => ! isSpace c), isSpace c = false := by
    intro c hc
    simpa using List.mem_takeWhile_imp hc
  have hne : file.takeWhile (fun c => ! isSpace c) ≠ [] := by
    obtain ⟨c, cs, rfl⟩ := List.exists_cons_of_ne_nil hfile
    simp [hhead c rfl]
  have hsplit := List.takeWhile_append_dropWhile (p := fun c => ! isSpace c) (l := file)
  cases hleft : file.dropWhile fun c => ! isSpace c with
  | nil =>
    rw [hleft, List.append_nil] at hsplit
    rw [hsplit] at hword hne ⊢
    simp [tokens, List.splitOnP_eq_singleton hword, hne]
  | cons c cs =>
    have hc : isSpace c = true := by
      have hstop := List.head?_dropWhile_not (fun c => ! isSpace c) file
      simpa [hleft] using hstop
    conv_lhs => rw [← hsplit, hleft]
    rw [tokens, List.splitOnP_append_cons_of_forall_mem hword c hc, tokens_cons_space hc]
    simp [tokens, hne]

/-- The lines are the tokens; at the end of the file the last one may be met once more. -/
theorem linesFrom_tokens {fuel : Nat} (hfuel : file.length < fuel) (line : Text) :
    linesFrom fuel file line = tokens file ∨
      linesFrom fuel file line = tokens file ++ [(tokens file).getLastD line] := by
  induction fuel generalizing file line with
  | zero => exact absurd hfuel (Nat.not_lt_zero _)
  | succ fuel ih =>
    have hlen := List.length_dropWhile_le isSpace file
    rw [← tokens_dropWhile file]
    unfold linesFrom
    dsimp only
    split
    · next hnone =>
      right
      rw [hnone]
      rfl
    · next hsome =>
      have hhead : ∀ c ∈ (file.dropWhile isSpace).head?, isSpace c = false := by
        intro c hc
        have hstop := List.head?_dropWhile_not isSpace file
        simpa [Option.mem_def.mp hc] using hstop
      rw [tokens_word hsome hhead]
      set left := (file.dropWhile isSpace).dropWhile fun c => ! isSpace c with hleft
      set word := (file.dropWhile isSpace).takeWhile fun c => ! isSpace c with hword
      split
      · next hend =>
        left
        rw [hend]
        rfl
      · have hshorter : left.length < fuel := by
          have hsum := List.takeWhile_append_dropWhile (p := fun c => ! isSpace c)
            (l := file.dropWhile isSpace)
          have hpos : 0 < word.length := by
            obtain ⟨c, cs, hcons⟩ := List.exists_cons_of_ne_nil hsome
            have hc := hhead c (by rw [hcons]; rfl)
            simp [hword, hcons, hc]
          have hlength : word.length + left.length = (file.dropWhile isSpace).length := by
            rw [← List.length_append, hsum]
          omega
        rcases ih hshorter word with h | h
        · exact .inl (by rw [h])
        · exact .inr (by rw [h, List.getLastD_cons, List.cons_append])

theorem lines_tokens (file : Text) :
    lines file = tokens file ∨ lines file = tokens file ++ [(tokens file).getLastD []] :=
  linesFrom_tokens (Nat.lt_succ_self _) []

/-! ## What a token says -/

/-- A `:` with a digit behind it. -/
def HasDigits (token : Text) : Prop :=
  ∃ before c after, token = before ++ ':' :: c :: after ∧ Hex.isDigit c = true

/-- What `ReadFrom` takes a token for. -/
def taken (max : Nat) (token : Text) : Option Nat := (searchDigits token).map (extract max)

/-- What follows the first `:`, if that is a number of the type, from its first character to its
last. -/
def numberOf (max : Nat) (token : Text) : Option Nat :=
  let digits := (token.dropWhile (· ≠ ':')).tail
  if digits ≠ [] ∧ digits.all Hex.isDigit = true ∧ Hex.value digits ≤ max then
    some (Hex.value digits)
  else
    none

theorem searchDigits_isSome {token : Text} :
    (searchDigits token).isSome = true ↔ HasDigits token := by
  induction token with
  | nil =>
    constructor
    · intro h
      cases h
    · rintro ⟨before, c, after, h, -⟩
      cases before <;> cases h
  | cons d ds ih =>
    unfold searchDigits
    split
    · next hhere =>
      obtain ⟨rfl, hne⟩ := hhere
      refine ⟨fun _ => ?_, fun _ => rfl⟩
      cases ds with
      | nil => exact absurd rfl hne
      | cons c cs =>
        refine ⟨[], c, cs, rfl, ?_⟩
        by_contra hc
        exact hne (List.takeWhile_cons_of_neg hc)
    · next hhere =>
      rw [ih]
      constructor
      · rintro ⟨before, c, after, rfl, hc⟩
        exact ⟨d :: before, c, after, rfl, hc⟩
      · rintro ⟨before, c, after, h, hc⟩
        cases before with
        | nil =>
          obtain ⟨rfl, rfl⟩ := List.cons.inj h
          exact absurd ⟨rfl, by simp [hc]⟩ hhere
        | cons _ before =>
          obtain ⟨rfl, rfl⟩ := List.cons.inj h
          exact ⟨before, c, after, rfl, hc⟩

instance (token : Text) : Decidable (HasDigits token) :=
  decidable_of_iff _ searchDigits_isSome

theorem taken_of_not_hasDigits (h : ¬ HasDigits line) : taken max line = none := by
  rw [← searchDigits_isSome, Bool.not_eq_true, Option.isSome_eq_false_iff,
    Option.isNone_iff_eq_none] at h
  rw [taken, h]
  rfl

theorem exists_taken (max : Nat) (h : HasDigits line) : ∃ n, taken max line = some n := by
  obtain ⟨digits, hdigits⟩ := Option.isSome_iff_exists.mp (searchDigits_isSome.mpr h)
  exact ⟨extract max digits, by rw [taken, hdigits]; rfl⟩

/-- A number is taken for what it is. -/
theorem taken_of_numberOf (h : numberOf max line = some n) : taken max line = some n := by
  unfold numberOf at h
  dsimp only at h
  split at h
  · next hnumber =>
    obtain ⟨hne, hdigits, hmax⟩ := hnumber
    cases h
    suffices hsearch : searchDigits line = some (line.dropWhile (· ≠ ':')).tail by
      rw [taken, hsearch, Option.map_some, extract, Nat.min_eq_right hmax]
    clear hmax
    induction line with
    | nil => exact absurd rfl hne
    | cons c cs ih =>
      unfold searchDigits
      by_cases hc : c = ':'
      · rw [List.dropWhile_cons_of_neg (by simpa using hc), List.tail_cons] at hne hdigits ⊢
        have hall : cs.takeWhile Hex.isDigit = cs :=
          List.takeWhile_eq_self_iff.mpr (List.all_eq_true.mp hdigits)
        rw [hall, if_pos ⟨hc, hne⟩]
      · rw [List.dropWhile_cons_of_pos (by simpa using hc)] at hne hdigits ⊢
        rw [if_neg fun h => hc h.1]
        exact ih hne hdigits
  · cases h

/-! ## Exact reading -/

/-- The largest value of the type, or of one of the two words. -/
def KeyType.limit : KeyType → Nat
  | .uint16 => 0xFFFF
  | .uint32 => 0xFFFFFFFF
  | .pair => 0xFFFFFFFF

/-- The first token that starts with a name. -/
def first (name file : Text) : Option Text := (tokens file).find? (name.isPrefixOf ·)

/-- The key is what the file says. -/
def KeyClass.Written (k : KeyClass) (file : Text) (value : KeyValue) : Prop :=
  ∀ w ∈ k.words value, ∃ token ∈ first w.1 file, numberOf k.type.limit token = some w.2

/-- The key that is left is what the file says, or the one that was there and an exception. -/
def KeyClass.ReadsExactly (k : KeyClass) (file : Text) : Prop :=
  ∀ key, k.Range key →
    match k.readInto (some file) key with
    | (value, none) => k.Written file value
    | (value, some _) => value = key

/-- The half of a pair whose name a line starts with. -/
def halfOf (name line : Text) : Option Half :=
  if (name ++ "lsb".toList).isPrefixOf line then some .lsb
  else if (name ++ "msb".toList).isPrefixOf line then some .msb
  else none

/-- The lines of a pair. -/
def parts (name : Text) (ls : List Text) : List (Half × Text) :=
  ls.filterMap fun line => (halfOf name line).map (·, line)

/-- After a line of one half: the other half follows, and with it its number; before it, the first
half's line may be repeated if the last time it says `n` again. -/
def Completes (half : Half) (n : Nat) (rest : List (Half × Text)) : Prop :=
  (∃ next ∈ rest.find? (·.1 ≠ half), (numberOf 0xFFFFFFFF next.2).isSome) ∧
    let again := rest.takeWhile (·.1 = half)
    (∀ u ∈ again, HasDigits u.2) ∧
      (again.map fun u => taken 0xFFFFFFFF u.2).getLastD (some n) = some n

/-- The files that are read exactly. The first line of the key has no digits, and there is an
exception before the key is touched, or it is a number; for a pair, all that is read after the first
line has to be right as well. -/
def KeyClass.WellWritten (k : KeyClass) (file : Text) : Prop :=
  match k.type with
  | .uint16 | .uint32 =>
    ∀ token ∈ first k.regname file,
      HasDigits token → (numberOf k.type.limit token).isSome
  | .pair =>
    match parts k.regname (tokens file) with
    | [] => True
    | (half, token) :: rest =>
      HasDigits token → ∃ n ∈ numberOf 0xFFFFFFFF token, Completes half n rest

instance (half : Half) (n : Nat) (rest : List (Half × Text)) :
    Decidable (Completes half n rest) := by
  unfold Completes
  infer_instance

instance (k : KeyClass) (file : Text) : Decidable (k.WellWritten file) := by
  unfold KeyClass.WellWritten
  split <;> try infer_instance
  split <;> infer_instance

/-! ## A single word -/

theorem readWord_eq_ok (hfind : ls.find? (name.isPrefixOf ·) = some line)
    (htaken : taken max line = some n) : readWord name max ls = .ok n := by
  induction ls with
  | nil => cases hfind
  | cons l rest ih =>
    unfold readWord
    by_cases hname : name.isPrefixOf l = true
    · rw [List.find?_cons_of_pos hname] at hfind
      obtain rfl := Option.some.inj hfind
      obtain ⟨digits, hdigits, rfl⟩ := Option.map_eq_some_iff.mp htaken
      rw [if_pos hname, hdigits]
    · rw [List.find?_cons_of_neg hname] at hfind
      rw [if_neg hname]
      exact ih hfind

theorem readWord_eq_error (max : Nat)
    (hfind : ∀ line ∈ ls.find? (name.isPrefixOf ·), ¬ HasDigits line) :
    ∃ err, readWord name max ls = .error err := by
  induction ls with
  | nil => exact ⟨_, rfl⟩
  | cons l rest ih =>
    unfold readWord
    by_cases hname : name.isPrefixOf l = true
    · rw [List.find?_cons_of_pos hname] at hfind
      have hnone : searchDigits l = none := by
        simpa [← searchDigits_isSome] using hfind l rfl
      rw [if_pos hname, hnone]
      exact ⟨_, rfl⟩
    · rw [List.find?_cons_of_neg hname] at hfind
      rw [if_neg hname]
      exact ih hfind

/-- What is met once more at the end of the file does not change what is found. -/
theorem find_lines_of_hasDigits (hdigits : HasDigits line) :
    (lines file).find? (name.isPrefixOf ·) = some line ↔ first name file = some line := by
  unfold first
  rcases lines_tokens file with h | h
  · rw [h]
  · rw [h, List.find?_append]
    cases hfirst : (tokens file).find? (name.isPrefixOf ·) with
    | some token => rfl
    | none =>
      refine iff_of_false ?_ nofun
      intro hlast
      rw [Option.none_or] at hlast
      have hname := List.find?_some hlast
      obtain rfl := List.mem_singleton.mp (List.mem_of_find?_eq_some hlast)
      cases htokens : tokens file with
      | nil =>
        rw [htokens] at hdigits
        exact absurd hdigits (by decide)
      | cons t ts =>
        have hmem : (tokens file).getLastD [] ∈ tokens file := by
          rw [htokens, List.getLastD_cons]
          exact List.getLastD_mem_cons
        exact List.find?_eq_none.mp hfirst _ hmem hname

theorem readsExactly_word (hword : k.type ≠ .pair) : k.ReadsExactly file ↔
    ∀ token ∈ first k.regname file, HasDigits token → (numberOf k.type.limit token).isSome := by
  have hread (key : KeyValue) : k.readInto (some file) key =
      readWordInto k.regname k.type.limit (lines file) key := by
    unfold KeyClass.readInto
    cases htype : k.type with
    | uint16 => rfl
    | uint32 => rfl
    | pair => exact absurd htype hword
  have hwords (value : KeyValue) : k.words value = [(k.regname, value.l)] := by
    unfold KeyClass.words
    cases htype : k.type with
    | uint16 => rfl
    | uint32 => rfl
    | pair => exact absurd htype hword
  have hzero : k.Range ⟨0, 0⟩ := by
    unfold KeyClass.Range
    cases k.type <;> decide
  by_cases hfirst : ∃ token, first k.regname file = some token ∧ HasDigits token
  · obtain ⟨token, hfirst, hdigits⟩ := hfirst
    obtain ⟨n, hn⟩ := exists_taken k.type.limit hdigits
    have hok := readWord_eq_ok ((find_lines_of_hasDigits hdigits).mpr hfirst) hn
    have hwritten (key : KeyValue) : k.Written file { key with l := n } ↔
        numberOf k.type.limit token = some n := by
      unfold KeyClass.Written
      rw [hwords, List.forall_mem_singleton, hfirst]
      simp
    constructor
    · intro h t ht _
      have h0 := h ⟨0, 0⟩ hzero
      rw [hread, readWordInto, hok] at h0
      obtain rfl := Option.some.inj (hfirst.symm.trans ht)
      exact Option.isSome_iff_exists.mpr ⟨n, (hwritten _).mp h0⟩
    · intro h key _
      rw [hread, readWordInto, hok]
      obtain ⟨m, hm⟩ := Option.isSome_iff_exists.mp (h token hfirst hdigits)
      obtain rfl := Option.some.inj ((taken_of_numberOf hm).symm.trans hn)
      exact (hwritten key).mpr hm
  · -- there is an exception before the key is touched
    push Not at hfirst
    have hfind : ∀ line ∈ (lines file).find? (k.regname.isPrefixOf ·), ¬ HasDigits line := by
      intro line hline hdigits
      exact hfirst line ((find_lines_of_hasDigits hdigits).mp hline) hdigits
    obtain ⟨err, herr⟩ := readWord_eq_error k.type.limit hfind
    apply iff_of_true
    · intro key _
      rw [hread, readWordInto, herr]
    · intro t ht hdigits
      exact absurd hdigits (hfirst t ht)

/-! ## A pair -/

variable {half : Half} {ps extra : List (Half × Text)}

namespace KeyValue

theorem word_setWord (v : KeyValue) (half : Half) (n : Nat) : (v.setWord half n).word half = n := by
  cases half <;> rfl

theorem setWord_setWord (v : KeyValue) (half : Half) (m n : Nat) :
    (v.setWord half m).setWord half n = v.setWord half n := by
  cases half <;> rfl

theorem eq_iff_words (half : Half) {u v : KeyValue} :
    u = v ↔ u.word half.other = v.word half.other ∧ u.word half = v.word half := by
  obtain ⟨a, b⟩ := u
  obtain ⟨c, d⟩ := v
  cases half <;> simp [word, Half.other, and_comm]

theorem word_setWord_other (v : KeyValue) (half : Half) (n : Nat) :
    (v.setWord half.other n).word half = v.word half := by
  cases half <;> rfl

end KeyValue

theorem Half.eq_other_iff {half half' : Half} : half' = half.other ↔ half' ≠ half := by
  cases half <;> cases half' <;> decide

/-- `readPairInto` over the lines of the pair, with the half that has been found. -/
def readParts (name : Text) :
    KeyValue → Option Half → List (Half × Text) → KeyValue × Option KeyGenError
  | key, _, [] => (key, some (.notFoundKey name))
  | key, found, (half, line) :: rest =>
    match taken 0xFFFFFFFF line with
    | none => (key, some (.parseKey line))
    | some n =>
      if found = some half.other then (key.setWord half n, none)
      else readParts name (key.setWord half n) (some half) rest

theorem parts_cons_none (h : halfOf name line = none) : parts name (line :: ls) = parts name ls :=
  List.filterMap_cons_none (by rw [h]; rfl)

theorem parts_cons_some (h : halfOf name line = some half) :
    parts name (line :: ls) = (half, line) :: parts name ls :=
  List.filterMap_cons_some (by rw [h]; rfl)

theorem readPairInto_found (isLSBFound isMSBFound : Bool) (hl : isLSBFound = true)
    (hm : isMSBFound = true) : readPairInto name key isLSBFound isMSBFound ls = (key, none) := by
  subst hl hm
  cases ls <;> rfl

theorem readPairInto_eq (key : KeyValue) (found : Option Half) :
    readPairInto name key (found = some .lsb) (found = some .msb) ls =
      readParts name key found (parts name ls) := by
  induction ls generalizing key found with
  | nil =>
    cases found with
    | none => rfl
    | some half => cases half <;> rfl
  | cons line rest ih =>
    have hopen : decide (found = some .lsb) = false ∨ decide (found = some .msb) = false := by
      cases found with
      | none => exact .inl rfl
      | some half => cases half <;> decide
    rw [readPairInto_cons hopen]
    by_cases hlsb : (name ++ "lsb".toList).isPrefixOf line = true
    · have hhalf : halfOf name line = some .lsb := if_pos hlsb
      rw [if_pos hlsb, parts_cons_some hhalf]
      unfold readParts taken
      cases searchDigits line with
      | none => rfl
      | some digits =>
        cases found with
        | none => exact ih _ (some .lsb)
        | some half =>
          cases half with
          | lsb => exact ih _ (some .lsb)
          | msb => exact readPairInto_found _ _ rfl (decide_eq_true rfl)
    rw [if_neg hlsb]
    by_cases hmsb : (name ++ "msb".toList).isPrefixOf line = true
    · have hhalf : halfOf name line = some .msb := (if_neg hlsb).trans (if_pos hmsb)
      rw [if_pos hmsb, parts_cons_some hhalf]
      unfold readParts taken
      cases searchDigits line with
      | none => rfl
      | some digits =>
        cases found with
        | none => exact ih _ (some .msb)
        | some half =>
          cases half with
          | lsb => exact readPairInto_found _ _ (decide_eq_true rfl) rfl
          | msb => exact ih _ (some .msb)
    · have hhalf : halfOf name line = none := (if_neg hlsb).trans (if_neg hmsb)
      rw [if_neg hmsb, parts_cons_none hhalf]
      exact ih key found

/-- **When both halves are found**: the other half's first line has digits, and so has each line
that repeats the first half before it; the last of these counts. -/
theorem readParts_eq_none : readParts name key (some half) ps = (value, none) ↔
    (∃ next ∈ ps.find? (·.1 ≠ half), taken 0xFFFFFFFF next.2 = some (value.word half.other)) ∧
      let again := ps.takeWhile (·.1 = half)
      (∀ u ∈ again, HasDigits u.2) ∧
        (again.map fun u => taken 0xFFFFFFFF u.2).getLastD (some (key.word half)) =
          some (value.word half) := by
  induction ps generalizing key with
  | nil => simp [readParts]
  | cons p ps ih =>
    obtain ⟨half', line⟩ := p
    unfold readParts
    by_cases hhalf : half' = half
    · -- the same half again takes the place of what was read
      subst hhalf
      have hfirst : some half' ≠ some half'.other := by cases half' <;> decide
      rw [List.find?_cons_of_neg (by simp), List.takeWhile_cons_of_pos (by simp)]
      cases htaken : taken 0xFFFFFFFF line with
      | none =>
        refine iff_of_false nofun ?_
        intro h
        obtain ⟨n, hn⟩ := exists_taken 0xFFFFFFFF (h.2.1 _ List.mem_cons_self)
        rw [htaken] at hn
        cases hn
      | some n =>
        have hdigits : HasDigits line := by
          by_contra hnot
          rw [taken_of_not_hasDigits hnot] at htaken
          cases htaken
        dsimp only
        rw [if_neg hfirst, ih, KeyValue.word_setWord, List.map_cons, List.getLastD_cons, htaken]
        simp [hdigits]
    · -- the other half is the end
      obtain rfl := Half.eq_other_iff.mpr hhalf
      rw [List.find?_cons_of_pos (by simpa using hhalf),
        List.takeWhile_cons_of_neg (by simpa using hhalf)]
      cases htaken : taken 0xFFFFFFFF line with
      | none => simp [htaken]
      | some n =>
        have hsecond : some half = some half.other.other := by cases half <;> rfl
        dsimp only
        rw [if_pos hsecond, Prod.mk.injEq, KeyValue.eq_iff_words half, KeyValue.word_setWord,
          KeyValue.word_setWord_other]
        simp [htaken]

/-- A line does not start with both names. -/
theorem halfOf_eq_some : halfOf name line = some half ↔
    (name ++ half.ending).isPrefixOf line = true := by
  have hboth : ¬ ((name ++ "lsb".toList).isPrefixOf line = true ∧
      (name ++ "msb".toList).isPrefixOf line = true) := by
    rintro ⟨hlsb, hmsb⟩
    rw [List.isPrefixOf_iff_prefix] at hlsb hmsb
    have hsame := List.prefix_of_prefix_length_le hlsb hmsb (by simp)
    rw [List.prefix_append_right_inj] at hsame
    exact absurd hsame (by decide)
  unfold halfOf
  by_cases hlsb : (name ++ "lsb".toList).isPrefixOf line = true
  · rw [if_pos hlsb]
    cases half with
    | lsb => exact iff_of_true rfl hlsb
    | msb =>
      apply iff_of_false nofun
      intro hmsb
      exact hboth ⟨hlsb, hmsb⟩
  · rw [if_neg hlsb]
    cases half with
    | lsb =>
      refine iff_of_false ?_ hlsb
      intro h
      split at h <;> cases h
    | msb => simp [Half.ending]

/-- The first line of a half. -/
theorem find_parts (name : Text) (half : Half) (ls : List Text) :
    ls.find? ((name ++ half.ending).isPrefixOf ·) =
      ((parts name ls).find? (·.1 = half)).map Prod.snd := by
  induction ls with
  | nil => rfl
  | cons line rest ih =>
    by_cases hline : (name ++ half.ending).isPrefixOf line = true
    · rw [List.find?_cons_of_pos hline, parts_cons_some (halfOf_eq_some.mpr hline),
        List.find?_cons_of_pos (by simp)]
      rfl
    · rw [List.find?_cons_of_neg hline, ih]
      cases hhalf : halfOf name line with
      | none => rw [parts_cons_none hhalf]
      | some half' =>
        have hother : half' ≠ half := by
          rintro rfl
          exact hline (halfOf_eq_some.mp hhalf)
        rw [parts_cons_some hhalf, List.find?_cons_of_neg (by simpa using hother)]

/-- What is met once more at the end of the file has been met before. -/
theorem parts_lines (name file : Text) : ∃ extra,
    parts name (lines file) = parts name (tokens file) ++ extra ∧
      ∀ u ∈ extra, u ∈ parts name (tokens file) := by
  rcases lines_tokens file with h | h
  · exact ⟨[], by rw [h, List.append_nil], fun _ hu => absurd hu List.not_mem_nil⟩
  · refine ⟨parts name [(tokens file).getLastD []], ?_, ?_⟩
    · rw [h]
      exact List.filterMap_append
    · intro u hu
      obtain ⟨line, hline, hu⟩ := List.mem_filterMap.mp hu
      obtain ⟨half, hhalf, rfl⟩ := Option.map_eq_some_iff.mp hu
      refine List.mem_filterMap.mpr ⟨line, ?_, hu⟩
      obtain rfl := List.mem_singleton.mp hline
      cases htokens : tokens file with
      | nil =>
        rw [htokens, List.getLastD_nil, halfOf_eq_some] at hhalf
        cases half <;> simp [Half.ending] at hhalf
      | cons t ts =>
        rw [List.getLastD_cons]
        exact List.getLastD_mem_cons

theorem find_append (hextra : ∀ u ∈ extra, u.1 ≠ half → ∃ w ∈ ps, w.1 ≠ half) :
    (ps ++ extra).find? (·.1 ≠ half) = ps.find? (·.1 ≠ half) := by
  rw [List.find?_append]
  cases hfind : ps.find? (·.1 ≠ half) with
  | some next => rfl
  | none =>
    rw [Option.none_or, List.find?_eq_none]
    intro u hu hother
    obtain ⟨w, hw, hne⟩ := hextra u hu (by simpa using hother)
    exact List.find?_eq_none.mp hfind w hw (by simpa using hne)

theorem takeWhile_append_of_find {next : Half × Text} (hfind : next ∈ ps.find? (·.1 ≠ half)) :
    (ps ++ extra).takeWhile (·.1 = half) = ps.takeWhile (·.1 = half) := by
  induction ps with
  | nil => cases hfind
  | cons p ps ih =>
    by_cases hp : p.1 = half
    · rw [List.find?_cons_of_neg (by simpa using hp)] at hfind
      rw [List.cons_append, List.takeWhile_cons_of_pos (by simpa using hp),
        List.takeWhile_cons_of_pos (by simpa using hp), ih hfind]
    · rw [List.cons_append, List.takeWhile_cons_of_neg (by simpa using hp),
        List.takeWhile_cons_of_neg (by simpa using hp)]

/-- The lines of a pair say the words. -/
def Spells (ps : List (Half × Text)) (value : KeyValue) : Prop :=
  ∀ half : Half, ∃ u ∈ ps.find? (·.1 = half), numberOf 0xFFFFFFFF u.2 = some (value.word half)

theorem written_pair (htype : k.type = .pair) :
    k.Written file value ↔ Spells (parts k.regname (tokens file)) value := by
  have hhalf (half : Half) :
      (∃ token ∈ first (k.regname ++ half.ending) file,
        numberOf 0xFFFFFFFF token = some (value.word half)) ↔
      ∃ u ∈ (parts k.regname (tokens file)).find? (·.1 = half),
        numberOf 0xFFFFFFFF u.2 = some (value.word half) := by
    unfold first
    rw [find_parts]
    cases (parts k.regname (tokens file)).find? (·.1 = half) <;> simp
  unfold KeyClass.Written KeyClass.words
  simp only [htype, KeyType.limit, List.forall_mem_cons]
  constructor
  · rintro ⟨hl, hm, -⟩ half
    cases half with
    | lsb => exact (hhalf .lsb).mp hl
    | msb => exact (hhalf .msb).mp hm
  · intro h
    exact ⟨(hhalf .lsb).mpr (h .lsb), (hhalf .msb).mpr (h .msb),
      fun _ hw => absurd hw List.not_mem_nil⟩

/-- The first line says one word, and the first line of the other half the other. -/
theorem spells_cons {token : Text} : Spells ((half, token) :: ps) value ↔
    numberOf 0xFFFFFFFF token = some (value.word half) ∧
      ∃ next ∈ ps.find? (·.1 ≠ half),
        numberOf 0xFFFFFFFF next.2 = some (value.word half.other) := by
  have hsame : ((half, token) :: ps).find? (·.1 = half) = some (half, token) :=
    List.find?_cons_of_pos (by simp)
  have hother : ((half, token) :: ps).find? (·.1 = half.other) = ps.find? (·.1 ≠ half) := by
    simp only [Half.eq_other_iff]
    exact List.find?_cons_of_neg (by simp)
  constructor
  · intro h
    obtain ⟨u, hu, hnumber⟩ := h half
    obtain rfl := Option.some.inj (hsame.symm.trans hu)
    obtain ⟨next, hnext, hnumber'⟩ := h half.other
    exact ⟨hnumber, next, hother.symm.trans hnext, hnumber'⟩
  · rintro ⟨hnumber, next, hnext, hnumber'⟩ half'
    by_cases hhalf : half' = half
    · subst hhalf
      exact ⟨_, hsame, hnumber⟩
    · obtain rfl := Half.eq_other_iff.mpr hhalf
      exact ⟨next, hother.trans hnext, hnumber'⟩

theorem readParts_first {token : Text} (htaken : taken 0xFFFFFFFF token = some n) :
    readParts name key none ((half, token) :: ps) =
      readParts name (key.setWord half n) (some half) ps := by
  conv_lhs => unfold readParts
  rw [htaken]
  exact if_neg (by simp)

theorem readParts_append (hextra : ∀ u ∈ extra, u.1 ≠ half → ∃ w ∈ ps, w.1 ≠ half) :
    readParts name key (some half) (ps ++ extra) = (value, none) ↔
      readParts name key (some half) ps = (value, none) := by
  rw [readParts_eq_none, readParts_eq_none, find_append hextra]
  refine and_congr_right ?_
  rintro ⟨next, hnext, -⟩
  rw [takeWhile_append_of_find hnext]

/-- What was read to the end and says the words of the key is well written after its first line. -/
theorem completes_of_spells {token : Text} (htaken : taken 0xFFFFFFFF token = some n)
    (hread : readParts name (key.setWord half n) (some half) ps = (value, none))
    (hspells : Spells ((half, token) :: ps) value) :
    ∃ n ∈ numberOf 0xFFFFFFFF token, Completes half n ps := by
  rw [readParts_eq_none, KeyValue.word_setWord] at hread
  obtain ⟨-, hagain, hlast⟩ := hread
  obtain ⟨hnumber, next, hnext, hnumber'⟩ := spells_cons.mp hspells
  have hword := Option.some.inj (htaken.symm.trans (taken_of_numberOf hnumber))
  rw [← hword] at hnumber hlast
  exact ⟨n, hnumber, ⟨next, hnext, by rw [hnumber']; rfl⟩, hagain, hlast⟩

/-- What is well written is read to the end, and says the words of the key. -/
theorem exists_spells_of_completes {token : Text} (hnumber : numberOf 0xFFFFFFFF token = some n)
    (hcompletes : Completes half n ps) (name : Text) (key : KeyValue) :
    ∃ value, readParts name (key.setWord half n) (some half) ps = (value, none) ∧
      Spells ((half, token) :: ps) value := by
  obtain ⟨⟨next, hnext, hsome⟩, hagain, hlast⟩ := hcompletes
  obtain ⟨m, hm⟩ := Option.isSome_iff_exists.mp hsome
  refine ⟨(key.setWord half n).setWord half.other m, ?_, ?_⟩
  · rw [readParts_eq_none, KeyValue.word_setWord, KeyValue.word_setWord,
      KeyValue.word_setWord_other, KeyValue.word_setWord]
    exact ⟨⟨next, hnext, taken_of_numberOf hm⟩, hagain, hlast⟩
  · rw [spells_cons, KeyValue.word_setWord_other, KeyValue.word_setWord, KeyValue.word_setWord]
    exact ⟨hnumber, next, hnext, hm⟩

/-- What the half was is gone after its first line, so an exception is one too late. -/
theorem completes_of_exact {token : Text} (htaken : taken 0xFFFFFFFF token = some n)
    (hextra : ∀ u ∈ extra, u.1 ≠ half → ∃ w ∈ ps, w.1 ≠ half)
    (h : ∀ key : KeyValue, key.l < 2 ^ 32 ∧ key.h < 2 ^ 32 →
      match readParts name key none (((half, token) :: ps) ++ extra) with
      | (value, none) => Spells ((half, token) :: ps) value
      | (value, some _) => value = key) :
    ∃ n ∈ numberOf 0xFFFFFFFF token, Completes half n ps := by
  -- two keys that differ in that half
  have h0 := h ⟨0, 0⟩ (by decide)
  have h1 := h (KeyValue.setWord ⟨0, 0⟩ half 1) (by cases half <;> decide)
  rw [List.cons_append, readParts_first htaken] at h0 h1
  rw [KeyValue.setWord_setWord] at h1
  generalize hout : readParts name (KeyValue.setWord ⟨0, 0⟩ half n) (some half) (ps ++ extra) =
    out at h0 h1
  obtain ⟨value, err⟩ := out
  cases err with
  | some err =>
    dsimp only at h0 h1
    rw [h0] at h1
    cases half <;> cases h1
  | none => exact completes_of_spells htaken ((readParts_append hextra).mp hout) h0

theorem exact_of_completes {token : Text} (htaken : taken 0xFFFFFFFF token = some n)
    (hextra : ∀ u ∈ extra, u.1 ≠ half → ∃ w ∈ ps, w.1 ≠ half)
    (h : ∃ n ∈ numberOf 0xFFFFFFFF token, Completes half n ps) (name : Text) (key : KeyValue) :
    match readParts name key none (((half, token) :: ps) ++ extra) with
    | (value, none) => Spells ((half, token) :: ps) value
    | (value, some _) => value = key := by
  obtain ⟨n', hnumber, hcompletes⟩ := h
  obtain rfl := Option.some.inj (htaken.symm.trans (taken_of_numberOf hnumber))
  obtain ⟨value, hout, hspells⟩ := exists_spells_of_completes hnumber hcompletes name key
  rw [List.cons_append, readParts_first htaken, (readParts_append hextra).mpr hout]
  exact hspells

theorem readsExactly_pair (htype : k.type = .pair) : k.ReadsExactly file ↔
    match parts k.regname (tokens file) with
    | [] => True
    | (half, token) :: rest =>
      HasDigits token → ∃ n ∈ numberOf 0xFFFFFFFF token, Completes half n rest := by
  obtain ⟨extra, hparts, hextra⟩ := parts_lines k.regname file
  have hread (key : KeyValue) : k.readInto (some file) key =
      readParts k.regname key none (parts k.regname (tokens file) ++ extra) := by
    unfold KeyClass.readInto
    rw [← hparts, ← readPairInto_eq]
    simp only [htype]
    rfl
  have hwritten (value : KeyValue) : k.Written file value ↔
      Spells (parts k.regname (tokens file)) value := written_pair htype
  have hrange (v : KeyValue) : k.Range v ↔ v.l < 2 ^ 32 ∧ v.h < 2 ^ 32 := by
    unfold KeyClass.Range
    simp only [htype]
  unfold KeyClass.ReadsExactly
  simp only [hread, hwritten, hrange]
  cases hfirst : parts k.regname (tokens file) with
  | nil =>
    rw [hfirst] at hextra
    obtain rfl := List.eq_nil_iff_forall_not_mem.mpr fun u hu => List.not_mem_nil (hextra u hu)
    exact iff_of_true (fun key _ => rfl) trivial
  | cons p rest =>
    obtain ⟨half, token⟩ := p
    dsimp only
    by_cases hdigits : HasDigits token
    · obtain ⟨n, hn⟩ := exists_taken 0xFFFFFFFF hdigits
      have hlater : ∀ u ∈ extra, u.1 ≠ half → ∃ w ∈ rest, w.1 ≠ half := by
        intro u hu hother
        have hmem := hextra u hu
        rw [hfirst, List.mem_cons] at hmem
        rcases hmem with rfl | hmem
        · exact absurd rfl hother
        · exact ⟨u, hmem, hother⟩
      constructor
      · intro h _
        exact completes_of_exact hn hlater h
      · intro h key _
        exact exact_of_completes hn hlater (h hdigits) k.regname key
    · -- there is an exception before the key is touched
      apply iff_of_true
      · intro key _
        rw [List.cons_append, readParts, taken_of_not_hasDigits hdigits]
      · intro h
        exact absurd h hdigits

/-- **Which files are read exactly.** -/
theorem readsExactly_iff (k : KeyClass) (file : Text) :
    k.ReadsExactly file ↔ k.WellWritten file := by
  have hsingle (hword : k.type ≠ .pair) : k.ReadsExactly file ↔
      ∀ token ∈ first k.regname file,
        HasDigits token → (numberOf k.type.limit token).isSome := readsExactly_word hword
  unfold KeyClass.WellWritten
  cases htype : k.type with
  | uint16 =>
    rw [htype] at hsingle
    exact hsingle (by decide)
  | uint32 =>
    rw [htype] at hsingle
    exact hsingle (by decide)
  | pair => exact readsExactly_pair htype

/-- A number that is too large for 16 bits is cut down without a word, and where the second half of
a pair is missing, the first has been changed before the exception. -/
theorem not_readsExactly : ¬ sapKey.ReadsExactly "sap/key_sap:12345\n".toList ∧
    ¬ ciKey.ReadsExactly "ci/key_lsb:1\n".toList := by
  have htoolarge : ¬ sapKey.WellWritten "sap/key_sap:12345\n".toList := by decide +kernel
  have hhalf : ¬ ciKey.WellWritten "ci/key_lsb:1\n".toList := by decide +kernel
  constructor
  · intro h
    exact htoolarge ((readsExactly_word (by decide)).mp h)
  · intro h
    exact hhalf ((readsExactly_pair (by decide)).mp h)

end ModemFhss.KeySender
