import Mathlib.Data.List.Induction
import ModemFhss.Library.Pattern

/-!
# Numbers at the beginning of a text

`strtol` and the integer conversions of `scanf` read alike: blanks, a sign, and as many digits as
there are. In base 16 the digits may follow `0x`. Base 0 leaves the base to the number: 16 after
`0x`, 8 after another `0`, else 10.
-/

namespace Numeral

/-- `isspace` in the `C` locale. -/
def isSpace (c : Char) : Bool :=
  c = ' ' || c = '\t' || c = '\n' || c = '\x0b' || c = '\x0c' || c = '\r'

/-- What a character counts as a digit, 36 if it is none. -/
def digit (c : Char) : Nat :=
  if '0' ≤ c ∧ c ≤ '9' then c.toNat - '0'.toNat
  else if 'a' ≤ c ∧ c ≤ 'z' then c.toNat - 'a'.toNat + 10
  else if 'A' ≤ c ∧ c ≤ 'Z' then c.toNat - 'A'.toNat + 10
  else 36

def isDigit (base : Nat) (c : Char) : Bool := digit c < base

/-- The number that digits stand for, the first the most significant. -/
def value (base : Nat) (digits : List Char) : Nat :=
  digits.foldl (fun n c => base * n + digit c) 0

def signed (negative : Bool) (n : Nat) : Int := if negative then -n else n

/-- What follows the prefix of a hexadecimal number. -/
def hexPrefix : List Char → Option (List Char)
  | '0' :: 'x' :: text => some text
  | '0' :: 'X' :: text => some text
  | _ => none

/-- The digits at the beginning of a text, and what is left. -/
def readDigits (base : Nat) (text : List Char) : Option (Nat × List Char) :=
  if text.takeWhile (isDigit base) = [] then none
  else some (value base (text.takeWhile (isDigit base)), text.dropWhile (isDigit base))

/-- A number without its sign. After `0x` there need not be any digits. -/
def readNat (base : Nat) (text : List Char) : Option (Nat × List Char) :=
  match hexPrefix text with
  | some rest =>
    if base = 0 ∨ base = 16 then
      some (value 16 (rest.takeWhile (isDigit 16)), rest.dropWhile (isDigit 16))
    else
      readDigits base text
  | none =>
    if base = 0 then
      readDigits (if text.head? = some '0' then 8 else 10) text
    else
      readDigits base text

def readSign : List Char → Bool × List Char
  | '-' :: text => (true, text)
  | '+' :: text => (false, text)
  | text => (false, text)

/-- A number at the beginning of a text, and what is left. -/
def read (blank : Char → Bool) (base : Nat) (text : List Char) : Option (Int × List Char) :=
  let (negative, text) := readSign (text.dropWhile blank)
  (readNat base text).map fun (n, rest) => (signed negative n, rest)

/-- A text that begins, after blanks, with a number without a prefix. -/
structure Begins (blank : Char → Bool) (base : Nat) (text blanks sign digits rest : List Char) :
    Prop where
  text_eq : text = blanks ++ (sign ++ (digits ++ rest))
  blanks : ∀ c ∈ blanks, blank c = true
  sign : sign = [] ∨ sign = ['-'] ∨ sign = ['+']
  digits_ne_nil : digits ≠ []
  digits : ∀ c ∈ digits, isDigit base c = true
  rest : ∀ c ∈ rest.head?, isDigit base c = false

variable {base b b' n : Nat} {c d : Char} {digits text rest sign blanks : List Char}
  {blank : Char → Bool}

/-! ## Digits -/

theorem ne_of_isDigit (h : isDigit base c = true) (hd : isDigit base d = false) : c ≠ d := by
  rintro rfl
  rw [h] at hd
  cases hd

theorem isDigit_of_le (hle : b ≤ b') (h : isDigit b c = true) : isDigit b' c = true := by
  unfold isDigit at h ⊢
  have hlt := of_decide_eq_true h
  exact decide_eq_true (by omega)

theorem not_isDigit_of_isSpace (h : isSpace c = true) :
    isDigit 36 c = false ∧ c ≠ '-' ∧ c ≠ '+' := by
  simp only [isSpace, Bool.or_eq_true, decide_eq_true_eq] at h
  rcases h with ((((rfl | rfl) | rfl) | rfl) | rfl) | rfl <;> decide

theorem not_isDigit_of_le (hle : b ≤ b') (h : isDigit b' c = false) : isDigit b c = false := by
  rw [Bool.eq_false_iff] at h ⊢
  intro hdigit
  exact h (isDigit_of_le hle hdigit)

theorem isDigit_ten_iff : isDigit 10 c = true ↔ '0' ≤ c ∧ c ≤ '9' := by
  rw [isDigit, decide_eq_true_eq, digit]
  split
  · next h =>
    have hle : c.toNat ≤ 57 := h.2
    exact iff_of_true (show c.toNat - 48 < 10 by omega) h
  · next h =>
    refine iff_of_false ?_ h
    split
    · omega
    · split <;> omega

theorem isDigit_ten (c : Char) : isDigit 10 c = c.isDigit := by
  rw [Bool.eq_iff_iff, isDigit_ten_iff]
  simp [Char.isDigit, Char.le_def]

theorem value_ten (h : ∀ c ∈ digits, isDigit 10 c = true) :
    value 10 digits = Nat.ofDigitChars 10 digits 0 := by
  have hdigit : ∀ c ∈ digits, ∀ n, 10 * n + digit c = 10 * n + (c.toNat - '0'.toNat) := by
    intro c hc n
    rw [digit, if_pos (isDigit_ten_iff.mp (h c hc))]
  exact List.foldl_ext _ _ 0 fun n c hc => hdigit c hc n

theorem value_concat : value base (digits ++ [c]) = base * value base digits + digit c := by
  simp [value]

theorem value_dropLast_le (h : 1 ≤ b) : value b digits.dropLast ≤ value b digits := by
  rcases List.eq_nil_or_concat digits with rfl | ⟨digits, c, rfl⟩
  · exact Nat.le_refl _
  · rw [List.concat_eq_append, List.dropLast_concat, value_concat]
    exact Nat.le_add_right_of_le (Nat.le_mul_of_pos_left _ h)

/-- Without its last digit a number is another one, but for zero. -/
theorem value_dropLast_eq_iff (h : 2 ≤ b) :
    value b digits.dropLast = value b digits ↔ value b digits = 0 := by
  rcases List.eq_nil_or_concat digits with rfl | ⟨digits, c, rfl⟩
  · exact iff_of_true rfl rfl
  · rw [List.concat_eq_append, List.dropLast_concat, value_concat]
    have hmul := Nat.mul_le_mul_right (value b digits) h
    omega

/-- Three decimal digits, taken for hexadecimal ones. -/
theorem value_sixteen (hdigits : ∀ c ∈ digits, isDigit 10 c = true) (h : value 10 digits < 1000) :
    value 16 digits = 256 * (value 10 digits / 100) + 16 * (value 10 digits / 10 % 10) +
      value 10 digits % 10 := by
  induction digits using List.reverseRecOn with
  | nil => rfl
  | append_singleton digits c ih =>
    have hinit : ∀ c ∈ digits, isDigit 10 c = true := by
      intro c hc
      exact hdigits c (List.mem_append_left _ hc)
    have hlast : digit c < 10 := by simpa [isDigit] using hdigits c (by simp)
    rw [value_concat] at h
    have hvalue := ih hinit (by omega)
    rw [value_concat, value_concat, hvalue]
    omega

/-! ## Reading -/

theorem readDigits_append (hne : digits ≠ []) (hdigits : ∀ c ∈ digits, isDigit base c = true)
    (hrest : ∀ c ∈ rest.head?, isDigit base c = false) :
    readDigits base (digits ++ rest) = some (value base digits, rest) := by
  obtain ⟨htake, hdrop⟩ := Pattern.takeWhile_dropWhile_append hdigits hrest
  rw [readDigits, htake, hdrop, if_neg hne]

/-- In the other bases there is no prefix. -/
theorem readNat_of_ne (h0 : base ≠ 0) (h16 : base ≠ 16) (text : List Char) :
    readNat base text = readDigits base text := by
  unfold readNat
  cases hexPrefix text with
  | none => exact if_neg h0
  | some rest => exact if_neg fun h => h.elim h0 h16

theorem readNat_ten (text : List Char) : readNat 10 text = readDigits 10 text :=
  readNat_of_ne (by decide) (by decide) text

theorem readNat_of_hexPrefix (h : hexPrefix text = some rest) (hbase : base = 0 ∨ base = 16) :
    readNat base text =
      some (value 16 (rest.takeWhile (isDigit 16)), rest.dropWhile (isDigit 16)) := by
  rw [readNat, h]
  exact if_pos hbase

theorem readNat_of_not_hexPrefix (h : hexPrefix text = none) (hbase : base ≠ 0) :
    readNat base text = readDigits base text := by
  rw [readNat, h]
  exact if_neg hbase

/-- A number without a base that does not begin with 0 is a decimal one. -/
theorem readNat_auto (h : text.head? ≠ some '0') : readNat 0 text = readDigits 10 text := by
  have hprefix : hexPrefix text = none := by
    unfold hexPrefix
    split
    · exact absurd rfl h
    · exact absurd rfl h
    · rfl
  rw [readNat, hprefix]
  simp [h]

/-- The zero that begins a number without a base is one, if nothing of a number follows. -/
theorem readNat_auto_zero (h : ∀ c ∈ text.head?, c ≠ 'x' ∧ c ≠ 'X' ∧ isDigit 8 c = false) :
    readNat 0 ('0' :: text) = some (0, text) := by
  have hprefix : hexPrefix ('0' :: text) = none := by
    unfold hexPrefix
    split
    · next heq =>
      cases heq
      exact absurd rfl (h 'x' rfl).1
    · next heq =>
      cases heq
      exact absurd rfl (h 'X' rfl).2.1
    · rfl
  have hdigits : readDigits 8 (['0'] ++ text) = some (value 8 ['0'], text) := by
    apply readDigits_append (by simp)
    · intro c hc
      rw [List.mem_singleton.mp hc]
      rfl
    · intro c hc
      exact (h c hc).2.2
  rw [readNat, hprefix]
  exact hdigits

theorem readSign_append (hsign : sign = [] ∨ sign = ['-'] ∨ sign = ['+'])
    (htext : ∀ c ∈ text.head?, c ≠ '-' ∧ c ≠ '+') :
    readSign (sign ++ text) = (decide (sign = ['-']), text) := by
  rcases hsign with rfl | rfl | rfl
  · cases text with
    | nil => rfl
    | cons c text =>
      obtain ⟨hminus, hplus⟩ := htext c rfl
      simp [readSign, hminus, hplus]
  · rfl
  · rfl

/-- A text is its sign, if it has one, and the rest. -/
theorem readSign_eq (text : List Char) : ∃ sign, text = sign ++ (readSign text).2 ∧
    (sign = [] ∨ sign = ['-'] ∨ sign = ['+']) ∧ (readSign text).1 = decide (sign = ['-']) := by
  unfold readSign
  split
  · exact ⟨['-'], rfl, .inr (.inl rfl), rfl⟩
  · exact ⟨['+'], rfl, .inr (.inr rfl), rfl⟩
  · exact ⟨[], rfl, .inl rfl, rfl⟩

theorem hexPrefix_eq_some (h : hexPrefix text = some rest) :
    text = '0' :: 'x' :: rest ∨ text = '0' :: 'X' :: rest := by
  unfold hexPrefix at h
  split at h
  · cases h
    exact .inl rfl
  · cases h
    exact .inr rfl
  · cases h

theorem not_isDigit_sign : isDigit 36 '-' = false ∧ isDigit 36 '+' = false := by decide

/-- **A number after a sign.** -/
theorem read_append (hsign : sign = [] ∨ sign = ['-'] ∨ sign = ['+'])
    (htext : ∃ c ∈ text.head?, isDigit 36 c = true)
    (hblank : ∀ c, blank c = true → isDigit 36 c = false ∧ c ≠ '-' ∧ c ≠ '+') :
    read blank base (sign ++ text) =
      (readNat base text).map fun (n, rest) => (signed (sign = ['-']) n, rest) := by
  obtain ⟨c, hc, hdigit⟩ := htext
  have hplain : ∀ d ∈ (sign ++ text).head?, blank d = false := by
    intro d hd
    rw [Bool.eq_false_iff]
    intro hspace
    obtain ⟨hnot, hminus, hplus⟩ := hblank d hspace
    rcases hsign with rfl | rfl | rfl
    · cases hc.symm.trans hd
      exact ne_of_isDigit hdigit hnot rfl
    · exact hminus (Option.some.inj hd).symm
    · exact hplus (Option.some.inj hd).symm
  have hdrop : ([] ++ (sign ++ text)).dropWhile blank = sign ++ text :=
    (Pattern.takeWhile_dropWhile_append nofun hplain).2
  rw [List.nil_append] at hdrop
  unfold read
  rw [hdrop, readSign_append hsign]
  intro d hd
  cases hc.symm.trans hd
  exact ⟨ne_of_isDigit hdigit not_isDigit_sign.1, ne_of_isDigit hdigit not_isDigit_sign.2⟩

theorem readDigits_eq_some (h : readDigits base text = some (n, rest)) :
    ∃ digits, text = digits ++ rest ∧ digits ≠ [] ∧ (∀ c ∈ digits, isDigit base c = true) ∧
      (∀ c ∈ rest.head?, isDigit base c = false) ∧ n = value base digits := by
  unfold readDigits at h
  split at h
  · cases h
  · next hne =>
    obtain ⟨rfl, rfl⟩ := Prod.mk.inj (Option.some.inj h)
    refine ⟨_, List.takeWhile_append_dropWhile.symm, hne, ?_, ?_, rfl⟩
    · intro c hc
      exact List.mem_takeWhile_imp hc
    · intro c hc
      have hstop := List.head?_dropWhile_not (isDigit base) text
      rw [hc] at hstop
      exact hstop

theorem Begins.read_eq (h : Begins blank base text blanks sign digits rest) (h0 : base ≠ 0)
    (hlt : base < 16)
    (hblank : ∀ c, blank c = true → isDigit 36 c = false ∧ c ≠ '-' ∧ c ≠ '+') :
    read blank base text = some (signed (sign = ['-']) (value base digits), rest) := by
  have hskip : read blank base (blanks ++ (sign ++ (digits ++ rest))) =
      read blank base (sign ++ (digits ++ rest)) := by
    unfold read
    rw [List.dropWhile_append_of_pos h.blanks]
  have hhead : ∃ c ∈ (digits ++ rest).head?, isDigit 36 c = true := by
    obtain ⟨c, digits', hdigits⟩ := List.exists_cons_of_ne_nil h.digits_ne_nil
    refine ⟨c, by rw [hdigits]; rfl, ?_⟩
    exact isDigit_of_le (by omega) (h.digits c (hdigits ▸ List.mem_cons_self))
  rw [h.text_eq, hskip, read_append h.sign hhead hblank, readNat_of_ne h0 (by omega),
    readDigits_append h.digits_ne_nil h.digits h.rest]
  rfl

/-- **What is read** in a base below that of the prefix: a number at the beginning of the text,
after blanks. -/
theorem read_eq_some_iff (h0 : base ≠ 0) (hlt : base < 16)
    (hblank : ∀ c, blank c = true → isDigit 36 c = false ∧ c ≠ '-' ∧ c ≠ '+') {i : Int} :
    read blank base text = some (i, rest) ↔ ∃ blanks sign digits,
      Begins blank base text blanks sign digits rest ∧
        i = signed (sign = ['-']) (value base digits) := by
  constructor
  · intro h
    unfold read at h
    dsimp only at h
    rw [readNat_of_ne h0 (by omega)] at h
    obtain ⟨⟨n, rest'⟩, hread, heq⟩ := Option.map_eq_some_iff.mp h
    obtain ⟨rfl, rfl⟩ := Prod.mk.inj heq
    obtain ⟨sign, htext, hsign, hnegative⟩ := readSign_eq (text.dropWhile blank)
    obtain ⟨digits, happend, hne, hdigits, hrest, rfl⟩ := readDigits_eq_some hread
    refine ⟨text.takeWhile blank, sign, digits, ⟨?_, ?_, hsign, hne, hdigits, hrest⟩, ?_⟩
    · rw [← happend, ← htext, List.takeWhile_append_dropWhile]
    · intro c hc
      exact List.mem_takeWhile_imp hc
    · rw [hnegative]
  · rintro ⟨blanks, sign, digits, h, rfl⟩
    exact h.read_eq h0 hlt hblank

end Numeral
