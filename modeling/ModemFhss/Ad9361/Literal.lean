import ModemFhss.Ad9361.Config
import ModemFhss.Ad9361.TapFormat

/-!
# What a field gets of a number

The values of `config.yaml` are decimal numbers, or hexadecimal ones with `0x`, and may have a
suffix as in C. A field reads either only one of the two or, with base 16, takes the digits of the
other for its own. What is beyond a `long` becomes the greatest `long`.
-/

namespace ModemFhss.Ad9361

open Numeral
open Registers (Text)

/-! ## Numbers in the file -/

/-- The suffixes of C: `U`, `L`, and so on. -/
def isSuffix (c : Char) : Bool := c = 'u' || c = 'U' || c = 'l' || c = 'L'

/-- A number without its sign: its base and what it stands for. -/
def literalNat (text : Text) : Option (Nat × Nat) :=
  let (base, text) :=
    match hexPrefix text with
    | some text => (16, text)
    | none => (10, text)
  if text.takeWhile (isDigit base) ≠ [] ∧ (text.dropWhile (isDigit base)).all isSuffix = true then
    some (base, value base (text.takeWhile (isDigit base)))
  else
    none

/-- The base that a number is written in, and the number. -/
def literal? (tk : String) : Option (Nat × Int) :=
  (literalNat (readSign tk.toList).2).map fun (base, n) =>
    (base, signed (readSign tk.toList).1 n)

/-- The number of a value. -/
def number? (tk : String) : Option Int := (literal? tk).map Prod.snd

example : number? "40000000UL" = some 40000000 ∧ number? "0x28" = some 40 ∧
    number? "-12" = some (-12) ∧ number? "MAX_SYNTH_FREF" = none := by decide +kernel

/-- A field gets a number as it stands: it is written in the field's base and is a `long`, or it is
the same in both bases. Decimal fields read a hexadecimal number as 0. -/
def ReadsRight (c : Conversion) (base : Nat) (n : Int) : Prop :=
  if base = c.base then n < 2 ^ (c.bits - 1)
  else if c.base = 10 then n = 0
  else -10 < n ∧ n < 10

instance (c : Conversion) (base : Nat) (n : Int) : Decidable (ReadsRight c base n) := by
  unfold ReadsRight
  infer_instance

/-! ## Reading it -/

variable {text : Text} {c : Char} {base n : Nat} {tk : String} {m : Int} {conv : Conversion}

/-- The parts of a number without its sign. -/
structure IsLiteral (base : Nat) (text digits suffix : Text) : Prop where
  text_eq : base = 10 ∧ text = digits ++ suffix ∨
    base = 16 ∧ hexPrefix text = some (digits ++ suffix)
  ne_nil : digits ≠ []
  isDigit : ∀ c ∈ digits, Numeral.isDigit base c = true
  isSuffix : ∀ c ∈ suffix, Ad9361.isSuffix c = true

theorem literalNat_eq_some (h : literalNat text = some (base, n)) :
    ∃ digits suffix, IsLiteral base text digits suffix ∧ n = value base digits := by
  have hparts (base' : Nat) (text' : Text)
      (htext : base' = 10 ∧ text = text' ∨ base' = 16 ∧ hexPrefix text = some text')
      (h : (if text'.takeWhile (isDigit base') ≠ [] ∧
          (text'.dropWhile (isDigit base')).all isSuffix = true then
        some (base', value base' (text'.takeWhile (isDigit base'))) else none) = some (base, n)) :
      ∃ digits suffix, IsLiteral base text digits suffix ∧ n = value base digits := by
    split at h
    · next hall =>
      cases h
      refine ⟨_, text'.dropWhile (isDigit base), ⟨?_, hall.1, ?_, List.all_eq_true.mp hall.2⟩, rfl⟩
      · rwa [List.takeWhile_append_dropWhile]
      · intro c hc
        exact List.mem_takeWhile_imp hc
    · cases h
  unfold literalNat at h
  cases hhex : hexPrefix text with
  | none =>
    rw [hhex] at h
    exact hparts 10 text (.inl ⟨rfl, rfl⟩) h
  | some rest =>
    rw [hhex] at h
    exact hparts 16 rest (.inr ⟨rfl, hhex⟩) h

theorem not_isDigit_of_isSuffix (h : isSuffix c = true) : isDigit 16 c = false := by
  simp only [isSuffix, Bool.or_eq_true, decide_eq_true_eq] at h
  rcases h with ((rfl | rfl) | rfl) | rfl <;> decide

namespace IsLiteral

variable {digits suffix : Text}

theorem stops (h : IsLiteral base text digits suffix) :
    ∀ c ∈ suffix.head?, Numeral.isDigit 16 c = false := by
  intro c hc
  exact not_isDigit_of_isSuffix (h.isSuffix c (List.mem_of_mem_head? hc))

theorem stops_ten (h : IsLiteral base text digits suffix) :
    ∀ c ∈ suffix.head?, Numeral.isDigit 10 c = false := by
  intro c hc
  exact not_isDigit_of_le (by decide) (h.stops c hc)

theorem head (h : IsLiteral base text digits suffix) :
    ∃ c ∈ text.head?, Numeral.isDigit 36 c = true := by
  rcases h.text_eq with ⟨rfl, rfl⟩ | ⟨-, hhex⟩
  · obtain ⟨c, digits, rfl⟩ := List.exists_cons_of_ne_nil h.ne_nil
    exact ⟨c, rfl, isDigit_of_le (by decide) (h.isDigit c List.mem_cons_self)⟩
  · rcases hexPrefix_eq_some hhex with rfl | rfl
    · exact ⟨'0', rfl, by decide⟩
    · exact ⟨'0', rfl, by decide⟩

/-- A decimal number read as one. -/
theorem readNat_ten (h : IsLiteral 10 text digits suffix) :
    readNat 10 text = some (value 10 digits, suffix) := by
  obtain ⟨-, rfl⟩ := h.text_eq.resolve_right (by simp)
  rw [Numeral.readNat_ten]
  exact readDigits_append h.ne_nil h.isDigit h.stops_ten

/-- A hexadecimal number read as one. -/
theorem readNat_sixteen (h : IsLiteral 16 text digits suffix) :
    readNat 16 text = some (value 16 digits, suffix) := by
  obtain ⟨-, hhex⟩ := h.text_eq.resolve_left (by simp)
  obtain ⟨htake, hdrop⟩ := Pattern.takeWhile_dropWhile_append h.isDigit h.stops
  rw [readNat_of_hexPrefix hhex (.inr rfl), htake, hdrop]

/-- Of a hexadecimal number a decimal field reads the first zero. -/
theorem readNat_ten_sixteen (h : IsLiteral 16 text digits suffix) :
    ∃ rest, readNat 10 text = some (0, rest) := by
  obtain ⟨-, hhex⟩ := h.text_eq.resolve_left (by simp)
  rw [Numeral.readNat_ten]
  rcases hexPrefix_eq_some hhex with rfl | rfl
  · exact ⟨_, rfl⟩
  · exact ⟨_, rfl⟩

/-- The digits of a decimal number are hexadecimal ones too. -/
theorem readNat_sixteen_ten (h : IsLiteral 10 text digits suffix) :
    readNat 16 text = some (value 16 digits, suffix) := by
  obtain ⟨-, rfl⟩ := h.text_eq.resolve_right (by simp)
  have hplain : ∀ c ∈ digits ++ suffix, c ≠ 'x' ∧ c ≠ 'X' := by
    intro c hc
    rcases List.mem_append.mp hc with hdigit | hsuffix
    · have hdigit := h.isDigit c hdigit
      exact ⟨ne_of_isDigit hdigit (by decide), ne_of_isDigit hdigit (by decide)⟩
    · have hsuffix := h.isSuffix c hsuffix
      constructor
      · rintro rfl
        exact absurd hsuffix (by decide)
      · rintro rfl
        exact absurd hsuffix (by decide)
  -- so the `0x` that base 16 would skip is not there
  have hhex : hexPrefix (digits ++ suffix) = none := by
    cases hcase : hexPrefix (digits ++ suffix) with
    | none => rfl
    | some rest =>
      rcases hexPrefix_eq_some hcase with heq | heq
      · exact absurd rfl (hplain 'x' (by simp [heq])).1
      · exact absurd rfl (hplain 'X' (by simp [heq])).2
  rw [readNat_of_not_hexPrefix hhex (by decide)]
  exact readDigits_append h.ne_nil (fun c hc => isDigit_of_le (by decide) (h.isDigit c hc)) h.stops

end IsLiteral

/-! ## What a field gets -/

/-- A number is read as its digits, from its sign on. -/
theorem number_eq {digits suffix rest : Text}
    (h : IsLiteral base (readSign tk.toList).2 digits suffix)
    (hread : readNat conv.base (readSign tk.toList).2 = some (n, rest)) :
    conv.number tk = conv.clamp (signed (readSign tk.toList).1 n) := by
  obtain ⟨sign, htk, hsign, hminus⟩ := readSign_eq tk.toList
  have hnumber : Numeral.read isSpace conv.base tk.toList =
      some (signed (readSign tk.toList).1 n, rest) := by
    have happend : Numeral.read isSpace conv.base (sign ++ (readSign tk.toList).2) = _ :=
      read_append hsign h.head fun _ => not_isDigit_of_isSpace
    rw [← htk, hread, ← hminus] at happend
    exact happend
  unfold Conversion.number
  rw [hnumber]

/-- What a number is and what is read of it, in either base. -/
theorem number_of_literal (conv : Conversion) (h : literal? tk = some (base, m)) : ∃ negative n,
    m = signed negative n ∧ (base = 10 ∨ base = 16) ∧
      (conv.base = base → conv.number tk = conv.clamp m) ∧
      (conv.base = 10 → base = 16 → conv.number tk = conv.clamp 0) ∧
      (conv.base = 16 → base = 10 → n < 1000 → conv.number tk =
        conv.clamp (signed negative (256 * (n / 100) + 16 * (n / 10 % 10) + n % 10))) := by
  unfold literal? at h
  obtain ⟨⟨base', n⟩, hnat, hpair⟩ := Option.map_eq_some_iff.mp h
  cases hpair
  obtain ⟨digits, suffix, hlit, rfl⟩ := literalNat_eq_some hnat
  refine ⟨_, _, rfl, ?_, ?_, ?_, ?_⟩
  · rcases hlit.text_eq with ⟨rfl, -⟩ | ⟨rfl, -⟩
    · exact .inl rfl
    · exact .inr rfl
  · intro hbase
    rcases hlit.text_eq with ⟨rfl, -⟩ | ⟨rfl, -⟩
    · exact number_eq hlit (by rw [hbase, hlit.readNat_ten])
    · exact number_eq hlit (by rw [hbase, hlit.readNat_sixteen])
  · rintro hbase rfl
    obtain ⟨rest, hread⟩ := hlit.readNat_ten_sixteen
    rw [number_eq hlit (by rw [hbase, hread])]
    cases (readSign tk.toList).1 <;> rfl
  · rintro hbase rfl hlt
    rw [← value_sixteen hlit.isDigit hlt]
    exact number_eq hlit (by rw [hbase, hlit.readNat_sixteen_ten])

/-- The types and the assignments of the fields. -/
def kinds : List (CType × Conversion) :=
  [(.uint8, strtol .uint8 10), (.uint16, strtol .uint16 10), (.uint32, strtol .uint32 10),
    (.int32, strtol .int32 10), (.int32, strtol .uint32 10), (.uint64, strtoll .uint64 10),
    (.uint8, strtol .uint8 16), (.int8, strtol .int8 16)]

theorem mem_kinds (f : Field) : (f.info.type, f.info.conversion) ∈ kinds := by
  have hall : ∀ info ∈ fields, (info.type, info.conversion) ∈ kinds := by decide +kernel
  exact hall _ (List.get_mem _ _)

/-- A number of a field's type gets there if it is a `long`. -/
theorem wrap_clamp_eq_iff {t : CType} (hkind : (t, conv) ∈ kinds) (hfits : t.Holds m) :
    t.wrap (conv.cast.wrap (conv.clamp m)) = m ↔ m < 2 ^ (conv.bits - 1) := by
  obtain ⟨hmin, hmax⟩ := hfits
  simp only [kinds, strtol, strtoll, List.mem_cons, List.not_mem_nil, or_false,
    Prod.mk.injEq] at hkind
  -- only the unsigned types of 32 and 64 bits have numbers that are no `long`
  rcases hkind with h | h | h | h | h | h | h | h
  all_goals
    obtain ⟨rfl, rfl⟩ := h
    simp only [CType.min, CType.max] at hmin hmax
    simp only [CType.wrap, CType.min, CType.max, Conversion.clamp, Int.reducePow, Int.reduceNeg,
      Int.reduceSub, Int.reduceAdd, Nat.reduceSub]
    omega

/-- Only bytes are read in base 16. -/
theorem eq_of_base_eq_sixteen {t : CType} (hkind : (t, conv) ∈ kinds) (hbase : conv.base = 16) :
    t = .uint8 ∧ conv = strtol .uint8 16 ∨ t = .int8 ∧ conv = strtol .int8 16 := by
  have hall : ∀ kind ∈ kinds, kind.2.base = 16 →
      kind.1 = .uint8 ∧ kind.2 = strtol .uint8 16 ∨ kind.1 = .int8 ∧ kind.2 = strtol .int8 16 := by
    decide
  exact hall _ hkind hbase

theorem base_of_mem_kinds {t : CType} (hkind : (t, conv) ∈ kinds) :
    conv.base = 10 ∨ conv.base = 16 := by
  have hall : ∀ kind ∈ kinds, kind.2.base = 10 ∨ kind.2.base = 16 := by decide
  exact hall _ hkind

theorem lt_of_base_eq_sixteen {t : CType} {negative : Bool} (hkind : (t, conv) ∈ kinds)
    (hbase : conv.base = 16) (hfits : t.Holds (signed negative n)) : n < 1000 := by
  obtain ⟨hmin, hmax⟩ := hfits
  rcases eq_of_base_eq_sixteen hkind hbase with ⟨rfl, -⟩ | ⟨rfl, -⟩
  all_goals
    simp only [CType.min, CType.max] at hmin hmax
    cases negative <;>
      simp only [signed, if_true, if_false, Bool.false_eq_true] at hmin hmax <;> omega

/-- The digits of a decimal number make another hexadecimal one, but for a single digit. -/
theorem wrap_digits_eq_iff {t : CType} {negative : Bool} (hkind : (t, conv) ∈ kinds)
    (hbase : conv.base = 16) (hm : m = signed negative n) (hfits : t.Holds m) :
    t.wrap (conv.cast.wrap (conv.clamp
      (signed negative (256 * (n / 100) + 16 * (n / 10 % 10) + n % 10)))) = m ↔
      -10 < m ∧ m < 10 := by
  obtain ⟨hmin, hmax⟩ := hfits
  rcases eq_of_base_eq_sixteen hkind hbase with ⟨rfl, rfl⟩ | ⟨rfl, rfl⟩
  all_goals
    simp only [CType.min, CType.max] at hmin hmax
    simp only [CType.wrap, CType.min, CType.max, Conversion.clamp, strtol, Int.reducePow,
      Int.reduceNeg, Int.reduceSub, Int.reduceAdd, Nat.reduceSub]
    cases negative <;> simp only [signed, if_true, if_false, Bool.false_eq_true] at hm ⊢ <;> omega

/-- What a field gets of a number of its type. -/
theorem wrap_number_eq_iff {t : CType} (hkind : (t, conv) ∈ kinds)
    (h : literal? tk = some (base, m)) (hfits : t.Holds m) :
    t.wrap (conv.cast.wrap (conv.number tk)) = m ↔ ReadsRight conv base m := by
  obtain ⟨negative, n, hm, hbase, hsame, hzero, hdigits⟩ := number_of_literal conv h
  unfold ReadsRight
  split
  · next heq =>
    rw [hsame heq.symm]
    exact wrap_clamp_eq_iff hkind hfits
  · next hne =>
    rcases base_of_mem_kinds hkind with hconv | hconv
    · -- a decimal field reads the zero before the `x`
      have hholds : t.Holds 0 := by cases t <;> decide
      rw [if_pos hconv, hzero hconv (by omega),
        (wrap_clamp_eq_iff hkind hholds).mpr (Int.pow_pos (by decide))]
      exact eq_comm
    · -- a hexadecimal field takes the decimal digits for its own
      have hlt : n < 1000 := lt_of_base_eq_sixteen hkind hconv (hm ▸ hfits)
      rw [if_neg (by omega), hdigits hconv (by omega) hlt]
      exact wrap_digits_eq_iff hkind hconv hm hfits

end ModemFhss.Ad9361
