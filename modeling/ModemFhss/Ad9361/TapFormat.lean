import Mathlib.Data.List.DropRight
import ModemFhss.Ad9361.Taps

/-!
# The line of a tap

The format of the filter wizard, `<int16>,<int16>`, and what `sscanf` reads of such a line. A line
that is the whole file loses its last character to a read of its own: a digit that is not followed
by anything is cut off the second number.
-/

namespace ModemFhss.Ad9361

open Lines Numeral
open Registers (Text)

/-! ## The format -/

/-- A comment. -/
def IsComment (line : Text) : Prop := line.head? = some '#'

instance (line : Text) : Decidable (IsComment line) := inferInstanceAs (Decidable (_ = _))

/-- The parts of a decimal number of 16 bits, without zeros that it does not need. -/
structure IsInt16 (sign digits : Text) : Prop where
  sign_eq : sign = [] ∨ sign = ['-']
  ne_nil : digits ≠ []
  isDigit : ∀ c ∈ digits, Numeral.isDigit 10 c = true
  canonical : digits.head? = some '0' → digits = ['0']
  range : -2 ^ 15 ≤ signed (sign = ['-']) (value 10 digits) ∧
    signed (sign = ['-']) (value 10 digits) < 2 ^ 15

/-- What `<int16>` stands for. -/
def int16Of (sign digits : Text) : Int16 := Int16.ofInt (signed (sign = ['-']) (value 10 digits))

/-- `<int16>`, without a plus sign. -/
def int16? (text : Text) : Option Int16 :=
  let (negative, digits) := readSign text
  let n := signed negative (value 10 digits)
  if text.head? ≠ some '+' ∧ digits ≠ [] ∧ digits.all (isDigit 10) = true ∧
      (digits.head? = some '0' → digits = ['0']) ∧ -2 ^ 15 ≤ n ∧ n < 2 ^ 15 then
    some (Int16.ofInt n)
  else
    none

/-- `<int16>,<int16>`, with blanks at the end of the line. -/
def coefficient? (line : Text) : Option (Int16 × Int16) :=
  match int16? (line.takeWhile (· ≠ ',')),
    int16? (((line.dropWhile (· ≠ ',')).drop 1).rdropWhile isSpace) with
  | some a, some b => some (a, b)
  | _, _ => none

example : coefficient? "-411,439\r\n".toList = some (-411, 439) ∧
    coefficient? "1,2,3".toList = none ∧ coefficient? "07,8".toList = none := by decide

/-- The parts of a tap's line. -/
structure IsTap (line sign digits sign' digits' blanks : Text) : Prop where
  line_eq : line = sign ++ digits ++ ',' :: (sign' ++ digits' ++ blanks)
  tx : IsInt16 sign digits
  rx : IsInt16 sign' digits'
  blank : ∀ c ∈ blanks, isSpace c = true

variable {text line sign digits sign' digits' blanks rest : Text} {n a b : Int16} {c : Char}

theorem int16?_eq_some (h : int16? text = some n) : ∃ sign digits,
    text = sign ++ digits ∧ IsInt16 sign digits ∧ n = int16Of sign digits := by
  obtain ⟨sign, htext, hsign, hnegative⟩ := readSign_eq text
  unfold int16? at h
  dsimp only at h
  rw [hnegative] at h
  split at h
  · next hall =>
    obtain ⟨hplus, hne, hdigits, hcanonical, hrange⟩ := hall
    have hminus : sign = [] ∨ sign = ['-'] := by
      rcases hsign with rfl | rfl | rfl
      · exact .inl rfl
      · exact .inr rfl
      · exact absurd (by rw [htext]; rfl) hplus
    exact ⟨sign, _, htext, ⟨hminus, hne, List.all_eq_true.mp hdigits, hcanonical, hrange⟩,
      (Option.some.inj h).symm⟩
  · cases h

theorem coefficient?_eq_some (h : coefficient? line = some (a, b)) :
    ∃ sign digits sign' digits' blanks, IsTap line sign digits sign' digits' blanks ∧
      a = int16Of sign digits ∧ b = int16Of sign' digits' := by
  unfold coefficient? at h
  split at h
  · next n m hn hm =>
    cases h
    obtain ⟨sign, digits, hfirst, htx, rfl⟩ := int16?_eq_some hn
    obtain ⟨sign', digits', hsecond, hrx, rfl⟩ := int16?_eq_some hm
    generalize hrest : line.dropWhile (· ≠ ',') = rest at hm hsecond
    have hline : line = sign ++ digits ++ rest := by
      rw [← hfirst, ← hrest, List.takeWhile_append_dropWhile]
    have hhead := List.head?_dropWhile_not (fun c => decide (c ≠ ',')) line
    rw [hrest] at hhead
    cases rest with
    | nil =>
      have hne : sign' ++ digits' ≠ [] := by simp [hrx.ne_nil]
      exact absurd hsecond.symm hne
    | cons c rest =>
      have hc : c = ',' := by simpa using hhead
      refine ⟨sign, digits, sign', digits', rest.rtakeWhile isSpace, ⟨?_, htx, hrx, ?_⟩, rfl, rfl⟩
      · rw [hline, hc, ← hsecond, List.drop_one, List.tail_cons, List.rdropWhile_append_rtakeWhile]
      · intro d hd
        exact List.mem_rtakeWhile_imp hd
  · cases h

/-! ## Reading it -/

theorem read_of_isInt16 (h : IsInt16 sign digits)
    (hrest : ∀ c ∈ rest.head?, isDigit 10 c = false ∧ c ≠ 'x' ∧ c ≠ 'X') :
    Numeral.read isSpace 0 (sign ++ (digits ++ rest)) =
      some (signed (sign = ['-']) (value 10 digits), rest) := by
  obtain ⟨c, digits, rfl⟩ := List.exists_cons_of_ne_nil h.ne_nil
  have hsign : sign = [] ∨ sign = ['-'] ∨ sign = ['+'] := by
    rcases h.sign_eq with rfl | rfl
    · exact .inl rfl
    · exact .inr (.inl rfl)
  have hnat : readNat 0 (c :: digits ++ rest) = some (value 10 (c :: digits), rest) := by
    by_cases hzero : c = '0'
    · obtain ⟨rfl⟩ : digits = [] := by
        have hone := h.canonical (by rw [hzero]; rfl)
        exact (List.cons.inj hone).2
      rw [hzero]
      apply readNat_auto_zero
      intro d hd
      obtain ⟨hdigit, hx, hX⟩ := hrest d hd
      exact ⟨hx, hX, not_isDigit_of_le (by decide) hdigit⟩
    · rw [readNat_auto (by simpa using hzero)]
      exact readDigits_append h.ne_nil h.isDigit fun d hd => (hrest d hd).1
  rw [read_append hsign ⟨c, rfl, isDigit_of_le (by decide) (h.isDigit c List.mem_cons_self)⟩
    fun _ => not_isDigit_of_isSpace, hnat]
  rfl

theorem clampSigned_eq {n : Int} (h : -2 ^ 15 ≤ n ∧ n < 2 ^ 15) : clampSigned n = n := by
  unfold clampSigned
  omega

theorem scanNumber_of_isInt16 {next : Text → List Int} (h : IsInt16 sign digits)
    (hrest : ∀ c ∈ rest.head?, isDigit 10 c = false ∧ c ≠ 'x' ∧ c ≠ 'X') :
    scanNumber 0 clampSigned next (sign ++ (digits ++ rest)) =
      signed (sign = ['-']) (value 10 digits) :: next rest := by
  unfold scanNumber
  rw [read_of_isInt16 h hrest]
  exact congrArg (· :: next rest) (clampSigned_eq h.range)

/-- The first number of a tap, and what the second is read from. -/
theorem sscanf_tap (h : IsInt16 sign digits) :
    sscanf (directives "%hi,%hi".toList) (sign ++ (digits ++ ',' :: rest)) =
      signed (sign = ['-']) (value 10 digits) :: scanNumber 0 clampSigned (fun _ => []) rest := by
  have hformat : directives "%hi,%hi".toList = [.hi, .char ',', .hi] := by decide
  rw [hformat]
  change scanNumber 0 clampSigned (sscanf [.char ',', .hi]) _ = _
  apply scanNumber_of_isInt16 h
  intro c hc
  cases hc
  decide

/-- A sign without digits is no number. -/
theorem scanNumber_sign {next : Text → List Int} (h : sign = [] ∨ sign = ['-']) :
    scanNumber 0 clampSigned next sign = [] := by
  rcases h with rfl | rfl
  · rfl
  · rfl

theorem cString_eq (h : '\x00' ∉ text) : cString text = text := by
  rw [cString, List.takeWhile_eq_self_iff]
  intro c hc
  simpa using fun heq : c = '\x00' => h (heq ▸ hc)

theorem counted_eq (hX : 'X' ∉ text) (hzero : '\x00' ∉ text) :
    counted text = decide (',' ∈ text) := by
  unfold counted
  rw [cString_eq hzero, lineKind_of_not_mem hX]
  split <;> simp [*]

/-- The characters of a tap's line. -/
theorem IsTap.char (h : IsTap line sign digits sign' digits' blanks) (hc : c ∈ line) :
    isDigit 10 c = true ∨ c = '-' ∨ c = ',' ∨ isSpace c = true := by
  have hsign : ∀ sign : Text, sign = [] ∨ sign = ['-'] → c ∈ sign → c = '-' := by
    rintro sign (rfl | rfl) hmem
    · cases hmem
    · exact List.mem_singleton.mp hmem
  rw [h.line_eq] at hc
  rcases List.mem_append.mp hc with hfirst | hrest
  · rcases List.mem_append.mp hfirst with hmem | hmem
    · exact .inr (.inl (hsign _ h.tx.sign_eq hmem))
    · exact .inl (h.tx.isDigit c hmem)
  · rcases List.mem_cons.mp hrest with hcomma | hsecond
    · exact .inr (.inr (.inl hcomma))
    · rcases List.mem_append.mp hsecond with hnumber | hblank
      · rcases List.mem_append.mp hnumber with hmem | hmem
        · exact .inr (.inl (hsign _ h.rx.sign_eq hmem))
        · exact .inl (h.rx.isDigit c hmem)
      · exact .inr (.inr (.inr (h.blank c hblank)))

theorem IsTap.plain (h : IsTap line sign digits sign' digits' blanks) (hsub : text ⊆ line) :
    'X' ∉ text ∧ '\x00' ∉ text := by
  constructor
  · intro hmem
    rcases h.char (hsub hmem) with hc | hc | hc | hc <;> exact absurd hc (by decide)
  · intro hmem
    rcases h.char (hsub hmem) with hc | hc | hc | hc <;> exact absurd hc (by decide)

/-- The tap that a line leaves, or the beginning of one. -/
theorem tapNumbers_append (hzero : '\x00' ∉ sign ++ digits ++ ',' :: rest)
    (h : IsInt16 sign digits) : tapNumbers (sign ++ digits ++ ',' :: rest) =
      signed (sign = ['-']) (value 10 digits) :: scanNumber 0 clampSigned (fun _ => []) rest := by
  unfold tapNumbers
  rw [cString_eq hzero, List.append_assoc]
  exact sscanf_tap h

theorem IsTap.counted (h : IsTap line sign digits sign' digits' blanks) (hsub : text ⊆ line)
    (hcomma : ',' ∈ text) : counted text = true := by
  obtain ⟨hX, hzero⟩ := h.plain hsub
  rw [counted_eq hX hzero]
  exact decide_eq_true hcomma

/-! ## A number that is cut off -/

theorem signed_inj {negative : Bool} {m k : Nat} :
    signed negative m = signed negative k ↔ m = k := by
  unfold signed
  cases negative <;> simp

theorem toInt_int16Of (h : -2 ^ 15 ≤ signed (sign = ['-']) (value 10 digits) ∧
    signed (sign = ['-']) (value 10 digits) < 2 ^ 15) :
    (int16Of sign digits).toInt = signed (sign = ['-']) (value 10 digits) :=
  Int16.toInt_ofInt_of_le h.1 h.2

theorem IsInt16.range_of_le (h : IsInt16 sign digits) {m : Nat} (hle : m ≤ value 10 digits) :
    -2 ^ 15 ≤ signed (sign = ['-']) m ∧ signed (sign = ['-']) m < 2 ^ 15 := by
  have hrange := h.range
  unfold signed at hrange ⊢
  cases hminus : decide (sign = ['-']) with
  | true =>
    simp only [hminus, if_true] at hrange ⊢
    omega
  | false =>
    simp only [hminus, Bool.false_eq_true, if_false] at hrange ⊢
    omega

theorem IsInt16.eq_zero_iff (h : IsInt16 sign digits) :
    int16Of sign digits = 0 ↔ value 10 digits = 0 := by
  rw [← Int16.toInt_inj, toInt_int16Of h.range]
  unfold signed
  split <;> simp

/-- Without its last digit a number stays what it is if it is 0. -/
theorem IsInt16.dropLast_eq_iff (h : IsInt16 sign digits) :
    int16Of sign digits.dropLast = int16Of sign digits ↔ int16Of sign digits = 0 := by
  have hle : value 10 digits.dropLast ≤ value 10 digits := value_dropLast_le (by decide)
  have hshort := toInt_int16Of (h.range_of_le hle)
  rw [h.eq_zero_iff, ← Int16.toInt_inj, toInt_int16Of h.range, hshort, signed_inj]
  exact value_dropLast_eq_iff (by decide)

theorem IsInt16.dropLast (h : IsInt16 sign digits) (hne : digits.dropLast ≠ []) :
    IsInt16 sign digits.dropLast := by
  refine ⟨h.sign_eq, hne, ?_, ?_, h.range_of_le (value_dropLast_le (by decide))⟩
  · intro c hc
    exact h.isDigit c (List.mem_of_mem_dropLast hc)
  · intro hzero
    obtain ⟨c, short, hshort⟩ := List.exists_cons_of_ne_nil hne
    have hprefix := List.dropLast_prefix digits
    rw [hshort] at hzero hprefix
    obtain ⟨rest, hdigits⟩ := hprefix
    have hone := h.canonical (by rw [← hdigits, ← hzero]; rfl)
    rw [hone] at hne
    exact absurd rfl hne

/-- What is left of a number without its last digit. -/
theorem IsInt16.scanNumber_dropLast (h : IsInt16 sign digits) :
    coefOf (scanNumber 0 clampSigned (fun _ => []) (sign ++ digits.dropLast))[0]? =
      int16Of sign digits.dropLast := by
  by_cases hnil : digits.dropLast = []
  · rw [hnil, List.append_nil, scanNumber_sign h.sign_eq]
    rcases h.sign_eq with rfl | rfl <;> rfl
  · have hread : scanNumber 0 clampSigned (fun _ => []) (sign ++ (digits.dropLast ++ [])) =
        [signed (sign = ['-']) (value 10 digits.dropLast)] :=
      scanNumber_of_isInt16 (h.dropLast hnil) nofun
    rw [List.append_nil] at hread
    rw [hread]
    rfl

/-- A tap with as many blanks as one likes. -/
theorem IsTap.tapNumbers (h : IsTap line sign digits sign' digits' blanks)
    (hrest : ∀ c ∈ rest, isSpace c = true)
    (hzero : '\x00' ∉ sign ++ digits ++ ',' :: (sign' ++ digits' ++ rest)) :
    tapNumbers (sign ++ digits ++ ',' :: (sign' ++ digits' ++ rest)) =
      [signed (sign = ['-']) (value 10 digits), signed (sign' = ['-']) (value 10 digits')] := by
  rw [tapNumbers_append hzero h.tx, List.append_assoc, scanNumber_of_isInt16 h.rx]
  intro c hc
  have hspace := hrest c (List.mem_of_mem_head? hc)
  refine ⟨not_isDigit_of_le (by decide) (not_isDigit_of_isSpace hspace).1, ?_, ?_⟩
  · rintro rfl
    exact absurd hspace (by decide)
  · rintro rfl
    exact absurd hspace (by decide)

/-- The last character by itself is no tap. -/
theorem IsTap.filter_pieces_self (h : IsTap (text ++ [c]) sign digits sign' digits' blanks)
    (hcomma : ',' ∈ text) (hc : c ≠ ',') :
    (pieces (text ++ [c]) (text ++ [c])).filter Ad9361.counted = [text] := by
  have hlast : Ad9361.counted [c] = false := by
    obtain ⟨hX, hzero⟩ := h.plain (List.subset_append_right text [c])
    rw [counted_eq hX hzero]
    exact decide_eq_false fun hmem => hc (List.mem_singleton.mp hmem).symm
  rw [pieces_self, List.filter_cons_of_pos (h.counted (by simp) hcomma),
    List.filter_cons_of_neg (by simp [hlast]), List.filter_nil]

/-- The file ends in the second number, whose last digit is read by itself. -/
theorem IsTap.filter_pieces_digit (h : IsTap line sign digits sign' digits' []) : ∃ buf,
    (pieces line line).filter Ad9361.counted = [buf] ∧ Ad9361.tapNumbers buf ≠ [] ∧
      tap buf = (int16Of sign digits, int16Of sign' digits'.dropLast) ∧
      ∃ c ∈ line.getLast?, isDigit 10 c = true := by
  obtain ⟨short, c, hconcat⟩ := (List.eq_nil_or_concat digits').resolve_left h.rx.ne_nil
  have hshort : digits'.dropLast = short := by
    rw [hconcat, List.concat_eq_append, List.dropLast_concat]
  have hdigit : isDigit 10 c = true := h.rx.isDigit c (by simp [hconcat])
  have hsplit : line = sign ++ digits ++ ',' :: (sign' ++ short) ++ [c] := by
    rw [h.line_eq, hconcat]
    simp
  rw [hsplit] at h ⊢
  have hnumbers := tapNumbers_append (h.plain (List.subset_append_left _ [c])).2 h.tx
  refine ⟨_, h.filter_pieces_self (by simp) ?_, ?_, ?_, c, List.getLast?_concat, hdigit⟩
  · rintro rfl
    exact absurd hdigit (by decide)
  · rw [hnumbers]
    exact List.cons_ne_nil _ _
  · rw [tap, hnumbers, ← hshort]
    exact congrArg (int16Of sign digits, ·) h.rx.scanNumber_dropLast

/-- The file ends in a blank after the second number. -/
theorem IsTap.filter_pieces_blank
    (h : IsTap line sign digits sign' digits' (blanks ++ [c])) : ∃ buf,
    (pieces line line).filter Ad9361.counted = [buf] ∧ Ad9361.tapNumbers buf ≠ [] ∧
      tap buf = (int16Of sign digits, int16Of sign' digits') ∧
      ∀ d ∈ line.getLast?, isDigit 10 d = false := by
  have hspace : isSpace c = true := h.blank c (by simp)
  have hblanks : ∀ d ∈ blanks, isSpace d = true := by
    intro d hd
    exact h.blank d (List.mem_append_left _ hd)
  have hsplit : line = sign ++ digits ++ ',' :: (sign' ++ digits' ++ blanks) ++ [c] := by
    rw [h.line_eq]
    simp
  rw [hsplit] at h ⊢
  have hnumbers := h.tapNumbers hblanks (h.plain (List.subset_append_left _ [c])).2
  refine ⟨_, h.filter_pieces_self (by simp) ?_, ?_, ?_, ?_⟩
  · rintro rfl
    exact absurd hspace (by decide)
  · rw [hnumbers]
    exact List.cons_ne_nil _ _
  · rw [tap, hnumbers]
    rfl
  · intro d hd
    obtain rfl : c = d := Option.some.inj (List.getLast?_concat.symm.trans hd)
    exact not_isDigit_of_le (by decide) (not_isDigit_of_isSpace hspace).1

/-- The line is not all of the file. -/
theorem IsTap.filter_pieces_of_ne (h : IsTap line sign digits sign' digits' blanks)
    (hne : line ≠ text) : (pieces text line).filter Ad9361.counted = [line] ∧
      Ad9361.tapNumbers line ≠ [] ∧ tap line = (int16Of sign digits, int16Of sign' digits') := by
  have hline := h.line_eq
  have hcounted : Ad9361.counted line = true := h.counted (List.Subset.refl _) (by simp [hline])
  have hnumbers := h.tapNumbers h.blank (hline ▸ (h.plain (List.Subset.refl _)).2)
  rw [← hline] at hnumbers
  refine ⟨?_, ?_, ?_⟩
  · rw [pieces_of_ne hne, List.filter_singleton, hcounted]
    rfl
  · rw [hnumbers]
    exact List.cons_ne_nil _ _
  · rw [tap, hnumbers]
    rfl

/-- **What is read of a tap's line**: the tap, but a second number that ends the file has lost its
last digit. -/
theorem filter_pieces (h : coefficient? line = some (a, b)) (text : Text) : ∃ buf b',
    (pieces text line).filter counted = [buf] ∧ tapNumbers buf ≠ [] ∧ tap buf = (a, b') ∧
      (b' = b ↔ (line = text → (∃ c ∈ line.getLast?, isDigit 10 c = true) → b = 0)) := by
  obtain ⟨sign, digits, sign', digits', blanks, htap, rfl, rfl⟩ := coefficient?_eq_some h
  by_cases heq : line = text
  · subst heq
    rcases List.eq_nil_or_concat blanks with rfl | ⟨init, c, rfl⟩
    · obtain ⟨buf, hfilter, hne, hbuf, hlast⟩ := htap.filter_pieces_digit
      refine ⟨buf, _, hfilter, hne, hbuf, ?_⟩
      rw [htap.rx.dropLast_eq_iff]
      constructor
      · intro hzero _ _
        exact hzero
      · intro hcut
        exact hcut rfl hlast
    · rw [List.concat_eq_append] at htap
      obtain ⟨buf, hfilter, hne, hbuf, hlast⟩ := htap.filter_pieces_blank
      refine ⟨buf, _, hfilter, hne, hbuf, iff_of_true rfl ?_⟩
      rintro - ⟨d, hd, hdigit⟩
      rw [hlast d hd] at hdigit
      cases hdigit
  · obtain ⟨hfilter, hne, hbuf⟩ := htap.filter_pieces_of_ne heq
    exact ⟨line, _, hfilter, hne, hbuf, iff_of_true rfl fun hline => absurd hline heq⟩

end ModemFhss.Ad9361
