import ModemFhss.RegParser.Parser

/-!
# The declaration of a register

A `Declaration` is a register's declaration as it is written: its name, its number and what stands
between the tokens. `declared` reads one, the characters that are allowed between the tokens and
after the last of them being parameters. With those of `m_rxValidator` it is the expression that the
parser has, and `parseBlock_eq` says what the parser makes of a match.
-/

namespace ModemFhss.RegParser

open Pattern

structure Declaration where
  before : Text
  afterConstant : Text
  name : Text
  afterName : Text
  afterColon : Text
  afterInteger : Text
  afterAssign : Text
  decimal : Text
  last : Text
  deriving DecidableEq, Repr

namespace Declaration

def pieces (d : Declaration) : List Text :=
  [d.before, "constant".toList, d.afterConstant, regNamePrefix, d.name, d.afterName, ":".toList,
    d.afterColon, "integer".toList, d.afterInteger, ":=".toList, d.afterAssign, d.decimal, d.last]

def text (d : Declaration) : Text := d.pieces.flatten

/-- The number that is written. -/
def value (d : Declaration) : Nat := Nat.ofDigitChars 10 d.decimal 0

/-- What its parts are made of. -/
structure Written (first : Item Char) (gap last : Char → Bool) (d : Declaration) : Prop where
  before : ∀ c ∈ d.before, gap c = true
  afterConstant : first.Fits d.afterConstant
  name_ne_nil : d.name ≠ []
  name : ∀ c ∈ d.name, isNameChar c = true
  afterName : ∀ c ∈ d.afterName, gap c = true
  afterColon : ∀ c ∈ d.afterColon, gap c = true
  afterInteger : ∀ c ∈ d.afterInteger, gap c = true
  afterAssign : ∀ c ∈ d.afterAssign, gap c = true
  decimal_ne_nil : d.decimal ≠ []
  decimal : ∀ c ∈ d.decimal, isDecimal c = true
  last : ∀ c ∈ d.last, last c = true

/-- The declaration on one line. -/
def joinLines (d : Declaration) : Declaration where
  before := removeLineBreaks d.before
  afterConstant := removeLineBreaks d.afterConstant
  name := d.name
  afterName := removeLineBreaks d.afterName
  afterColon := removeLineBreaks d.afterColon
  afterInteger := removeLineBreaks d.afterInteger
  afterAssign := removeLineBreaks d.afterAssign
  decimal := d.decimal
  last := removeLineBreaks d.last

end Declaration

/-- The tokens, with `gap` between them and `last` after them; `first` is what separates the first
two. -/
def tokens (first : Item Char) (gap last : Char → Bool) : List (Item Char) :=
  [.many gap, .text "constant".toList, first, .text regNamePrefix, .many1 isNameChar, .many gap,
    .text ":".toList, .many gap, .text "integer".toList, .many gap, .text ":=".toList, .many gap,
    .many1 isDecimal, .many last]

def declaration (gap last : Char → Bool) : List (Item Char) := tokens (.many1 gap) gap last

/-- The declaration that a text is. -/
def declared (gap last : Char → Bool) (text : Text) : Option Declaration :=
  match split (declaration gap last) text with
  | some ([before, _, afterConstant, _, name, afterName, _, afterColon, _, afterInteger, _,
      afterAssign, decimal, after], []) =>
    some { before, afterConstant, name, afterName, afterColon, afterInteger, afterAssign, decimal,
           last := after }
  | _ => none

/-- Spaces, tabs and line breaks. -/
def isSpace (c : Char) : Bool := isBlank c || isLineBreak c

theorem rxValidator_eq : rxValidator = declaration isBlank isTrailing := rfl

/-! ## The cut into tokens is unique -/

/-- Classes of characters that can separate the tokens. -/
structure Classes (first : Item Char) (gap last : Char → Bool) : Prop where
  first_eq : first = .many gap ∨ first = .many1 gap
  gap_space : ∀ c, gap c = true → isSpace c = true
  last_not_decimal : ∀ c, last c = true → isDecimal c = false

variable {first : Item Char} {gap last : Char → Bool} {d e : Declaration} {text : Text} {c : Char}

theorem isSpace_of_isNameChar (h : isNameChar c = true) : isSpace c = false := by
  cases hspace : isSpace c with
  | false => rfl
  | true =>
    simp only [isSpace, isBlank, isLineBreak, Bool.or_eq_true, decide_eq_true_eq] at hspace
    rcases hspace with (rfl | rfl) | (rfl | rfl) <;> exact absurd h (by decide)

theorem isNameChar_of_isDecimal (h : isDecimal c = true) : isNameChar c = true := by
  simp only [isDecimal, Bool.and_eq_true, decide_eq_true_eq] at h
  simp [isNameChar, h]

namespace Classes

variable (h : Classes first gap last)
include h

theorem gap_false (hc : isSpace c = false) : gap c = false := by
  cases hgap : gap c with
  | false => rfl
  | true => exact absurd (h.gap_space c hgap) (by rw [hc]; exact Bool.false_ne_true)

theorem not_mem_of_gap (hc : isSpace c = false) (htext : ∀ a ∈ text, gap a = true) : c ∉ text := by
  intro hmem
  have hgap := htext c hmem
  rw [h.gap_false hc] at hgap
  cases hgap

theorem nameChar_false (hc : gap c = true ∨ c = ':') : isNameChar c = false := by
  rcases hc with hgap | rfl
  · cases hname : isNameChar c with
    | false => rfl
    | true => exact absurd hgap (by rw [h.gap_false (isSpace_of_isNameChar hname)]; decide)
  · decide

theorem first_stops : first.Stops (fun c => c = 'A') := by
  rcases h.first_eq with rfl | rfl
  · rintro c rfl
    exact h.gap_false (by decide)
  · rintro c rfl
    exact h.gap_false (by decide)

theorem separated : Separated (fun _ => False) (tokens first gap last) := by
  have hgap : ∀ c d, isSpace d = false → c = d → gap c = false := by
    rintro c d hd rfl
    exact h.gap_false hd
  have hdecimal : ∀ c, isDecimal c = true → gap c = false := fun c hc =>
    h.gap_false (isSpace_of_isNameChar (isNameChar_of_isDecimal hc))
  have hlast : ∀ c, last c = true ∨ False → isDecimal c = false := by
    rintro c (hc | hc)
    · exact h.last_not_decimal c hc
    · exact hc.elim
  exact ⟨fun c => hgap c 'c' (by decide), trivial, h.first_stops, trivial,
    fun c => h.nameChar_false, fun c => hgap c ':' (by decide), trivial,
    fun c => hgap c 'i' (by decide), trivial, fun c => hgap c ':' (by decide), trivial, hdecimal,
    hlast, fun c hc => hc.elim, trivial⟩

end Classes

/-- Pieces that fit the tokens are a declaration. -/
theorem exists_of_fits {ps : List Text} (h : Pattern.Fits (tokens first gap last) ps) :
    ∃ d : Declaration, ps = d.pieces := by
  simp only [Pattern.Fits, tokens, List.forall₂_cons_left_iff, List.forall₂_nil_left_iff] at h
  obtain ⟨before, _, -, ⟨_, _, rfl, ⟨afterConstant, _, -, ⟨_, _, rfl, ⟨name, _, -, ⟨afterName, _, -,
    ⟨_, _, rfl, ⟨afterColon, _, -, ⟨_, _, rfl, ⟨afterInteger, _, -, ⟨_, _, rfl, ⟨afterAssign, _, -,
    ⟨decimal, _, -, ⟨after, _, -, rfl, rfl⟩, rfl⟩, rfl⟩, rfl⟩, rfl⟩, rfl⟩, rfl⟩, rfl⟩, rfl⟩, rfl⟩,
    rfl⟩, rfl⟩, rfl⟩, rfl⟩ := h
  exact ⟨{ before, afterConstant, name, afterName, afterColon, afterInteger, afterAssign, decimal,
           last := after }, rfl⟩

theorem fits_iff_written :
    Pattern.Fits (tokens first gap last) d.pieces ↔ d.Written first gap last := by
  simp only [Pattern.Fits, tokens, Declaration.pieces, List.forall₂_cons, Item.Fits, true_and]
  constructor
  · rintro ⟨hbefore, hfirst, ⟨hne, hname⟩, hafterName, hafterColon, hafterInteger, hafterAssign,
      ⟨hne', hdecimal⟩, hlast, -⟩
    exact ⟨hbefore, hfirst, hne, hname, hafterName, hafterColon, hafterInteger, hafterAssign, hne',
      hdecimal, hlast⟩
  · intro h
    exact ⟨h.before, h.afterConstant, ⟨h.name_ne_nil, h.name⟩, h.afterName, h.afterColon,
      h.afterInteger, h.afterAssign, ⟨h.decimal_ne_nil, h.decimal⟩, h.last, .nil⟩

theorem pieces_inj (h : d.pieces = e.pieces) : d = e := by
  simp only [Declaration.pieces, List.cons.injEq] at h
  cases d
  cases e
  simp_all

/-- A text is written in one way. -/
theorem text_inj (hclasses : Classes first gap last) (hd : d.Written first gap last)
    (he : e.Written first gap last) (htext : d.text = e.text) : d = e := by
  have hsplit := (split_iff hclasses.separated).mpr ⟨fits_iff_written.mpr hd, rfl⟩
  have hsplit' := (split_iff hclasses.separated).mpr ⟨fits_iff_written.mpr he, rfl⟩
  have hflatten : d.pieces.flatten = e.pieces.flatten := htext
  rw [hflatten, hsplit'] at hsplit
  exact pieces_inj (by simpa using hsplit.symm)

theorem declared_of_split (h : split (declaration gap last) text = some (d.pieces, [])) :
    declared gap last text = some d := by
  unfold declared
  rw [h]
  rfl

/-- **What is a declaration**: a text that is cut into the tokens. -/
theorem declared_eq_some_iff (h : Classes (.many1 gap) gap last) :
    declared gap last text = some d ↔ d.Written (.many1 gap) gap last ∧ text = d.text := by
  have hiff : ∀ ps, split (declaration gap last) text = some (ps, []) ↔
      Pattern.Fits (declaration gap last) ps ∧ text = ps.flatten := fun ps => split_iff h.separated
  constructor
  · intro hdeclared
    have hsplit : ∃ ps, split (declaration gap last) text = some (ps, []) := by
      unfold declared at hdeclared
      split at hdeclared
      · next hsplit => exact ⟨_, hsplit⟩
      · cases hdeclared
    obtain ⟨ps, hsplit⟩ := hsplit
    obtain ⟨hfits, htext⟩ := (hiff ps).mp hsplit
    obtain ⟨d', rfl⟩ := exists_of_fits hfits
    obtain rfl : d' = d := Option.some.inj ((declared_of_split hsplit).symm.trans hdeclared)
    exact ⟨fits_iff_written.mp hfits, htext⟩
  · rintro ⟨hd, htext⟩
    exact declared_of_split ((hiff d.pieces).mpr ⟨fits_iff_written.mpr hd, htext⟩)

theorem classes_blank : Classes (.many1 isBlank) isBlank isTrailing where
  first_eq := .inr rfl
  gap_space c h := by simp [isSpace, h]
  last_not_decimal c h := by
    simp only [isTrailing, Bool.or_eq_true, decide_eq_true_eq] at h
    rcases h with ((rfl | rfl) | rfl) | rfl <;> decide

theorem classes_space : Classes (.many1 isSpace) isSpace isSpace where
  first_eq := .inr rfl
  gap_space _ h := h
  last_not_decimal c h := by
    cases hdecimal : isDecimal c with
    | false => rfl
    | true =>
      rw [isSpace_of_isNameChar (isNameChar_of_isDecimal hdecimal)] at h
      cases h

theorem regexMatch_rxValidator :
    regexMatch rxValidator text = (declared isBlank isTrailing text).isSome := by
  cases hdeclared : declared isBlank isTrailing text with
  | some d =>
    obtain ⟨hd, htext⟩ := (declared_eq_some_iff classes_blank).mp hdeclared
    have hsplit := (split_iff classes_blank.separated).mpr ⟨fits_iff_written.mpr hd, htext⟩
    rw [regexMatch, rxValidator_eq, declaration, hsplit]
    rfl
  | none =>
    unfold regexMatch
    split
    · next ps hsplit =>
      obtain ⟨hfits, htext⟩ := (split_iff classes_blank.separated).mp hsplit
      obtain ⟨d, rfl⟩ := exists_of_fits hfits
      have hsome := (declared_eq_some_iff classes_blank).mpr ⟨fits_iff_written.mp hfits, htext⟩
      rw [hsome] at hdeclared
      cases hdeclared
    · rfl

/-! ## What the parser makes of it -/

section

variable (hclasses : Classes first gap last) (hd : d.Written first gap last)
include hclasses hd

theorem gap_of_mem_afterConstant (hc : c ∈ d.afterConstant) : gap c = true := by
  have hfits := hd.afterConstant
  rcases hclasses.first_eq with rfl | rfl
  · exact hfits c hc
  · exact hfits.2 c hc

/-- The first `ADDR_REG_` is that of the name. -/
theorem search_rxRegName : search rxRegName d.text = some (regNamePrefix ++ d.name) := by
  have htext : d.text = (d.before ++ "constant".toList ++ d.afterConstant) ++
      ([regNamePrefix, d.name].flatten ++ (d.afterName ++ ':' :: (d.afterColon ++
        "integer".toList ++ d.afterInteger ++ ":=".toList ++ d.afterAssign ++ d.decimal ++
        d.last))) := by
    simp [Declaration.text, Declaration.pieces]
  have hfront : 'A' ∉ d.before ++ "constant".toList ++ d.afterConstant := by
    simp only [List.mem_append, not_or]
    exact ⟨⟨hclasses.not_mem_of_gap (by decide) hd.before, by decide⟩,
      hclasses.not_mem_of_gap (by decide) fun c => gap_of_mem_afterConstant hclasses hd⟩
  have hseparated : Separated (fun c => isNameChar c = false) rxRegName :=
    ⟨trivial, fun _ hc => hc, trivial⟩
  have hnone : ∀ c ∈ d.before ++ "constant".toList ++ d.afterConstant, ∀ t,
      split rxRegName (c :: t) = none := by
    intro c hc t
    have hne : 'A' ≠ c := by
      rintro rfl
      exact hfront hc
    exact split_text_of_ne hne
  rw [htext, search_append hnone]
  refine (search_of_split (split_of_fits hseparated ?_ ?_)).trans (by simp)
  · exact .cons rfl (.cons ⟨hd.name_ne_nil, hd.name⟩ .nil)
  · intro c hc
    apply hclasses.nameChar_false
    cases hafter : d.afterName with
    | nil =>
      rw [hafter] at hc
      exact .inr (Option.some.inj hc).symm
    | cons a as =>
      rw [hafter] at hc
      obtain rfl : a = c := Option.some.inj hc
      exact .inl (hd.afterName a (by rw [hafter]; exact List.mem_cons_self))

/-- The first `:=` is that of the assignment. -/
theorem find_assign :
    (find ":=".toList d.text).map (fun pos => d.text.drop (pos + ":=".length)) =
      some (d.afterAssign ++ d.decimal ++ d.last) := by
  have hcolon : ∀ l : Text, (∀ c ∈ l, gap c = true) → ':' ∉ l :=
    fun l => hclasses.not_mem_of_gap (by decide)
  have hequals : ∀ l : Text, (∀ c ∈ l, gap c = true) → '=' ∉ l :=
    fun l => hclasses.not_mem_of_gap (by decide)
  have hname : ':' ∉ d.name := fun hmem => absurd (hd.name ':' hmem) (by decide)
  obtain ⟨front, hfront⟩ : ∃ front, front = d.before ++ "constant".toList ++ d.afterConstant ++
      regNamePrefix ++ d.name ++ d.afterName := ⟨_, rfl⟩
  obtain ⟨middle, hmiddle⟩ : ∃ middle, middle = d.afterColon ++ "integer".toList ++
      d.afterInteger := ⟨_, rfl⟩
  have htext : d.text = front ++ ':' :: (middle ++ ':' :: '=' ::
      (d.afterAssign ++ d.decimal ++ d.last)) := by
    simp [Declaration.text, Declaration.pieces, hfront, hmiddle]
  have hfrontColon : ':' ∉ front := by
    rw [hfront]
    simp only [List.mem_append, not_or]
    exact ⟨⟨⟨⟨⟨hcolon _ hd.before, by decide⟩,
      hcolon _ fun c => gap_of_mem_afterConstant hclasses hd⟩, by decide⟩, hname⟩,
      hcolon _ hd.afterName⟩
  have hmiddleColon : ':' ∉ middle := by
    rw [hmiddle]
    simp only [List.mem_append, not_or]
    exact ⟨⟨hcolon _ hd.afterColon, by decide⟩, hcolon _ hd.afterInteger⟩
  have hmiddleEquals : '=' ∉ middle := by
    rw [hmiddle]
    simp only [List.mem_append, not_or]
    exact ⟨⟨hequals _ hd.afterColon, by decide⟩, hequals _ hd.afterInteger⟩
  -- The colon before the type is not one of `:=`.
  have hskip : ∀ rest, ¬ [':', '='].isPrefixOf (':' :: (middle ++ rest)) = true := by
    intro rest
    cases middle with
    | nil => simp at hmiddle
    | cons a middle =>
      have ha : '=' ≠ a := (List.ne_and_not_mem_of_not_mem_cons hmiddleEquals).1
      simp [List.isPrefixOf, ha]
  have hfind : find [':', '='] d.text = some (front.length + (middle.length + 1)) := by
    rw [htext, find_append hfrontColon, find, if_neg (hskip _), find_append hmiddleColon]
    simp [find]
  have hdrop : d.text = (front ++ ':' :: middle ++ [':', '=']) ++
      (d.afterAssign ++ d.decimal ++ d.last) := by
    rw [htext]
    simp
  have hlength : front.length + (middle.length + 1) + ":=".length =
      (front ++ ':' :: middle ++ [':', '=']).length := by
    have htwo : ":=".length = 2 := rfl
    simp only [List.length_append, List.length_cons, List.length_nil]
    omega
  have hlist : ":=".toList = [':', '='] := rfl
  rw [hlist, hfind, Option.map_some, hlength, hdrop, List.drop_left]

/-- The first number after it is the address. -/
theorem search_decimal :
    search [.many1 isDecimal] (d.afterAssign ++ d.decimal ++ d.last) = some d.decimal := by
  have hseparated : Separated (fun c => isDecimal c = false) [.many1 isDecimal] :=
    ⟨fun _ hc => hc, trivial⟩
  have hafter : ∀ c ∈ d.afterAssign, isDecimal c = false := by
    intro c hc
    cases hdecimal : isDecimal c with
    | false => rfl
    | true =>
      have hgap := hd.afterAssign c hc
      rw [hclasses.gap_false (isSpace_of_isNameChar (isNameChar_of_isDecimal hdecimal))] at hgap
      cases hgap
  have hflatten : d.decimal ++ d.last = [d.decimal].flatten ++ d.last := by simp
  rw [List.append_assoc, search_append fun c hc t => split_many1_of_not (hafter c hc), hflatten]
  refine (search_of_split (split_of_fits hseparated ?_ ?_)).trans (by simp)
  · exact .cons ⟨hd.decimal_ne_nil, hd.decimal⟩ .nil
  · intro c hc
    exact hclasses.last_not_decimal c (hd.last c (List.mem_of_mem_head? hc))

end

variable {long : UnsignedLong} {block : Text}

/-- A block that is no declaration adds nothing. -/
theorem parseBlock_of_none
    (h : declared isBlank isTrailing (removeLineBreaks (removeComments block)) = none) :
    parseBlock long block = .ok none := by
  have hmatch : ¬ regexMatch rxValidator (removeLineBreaks (removeComments block)) = true := by
    rw [regexMatch_rxValidator, h]
    exact Bool.false_ne_true
  unfold parseBlock
  dsimp only
  rw [if_neg hmatch, ite_self]

/-- **What a declaration adds**, if `unsigned long` holds its number. -/
theorem parseBlock_of_some
    (h : declared isBlank isTrailing (removeLineBreaks (removeComments block)) = some d) :
    parseBlock long block =
      if d.value < 2 ^ long.bits then
        .ok (some { name := regName (regNamePrefix ++ d.name),
                    address := UInt32.ofNat (d.value * 4 % 2 ^ long.bits) })
      else
        .error .outOfRange := by
  obtain ⟨hd, htext⟩ := (declared_eq_some_iff classes_blank).mp h
  have hmatch : regexMatch rxValidator d.text = true := by
    rw [regexMatch_rxValidator, ← htext, h]
    rfl
  have hpos : d.text.length > 0 := by
    simp only [Declaration.text, Declaration.pieces, List.flatten_cons, List.length_append]
    have hassign : ":=".toList.length = 2 := rfl
    omega
  obtain ⟨pos, hpos', hdrop⟩ := Option.map_eq_some_iff.mp (find_assign classes_blank hd)
  unfold parseBlock
  simp only [htext, if_pos hpos, if_pos hmatch, search_rxRegName classes_blank hd, hpos', hdrop,
    search_decimal classes_blank hd]
  unfold stoul
  rw [show Nat.ofDigitChars 10 d.decimal 0 = d.value from rfl]
  by_cases hvalue : d.value < 2 ^ long.bits
  · rw [if_pos hvalue, if_pos hvalue]
  · rw [if_neg hvalue, if_neg hvalue]

/-- `ERROR_PARSE` is not thrown: what `m_rxValidator` matches has a name and a number. -/
theorem parseBlock_ne_parse (strBlock : Text) :
    parseBlock long block ≠ .error (.parse strBlock) := by
  cases h : declared isBlank isTrailing (removeLineBreaks (removeComments block)) with
  | none =>
    rw [parseBlock_of_none h]
    exact nofun
  | some d =>
    rw [parseBlock_of_some h]
    split <;> exact nofun

variable {entry : RegMapEntry} {regmap : List RegMapEntry} {bs : List Text}

theorem parsed_of_parseBlock (h : parseBlock long block = .ok (some entry)) : Parsed entry := by
  cases hline : declared isBlank isTrailing (removeLineBreaks (removeComments block)) with
  | none =>
    rw [parseBlock_of_none hline] at h
    cases h
  | some d =>
    obtain ⟨hd, -⟩ := (declared_eq_some_iff classes_blank).mp hline
    rw [parseBlock_of_some hline] at h
    split at h
    · cases h
      exact ⟨regNamePrefix ++ d.name, ⟨d.name, rfl, hd.name_ne_nil, hd.name⟩, rfl⟩
    · cases h

theorem parsed_of_readBlocks (h : readBlocks long bs = .ok regmap) :
    ∀ entry ∈ regmap, Parsed entry := by
  induction bs generalizing regmap with
  | nil =>
    cases h
    exact fun entry hentry => nomatch hentry
  | cons block bs ih =>
    rw [readBlocks] at h
    cases hblock : parseBlock long block with
    | error e => simp [hblock] at h
    | ok entry =>
      cases hbs : readBlocks long bs with
      | error e => simp [hblock, hbs, Except.map] at h
      | ok entries =>
        simp only [hblock, hbs, Except.map, Except.ok.injEq] at h
        subst h
        intro e he
        rcases List.mem_append.mp he with he | he
        · obtain rfl := Option.mem_toList.mp he
          exact parsed_of_parseBlock hblock
        · exact ih hbs e he

/-- **The entries of a map** have names that `m_rxRegName` matches. -/
theorem parsed_of_parse (h : parse long text = some (.ok regmap)) :
    ∀ entry ∈ regmap, Parsed entry := by
  rw [parse_eq] at h
  exact parsed_of_readBlocks (Option.some.inj h)

/-! ## Line breaks -/

theorem removeLineBreaks_append {s t : Text} :
    removeLineBreaks (s ++ t) = removeLineBreaks s ++ removeLineBreaks t :=
  List.filter_append ..

theorem mem_removeLineBreaks : c ∈ removeLineBreaks text ↔ c ∈ text ∧ isLineBreak c = false := by
  simp [removeLineBreaks]

theorem removeLineBreaks_eq_self (h : ∀ c ∈ text, isNameChar c = true) :
    removeLineBreaks text = text := by
  apply List.filter_eq_self.mpr
  intro c hc
  have hspace := isSpace_of_isNameChar (h c hc)
  simp only [isSpace, Bool.or_eq_false_iff] at hspace
  rw [hspace.2]
  rfl

theorem isBlank_of_mem (h : ∀ c ∈ text, isSpace c = true) :
    ∀ c ∈ removeLineBreaks text, isBlank c = true := by
  intro c hc
  obtain ⟨hmem, hbreak⟩ := mem_removeLineBreaks.mp hc
  have hspace := h c hmem
  rw [isSpace, hbreak, Bool.or_false] at hspace
  exact hspace

theorem removeLineBreaks_text (hd : d.Written first gap last) :
    removeLineBreaks d.text = d.joinLines.text := by
  have hname := removeLineBreaks_eq_self hd.name
  have hdecimal := removeLineBreaks_eq_self fun c hc => isNameChar_of_isDecimal (hd.decimal c hc)
  have hconstant : removeLineBreaks "constant".toList = "constant".toList := by decide
  have hpre : removeLineBreaks regNamePrefix = regNamePrefix := by decide
  have hcolon : removeLineBreaks ":".toList = ":".toList := by decide
  have hinteger : removeLineBreaks "integer".toList = "integer".toList := by decide
  have hassign : removeLineBreaks ":=".toList = ":=".toList := by decide
  have hnil : removeLineBreaks [] = [] := rfl
  simp only [Declaration.text, Declaration.pieces, Declaration.joinLines, List.flatten_cons,
    List.flatten_nil, removeLineBreaks_append, hname, hdecimal, hconstant, hpre, hcolon, hinteger,
    hassign, hnil]

/-- The same declaration, by other rules for its second gap and for its end. -/
theorem Declaration.Written.change {first' : Item Char} {last' : Char → Bool}
    (hd : d.Written first gap last) (hfirst : first'.Fits d.afterConstant)
    (hlast : ∀ c ∈ d.last, last' c = true) : d.Written first' gap last' :=
  { hd with afterConstant := hfirst, last := hlast }

theorem written_joinLines (hd : d.Written (.many1 isSpace) isSpace isSpace) :
    d.joinLines.Written (.many isBlank) isBlank isBlank where
  before := isBlank_of_mem hd.before
  afterConstant := isBlank_of_mem hd.afterConstant.2
  name_ne_nil := hd.name_ne_nil
  name := hd.name
  afterName := isBlank_of_mem hd.afterName
  afterColon := isBlank_of_mem hd.afterColon
  afterInteger := isBlank_of_mem hd.afterInteger
  afterAssign := isBlank_of_mem hd.afterAssign
  decimal_ne_nil := hd.decimal_ne_nil
  decimal := hd.decimal
  last := isBlank_of_mem hd.last

theorem isTrailing_iff_of_isBlank (h : isBlank c = true) : isTrailing c = true ↔ c ≠ ' ' := by
  simp only [isBlank, Bool.or_eq_true, decide_eq_true_eq] at h
  rcases h with rfl | rfl <;> decide

/-- On one line, a declaration is what `m_rxValidator` matches if there is a blank after `constant`
and no space at the end. -/
theorem written_joinLines_iff (hd : d.Written (.many1 isSpace) isSpace isSpace) :
    d.joinLines.Written (.many1 isBlank) isBlank isTrailing ↔
      (∃ c ∈ d.afterConstant, isBlank c = true) ∧ ' ' ∉ d.last := by
  have hjoin := written_joinLines hd
  constructor
  · intro h
    obtain ⟨hne, hall⟩ := h.afterConstant
    constructor
    · obtain ⟨c, hc⟩ := List.exists_mem_of_ne_nil _ hne
      exact ⟨c, (mem_removeLineBreaks.mp hc).1, hall c hc⟩
    · intro hmem
      have htrue := h.last ' ' (mem_removeLineBreaks.mpr ⟨hmem, by decide⟩)
      exact absurd htrue (by decide)
  · rintro ⟨⟨c, hc, hblank⟩, hspace⟩
    have hbreak : isLineBreak c = false := by
      simp only [isBlank, Bool.or_eq_true, decide_eq_true_eq] at hblank
      rcases hblank with rfl | rfl <;> decide
    apply hjoin.change
    · exact ⟨List.ne_nil_of_mem (mem_removeLineBreaks.mpr ⟨hc, hbreak⟩), hjoin.afterConstant⟩
    · intro a ha
      apply (isTrailing_iff_of_isBlank (hjoin.last a ha)).mpr
      rintro rfl
      exact hspace (mem_removeLineBreaks.mp ha).1

/-- What ends a declaration by one rule or the other. -/
def isEnd (c : Char) : Bool := isBlank c || isTrailing c

theorem classes_end : Classes (.many isBlank) isBlank isEnd where
  first_eq := .inl rfl
  gap_space c h := by simp [isSpace, h]
  last_not_decimal c h := by
    rcases Bool.or_eq_true_iff.mp h with h | h
    · exact classes_space.last_not_decimal c (by simp [isSpace, h])
    · exact classes_blank.last_not_decimal c h

/-- **What the parser sees of a declaration**: it, or nothing. -/
theorem declared_removeLineBreaks (hd : d.Written (.many1 isSpace) isSpace isSpace) :
    declared isBlank isTrailing (removeLineBreaks d.text) = some e ↔
      e = d.joinLines ∧ (∃ c ∈ d.afterConstant, isBlank c = true) ∧ ' ' ∉ d.last := by
  rw [declared_eq_some_iff classes_blank, removeLineBreaks_text hd]
  constructor
  · rintro ⟨he, htext⟩
    have heEnd : e.Written (.many isBlank) isBlank isEnd :=
      he.change he.afterConstant.2 fun c hc => by simp [isEnd, he.last c hc]
    have hdEnd : d.joinLines.Written (.many isBlank) isBlank isEnd :=
      have hjoin := written_joinLines hd
      hjoin.change hjoin.afterConstant fun c hc => by simp [isEnd, hjoin.last c hc]
    obtain rfl := text_inj classes_end heEnd hdEnd htext.symm
    exact ⟨rfl, (written_joinLines_iff hd).mp he⟩
  · rintro ⟨rfl, h⟩
    exact ⟨(written_joinLines_iff hd).mpr h, rfl⟩

end ModemFhss.RegParser
