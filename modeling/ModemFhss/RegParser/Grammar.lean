import Mathlib.Data.List.Induction
import ModemFhss.RegParser.Declaration

/-!
# The language of the register parser

A `VhdlText` is a text without comments: statements, each with its semicolon. What it declares is up
to the grammar, in which tokens are separated by spaces, tabs and line breaks.

The parser has another language. It stops at an empty statement, it takes line breaks out before it
looks at a statement, and its expression allows a tab but no space before the semicolon; the name
loses the prefix wherever it stands, and the address is computed without looking whether it fits.
`parse_reads_iff` says which texts it reads as the grammar does.
-/

namespace ModemFhss.RegParser

open Pattern

structure VhdlText where
  statements : List Text
  /-- What follows the last semicolon. -/
  tail : Text
  no_delimiter : ∀ s ∈ statements, delimiterToken ∉ s
  no_comment : ∀ s ∈ statements, ¬ "--".toList <:+: s
  tail_space : ∀ c ∈ tail, isSpace c = true

/-- The address fits in 32 bits. -/
def Declaration.Addressable (d : Declaration) : Prop := 4 * d.value < 2 ^ 32

instance (d : Declaration) : Decidable d.Addressable := inferInstanceAs (Decidable (_ < _))

/-- The entry of a declaration. -/
def Declaration.entry (d : Declaration) : RegMapEntry where
  name := d.name.map Char.toLower
  address := UInt32.ofNat (4 * d.value)

namespace VhdlText

def text (file : VhdlText) : Text :=
  (file.statements.map (· ++ [delimiterToken])).flatten ++ file.tail

/-- The first statements of a text. -/
def take (file : VhdlText) (n : Nat) : VhdlText where
  statements := file.statements.take n
  tail := file.tail
  no_delimiter s hs := file.no_delimiter s (List.mem_of_mem_take hs)
  no_comment s hs := file.no_comment s (List.mem_of_mem_take hs)
  tail_space := file.tail_space

/-- The statements up to an empty one. -/
def seen (file : VhdlText) : List Text := file.statements.takeWhile (!·.isEmpty)

/-- An empty statement and those after it. -/
def unseen (file : VhdlText) : List Text := file.statements.dropWhile (!·.isEmpty)

/-- What the text declares, in its order. -/
def declarations (file : VhdlText) : List Declaration :=
  file.statements.filterMap (declared isSpace isSpace)

/-- `Parse` returns the registers that are declared, or throws if an address does not fit. -/
def Reads (long : UnsignedLong) (file : VhdlText) : Prop :=
  if ∀ d ∈ file.declarations, d.Addressable then
    parse long file.text = some (.ok (file.declarations.map Declaration.entry))
  else
    ∃ strBlock, parse long file.text = some (.error (.parse strBlock))

end VhdlText

/-- A statement that the parser reads as the grammar does. -/
structure Regular (s : Text) : Prop where
  /-- A declaration has a blank after `constant` and no space at its end; the prefix is not part of
  the name, and the address fits. -/
  declaration : ∀ d, declared isSpace isSpace s = some d →
    (∃ c ∈ d.afterConstant, isBlank c = true) ∧ ' ' ∉ d.last ∧ ¬ regNamePrefix <:+: d.name ∧
      d.Addressable
  /-- No other statement is taken for one on one line. -/
  other : declared isSpace isSpace s = none → regexMatch rxValidator (removeLineBreaks s) = false

/-- The statements up to an empty one are regular, and none after it is a declaration. -/
structure VhdlText.Regular (file : VhdlText) : Prop where
  seen : ∀ s ∈ file.seen, RegParser.Regular s
  unseen : ∀ s ∈ file.unseen, declared isSpace isSpace s = none

/-! ## A statement -/

variable {long : UnsignedLong} {s text : Text} {d : Declaration} {bs bs' : List Text}
  {file : VhdlText}

/-- A statement that is no declaration is none for the parser if it is none on one line. -/
theorem parseBlock_eq_none_iff (h : ¬ "--".toList <:+: s) :
    parseBlock long s = .ok none ↔ regexMatch rxValidator (removeLineBreaks s) = false := by
  rw [regexMatch_rxValidator]
  cases hline : declared isBlank isTrailing (removeLineBreaks s) with
  | none =>
    rw [← removeComments_eq_self h] at hline
    simp [parseBlock_of_none hline]
  | some d =>
    rw [← removeComments_eq_self h] at hline
    rw [parseBlock_of_some hline]
    split <;> simp

/-- A declaration is read as it is meant. -/
theorem parseBlock_eq_entry_iff (h : ¬ "--".toList <:+: s)
    (hd : d.Written (.many1 isSpace) isSpace isSpace) (hs : s = d.text) (hfits : d.Addressable) :
    parseBlock long s = .ok (some d.entry) ↔
      (∃ c ∈ d.afterConstant, isBlank c = true) ∧ ' ' ∉ d.last ∧ ¬ regNamePrefix <:+: d.name := by
  subst hs
  have hline : ∀ e,
      declared isBlank isTrailing (removeLineBreaks (removeComments d.text)) = some e ↔
        e = d.joinLines ∧ (∃ c ∈ d.afterConstant, isBlank c = true) ∧ ' ' ∉ d.last := by
    intro e
    rw [removeComments_eq_self h, declared_removeLineBreaks hd]
  by_cases hseen : (∃ c ∈ d.afterConstant, isBlank c = true) ∧ ' ' ∉ d.last
  · have hpow : 2 ^ 32 ≤ 2 ^ long.bits := Nat.pow_le_pow_right (by decide) long.le_bits
    have hvalue : d.joinLines.value = d.value := rfl
    unfold Declaration.Addressable at hfits
    have hlt : d.value < 2 ^ long.bits := by omega
    have haddress : d.value * 4 % 2 ^ long.bits = 4 * d.value := by
      rw [Nat.mod_eq_of_lt (by omega), Nat.mul_comm]
    rw [parseBlock_of_some ((hline _).mpr ⟨rfl, hseen⟩), hvalue, if_pos hlt, haddress]
    have hname : regName (regNamePrefix ++ d.joinLines.name) = d.name.map Char.toLower ↔
        ¬ regNamePrefix <:+: d.name := regName_eq_iff
    rw [← hname]
    simp [Declaration.entry, hseen]
  · have hnone : declared isBlank isTrailing (removeLineBreaks (removeComments d.text)) = none :=
      Option.eq_none_iff_forall_ne_some.mpr fun e he => hseen ((hline e).mp he).2
    rw [parseBlock_of_none hnone]
    constructor
    · exact nofun
    · rintro ⟨hblank, hspace, -⟩
      exact absurd ⟨hblank, hspace⟩ hseen

/-- **The parser reads a statement as the grammar does** exactly if it is regular. -/
theorem parseBlock_eq_iff (h : ¬ "--".toList <:+: s) :
    (parseBlock long s = .ok ((declared isSpace isSpace s).map Declaration.entry) ∧
      ∀ d ∈ declared isSpace isSpace s, d.Addressable) ↔ Regular s := by
  cases hdeclared : declared isSpace isSpace s with
  | none =>
    rw [Option.map_none, parseBlock_eq_none_iff h]
    constructor
    · rintro ⟨hother, -⟩
      constructor
      · intro d hd
        rw [hdeclared] at hd
        cases hd
      · intro _
        exact hother
    · intro hregular
      exact ⟨hregular.other hdeclared, fun d hd => nomatch hd⟩
  | some d =>
    obtain ⟨hd, hs⟩ := (declared_eq_some_iff classes_space).mp hdeclared
    rw [Option.map_some]
    constructor
    · rintro ⟨hparse, hfits⟩
      obtain ⟨hblank, hspace, hname⟩ := (parseBlock_eq_entry_iff h hd hs (hfits d rfl)).mp hparse
      constructor
      · intro e he
        obtain rfl : d = e := Option.some.inj (hdeclared.symm.trans he)
        exact ⟨hblank, hspace, hname, hfits d rfl⟩
      · intro hnone
        rw [hdeclared] at hnone
        cases hnone
    · intro hregular
      obtain ⟨hblank, hspace, hname, hfits⟩ := hregular.declaration d hdeclared
      constructor
      · exact (parseBlock_eq_entry_iff h hd hs hfits).mpr ⟨hblank, hspace, hname⟩
      · intro e he
        obtain rfl : d = e := Option.some.inj he
        exact hfits

/-! ## The blocks of a text -/

/-- What is read of statements and a text after them: the statements up to an empty one, and the
text if there is none. -/
theorem blocks_statements (h : ∀ s ∈ bs, delimiterToken ∉ s) (htext : delimiterToken ∉ text) :
    ∃ rest, blocks ((bs.map (· ++ [delimiterToken])).flatten ++ text) =
      bs.takeWhile (!·.isEmpty) ++ rest ∧ ∀ s ∈ rest, s = text := by
  induction bs with
  | nil =>
    refine ⟨blocks text, rfl, fun s hs => ?_⟩
    rw [blocks_eq_of_not_mem htext] at hs
    split at hs
    · cases hs
    · exact List.mem_singleton.mp hs
  | cons s bs ih =>
    have happend : (((s :: bs).map (· ++ [delimiterToken])).flatten ++ text) =
        s ++ delimiterToken :: ((bs.map (· ++ [delimiterToken])).flatten ++ text) := by
      simp
    rw [happend, blocks_append_cons (h s List.mem_cons_self), List.takeWhile_cons]
    by_cases hempty : s = []
    · exact ⟨[], by simp [hempty], fun s hs => nomatch hs⟩
    · obtain ⟨rest, hrest, hmem⟩ := ih fun s hs => h s (List.mem_cons_of_mem _ hs)
      have hne : (!s.isEmpty) = true := by simp [hempty]
      rw [if_neg hempty, if_pos hne, hrest]
      exact ⟨rest, rfl, hmem⟩

theorem readBlocks_append :
    readBlocks long (bs ++ bs') =
      match readBlocks long bs with
      | .error e => .error e
      | .ok entries => (readBlocks long bs').map (entries ++ ·) := by
  induction bs with
  | nil =>
    rw [List.nil_append, readBlocks]
    cases readBlocks long bs' <;> simp [Except.map]
  | cons block bs ih =>
    rw [List.cons_append, readBlocks, readBlocks]
    cases parseBlock long block with
    | error e => rfl
    | ok entry =>
      dsimp only
      rw [ih]
      cases readBlocks long bs with
      | error e => rfl
      | ok entries => cases readBlocks long bs' <;> simp [Except.map]

/-- Blocks that add nothing. -/
theorem readBlocks_eq_nil (h : ∀ s ∈ bs, parseBlock long s = .ok none) :
    readBlocks long bs = .ok [] := by
  induction bs with
  | nil => rfl
  | cons s bs ih =>
    rw [readBlocks, h s List.mem_cons_self, ih fun s hs => h s (List.mem_cons_of_mem _ hs)]
    rfl

theorem readBlocks_ne_parse (strBlock : Text) : readBlocks long bs ≠ .error (.parse strBlock) := by
  induction bs with
  | nil =>
    intro heq
    cases heq
  | cons block bs ih =>
    rw [readBlocks]
    have hblock : parseBlock long block ≠ .error (.parse strBlock) := parseBlock_ne_parse strBlock
    cases hparse : parseBlock long block with
    | error e => simpa [hparse] using hblock
    | ok entry =>
      cases hbs : readBlocks long bs with
      | error e => simpa [hbs, Except.map] using ih
      | ok entries =>
        intro heq
        cases heq

theorem parseBlock_tail : parseBlock long file.tail = .ok none := by
  have hcomment : ¬ "--".toList <:+: file.tail := by
    intro hinfix
    have hmem : '-' ∈ file.tail := hinfix.subset (by decide)
    exact absurd (file.tail_space '-' hmem) (by decide)
  apply parseBlock_of_none
  apply Option.eq_none_iff_forall_ne_some.mpr
  intro d hd
  obtain ⟨-, htext⟩ := (declared_eq_some_iff classes_blank).mp hd
  rw [removeComments_eq_self hcomment] at htext
  have hmem : ':' ∈ removeLineBreaks file.tail := by
    rw [htext]
    simp [Declaration.text, Declaration.pieces]
  exact absurd (file.tail_space ':' (mem_removeLineBreaks.mp hmem).1) (by decide)

/-- **What is read of a text**: its statements up to an empty one. -/
theorem parse_text : parse long file.text = some (readBlocks long file.seen) := by
  have htail : delimiterToken ∉ file.tail := fun hmem =>
    absurd (file.tail_space delimiterToken hmem) (by decide)
  obtain ⟨rest, hrest, hmem⟩ := blocks_statements file.no_delimiter htail
  have hnil : readBlocks long rest = .ok [] := readBlocks_eq_nil fun s hs => by
    rw [hmem s hs]
    exact parseBlock_tail
  rw [parse_eq, VhdlText.text, hrest, readBlocks_append, hnil]
  unfold VhdlText.seen
  cases readBlocks long (file.statements.takeWhile (!·.isEmpty)) <;> simp [Except.map]

theorem reads_iff : file.Reads long ↔
    (∀ d ∈ file.declarations, d.Addressable) ∧
      readBlocks long file.seen = .ok (file.declarations.map Declaration.entry) := by
  unfold VhdlText.Reads
  rw [parse_text, Option.some_inj]
  split
  · next hfits => exact ⟨fun h => ⟨hfits, h⟩, fun h => h.2⟩
  · next hfits =>
    constructor
    · rintro ⟨strBlock, h⟩
      exact absurd (Option.some.inj h) (readBlocks_ne_parse strBlock)
    · exact fun h => absurd h.1 hfits

/-! ## Statement by statement -/

/-- The entries that the grammar makes of statements. -/
def entries (bs : List Text) : List RegMapEntry :=
  (bs.filterMap (declared isSpace isSpace)).map Declaration.entry

/-- One more statement. -/
theorem readBlocks_concat_iff (hbs : readBlocks long bs = .ok (entries bs)) :
    readBlocks long (bs ++ [s]) = .ok (entries (bs ++ [s])) ↔
      parseBlock long s = .ok ((declared isSpace isSpace s).map Declaration.entry) := by
  rw [readBlocks_append, hbs, entries, entries, List.filterMap_append, List.map_append]
  dsimp only
  rw [readBlocks, readBlocks]
  cases parseBlock long s with
  | error e => simp [Except.map]
  | ok entry =>
    cases hdeclared : declared isSpace isSpace s <;> cases entry <;> simp [Except.map, hdeclared]

theorem readBlocks_of_regular (hcomment : ∀ s ∈ bs, ¬ "--".toList <:+: s)
    (h : ∀ s ∈ bs, Regular s) : readBlocks long bs = .ok (entries bs) := by
  induction bs using List.reverseRecOn with
  | nil => rfl
  | append_singleton bs s ih =>
    have hmem : s ∈ bs ++ [s] := by simp
    have hbs : readBlocks long bs = .ok (entries bs) :=
      ih (fun s hs => hcomment s (by simp [hs])) (fun s hs => h s (by simp [hs]))
    exact (readBlocks_concat_iff hbs).mpr ((parseBlock_eq_iff (hcomment s hmem)).mpr (h s hmem)).1

theorem mem_takeWhile_take {p : Text → Bool} {n : Nat} (h : s ∈ (bs.take n).takeWhile p) :
    s ∈ bs.takeWhile p := by
  induction bs generalizing n with
  | nil => simp at h
  | cons b bs ih =>
    cases n with
    | zero => simp at h
    | succ n =>
      rw [List.take_succ_cons, List.takeWhile_cons] at h
      rw [List.takeWhile_cons]
      by_cases hb : p b = true
      · rw [if_pos hb] at h ⊢
        rcases List.mem_cons.mp h with rfl | h
        · exact List.mem_cons_self
        · exact List.mem_cons_of_mem _ (ih h)
      · rw [if_neg hb] at h
        cases h

theorem mem_dropWhile_take {p : Text → Bool} {n : Nat} (h : s ∈ (bs.take n).dropWhile p) :
    s ∈ bs.dropWhile p := by
  induction bs generalizing n with
  | nil => simp at h
  | cons b bs ih =>
    cases n with
    | zero => simp at h
    | succ n =>
      rw [List.take_succ_cons, List.dropWhile_cons] at h
      rw [List.dropWhile_cons]
      by_cases hb : p b = true
      · rw [if_pos hb] at h ⊢
        exact ih h
      · rw [if_neg hb, ← List.take_succ_cons] at h
        rw [if_neg hb]
        exact List.mem_of_mem_take h

theorem VhdlText.Regular.take (h : file.Regular) (n : Nat) : (file.take n).Regular where
  seen s hs := h.seen s (mem_takeWhile_take hs)
  unseen s hs := h.unseen s (mem_dropWhile_take hs)

theorem statements_eq : file.statements = file.seen ++ file.unseen :=
  List.takeWhile_append_dropWhile.symm

theorem declarations_eq : file.declarations =
    file.seen.filterMap (declared isSpace isSpace) ++
      file.unseen.filterMap (declared isSpace isSpace) := by
  unfold VhdlText.declarations
  rw [statements_eq, List.filterMap_append]

theorem not_isEmpty_of_mem_seen (h : s ∈ file.seen) : (!s.isEmpty) = true :=
  List.mem_takeWhile_imp (p := fun s : Text => !s.isEmpty) h

theorem reads_of_regular (h : file.Regular) : file.Reads long := by
  have hdeclarations : file.declarations = file.seen.filterMap (declared isSpace isSpace) := by
    rw [declarations_eq, List.filterMap_eq_nil_iff.mpr h.unseen, List.append_nil]
  apply reads_iff.mpr
  constructor
  · intro d hd
    rw [hdeclarations] at hd
    obtain ⟨s, hs, hdeclared⟩ := List.mem_filterMap.mp hd
    exact ((h.seen s hs).declaration d hdeclared).2.2.2
  · rw [hdeclarations]
    exact readBlocks_of_regular
      (fun s hs => file.no_comment s ((List.takeWhile_prefix _).subset hs)) h.seen

/-- What is read of the text that ends with the first of its statements, none of them empty. -/
theorem readBlocks_of_reads (h : (file.take bs.length).Reads long)
    (hseen : file.seen = bs ++ bs') :
    (∀ d ∈ bs.filterMap (declared isSpace isSpace), d.Addressable) ∧
      readBlocks long bs = .ok (entries bs) := by
  have hstatements : file.statements = bs ++ (bs' ++ file.unseen) := by
    rw [statements_eq, hseen, List.append_assoc]
  have htake : (file.take bs.length).statements = bs := by
    simp [VhdlText.take, hstatements]
  have hall : (file.take bs.length).seen = bs := by
    rw [VhdlText.seen, htake]
    apply List.takeWhile_eq_self_iff.mpr
    intro s hs
    have hmem : s ∈ file.seen := by
      rw [hseen]
      exact List.mem_append_left _ hs
    exact not_isEmpty_of_mem_seen hmem
  have hreads := reads_iff.mp h
  rw [VhdlText.declarations, hall, htake] at hreads
  exact hreads

/-- **Which texts the parser reads as the grammar does**, with all their beginnings. -/
theorem parse_reads_iff : (∀ n, (file.take n).Reads long) ↔ file.Regular := by
  constructor
  · intro h
    constructor
    · intro s hs
      -- The text up to the statement, and the text with it.
      obtain ⟨bs, rest, hsplit⟩ := List.append_of_mem hs
      have hbs := readBlocks_of_reads (h _) hsplit
      have hbs' := readBlocks_of_reads (h _) (hsplit.trans (List.append_cons bs s rest))
      refine (parseBlock_eq_iff (file.no_comment s ?_)).mp
        ⟨(readBlocks_concat_iff hbs.2).mp hbs'.2, fun d hd => hbs'.1 d ?_⟩
      · exact (List.takeWhile_prefix _).subset hs
      · exact List.mem_filterMap.mpr ⟨s, by simp, hd⟩
    · have hseen := (readBlocks_of_reads (h _) (List.append_nil file.seen).symm).2
      have hwhole : file.Reads long := by
        have htake : file.take file.statements.length = file := by
          simp [VhdlText.take]
        exact htake ▸ h file.statements.length
      have hentries := Except.ok.inj (hseen.symm.trans (reads_iff.mp hwhole).2)
      have hlength := congrArg List.length hentries
      rw [declarations_eq, entries, List.length_map, List.length_map, List.length_append] at hlength
      exact List.filterMap_eq_nil_iff.mp (List.eq_nil_of_length_eq_zero (by omega))
  · intro h n
    exact reads_of_regular (h.take n)

/-- An empty statement and a declaration. -/
def emptyFirst : VhdlText where
  statements := [[], "constant ADDR_REG_X : integer := 1".toList]
  tail := []
  no_delimiter := by decide
  no_comment := by decide +kernel
  tail_space c hc := nomatch hc

/-- The declaration after an empty statement is lost. -/
theorem emptyFirst_lost :
    parse { bits := 32, le_bits := le_rfl } emptyFirst.text = some (.ok []) ∧
      ¬ emptyFirst.Reads { bits := 32, le_bits := le_rfl } := by
  constructor
  · decide +kernel
  · intro h
    have hread : readBlocks { bits := 32, le_bits := le_rfl } emptyFirst.seen = .ok [] := rfl
    have hdeclared : emptyFirst.declarations.map Declaration.entry ≠ [] := by decide +kernel
    exact hdeclared (Except.ok.inj (hread.symm.trans (reads_iff.mp h).2)).symm

end ModemFhss.RegParser
