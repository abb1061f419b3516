import Mathlib.Algebra.Order.Ring.Int
import ModemFhss.Library.Pattern
import ModemFhss.RegParser.Parse

/-!
# The register parser (`regmap.cpp`)

`regmap_c::Parse` reads a VHDL text block by block, up to each `;`. A block loses its comments and
then its line breaks, and what is left is an entry of the map if `m_rxValidator` matches it.

Whether the loop goes on is up to the state of the stream. `parse_eq` says where it stops: at the
first block that is empty, be it the end of the text or not.
-/

namespace ModemFhss.RegParser

open Pattern

/-! ## The expressions -/

/-- `[ \t]` -/
def isBlank (c : Char) : Bool := c = ' ' || c = '\t'

/-- `[\r\n\t\v]` -/
def isTrailing (c : Char) : Bool := c = '\r' || c = '\n' || c = '\t' || c = '\x0b'

/-- `[0-9]` -/
def isDecimal (c : Char) : Bool := '0' ≤ c && c ≤ '9'

def isLineBreak (c : Char) : Bool := c = '\r' || c = '\n'

/-- `m_rxComment`, less the line break or the end of the text after it. -/
def rxComment : List (Item Char) := [.many isBlank, .text "--".toList, .many (· != '\n')]

def rxValidator : List (Item Char) :=
  [.many isBlank, .text "constant".toList, .many1 isBlank, .text "ADDR_REG_".toList,
    .many1 isNameChar, .many isBlank, .text ":".toList, .many isBlank, .text "integer".toList,
    .many isBlank, .text ":=".toList, .many isBlank, .many1 isDecimal, .many isTrailing]

def rxRegName : List (Item Char) := [.text regNamePrefix, .many1 isNameChar]

/-- `regex_match`: the whole text. -/
def regexMatch (rx : List (Item Char)) (text : Text) : Bool :=
  match split rx text with
  | some (_, []) => true
  | _ => false

/-- How much of a text the match of `m_rxComment` at its beginning takes, zero without one. -/
def commentLength (text : Text) : Nat :=
  match split rxComment text with
  | none => 0
  | some (pieces, rest) => pieces.flatten.length + (rest.take 1).length

def removeComments (text : Text) : Text := Pattern.erase commentLength 0 text

def removeLineBreaks (text : Text) : Text := text.filter (! isLineBreak ·)

/-! ### What is left of comments -/

variable {text front line rest : Text} {c : Char}

/-- A comment begins here, after blanks perhaps. -/
def StartsComment (text : Text) : Prop :=
  ∃ front rest, (∀ c ∈ front, isBlank c = true) ∧ text = front ++ '-' :: '-' :: rest

/-- What the match of a comment takes, with the line of the comment and what follows it. -/
theorem commentLength_comment (hfront : ∀ c ∈ front, isBlank c = true) (hline : '\n' ∉ line)
    (hrest : ∀ c ∈ rest.head?, c = '\n') :
    commentLength (front ++ '-' :: '-' :: (line ++ rest)) =
      (front ++ '-' :: '-' :: line).length + (rest.take 1).length := by
  have hseparated : Separated (fun c => c = '\n') rxComment := by
    refine ⟨?_, trivial, ?_, trivial⟩
    · rintro c rfl
      decide
    · rintro c rfl
      decide
  have hfits : Pattern.Fits rxComment [front, "--".toList, line] := by
    refine .cons hfront (.cons rfl (.cons (fun c hc => ?_) .nil))
    exact bne_iff_ne.mpr fun heq => hline (heq ▸ hc)
  have htext : front ++ '-' :: '-' :: (line ++ rest) =
      [front, "--".toList, line].flatten ++ rest := by
    simp
  rw [commentLength, htext, split_of_fits hseparated hfits hrest]
  simp

theorem commentLength_eq_zero (h : ¬ StartsComment text) : commentLength text = 0 := by
  unfold commentLength
  split
  · rfl
  · next ps rest hsplit =>
    obtain ⟨hfits, htext⟩ := fits_of_split hsplit
    simp only [Pattern.Fits, rxComment, List.forall₂_cons_left_iff,
      List.forall₂_nil_left_iff] at hfits
    obtain ⟨front, _, hfront, ⟨_, _, rfl, ⟨comment, _, -, rfl, rfl⟩, rfl⟩, rfl⟩ := hfits
    refine absurd ⟨front, comment ++ rest, hfront, ?_⟩ h
    rw [htext]
    simp

theorem removeComments_cons (h : ¬ StartsComment (c :: text)) :
    removeComments (c :: text) = c :: removeComments text :=
  erase_cons (commentLength_eq_zero h)

/-- A comment goes, and the blanks before it and the line break after it go with it. -/
theorem removeComments_comment (hfront : ∀ c ∈ front, isBlank c = true) (hline : '\n' ∉ line)
    (hrest : ∀ c ∈ rest.head?, c = '\n') :
    removeComments (front ++ '-' :: '-' :: (line ++ rest)) = removeComments (rest.drop 1) := by
  have hlength := commentLength_comment hfront hline hrest
  have htext : front ++ '-' :: '-' :: (line ++ rest) = (front ++ '-' :: '-' :: line) ++ rest := by
    simp
  have hdrop : rest.drop (rest.take 1).length = rest.drop 1 := by
    cases rest <;> rfl
  unfold removeComments
  rw [erase_match, hlength, htext, List.drop_length_add_append, hdrop]
  · rw [hlength]
    simp only [List.length_append, List.length_cons]
    omega
  · rw [hlength, htext]
    simp only [List.length_append, List.length_take]
    omega

theorem removeComments_eq_self (h : ¬ "--".toList <:+: text) : removeComments text = text := by
  refine Pattern.erase_eq_self_iff.mpr fun t ht _ => commentLength_eq_zero ?_
  rintro ⟨front, rest, -, rfl⟩
  exact h (List.IsInfix.trans ⟨front, rest, by simp⟩ ht.isInfix)

/-! ## A block -/

/-- Why `Parse` does not return. -/
inductive ParseError where
  /-- It throws `ERROR_PARSE` with the block. -/
  | parse (strBlock : Text)
  /-- `std::stoul` throws `std::out_of_range`. `throw (regmapExc_c)` does not let it out of `Parse`:
  `std::unexpected` ends the program. -/
  | outOfRange
  deriving DecidableEq, Repr

/-- The size of `unsigned long`, 32 bits or more. -/
structure UnsignedLong where
  bits : Nat
  le_bits : 32 ≤ bits

/-- `std::stoul (str, nullptr, 10)` for digits. -/
def stoul (long : UnsignedLong) (str : Text) : Option Nat :=
  let n := Nat.ofDigitChars 10 str 0
  if n < 2 ^ long.bits then some n else none

/-- What one block adds to the map. -/
def parseBlock (long : UnsignedLong) (block : Text) : Except ParseError (Option RegMapEntry) :=
  let strBlock := removeLineBreaks (removeComments block)
  if strBlock.length > 0 then
    if regexMatch rxValidator strBlock then
      match search rxRegName strBlock with
      | none => .error (.parse strBlock)
      | some str =>
        let strRegName := regName str
        match find ":=".toList strBlock with
        | none => .error (.parse strBlock)
        | some pos =>
          let strRegAddr := strBlock.drop (pos + ":=".length)
          match search [.many1 isDecimal] strRegAddr with
          | none => .error (.parse strBlock)
          | some str =>
            match stoul long str with
            | none => .error .outOfRange
            | some n =>
              let nRegAddr := UInt32.ofNat (n * 4 % 2 ^ long.bits)
              .ok (some { name := strRegName, address := nRegAddr })
    else
      .ok none
  else
    .ok none

/-! ## The stream -/

/-- `m_in`: the text from its position on, and `eofbit` and `failbit`. -/
structure Ifstream where
  rest : Text
  eof : Bool
  fail : Bool

namespace Ifstream

def good (s : Ifstream) : Bool := !s.eof && !s.fail

/-- `get (*sb, delim)`: what comes before the delimiter. To extract nothing is a failure. -/
def get (delim : Char) (s : Ifstream) : Text × Ifstream :=
  if s.good then
    let taken := s.rest.takeWhile (· != delim)
    let rest := s.rest.dropWhile (· != delim)
    (taken, { rest := rest, eof := rest.isEmpty, fail := taken.isEmpty })
  else
    ([], { s with fail := true })

/-- `seekg (off, std::ios_base::cur)`: `eofbit` is cleared, a stream that failed does not move. -/
def seekg (off : Nat) (s : Ifstream) : Ifstream :=
  if s.fail then
    { s with eof := false }
  else
    { s with rest := s.rest.drop off, eof := false }

end Ifstream

/-- `DELIMETER_TOKEN` -/
def delimiterToken : Char := ';'

/-- The loop of `Parse`, with the map made so far. -/
def parseLoop (long : UnsignedLong) :
    Nat → Ifstream → List RegMapEntry → Option (Except ParseError (List RegMapEntry))
  | 0, _, _ => none
  | fuel + 1, s, regmap =>
    if s.good then
      let (strBlock, s') := s.get delimiterToken
      match parseBlock long strBlock with
      | .error e => some (.error e)
      | .ok entry => parseLoop long fuel (s'.seekg 1) (regmap ++ entry.toList)
    else
      some (.ok regmap)

/-- `regmap_c::Parse` on a file with this text: the map it makes, or why it makes none. -/
def parse (long : UnsignedLong) (text : Text) : Option (Except ParseError (List RegMapEntry)) :=
  parseLoop long (text.length + 2) { rest := text, eof := false, fail := false } []

/-! ## Where the loop stops -/

/-- The blocks that are read: those before the first empty one. -/
def blocks (text : Text) : List Text := (text.splitOn delimiterToken).takeWhile (!·.isEmpty)

/-- The entries of these blocks, up to one that is an error. -/
def readBlocks (long : UnsignedLong) : List Text → Except ParseError (List RegMapEntry)
  | [] => .ok []
  | block :: bs =>
    match parseBlock long block with
    | .error e => .error e
    | .ok entry => (readBlocks long bs).map (entry.toList ++ ·)

variable {long : UnsignedLong} {fuel : Nat} {block : Text} {regmap : List RegMapEntry}

theorem parseBlock_nil : parseBlock long [] = .ok none := rfl

theorem blocks_eq_of_not_mem (h : delimiterToken ∉ block) :
    blocks block = if block = [] then [] else [block] := by
  rw [blocks, List.splitOn_eq_singleton h, List.takeWhile_cons]
  cases block <;> rfl

theorem blocks_append_cons (h : delimiterToken ∉ block) :
    blocks (block ++ delimiterToken :: text) =
      if block = [] then [] else block :: blocks text := by
  rw [blocks, List.splitOn_append_cons_self_of_not_mem h, List.takeWhile_cons]
  cases block <;> rfl

/-- A text begins with a block, which may be the last one or empty. -/
theorem exists_block (text : Text) :
    ∃ block rest, delimiterToken ∉ block ∧ text = block ++ rest ∧
      (rest = [] ∨ rest.head? = some delimiterToken) ∧
      blocks text = if block = [] then [] else block :: blocks (rest.drop 1) := by
  by_cases hmem : delimiterToken ∈ text
  · obtain ⟨block, rest, rfl, hblock⟩ := List.eq_append_cons_of_mem hmem
    exact ⟨block, delimiterToken :: rest, hblock, rfl, .inr rfl, blocks_append_cons hblock⟩
  · exact ⟨text, [], hmem, (List.append_nil text).symm, .inl rfl, blocks_eq_of_not_mem hmem⟩

theorem get_block (h : delimiterToken ∉ block)
    (htext : text = [] ∨ text.head? = some delimiterToken) :
    Ifstream.get delimiterToken { rest := block ++ text, eof := false, fail := false } =
      (block, { rest := text, eof := text.isEmpty, fail := block.isEmpty }) := by
  obtain ⟨htake, hdrop⟩ : (block ++ text).takeWhile (· != delimiterToken) = block ∧
      (block ++ text).dropWhile (· != delimiterToken) = text := by
    apply takeWhile_dropWhile_append
    · intro c hc
      exact bne_iff_ne.mpr fun heq => h (heq ▸ hc)
    · intro c hc
      rcases htext with rfl | hhead
      · cases hc
      · obtain rfl : delimiterToken = c := Option.some.inj (hhead.symm.trans hc)
        exact bne_self_eq_false _
  simp [Ifstream.get, Ifstream.good, htake, hdrop]

/-- A pass of the loop: an empty block is the last one. -/
theorem parseLoop_succ (h : delimiterToken ∉ block)
    (htext : text = [] ∨ text.head? = some delimiterToken) :
    parseLoop long (fuel + 1) { rest := block ++ text, eof := false, fail := false } regmap =
      match parseBlock long block with
      | .error e => some (.error e)
      | .ok entry =>
        parseLoop long fuel
          { rest := if block = [] then text else text.drop 1, eof := false, fail := block.isEmpty }
          (regmap ++ entry.toList) := by
  have hgood : Ifstream.good { rest := block ++ text, eof := false, fail := false } = true := rfl
  rw [parseLoop, if_pos hgood, get_block h htext]
  cases block <;> rfl

theorem parseLoop_eq (hfuel : text.length + 1 < fuel) :
    parseLoop long fuel { rest := text, eof := false, fail := false } regmap =
      some ((readBlocks long (blocks text)).map (regmap ++ ·)) := by
  induction fuel generalizing text regmap with
  | zero => exact absurd hfuel (Nat.not_lt_zero _)
  | succ fuel ih =>
    obtain ⟨block, rest, hblock, rfl, hrest, hblocks⟩ := exists_block text
    rw [parseLoop_succ hblock hrest, hblocks]
    rw [List.length_append] at hfuel
    by_cases hempty : block = []
    · subst hempty
      obtain ⟨fuel, rfl⟩ : ∃ n, fuel = n + 1 := Nat.exists_eq_succ_of_ne_zero (by omega)
      -- The stream has failed: this was the last pass.
      simp [parseBlock_nil, parseLoop, Ifstream.good, readBlocks, Except.map]
    · have hpos := List.length_pos_iff.mpr hempty
      have hfail : block.isEmpty = false := by simpa using hempty
      rw [if_neg hempty, if_neg hempty, hfail, readBlocks]
      cases parseBlock long block with
      | error e => rfl
      | ok entry =>
        dsimp only
        rw [ih (by rw [List.length_drop]; omega)]
        cases readBlocks long (blocks (rest.drop 1)) with
        | error e => rfl
        | ok entries => simp [Except.map]

/-- **`Parse` returns or throws on every text**, with the entries of the blocks before the first
empty one. -/
theorem parse_eq : parse long text = some (readBlocks long (blocks text)) := by
  rw [parse, parseLoop_eq (Nat.lt_succ_self _)]
  cases readBlocks long (blocks text) <;> simp [Except.map]

end ModemFhss.RegParser
