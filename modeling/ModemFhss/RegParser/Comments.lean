import ModemFhss.RegParser.Declaration

/-!
# Comments in the text of the registers

`--` begins a comment, which lasts to the end of its line. The `skeleton` of a text is what is left
when the text of its comments goes, so two texts of one skeleton differ in their comments only.

The parser looks for semicolons before it looks for comments. A semicolon in a comment ends a block,
and what follows it in the comment is read as VHDL. `parse_congr_iff` says that no other character
of a comment makes a difference.
-/

namespace ModemFhss.RegParser

/-- Where a character of a text stands. -/
inductive Mode where
  | code
  /-- After a `-`. -/
  | dash
  /-- After `--`, up to the end of the line. -/
  | comment
  deriving DecidableEq, Repr

def Mode.next (m : Mode) (c : Char) : Mode :=
  match m with
  | .code => if c = '-' then .dash else .code
  | .dash => if c = '-' then .comment else .code
  | .comment => if c = '\n' then .code else .comment

/-- The character belongs to the text of a comment. -/
def Mode.hides (m : Mode) (c : Char) : Bool := m = .comment && c != '\n'

/-- A text without the text of its comments. -/
def skeleton : Mode → Text → Text
  | _, [] => []
  | m, c :: cs => if m.hides c then skeleton (m.next c) cs else c :: skeleton (m.next c) cs

/-- The text of the comments. -/
def commentText : Mode → Text → Text
  | _, [] => []
  | m, c :: cs => if m.hides c then c :: commentText (m.next c) cs else commentText (m.next c) cs

/-! ## Skeletons -/

variable {m : Mode} {text front line rest s t : Text} {c : Char}
  {long : UnsignedLong}

theorem skeleton_append :
    skeleton m (s ++ t) = skeleton m s ++ skeleton (s.foldl Mode.next m) t := by
  induction s generalizing m with
  | nil => rfl
  | cons c s ih =>
    rw [List.cons_append, skeleton, skeleton, List.foldl_cons]
    split
    · exact ih
    · rw [ih, List.cons_append]

theorem commentText_append :
    commentText m (s ++ t) = commentText m s ++ commentText (s.foldl Mode.next m) t := by
  induction s generalizing m with
  | nil => rfl
  | cons c s ih =>
    rw [List.cons_append, commentText, commentText, List.foldl_cons]
    split
    · rw [ih, List.cons_append]
    · exact ih

theorem skeleton_sublist : (skeleton m text).Sublist text := by
  induction text generalizing m with
  | nil => exact .slnil
  | cons c cs ih =>
    unfold skeleton
    split
    · exact ih.cons c
    · exact ih.cons_cons c

/-- Outside comments every character stays. -/
theorem skeleton_cons (hm : m ≠ .comment) :
    skeleton m (c :: text) = c :: skeleton (m.next c) text := by
  rw [skeleton, if_neg]
  simp [Mode.hides, hm]

theorem next_of_isBlank (h : isBlank c = true) : Mode.next .code c = .code := by
  simp only [isBlank, Bool.or_eq_true, decide_eq_true_eq] at h
  rcases h with rfl | rfl <;> rfl

theorem skeleton_blanks (hfront : ∀ c ∈ front, isBlank c = true) :
    skeleton .code (front ++ text) = front ++ skeleton .code text := by
  induction front with
  | nil => rfl
  | cons c front ih =>
    rw [List.cons_append, skeleton_cons (by decide), next_of_isBlank (hfront c List.mem_cons_self),
      ih fun c hc => hfront c (List.mem_cons_of_mem _ hc), List.cons_append]

/-- A text begins with a line, which may be the last one. -/
theorem exists_line (text : Text) :
    ∃ line rest, '\n' ∉ line ∧ text = line ++ rest ∧ ∀ c ∈ rest.head?, c = '\n' := by
  by_cases hmem : '\n' ∈ text
  · obtain ⟨line, rest, rfl, hline⟩ := List.eq_append_cons_of_mem hmem
    exact ⟨line, '\n' :: rest, hline, rfl, fun c hc => (Option.some.inj hc).symm⟩
  · exact ⟨text, [], hmem, (List.append_nil text).symm, fun c hc => nomatch hc⟩

/-- The rest of the line goes. -/
theorem skeleton_line (hline : '\n' ∉ line) (hrest : ∀ c ∈ rest.head?, c = '\n') :
    skeleton .comment (line ++ rest) = rest.take 1 ++ skeleton .code (rest.drop 1) := by
  induction line with
  | nil =>
    cases rest with
    | nil => rfl
    | cons c rest =>
      obtain rfl := hrest c rfl
      rfl
  | cons c line ih =>
    obtain ⟨hc, hline⟩ := List.ne_and_not_mem_of_not_mem_cons hline
    have hhides : Mode.hides .comment c = true := by simp [Mode.hides, Ne.symm hc]
    have hnext : Mode.next .comment c = .comment := if_neg (Ne.symm hc)
    rw [List.cons_append, skeleton, if_pos hhides, hnext]
    exact ih hline

theorem skeleton_comment (hfront : ∀ c ∈ front, isBlank c = true) (hline : '\n' ∉ line)
    (hrest : ∀ c ∈ rest.head?, c = '\n') :
    skeleton .code (front ++ '-' :: '-' :: (line ++ rest)) =
      front ++ '-' :: '-' :: (rest.take 1 ++ skeleton .code (rest.drop 1)) := by
  rw [skeleton_blanks hfront, skeleton_cons (by decide), skeleton_cons (by decide)]
  exact congrArg (fun t => front ++ '-' :: '-' :: t) (skeleton_line hline hrest)

/-- Where no comment begins, the character stays and the code goes on. -/
theorem skeleton_code (h : ¬ StartsComment (c :: text)) :
    skeleton .code (c :: text) = c :: skeleton .code text := by
  rw [skeleton_cons (by decide)]
  by_cases hc : c = '-'
  · subst hc
    cases text with
    | nil => rfl
    | cons d text =>
      have hd : d ≠ '-' := by
        rintro rfl
        exact h ⟨[], text, by simp, rfl⟩
      have hdash : Mode.next .dash d = .code := if_neg hd
      have hcode : Mode.next .code d = .code := if_neg hd
      have hnext : Mode.next .code '-' = .dash := rfl
      rw [hnext, skeleton_cons (by decide), skeleton_cons (by decide), hdash, hcode]
  · have hnext : Mode.next .code c = .code := if_neg hc
    rw [hnext]

/-- A comment begins in the skeleton where one begins in the text. -/
theorem startsComment_skeleton (h : StartsComment (skeleton .code text)) : StartsComment text := by
  obtain ⟨front, rest, hfront, hskeleton⟩ := h
  induction front generalizing text with
  | nil =>
    cases text with
    | nil => cases hskeleton
    | cons c text =>
      rw [skeleton_cons (by decide)] at hskeleton
      obtain ⟨rfl, hdash⟩ := List.cons.inj hskeleton
      cases text with
      | nil => cases hdash
      | cons d text =>
        have hnext : Mode.next .code '-' = .dash := rfl
        rw [hnext, skeleton_cons (by decide)] at hdash
        obtain rfl := (List.cons.inj hdash).1
        exact ⟨[], text, hfront, rfl⟩
  | cons b front ih =>
    cases text with
    | nil => cases hskeleton
    | cons c text =>
      rw [skeleton_cons (by decide), List.cons_append] at hskeleton
      obtain ⟨rfl, htail⟩ := List.cons.inj hskeleton
      have hblank := hfront c List.mem_cons_self
      rw [next_of_isBlank hblank] at htail
      obtain ⟨front', rest', hfront', rfl⟩ :=
        ih (fun d hd => hfront d (List.mem_cons_of_mem _ hd)) htail
      refine ⟨c :: front', rest', fun d hd => ?_, rfl⟩
      rcases List.mem_cons.mp hd with rfl | hd
      · exact hblank
      · exact hfront' d hd

/-- **A block loses its comments**, whatever they say. -/
theorem removeComments_skeleton : removeComments (skeleton .code text) = removeComments text := by
  induction hn : text.length using Nat.strong_induction_on generalizing text with
  | _ n ih =>
    subst hn
    by_cases hstarts : StartsComment text
    · obtain ⟨front, text, hfront, rfl⟩ := hstarts
      obtain ⟨line, rest, hline, rfl, hrest⟩ := exists_line text
      rw [skeleton_comment hfront hline hrest, removeComments_comment hfront hline hrest]
      cases rest with
      | nil =>
        have hremove : removeComments (front ++ '-' :: '-' :: ([] ++ [])) = removeComments [] :=
          removeComments_comment hfront List.not_mem_nil fun c hc => nomatch hc
        exact hremove
      | cons c rest =>
        obtain rfl := hrest c rfl
        have hremove : removeComments (front ++ '-' :: '-' :: ([] ++ '\n' :: skeleton .code rest)) =
            removeComments (skeleton .code rest) :=
          removeComments_comment hfront List.not_mem_nil fun c hc => (Option.some.inj hc).symm
        exact hremove.trans (ih _ (by simp; omega) rfl)
    · cases text with
      | nil => rfl
      | cons c text =>
        rw [skeleton_code hstarts, removeComments_cons hstarts, removeComments_cons]
        · rw [ih _ (Nat.lt_succ_self _) rfl]
        · rw [← skeleton_code hstarts]
          exact mt startsComment_skeleton hstarts

/-- A delimiter outside comments is one of the skeleton, and code follows it. -/
theorem skeleton_delimiter (text : Text) (hm : m ≠ .comment) :
    skeleton m (delimiterToken :: text) = delimiterToken :: skeleton .code text ∧
      commentText m (delimiterToken :: text) = commentText .code text := by
  cases m with
  | code => exact ⟨rfl, rfl⟩
  | dash => exact ⟨rfl, rfl⟩
  | comment => exact absurd rfl hm

theorem skeleton_eq_nil_iff : skeleton .code text = [] ↔ text = [] := by
  cases text with
  | nil => exact ⟨fun _ => rfl, fun _ => rfl⟩
  | cons c text =>
    rw [skeleton_cons (by decide)]
    exact ⟨nofun, nofun⟩

/-- **A text has the blocks of its skeleton** if there is no semicolon in a comment. -/
theorem blocks_skeleton (h : delimiterToken ∉ commentText .code text) :
    blocks (skeleton .code text) = (blocks text).map (skeleton .code) := by
  induction hn : text.length using Nat.strong_induction_on generalizing text with
  | _ n ih =>
    subst hn
    by_cases hmem : delimiterToken ∈ text
    · obtain ⟨block, rest, rfl, hblock⟩ := List.eq_append_cons_of_mem hmem
      rw [commentText_append, List.mem_append, not_or] at h
      have hm : block.foldl Mode.next .code ≠ .comment := by
        intro hcomment
        rw [hcomment] at h
        exact h.2 List.mem_cons_self
      obtain ⟨hskeleton, hcomment⟩ := skeleton_delimiter rest hm
      rw [hcomment] at h
      rw [skeleton_append, hskeleton, blocks_append_cons hblock,
        blocks_append_cons fun hmem' => hblock (skeleton_sublist.subset hmem')]
      by_cases hempty : block = []
      · rw [if_pos hempty, if_pos (skeleton_eq_nil_iff.mpr hempty)]
        rfl
      · rw [if_neg hempty, if_neg (mt skeleton_eq_nil_iff.mp hempty), List.map_cons,
          ih _ (by simp; omega) h.2 rfl]
    · rw [blocks_eq_of_not_mem hmem,
        blocks_eq_of_not_mem fun hmem' => hmem (skeleton_sublist.subset hmem')]
      by_cases hempty : text = []
      · rw [if_pos hempty, if_pos (skeleton_eq_nil_iff.mpr hempty)]
        rfl
      · rw [if_neg hempty, if_neg (mt skeleton_eq_nil_iff.mp hempty)]
        rfl

theorem parseBlock_skeleton : parseBlock long (skeleton .code text) = parseBlock long text := by
  unfold parseBlock
  rw [removeComments_skeleton]

theorem readBlocks_skeleton {bs : List Text} :
    readBlocks long (bs.map (skeleton .code)) = readBlocks long bs := by
  induction bs with
  | nil => rfl
  | cons block bs ih => rw [List.map_cons, readBlocks, readBlocks, parseBlock_skeleton, ih]

/-- **The parser reads the skeleton** if there is no semicolon in a comment. -/
theorem parse_skeleton (h : delimiterToken ∉ commentText .code text) :
    parse long (skeleton .code text) = parse long text := by
  rw [parse_eq, parse_eq, blocks_skeleton h, readBlocks_skeleton]

/-! ## Which characters a comment may hold -/

/-- A declaration after a comment. -/
def commented (comment : Text) : Text :=
  "--".toList ++ comment ++ "\nconstant ADDR_REG_X : integer := 1;".toList

theorem blocks_commented_nil :
    blocks (commented []) = ["--\nconstant ADDR_REG_X : integer := 1".toList] := by
  decide +kernel

theorem blocks_commented_delimiters : blocks (commented ";;".toList) = ["--".toList] := by
  decide +kernel

/-- Without a comment text the declaration is read, or its number is too large. -/
theorem parse_commented_nil : parse long (commented []) ≠ some (.ok []) := by
  obtain ⟨d, hd⟩ : ∃ d, declared isBlank isTrailing (removeLineBreaks (removeComments
      "--\nconstant ADDR_REG_X : integer := 1".toList)) = some d :=
    Option.isSome_iff_exists.mp (by decide +kernel)
  rw [parse_eq, blocks_commented_nil, readBlocks, parseBlock_of_some hd]
  by_cases hvalue : d.value < 2 ^ long.bits
  · rw [if_pos hvalue]
    simp [readBlocks, Except.map]
  · rw [if_neg hvalue]
    simp

/-- Semicolons in the comment end the text for the parser. -/
theorem parse_commented_delimiters : parse long (commented ";;".toList) = some (.ok []) := by
  rw [parse_eq, blocks_commented_delimiters]
  rfl

/-- **Comments do not matter to the parser** as long as semicolons are not allowed in them. -/
theorem parse_congr_iff (allowed : Char → Prop) :
    (∀ t₁ t₂, skeleton .code t₁ = skeleton .code t₂ →
      (∀ c ∈ commentText .code t₁, allowed c) → (∀ c ∈ commentText .code t₂, allowed c) →
        parse long t₁ = parse long t₂) ↔ ¬ allowed delimiterToken := by
  constructor
  · intro h hdelimiter
    have hskeleton : skeleton .code (commented []) = skeleton .code (commented ";;".toList) := by
      decide +kernel
    have hnil : commentText .code (commented []) = [] := by decide +kernel
    have hdelimiters : commentText .code (commented ";;".toList) = ";;".toList := by
      decide +kernel
    refine parse_commented_nil ((h _ _ hskeleton ?_ ?_).trans parse_commented_delimiters)
    · rw [hnil]
      exact fun c hc => nomatch hc
    · rw [hdelimiters]
      intro c hc
      have heq : c = delimiterToken := by simpa [delimiterToken] using hc
      exact heq ▸ hdelimiter
  · intro hdelimiter t₁ t₂ hskeleton h₁ h₂
    rw [← parse_skeleton fun hmem => hdelimiter (h₁ _ hmem),
      ← parse_skeleton fun hmem => hdelimiter (h₂ _ hmem), hskeleton]

/-- A register is lost to the semicolons of a comment. -/
theorem commented_lost :
    skeleton .code (commented []) = skeleton .code (commented ";;".toList) ∧
      parse { bits := 32, le_bits := le_rfl } (commented []) =
        some (.ok [{ name := "x".toList, address := 4 }]) ∧
      parse { bits := 32, le_bits := le_rfl } (commented ";;".toList) = some (.ok []) := by
  decide +kernel

end ModemFhss.RegParser
