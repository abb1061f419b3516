import Mathlib.Data.List.Basic

/-!
# Reading a text line by line

The lines of a text, each with the end that closes it, and a reader with a buffer of `n`: it takes
a line up to its end, or the beginning of one that does not fit. A text of several lines comes out
of a buffer of its own size as its lines. A text of one line does not fit, since the last place of
the buffer is kept for a terminator: its last element comes by itself.

A reader whose buffer holds nothing but the terminator gives back nothing, for ever.
-/

namespace Lines

variable {α σ ε : Type*}

/-- The lines of a text. -/
def lines (isEnd : α → Bool) : List α → List (List α)
  | [] => []
  | c :: text =>
    if isEnd c then
      [c] :: lines isEnd text
    else
      match lines isEnd text with
      | [] => [[c]]
      | line :: rest => (c :: line) :: rest

/-- The beginning of a text through the end of a line, `n` elements at most, and what is left. -/
def takeLine (isEnd : α → Bool) : Nat → List α → List α × List α
  | 0, text => ([], text)
  | _ + 1, [] => ([], [])
  | n + 1, c :: text =>
    if isEnd c then
      ([c], text)
    else
      (c :: (takeLine isEnd n text).1, (takeLine isEnd n text).2)

/-- One read with a buffer of `n`, one place of it for the terminator. -/
def read (isEnd : α → Bool) (n : Nat) (text : List α) : Option (List α × List α) :=
  match n with
  | 0 => none
  | 1 => some ([], text)
  | n + 2 => if text = [] then none else some (takeLine isEnd (n + 1) text)

/-- Reads and passes on what was read, as long as there is something; `none` if that takes more
than `fuel` rounds. -/
def readLoop (isEnd : α → Bool) (n : Nat) (body : σ → List α → Except ε σ) :
    Nat → List α → σ → Option (Except ε σ)
  | 0, _, _ => none
  | fuel + 1, text, s =>
    match read isEnd n text with
    | none => some (.ok s)
    | some (buf, rest) =>
      match body s buf with
      | .error e => some (.error e)
      | .ok s => readLoop isEnd n body fuel rest s

/-- How a line comes out of a buffer of the size of the whole text. -/
def pieces [DecidableEq α] (text line : List α) : List (List α) :=
  if line = text then [line.dropLast, line.drop (line.length - 1)] else [line]

variable {isEnd : α → Bool} {n fuel : Nat} {body : σ → List α → Except ε σ} {s : σ} {c : α}
  {text line rest : List α} {ls : List (List α)}

/-- The first line of a text, and what a read takes of it. -/
theorem lines_eq_cons (isEnd : α → Bool) (h : text ≠ []) :
    ∃ line rest, lines isEnd text = line :: lines isEnd rest ∧ text = line ++ rest ∧ line ≠ [] ∧
      ∀ n, takeLine isEnd n text = (line.take n, line.drop n ++ rest) := by
  induction text with
  | nil => exact absurd rfl h
  | cons c text ih =>
    rcases Bool.eq_false_or_eq_true (isEnd c) with hend | hend
    · refine ⟨[c], text, by simp [lines, hend], rfl, by simp, fun n => ?_⟩
      cases n with
      | zero => rfl
      | succ n => simp [takeLine, hend]
    · cases text with
      | nil =>
        refine ⟨[c], [], by simp [lines, hend], rfl, by simp, fun n => ?_⟩
        cases n with
        | zero => rfl
        | succ n => cases n <;> simp [takeLine, hend]
      | cons d text =>
        obtain ⟨line, rest, hlines, happend, -, htake⟩ := ih (by simp)
        refine ⟨c :: line, rest, ?_, by rw [happend, List.cons_append], by simp, fun n => ?_⟩
        · rw [lines, hlines]
          simp [hend]
        · cases n with
          | zero => simp [takeLine, happend]
          | succ n => simp [takeLine, hend, htake]

theorem flatten_lines (isEnd : α → Bool) (text : List α) : (lines isEnd text).flatten = text := by
  generalize hn : text.length = n
  induction n using Nat.strongRecOn generalizing text with
  | ind n ih =>
    by_cases hnil : text = []
    · rw [hnil]
      rfl
    · obtain ⟨line, rest, hlines, happend, hne, -⟩ := lines_eq_cons isEnd hnil
      have hpos := List.length_pos_of_ne_nil hne
      have hlength := congrArg List.length happend
      rw [List.length_append] at hlength
      rw [hlines, List.flatten_cons, ih rest.length (by omega) rest rfl, ← happend]

theorem ne_nil_of_mem_lines (h : line ∈ lines isEnd text) : line ≠ [] := by
  generalize hn : text.length = n
  induction n using Nat.strongRecOn generalizing text with
  | ind n ih =>
    have hnil : text ≠ [] := by
      rintro rfl
      cases h
    obtain ⟨first, rest, hlines, happend, hne, -⟩ := lines_eq_cons isEnd hnil
    rw [hlines] at h
    rcases List.mem_cons.mp h with rfl | hmem
    · exact hne
    · have hpos := List.length_pos_of_ne_nil hne
      have hlength := congrArg List.length happend
      rw [List.length_append] at hlength
      exact ih rest.length (by omega) hmem rfl

/-- A line that is the whole text is the only one. -/
theorem lines_eq_singleton (h : text ∈ lines isEnd text) : lines isEnd text = [text] := by
  have hne := ne_nil_of_mem_lines h
  obtain ⟨line, rest, hlines, happend, hline, -⟩ := lines_eq_cons isEnd hne
  rw [hlines] at h ⊢
  rcases List.mem_cons.mp h with heq | hmem
  · have hrest : rest = [] := by simpa [← heq] using happend
    rw [hrest, ← heq]
    rfl
  · have hle : text.length ≤ rest.length := by
      rw [← flatten_lines isEnd rest]
      exact (List.sublist_flatten_of_mem hmem).length_le
    have hpos := List.length_pos_of_ne_nil hline
    have hlength := congrArg List.length happend
    rw [List.length_append] at hlength
    omega

theorem length_lt_of_mem_lines (h : line ∈ lines isEnd text) (hne : line ≠ text) :
    line.length < text.length := by
  have hsub : line.Sublist text := by
    have hflatten := List.sublist_flatten_of_mem h
    rwa [flatten_lines] at hflatten
  rcases Nat.lt_or_eq_of_le hsub.length_le with hlt | heq
  · exact hlt
  · exact absurd (hsub.eq_of_length heq) hne

theorem pieces_self [DecidableEq α] : pieces (line ++ [c]) (line ++ [c]) = [line, [c]] := by
  simp [pieces]

theorem subset_of_mem_pieces [DecidableEq α] {piece : List α} (h : piece ∈ pieces text line) :
    piece ⊆ line := by
  unfold pieces at h
  split at h
  · rcases List.mem_cons.mp h with rfl | hlast
    · exact List.dropLast_subset line
    · rw [List.mem_singleton.mp hlast]
      exact List.drop_subset _ line
  · rw [List.mem_singleton.mp h]
    exact List.Subset.refl _

theorem pieces_of_ne [DecidableEq α] (h : line ≠ text) : pieces text line = [line] := if_neg h

/-! ## The loop -/

/-- A step of the loop that reads something. -/
theorem readLoop_of_ne_nil (h : text ≠ []) : readLoop isEnd (n + 2) body (fuel + 1) text s =
    match body s (takeLine isEnd (n + 1) text).1 with
    | .error e => some (.error e)
    | .ok s => readLoop isEnd (n + 2) body fuel (takeLine isEnd (n + 1) text).2 s := by
  rw [readLoop, read, if_neg h]

/-- Lines that fit are read as they are. -/
theorem readLoop_lines (hn : 2 ≤ n) (hfit : ∀ line ∈ lines isEnd text, line.length < n)
    (hfuel : text.length < fuel) :
    readLoop isEnd n body fuel text s = some ((lines isEnd text).foldlM body s) := by
  obtain ⟨n, rfl⟩ := Nat.exists_eq_add_of_le' hn
  induction fuel generalizing text s with
  | zero => omega
  | succ fuel ih =>
    by_cases hnil : text = []
    · rw [hnil]
      rfl
    · obtain ⟨line, rest, hlines, happend, hne, htake⟩ := lines_eq_cons isEnd hnil
      have hlength := congrArg List.length happend
      rw [List.length_append] at hlength
      have hpos := List.length_pos_of_ne_nil hne
      have hline : line.length ≤ n + 1 := by
        have hlt := hfit line (hlines ▸ List.mem_cons_self)
        omega
      have hrest : ∀ line ∈ lines isEnd rest, line.length < n + 2 := by
        intro line hmem
        exact hfit line (hlines ▸ List.mem_cons_of_mem _ hmem)
      rw [readLoop_of_ne_nil hnil, htake, List.take_of_length_le hline,
        List.drop_of_length_le hline, hlines, List.foldlM_cons]
      cases body s line with
      | error e => rfl
      | ok s =>
        have hshort : rest.length < fuel := by omega
        exact ih hshort hrest

/-- **What a buffer of the text's size gives**, if it holds anything. -/
theorem readLoop_pieces [DecidableEq α] (hone : text.length ≠ 1) (hfuel : text.length + 2 ≤ fuel) :
    readLoop isEnd text.length body fuel text s =
      some (((lines isEnd text).flatMap (pieces text)).foldlM body s) := by
  by_cases hmem : text ∈ lines isEnd text
  · have hne := ne_nil_of_mem_lines hmem
    have hpos := List.length_pos_of_ne_nil hne
    obtain ⟨n, hn⟩ := Nat.exists_eq_add_of_le' (show 2 ≤ text.length by omega)
    obtain ⟨fuel, rfl⟩ := Nat.exists_eq_add_of_le' (show 3 ≤ fuel by omega)
    have hlines := lines_eq_singleton hmem
    obtain ⟨line, rest, hcons, happend, -, htake⟩ := lines_eq_cons isEnd hne
    rw [hlines, List.cons.injEq] at hcons
    obtain ⟨rfl, -⟩ := hcons
    have hrest : rest = [] := by simpa using happend
    have hlast : text.drop (n + 1) ≠ [] := by
      rw [ne_eq, List.drop_eq_nil_iff]
      omega
    -- the last element is a line of its own for the second read
    obtain ⟨last, more, -, hsplit, hlastne, htakeLast⟩ := lines_eq_cons isEnd hlast
    have hshort := congrArg List.length hsplit
    rw [List.length_append, List.length_drop] at hshort
    have hlastpos := List.length_pos_of_ne_nil hlastne
    have hmore : more = [] := List.eq_nil_of_length_eq_zero (by omega)
    have hlasteq : text.drop (n + 1) = last := by rw [hsplit, hmore, List.append_nil]
    have hlen : text.length - 1 = n + 1 := by omega
    have hpieces : (lines isEnd text).flatMap (pieces text) = [text.take (n + 1), last] := by
      rw [hlines]
      simp [pieces, List.dropLast_eq_take, hlen, hlasteq]
    rw [hpieces, hn, readLoop_of_ne_nil hne, htake, hrest, List.append_nil]
    simp only [List.foldlM_cons, List.foldlM_nil, bind_pure]
    cases body s (text.take (n + 1)) with
    | error e => rfl
    | ok s =>
      have htakeLast' : last.take (n + 1) = last := List.take_of_length_le (by omega)
      have hdropLast' : last.drop (n + 1) = [] := List.drop_of_length_le (by omega)
      change readLoop isEnd (n + 2) body (fuel + 2) (text.drop (n + 1)) s = some (body s last)
      rw [readLoop_of_ne_nil hlast, htakeLast, htakeLast', hdropLast', hmore]
      cases body s last with
      | error e => rfl
      | ok s => rfl
  · by_cases hnil : text = []
    · obtain ⟨fuel, rfl⟩ := Nat.exists_eq_add_of_le' (show 1 ≤ fuel by omega)
      rw [hnil]
      rfl
    · have hwhole : ∀ line ∈ lines isEnd text, line ≠ text := by
        rintro line hline rfl
        exact hmem hline
      have hpieces : (lines isEnd text).flatMap (pieces text) = lines isEnd text := by
        calc (lines isEnd text).flatMap (pieces text)
            = (lines isEnd text).flatMap fun line => [line] :=
              List.flatMap_congr fun line hline => pieces_of_ne (hwhole line hline)
          _ = lines isEnd text := List.flatMap_singleton' _
      have hpos := List.length_pos_of_ne_nil hnil
      rw [hpieces]
      exact readLoop_lines (by omega)
        (fun line hline => length_lt_of_mem_lines hline (hwhole line hline)) (by omega)

/-- A buffer that holds the terminator only never comes to the end. -/
theorem readLoop_one (hbody : ∀ s, body s [] = .ok s) (fuel : Nat) :
    readLoop isEnd 1 body fuel text s = none := by
  induction fuel with
  | zero => rfl
  | succ fuel ih => simp only [readLoop, read, hbody, ih]

/-- More rounds do not change what came out. -/
theorem readLoop_add {r : Except ε σ} (h : readLoop isEnd n body fuel text s = some r) (k : Nat) :
    readLoop isEnd n body (fuel + k) text s = some r := by
  induction fuel generalizing text s with
  | zero => cases h
  | succ fuel ih =>
    rw [Nat.succ_add]
    unfold readLoop at h ⊢
    cases hread : read isEnd n text with
    | none => simpa [hread] using h
    | some got =>
      obtain ⟨buf, rest⟩ := got
      simp only [hread] at h ⊢
      cases hbody : body s buf with
      | error e => simpa [hbody] using h
      | ok s =>
        simp only [hbody] at h ⊢
        exact ih h

/-- **What comes out of the loop**, and for which texts anything does. -/
theorem exists_readLoop_eq_some_iff [DecidableEq α] (hbody : ∀ s, body s [] = .ok s)
    {r : Except ε σ} : (∃ fuel, readLoop isEnd text.length body fuel text s = some r) ↔
      text.length ≠ 1 ∧ r = ((lines isEnd text).flatMap (pieces text)).foldlM body s := by
  constructor
  · rintro ⟨fuel, hrun⟩
    by_cases hone : text.length = 1
    · rw [hone, readLoop_one hbody] at hrun
      cases hrun
    · have hmore := readLoop_add hrun (text.length + 2)
      rw [readLoop_pieces hone (Nat.le_add_left _ _)] at hmore
      exact ⟨hone, (Option.some.inj hmore).symm⟩
  · rintro ⟨hone, rfl⟩
    exact ⟨_, readLoop_pieces hone (Nat.le_refl _)⟩

end Lines
