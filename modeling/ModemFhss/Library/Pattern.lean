import Mathlib.Data.List.Forall2
import Mathlib.Data.List.TakeWhile

/-!
# Patterns that never backtrack

A pattern is a sequence of items: a fixed text, or a run of elements of a class, which may have to
have one at least. Matching is greedy: a run takes all that it can. `Fits` is what a regular
expression of this shape means, a text cut into one piece for each item, and `split` finds the cut.

Where no run can take an element that what follows it may begin with (`Separated`), the greedy cut
is the only one, and `split` decides the language of the expression (`split_iff`).
-/

namespace Pattern

variable {α : Type*}

inductive Item (α : Type*) where
  /-- This text. -/
  | text (l : List α)
  /-- Any number of elements of the class. -/
  | many (p : α → Bool)
  /-- One element of the class or more. -/
  | many1 (p : α → Bool)

namespace Item

/-- The texts of an item. -/
def Fits : Item α → List α → Prop
  | .text l, s => s = l
  | .many p, s => ∀ c ∈ s, p c = true
  | .many1 p, s => s ≠ [] ∧ ∀ c ∈ s, p c = true

/-- The item can begin with this element, or with what follows it. -/
def Begins (i : Item α) (next : α → Prop) (c : α) : Prop :=
  match i with
  | .text [] => next c
  | .text (a :: _) => c = a
  | .many p => p c = true ∨ next c
  | .many1 p => p c = true

/-- The item does not take an element that belongs to what follows it. -/
def Stops (next : α → Prop) : Item α → Prop
  | .text _ => True
  | .many p => ∀ c, next c → p c = false
  | .many1 p => ∀ c, next c → p c = false

variable [DecidableEq α]

/-- The piece that the item takes from the beginning of a text, and what is left. -/
def split : Item α → List α → Option (List α × List α)
  | .text l, s => if l.isPrefixOf s then some (l, s.drop l.length) else none
  | .many p, s => some (s.takeWhile p, s.dropWhile p)
  | .many1 p, s => if s.takeWhile p = [] then none else some (s.takeWhile p, s.dropWhile p)

end Item

/-- A text for each item. -/
abbrev Fits : List (Item α) → List (List α) → Prop := List.Forall₂ Item.Fits

/-- The elements that a match of the items can begin with, `next` being those that can follow it. -/
def begins (next : α → Prop) : List (Item α) → α → Prop
  | [], c => next c
  | i :: is, c => i.Begins (begins next is) c

/-- No item takes an element that belongs to what follows it. -/
def Separated (next : α → Prop) : List (Item α) → Prop
  | [] => True
  | i :: is => i.Stops (begins next is) ∧ Separated next is

section split

variable [DecidableEq α]

/-- The pieces that the items take, one after the other, and what is left. -/
def split : List (Item α) → List α → Option (List (List α) × List α)
  | [], s => some ([], s)
  | i :: is, s =>
    match i.split s with
    | none => none
    | some (piece, s') =>
      match split is s' with
      | none => none
      | some (pieces, rest) => some (piece :: pieces, rest)

/-- The leftmost match in a text. -/
def search (is : List (Item α)) : List α → Option (List α)
  | [] => (split is []).map fun x => x.1.flatten
  | c :: cs =>
    match split is (c :: cs) with
    | none => search is cs
    | some (pieces, _) => some pieces.flatten

/-- Where a text occurs first. -/
def find (l : List α) : List α → Option Nat
  | [] => if l = [] then some 0 else none
  | c :: cs => if l.isPrefixOf (c :: cs) then some 0 else (find l cs).map (· + 1)

end split

/-- Take all matches out of a text, `skip` elements of one still to go; `length` is that of a match
at the beginning, zero if there is none. -/
def erase (length : List α → Nat) : Nat → List α → List α
  | _, [] => []
  | skip + 1, _ :: cs => erase length skip cs
  | 0, c :: cs =>
    match length (c :: cs) with
    | 0 => c :: erase length 0 cs
    | skip + 1 => erase length skip cs

/-! ## The greedy cut -/

variable {i : Item α} {is : List (Item α)} {next : α → Prop} {piece s rest l : List α}
  {pieces : List (List α)} {c a : α}

/-- A run ends where the class does. -/
theorem takeWhile_dropWhile_append {p : α → Bool} (hall : ∀ c ∈ piece, p c = true)
    (hstop : ∀ c ∈ s.head?, p c = false) :
    (piece ++ s).takeWhile p = piece ∧ (piece ++ s).dropWhile p = s := by
  have hnone : s.takeWhile p = [] ∧ s.dropWhile p = s := by
    cases s with
    | nil => exact ⟨rfl, rfl⟩
    | cons c s => simp [hstop c rfl]
  rw [List.takeWhile_append_of_pos hall, List.dropWhile_append_of_pos hall, hnone.1, hnone.2,
    List.append_nil]
  exact ⟨rfl, rfl⟩

/-- What a match begins with. -/
theorem begins_of_fits (h : Fits is pieces) (hnext : ∀ c ∈ rest.head?, next c) :
    ∀ c ∈ (pieces.flatten ++ rest).head?, begins next is c := by
  induction h with
  | nil => exact hnext
  | @cons i piece is pieces hfits _ ih =>
    intro c hc
    rw [List.flatten_cons, List.append_assoc] at hc
    cases piece with
    | nil =>
      have hrest := ih c hc
      cases i with
      | text l =>
        obtain rfl : [] = l := hfits
        exact hrest
      | many p => exact .inr hrest
      | many1 p => exact absurd rfl hfits.1
    | cons a piece =>
      obtain rfl : a = c := Option.some.inj hc
      cases i with
      | text l =>
        obtain rfl : a :: piece = l := hfits
        rfl
      | many p => exact .inl (hfits a List.mem_cons_self)
      | many1 p => exact hfits.2 a List.mem_cons_self

section split

variable [DecidableEq α]

theorem Item.fits_of_split (h : i.split s = some (piece, rest)) :
    i.Fits piece ∧ s = piece ++ rest := by
  cases i with
  | text l =>
    simp only [Item.split] at h
    split at h
    · next hpre =>
      cases h
      exact ⟨rfl, (List.prefix_iff_eq_append.mp (List.isPrefixOf_iff_prefix.mp hpre)).symm⟩
    · cases h
  | many p =>
    cases h
    exact ⟨fun c hc => List.mem_takeWhile_imp hc, List.takeWhile_append_dropWhile.symm⟩
  | many1 p =>
    simp only [Item.split] at h
    split at h
    · cases h
    · next hne =>
      cases h
      exact ⟨⟨hne, fun c hc => List.mem_takeWhile_imp hc⟩, List.takeWhile_append_dropWhile.symm⟩

/-- What is cut is cut right. -/
theorem fits_of_split (h : split is s = some (pieces, rest)) :
    Fits is pieces ∧ s = pieces.flatten ++ rest := by
  induction is generalizing s pieces with
  | nil =>
    cases h
    exact ⟨.nil, rfl⟩
  | cons i is ih =>
    unfold split at h
    split at h
    · cases h
    · next piece s' hpiece =>
      split at h
      · cases h
      · next pieces' rest' hpieces =>
        cases h
        obtain ⟨hfits, hs⟩ := Item.fits_of_split hpiece
        obtain ⟨hfits', hs'⟩ := ih hpieces
        exact ⟨.cons hfits hfits', by rw [hs, hs', List.flatten_cons, List.append_assoc]⟩

theorem Item.split_of_fits (h : i.Fits piece) (hstops : i.Stops next)
    (hnext : ∀ c ∈ s.head?, next c) : i.split (piece ++ s) = some (piece, s) := by
  cases i with
  | text l =>
    obtain rfl : piece = l := h
    have hpre : piece.isPrefixOf (piece ++ s) = true :=
      List.isPrefixOf_iff_prefix.mpr (List.prefix_append _ _)
    simp only [Item.split]
    rw [if_pos hpre, List.drop_left]
  | many p =>
    obtain ⟨htake, hdrop⟩ :=
      takeWhile_dropWhile_append h fun c hc => hstops c (hnext c hc)
    simp only [Item.split]
    rw [htake, hdrop]
  | many1 p =>
    obtain ⟨hne, hall⟩ := h
    obtain ⟨htake, hdrop⟩ :=
      takeWhile_dropWhile_append hall fun c hc => hstops c (hnext c hc)
    simp only [Item.split]
    rw [htake, hdrop, if_neg hne]

/-- **Every cut is the greedy one**, if the items are separated. -/
theorem split_of_fits (hsep : Separated next is) (h : Fits is pieces)
    (hnext : ∀ c ∈ rest.head?, next c) :
    split is (pieces.flatten ++ rest) = some (pieces, rest) := by
  induction h with
  | nil => rfl
  | @cons i piece is pieces hfits hrest ih =>
    have hpiece := Item.split_of_fits hfits hsep.1 (begins_of_fits hrest hnext)
    rw [List.flatten_cons, List.append_assoc]
    unfold split
    rw [hpiece]
    dsimp only
    rw [ih hsep.2]

/-- **The language of a pattern**: the greedy cut of the whole text is found exactly if there is
one. -/
theorem split_iff (hsep : Separated (fun _ => False) is) :
    split is s = some (pieces, []) ↔ Fits is pieces ∧ s = pieces.flatten := by
  constructor
  · intro h
    obtain ⟨hfits, hs⟩ := fits_of_split h
    exact ⟨hfits, by rw [hs, List.append_nil]⟩
  · rintro ⟨hfits, rfl⟩
    have hsplit : split is (pieces.flatten ++ []) = some (pieces, []) :=
      split_of_fits hsep hfits fun c hc => nomatch hc
    rwa [List.append_nil] at hsplit

/-! ## Searching -/

/-- Where no match begins, the search goes on. -/
theorem search_append (h : ∀ c ∈ s, ∀ t, split is (c :: t) = none) :
    search is (s ++ rest) = search is rest := by
  induction s with
  | nil => rfl
  | cons c s ih =>
    rw [List.cons_append]
    simp only [search, h c List.mem_cons_self]
    exact ih fun d hd => h d (List.mem_cons_of_mem c hd)

theorem split_text_of_ne (h : a ≠ c) : split (.text (a :: l) :: is) (c :: s) = none := by
  simp [split, Item.split, h]

theorem split_many1_of_not {p : α → Bool} (h : p c = false) :
    split (.many1 p :: is) (c :: s) = none := by
  simp [split, Item.split, h]

theorem search_of_split (h : split is s = some (pieces, rest)) :
    search is s = some pieces.flatten := by
  cases s with
  | nil => simp [search, h]
  | cons c s => simp [search, h]

theorem find_append (h : a ∉ s) :
    find (a :: l) (s ++ rest) = (find (a :: l) rest).map (s.length + ·) := by
  induction s with
  | nil => simp
  | cons c s ih =>
    obtain ⟨hca, hs⟩ := List.ne_and_not_mem_of_not_mem_cons h
    have hpre : ¬ (a :: l).isPrefixOf (c :: (s ++ rest)) = true := by
      simp [hca]
    rw [List.cons_append, find, if_neg hpre, ih hs, Option.map_map]
    congr 1
    funext n
    simp only [Function.comp, List.length_cons]
    omega

end split

/-! ## Erasing -/

variable {length : List α → Nat} {n : Nat}

theorem erase_skip (h : n ≤ s.length) : erase length n s = erase length 0 (s.drop n) := by
  induction n generalizing s with
  | zero => rfl
  | succ n ih =>
    cases s with
    | nil => simp at h
    | cons c s =>
      rw [List.drop_succ_cons, ← ih (Nat.le_of_succ_le_succ h)]
      rfl

/-- A match at the beginning goes. -/
theorem erase_match (hpos : 0 < length s) (hle : length s ≤ s.length) :
    erase length 0 s = erase length 0 (s.drop (length s)) := by
  cases s with
  | nil => simp
  | cons c s =>
    obtain ⟨n, hn⟩ := Nat.exists_eq_succ_of_ne_zero (Nat.pos_iff_ne_zero.mp hpos)
    rw [hn] at hle
    have herase : erase length 0 (c :: s) = erase length n s := by
      simp only [erase, hn]
    rw [herase, hn, erase_skip (Nat.le_of_succ_le_succ hle), List.drop_succ_cons]

theorem erase_cons (h : length (c :: s) = 0) : erase length 0 (c :: s) = c :: erase length 0 s := by
  simp only [erase, h]

theorem erase_sublist : (erase length n s).Sublist s := by
  induction s generalizing n with
  | nil => cases n <;> exact .slnil
  | cons c s ih =>
    cases n with
    | succ n => exact ih.cons c
    | zero =>
      unfold erase
      split
      · exact ih.cons_cons c
      · exact ih.cons c

/-- **A text stays as it is** exactly if nothing in it matches. -/
theorem erase_eq_self_iff : erase length 0 s = s ↔ ∀ t, t <:+ s → t ≠ [] → length t = 0 := by
  induction s with
  | nil =>
    refine ⟨fun _ t ht hne => absurd (List.suffix_nil.mp ht) hne, fun _ => rfl⟩
  | cons c s ih =>
    by_cases hzero : length (c :: s) = 0
    · rw [erase_cons hzero, List.cons_inj_right, ih]
      constructor
      · intro h t ht hne
        rcases List.suffix_cons_iff.mp ht with rfl | ht
        · exact hzero
        · exact h t ht hne
      · exact fun h t ht => h t (ht.trans (List.suffix_cons c s))
    · constructor
      · intro h
        obtain ⟨n, hn⟩ := Nat.exists_eq_succ_of_ne_zero hzero
        have herase : erase length 0 (c :: s) = erase length n s := by
          simp only [erase, hn]
        have hle : (erase length n s).length ≤ s.length := erase_sublist.length_le
        rw [← herase, h] at hle
        exact absurd hle (Nat.not_succ_le_self _)
      · exact fun h => absurd (h _ (List.suffix_refl _) (List.cons_ne_nil c s)) hzero

end Pattern
