import Mathlib.Data.List.Basic

/-!
# Cutting a list into pieces of bounded size

`piece k l i` is the `i`-th piece of `l` cut at every `k` elements, `count k l` the number of pieces
(the last one may be shorter). The pieces are non-empty, at most `k` long, and joined in order they
give back the list.
-/

namespace Chunk

variable {α : Type*} {k i n : Nat} {l : List α}

/-- The number of pieces: the length divided by `k`, rounded up. -/
def count (k : Nat) (l : List α) : Nat := (l.length + (k - 1)) / k

/-- Piece number `i`. -/
def piece (k : Nat) (l : List α) (i : Nat) : List α := (l.drop (i * k)).take k

theorem lt_count_iff (hk : 0 < k) : i < count k l ↔ i * k < l.length := by
  unfold count
  rw [Nat.lt_iff_add_one_le, Nat.le_div_iff_mul_le hk, Nat.add_mul, Nat.one_mul]
  omega

theorem count_pos (hk : 0 < k) (hl : l ≠ []) : 0 < count k l := by
  rw [lt_count_iff hk, Nat.zero_mul]
  exact List.length_pos_iff.mpr hl

theorem length_le_count_mul (hk : 0 < k) : l.length ≤ count k l * k := by
  by_contra h
  exact Nat.lt_irrefl _ ((lt_count_iff (l := l) hk).mpr (Nat.lt_of_not_le h))

theorem length_piece : (piece k l i).length = min k (l.length - i * k) := by
  simp [piece]

theorem length_piece_le : (piece k l i).length ≤ k := by
  rw [length_piece]
  exact Nat.min_le_left ..

theorem length_piece_pos (hk : 0 < k) (hi : i < count k l) : 0 < (piece k l i).length := by
  have := (lt_count_iff hk).mp hi
  rw [length_piece]
  omega

/-- The first `n` pieces, joined, are a prefix of the list. -/
theorem flatMap_piece_range (n : Nat) : (List.range n).flatMap (piece k l) = l.take (n * k) := by
  induction n with
  | zero => simp
  | succ n ih =>
    rw [List.range_succ, List.flatMap_append, ih, Nat.add_mul, Nat.one_mul, List.take_add]
    simp [piece]

/-- All the pieces, joined, are the list. -/
theorem flatMap_piece (hk : 0 < k) : (List.range (count k l)).flatMap (piece k l) = l := by
  rw [flatMap_piece_range]
  exact List.take_of_length_le (length_le_count_mul hk)

end Chunk
