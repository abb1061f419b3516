import Mathlib.Data.List.Basic

/-!
# Blocks in a stream of which a part has arrived

A stream is a list of blocks joined together; of its elements, the first `n` have arrived.
`whole bs n` are the blocks that have arrived completely, in order, and `rest bs n` is what has
arrived of the block after them.

The two are determined step by step: when `m` more elements arrive, the blocks that become whole
are those that are whole in the *rest* with the new elements behind it (`whole_add`, `rest_add`). A
reader that keeps only the rest between arrivals therefore loses nothing, however the stream is cut.
-/

namespace Framing

variable {α : Type*} {bs : List (List α)} {b l : List α} {n m : Nat}

/-- The blocks of `bs` wholly contained in the first `n` elements of the stream. -/
def whole : List (List α) → Nat → List (List α)
  | [], _ => []
  | b :: bs, n => if b.length ≤ n then b :: whole bs (n - b.length) else []

/-- The blocks after those. -/
def pending : List (List α) → Nat → List (List α)
  | [], _ => []
  | b :: bs, n => if b.length ≤ n then pending bs (n - b.length) else b :: bs

/-- What has arrived of the first pending block. -/
def rest : List (List α) → Nat → List α
  | [], _ => []
  | b :: bs, n => if b.length ≤ n then rest bs (n - b.length) else b.take n

@[simp] theorem whole_nil : whole ([] : List (List α)) n = [] := rfl

@[simp] theorem pending_nil : pending ([] : List (List α)) n = [] := rfl

@[simp] theorem rest_nil : rest ([] : List (List α)) n = [] := rfl

theorem whole_cons_of_le (h : b.length ≤ n) :
    whole (b :: bs) n = b :: whole bs (n - b.length) := if_pos h

theorem whole_cons_of_lt (h : n < b.length) : whole (b :: bs) n = [] :=
  if_neg (Nat.not_le_of_lt h)

theorem pending_cons_of_le (h : b.length ≤ n) :
    pending (b :: bs) n = pending bs (n - b.length) := if_pos h

theorem pending_cons_of_lt (h : n < b.length) : pending (b :: bs) n = b :: bs :=
  if_neg (Nat.not_le_of_lt h)

theorem rest_cons_of_le (h : b.length ≤ n) : rest (b :: bs) n = rest bs (n - b.length) := if_pos h

theorem rest_cons_of_lt (h : n < b.length) : rest (b :: bs) n = b.take n :=
  if_neg (Nat.not_le_of_lt h)

/-- The blocks are those that are whole and those that are pending. -/
theorem whole_append_pending (bs : List (List α)) (n : Nat) : whole bs n ++ pending bs n = bs := by
  induction bs generalizing n with
  | nil => rfl
  | cons b bs ih =>
    rcases Nat.lt_or_ge n b.length with h | h
    · rw [whole_cons_of_lt h, pending_cons_of_lt h, List.nil_append]
    · rw [whole_cons_of_le h, pending_cons_of_le h, List.cons_append, ih]

theorem mem_of_mem_pending (h : b ∈ pending bs n) : b ∈ bs := by
  rw [← whole_append_pending bs n]
  exact List.mem_append_right _ h

/-- What has arrived is the whole blocks, joined, and the rest. -/
theorem flatten_whole_append_rest (bs : List (List α)) (n : Nat) :
    (whole bs n).flatten ++ rest bs n = bs.flatten.take n := by
  induction bs generalizing n with
  | nil => simp
  | cons b bs ih =>
    rcases Nat.lt_or_ge n b.length with h | h
    · rw [whole_cons_of_lt h, rest_cons_of_lt h, List.flatten_cons,
        List.take_append_of_le_length (Nat.le_of_lt h)]
      rfl
    · rw [whole_cons_of_le h, rest_cons_of_le h, List.flatten_cons, List.append_assoc, ih,
        List.flatten_cons, List.take_append, List.take_of_length_le h]

/-- As long as the stream lasts, the numbers add up. -/
theorem length_whole_add_rest (hn : n ≤ bs.flatten.length) :
    (whole bs n).flatten.length + (rest bs n).length = n := by
  rw [← List.length_append, flatten_whole_append_rest, List.length_take, Nat.min_eq_left hn]

/-- A stream is whole when all of it has arrived, and not before. -/
theorem whole_eq_self (hn : n ≤ bs.flatten.length) : whole bs n = bs ↔ n = bs.flatten.length := by
  constructor
  · intro hall
    have hlength := length_whole_add_rest hn
    rw [hall] at hlength
    omega
  · rintro rfl
    clear hn
    induction bs with
    | nil => rfl
    | cons b bs ih =>
      have hlength : (b :: bs).flatten.length - b.length = bs.flatten.length := by simp
      rw [whole_cons_of_le (by simp), hlength, ih]

/-- **Arrivals compose**: what becomes whole is what the rest and the new elements make whole. -/
theorem whole_add (hn : n ≤ bs.flatten.length) :
    whole bs (n + m) = whole bs n ++ whole (pending bs n) ((rest bs n).length + m) := by
  induction bs generalizing n with
  | nil => simp
  | cons b bs ih =>
    rw [List.flatten_cons, List.length_append] at hn
    rcases Nat.lt_or_ge n b.length with h | h
    · rw [whole_cons_of_lt h, pending_cons_of_lt h, rest_cons_of_lt h, List.length_take,
        Nat.min_eq_left (Nat.le_of_lt h)]
      rfl
    · have hsub : n + m - b.length = n - b.length + m := by omega
      rw [whole_cons_of_le (Nat.le_add_right_of_le h), whole_cons_of_le h, pending_cons_of_le h,
        rest_cons_of_le h, hsub, ih (by omega), List.cons_append]

theorem rest_add (hn : n ≤ bs.flatten.length) :
    rest bs (n + m) = rest (pending bs n) ((rest bs n).length + m) := by
  induction bs generalizing n with
  | nil => simp
  | cons b bs ih =>
    rw [List.flatten_cons, List.length_append] at hn
    rcases Nat.lt_or_ge n b.length with h | h
    · rw [pending_cons_of_lt h, rest_cons_of_lt h, List.length_take,
        Nat.min_eq_left (Nat.le_of_lt h)]
    · have hsub : n + m - b.length = n - b.length + m := by omega
      rw [rest_cons_of_le (Nat.le_add_right_of_le h), pending_cons_of_le h, rest_cons_of_le h,
        hsub, ih (by omega)]

/-- What the rest becomes when the next elements of the stream arrive. -/
theorem rest_append (hn : n ≤ bs.flatten.length)
    (h : bs.flatten.take n ++ l = bs.flatten.take (n + l.length)) :
    rest bs n ++ l = (pending bs n).flatten.take ((rest bs n).length + l.length) := by
  have hlen := length_whole_add_rest hn
  have hsplit : (whole bs n).flatten ++ (rest bs n ++ l) =
      ((whole bs n).flatten ++ (pending bs n).flatten).take (n + l.length) := by
    rw [← List.append_assoc, flatten_whole_append_rest, h, ← List.flatten_append,
      whole_append_pending]
  have hrest : n + l.length - (whole bs n).flatten.length = (rest bs n).length + l.length := by
    omega
  rw [List.take_append, List.take_of_length_le (by omega), hrest] at hsplit
  exact List.append_cancel_left hsplit

theorem add_le_length_pending (hn : n + m ≤ bs.flatten.length) :
    (rest bs n).length + m ≤ (pending bs n).flatten.length := by
  have hlen : (whole bs n).flatten.length + (rest bs n).length = n :=
    length_whole_add_rest (Nat.le_trans (Nat.le_add_right n m) hn)
  have hall : (whole bs n).flatten.length + (pending bs n).flatten.length = bs.flatten.length := by
    rw [← List.length_append, ← List.flatten_append, whole_append_pending]
  omega

/-- Fewer elements than any block has make none whole. -/
theorem whole_of_short (h : ∀ b ∈ bs, n < b.length) : whole bs n = [] := by
  cases bs with
  | nil => rfl
  | cons b bs => exact whole_cons_of_lt (h b List.mem_cons_self)

theorem rest_of_short (h : ∀ b ∈ bs, n < b.length) : rest bs n = bs.flatten.take n := by
  have hall := flatten_whole_append_rest bs n
  rwa [whole_of_short h] at hall

end Framing
