import Mathlib.Data.List.Induction

/-!
# Paths and their components

A directory is the list of the names that lead to it from the root. A component of a path stays
there, goes up, which the root does not leave, or goes down (`Step`), and `walk` takes the
components one after the other.

What a path means relative to any directory is a number of steps up and then names to go down
(`relative`, `walk_eq`). A walk ends in the directory it began in, or below it, if the names begin
with those that the steps up have left (`prefix_walk_iff`).

The text of a path is cut at its slashes: nothing between two of them and a single dot stay, two
dots go up (`steps`).
-/

namespace Paths

variable {ν : Type*}

/-! ## Steps -/

inductive Step (ν : Type*) where
  | stay
  | up
  | down (name : ν)
  deriving DecidableEq, Repr

def Step.apply (dir : List ν) : Step ν → List ν
  | stay => dir
  | up => dir.dropLast
  | down name => dir ++ [name]

/-- Where the steps lead. -/
def walk (dir : List ν) (ss : List (Step ν)) : List ν := ss.foldl Step.apply dir

variable {dir : List ν} {ss ss' : List (Step ν)}

theorem walk_append : walk dir (ss ++ ss') = walk (walk dir ss) ss' := List.foldl_append

/-! ## Steps without a directory -/

/-- So many steps up, and then down. -/
structure Relative (ν : Type*) where
  ups : Nat
  downs : List ν
  deriving DecidableEq, Repr

def Relative.next (r : Relative ν) : Step ν → Relative ν
  | .stay => r
  | .up =>
    if r.downs.isEmpty then { r with ups := r.ups + 1 }
    else { r with downs := r.downs.dropLast }
  | .down name => { r with downs := r.downs ++ [name] }

def relative (ss : List (Step ν)) : Relative ν := ss.foldl Relative.next { ups := 0, downs := [] }

/-- **What steps come to**, wherever they are taken. -/
theorem walk_eq (dir : List ν) (ss : List (Step ν)) :
    walk dir ss = dir.take (dir.length - (relative ss).ups) ++ (relative ss).downs := by
  induction ss using List.reverseRecOn with
  | nil => simp [walk, relative]
  | append_singleton ss s ih =>
    have hwalk : walk dir (ss ++ [s]) = s.apply (walk dir ss) := walk_append
    have hrel : relative (ss ++ [s]) = (relative ss).next s := by simp [relative]
    rw [hwalk, hrel, ih]
    cases s with
    | stay => rfl
    | down name => exact List.append_assoc ..
    | up =>
      unfold Step.apply Relative.next
      dsimp only
      split
      · next hempty =>
        rw [List.isEmpty_iff] at hempty
        rw [hempty, List.append_nil, List.append_nil, List.dropLast_eq_take, List.take_take,
          List.length_take]
        congr 1
        show min (min (dir.length - (relative ss).ups) dir.length - 1)
          (dir.length - (relative ss).ups) = dir.length - ((relative ss).ups + 1)
        omega
      · next hne =>
        rw [List.isEmpty_iff] at hne
        exact List.dropLast_append_of_ne_nil hne

/-- **A walk stays in its directory or comes back to it.** -/
theorem prefix_walk_iff (dir : List ν) (ss : List (Step ν)) :
    dir <+: walk dir ss ↔ dir.drop (dir.length - (relative ss).ups) <+: (relative ss).downs := by
  rw [walk_eq]
  generalize dir.length - (relative ss).ups = n
  conv_lhs => lhs; rw [← List.take_append_drop n dir]
  exact List.prefix_append_right_inj _

/-! ## The text of a path -/

variable {α : Type*} [DecidableEq α] {slash dot : α} {text text' : List α}

def step (dot : α) (name : List α) : Step (List α) :=
  if name = [] ∨ name = [dot] then .stay
  else if name = [dot, dot] then .up
  else .down name

def steps (slash dot : α) (text : List α) : List (Step (List α)) :=
  (text.splitOn slash).map (step dot)

/-- A path that begins at the root. -/
def resolve (slash dot : α) (text : List α) : List (List α) := walk [] (steps slash dot text)

/-- What comes after a slash is taken from where the text before leads to. -/
theorem resolve_append : resolve slash dot (text ++ slash :: text') =
    walk (resolve slash dot text) (steps slash dot text') := by
  unfold resolve steps
  rw [List.splitOn_append_cons_self, List.map_append, walk_append]

end Paths
