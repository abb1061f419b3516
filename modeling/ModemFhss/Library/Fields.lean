import Mathlib.Logic.Function.Basic
import ModemFhss.Library.Assignments

/-!
# Bit fields in a register file

A field is a mask of the word at an address, and the number of places that its bits are moved down
when it is read. Two fields are apart if they are at different addresses or share no bit.

Of a family of fields that are pairwise apart each one reads as what was last written to it, however
the writes are interleaved (`read_writes`), so the family is as good as separate variables.
-/

namespace Fields

variable {w : Nat} {ρ ι : Type*}

/-- The bits under the mask, moved down. -/
def get (mask : BitVec w) (offset : Nat) (x : BitVec w) : BitVec w := (x &&& mask) >>> offset

/-- The value, moved up, under the mask. The other bits stay. -/
def put (mask : BitVec w) (offset : Nat) (v x : BitVec w) : BitVec w :=
  (x &&& ~~~mask) ||| ((v <<< offset) &&& mask)

variable {mask mask' x v v' : BitVec w} {offset offset' : Nat}

/-! ## One word -/

/-- What was put is read back, as far as the mask goes. -/
@[simp] theorem get_put : get mask offset (put mask offset v x) = v &&& mask >>> offset := by
  apply BitVec.eq_of_getLsbD_eq
  intro i hi
  simp only [get, put, BitVec.getLsbD_ushiftRight, BitVec.getLsbD_and, BitVec.getLsbD_or,
    BitVec.getLsbD_not, BitVec.getLsbD_shiftLeft]
  have hnot : ¬ offset + i < offset := by omega
  have hsub : offset + i - offset = i := by omega
  by_cases hw : offset + i < w
  · cases hm : mask.getLsbD (offset + i) <;> simp [hw, hnot, hsub]
  · simp [BitVec.getLsbD_of_ge _ _ (Nat.le_of_not_lt hw)]

theorem get_put_of_and_eq_zero (h : mask &&& mask' = 0#w) :
    get mask' offset' (put mask offset v x) = get mask' offset' x := by
  have hkeep : put mask offset v x &&& mask' = x &&& mask' := by
    apply BitVec.eq_of_getLsbD_eq
    intro i hi
    have hbit : (mask.getLsbD i && mask'.getLsbD i) = false := by
      rw [← BitVec.getLsbD_and, h, BitVec.getLsbD_zero]
    simp only [put, BitVec.getLsbD_and, BitVec.getLsbD_or, BitVec.getLsbD_not]
    cases hm : mask.getLsbD i <;> cases hm' : mask'.getLsbD i <;> simp_all
  rw [get, hkeep, get]

/-! ## A register file -/

structure BitField (ρ : Type*) (w : Nat) where
  addr : ρ
  mask : BitVec w
  offset : Nat

namespace BitField

variable [DecidableEq ρ] {f g : BitField ρ w} {r : ρ → BitVec w}

def read (f : BitField ρ w) (r : ρ → BitVec w) : BitVec w := get f.mask f.offset (r f.addr)

def write (f : BitField ρ w) (v : BitVec w) (r : ρ → BitVec w) : ρ → BitVec w :=
  Function.update r f.addr (put f.mask f.offset v (r f.addr))

/-- What a field keeps of a value. -/
def clip (f : BitField ρ w) (v : BitVec w) : BitVec w := v &&& f.mask >>> f.offset

def Apart (f g : BitField ρ w) : Prop := f.addr ≠ g.addr ∨ f.mask &&& g.mask = 0#w

instance : Decidable (f.Apart g) := inferInstanceAs (Decidable (_ ∨ _))

@[simp] theorem read_write : f.read (f.write v r) = f.clip v := by
  simp [read, write, clip]

theorem read_write_of_apart (h : f.Apart g) : g.read (f.write v r) = g.read r := by
  unfold read write
  by_cases haddr : g.addr = f.addr
  · rw [haddr, Function.update_self]
    apply get_put_of_and_eq_zero
    exact h.resolve_left fun hne => hne haddr.symm
  · rw [Function.update_of_ne haddr]

theorem write_apply_of_ne {a : ρ} (h : a ≠ f.addr) : f.write v r a = r a :=
  Function.update_of_ne h _ _

/-- Writes to the fields of a family. -/
def writes (φ : ι → BitField ρ w) (l : List (ι × BitVec w)) (r : ρ → BitVec w) : ρ → BitVec w :=
  l.foldl (fun r e => (φ e.1).write e.2 r) r

theorem writes_append {φ : ι → BitField ρ w} {l l' : List (ι × BitVec w)} :
    writes φ (l ++ l') r = writes φ l' (writes φ l r) := List.foldl_append

/-- **Fields that are apart are variables**: each reads as what was written to it last. -/
theorem read_writes [DecidableEq ι] {φ : ι → BitField ρ w} (hφ : ∀ i j, i ≠ j → (φ i).Apart (φ j))
    (l : List (ι × BitVec w)) (i : ι) :
    (φ i).read (writes φ l r) =
      ((Assignments.last i l).map (φ i).clip).getD ((φ i).read r) := by
  induction l using List.reverseRecOn with
  | nil => rfl
  | append_singleton l e ih =>
    obtain ⟨j, v⟩ := e
    have hlast : writes φ (l ++ [(j, v)]) r = (φ j).write v (writes φ l r) := writes_append
    rw [hlast, Assignments.last_append_singleton]
    by_cases hji : j = i
    · subst hji
      simp
    · rw [read_write_of_apart (hφ j i hji), ih, if_neg hji]

end BitField

end Fields
