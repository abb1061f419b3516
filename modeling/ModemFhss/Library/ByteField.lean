import Mathlib.Data.List.GetD

/-!
# Integer fields in a byte string

Packed structures laid over a byte buffer: writing an unsigned integer as bytes of a given order and
reading it back at an offset. A value wider than its field is stored modulo the field's range, as an
assignment to a fixed-width member does.

Reading at an offset never fails (a byte past the end reads as `0`); a program that checks lengths
before it reads never notices, and one that does not is to be modelled with its own check.
-/

namespace ByteField

/-! ## Writing -/

/-- The two bytes of a 16-bit field, least significant first. -/
def le16 (n : Nat) : List UInt8 := [UInt8.ofNat n, UInt8.ofNat (n / 256)]

/-- The four bytes of a 32-bit field, least significant first. -/
def le32 (n : Nat) : List UInt8 := le16 n ++ le16 (n / 65536)

/-- The two bytes of a 16-bit field, most significant first. -/
def be16 (n : Nat) : List UInt8 := [UInt8.ofNat (n / 256), UInt8.ofNat n]

@[simp] theorem length_le16 (n : Nat) : (le16 n).length = 2 := rfl

@[simp] theorem length_le32 (n : Nat) : (le32 n).length = 4 := rfl

/-! ## Reading -/

def u8At (bs : List UInt8) (off : Nat) : Nat := (bs.getD off 0).toNat

def u16At (bs : List UInt8) (off : Nat) : Nat := u8At bs off + 256 * u8At bs (off + 1)

def u32At (bs : List UInt8) (off : Nat) : Nat := u16At bs off + 65536 * u16At bs (off + 2)

def be16At (bs : List UInt8) (off : Nat) : Nat := 256 * u8At bs off + u8At bs (off + 1)

theorem u8At_lt (bs : List UInt8) (off : Nat) : u8At bs off < 256 := UInt8.toNat_lt _

theorem u16At_lt (bs : List UInt8) (off : Nat) : u16At bs off < 65536 := by
  have hlow := u8At_lt bs off
  have hhigh := u8At_lt bs (off + 1)
  unfold u16At
  omega

/-! ## Locating a field

A field is found by skipping the bytes before it (`*_append_right`), or by ignoring what follows it
(`*_append_left`). -/

theorem u8At_append_right (pre bs : List UInt8) (k : Nat) :
    u8At (pre ++ bs) (pre.length + k) = u8At bs k := by
  unfold u8At
  rw [List.getD_append_right _ _ _ _ (Nat.le_add_right _ _), Nat.add_sub_cancel_left]

theorem u8At_append_left {bs : List UInt8} {off : Nat} (h : off < bs.length) (post : List UInt8) :
    u8At (bs ++ post) off = u8At bs off := by
  unfold u8At
  rw [List.getD_append _ _ _ _ h]

theorem u16At_append_right (pre bs : List UInt8) (k : Nat) :
    u16At (pre ++ bs) (pre.length + k) = u16At bs k := by
  unfold u16At
  rw [u8At_append_right, Nat.add_assoc, u8At_append_right]

theorem u16At_append_left {bs : List UInt8} {off : Nat} (h : off + 1 < bs.length)
    (post : List UInt8) : u16At (bs ++ post) off = u16At bs off := by
  unfold u16At
  rw [u8At_append_left (by omega), u8At_append_left h]

theorem u32At_append_left {bs : List UInt8} {off : Nat} (h : off + 3 < bs.length)
    (post : List UInt8) : u32At (bs ++ post) off = u32At bs off := by
  unfold u32At
  rw [u16At_append_left (by omega), u16At_append_left (by omega)]

theorem be16At_append_left {bs : List UInt8} {off : Nat} (h : off + 1 < bs.length)
    (post : List UInt8) : be16At (bs ++ post) off = be16At bs off := by
  unfold be16At
  rw [u8At_append_left (by omega), u8At_append_left h]

/-! ## Round trips -/

@[simp] theorem u16At_le16 (n : Nat) : u16At (le16 n) 0 = n % 65536 := by
  simp [u16At, u8At, le16]
  omega

@[simp] theorem u32At_le32 (n : Nat) : u32At (le32 n) 0 = n % 4294967296 := by
  have h₀ : u16At (le32 n) 0 = n % 65536 := by
    rw [le32, u16At_append_left (by simp), u16At_le16]
  have h₁ : u16At (le32 n) 2 = n / 65536 % 65536 :=
    (u16At_append_right (le16 n) (le16 (n / 65536)) 0).trans (u16At_le16 _)
  unfold u32At
  rw [h₀, Nat.zero_add, h₁]
  omega

end ByteField
