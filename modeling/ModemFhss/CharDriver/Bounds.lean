import Mathlib.Algebra.Order.Ring.Int
import ModemFhss.CharDriver.Read

/-!
# How much a read copies and what it returns (`mfhssdrv_read`, `chrdrv_read`)

Three lengths meet in a read: what the caller asks for, what the modem says it has received and the
size of the DMA buffer. `mfhssdrv_read` copies the smaller of the first two and returns the second;
`chrdrv_read` does not look at what the caller asks for. Neither looks at the third. The length that
the modem says is read as an `int` and copied as a `size_t`, both of 32 bits.
-/

namespace ModemFhss.CharDriver

/-- `MFHSSDRV_DMA_SIZE`, `DMA_LENGTH` -/
def dmaSize : Nat := 1024

/-- A register as an `int`. -/
def toInt (reg : UInt32) : Int := reg.toBitVec.toInt

/-- An `int` as a `size_t`. -/
def toSize (n : Int) : UInt32 := .ofBitVec (.ofInt 32 n)

/-- What a read does. -/
structure ReadResult where
  /-- How many bytes it lets `copy_to_user` copy from the DMA buffer. -/
  copied : Nat
  ret : Int
  deriving DecidableEq

/-- `mfhssdrv_read`, with the result of the wait and what it reads from `DL`. -/
def mfhssdrvReadResult (res : Int) (dl count : UInt32) : ReadResult :=
  if res = 0 then
    { copied := 0, ret := 0 }
  else
    let n := toInt dl
    { copied := (if toSize n ≤ count then toSize n else count).toNat, ret := n }

/-- `chrdrv_read` -/
def chrdrvReadResult (ret : Int) (dl : UInt32) (_len : UInt32) : ReadResult :=
  if ret = 0 then
    { copied := 0, ret := 0 }
  else
    let datalen := toInt dl
    { copied := (toSize datalen).toNat, ret := datalen }

/-- No more is copied than the caller has asked for and the DMA buffer holds, and the caller is told
how much. -/
structure ReadResult.Respects (r : ReadResult) (count : UInt32) : Prop where
  copied_le : r.copied ≤ min count.toNat dmaSize
  ret_eq : r.ret = r.copied

/-- The insertion in `listen_modem` of as many bytes of `buf` as were read; `none` if that leaves
the buffer. -/
def insertRead (block buf : List UInt8) (bytes : Int) : Option (List UInt8) :=
  if bytes > 0 then
    if bytes.toNat ≤ buf.length then some (block ++ buf.take bytes.toNat) else none
  else
    some block

variable {r : ReadResult} {res : Int} {dl count : UInt32} {block buf : List UInt8}

theorem toSize_toInt (reg : UInt32) : toSize (toInt reg) = reg := by
  unfold toSize toInt
  rw [BitVec.ofInt_toInt]

theorem toInt_of_lt (h : dl.toNat < 2 ^ 31) : toInt dl = dl.toNat := by
  have hlt : 2 * dl.toBitVec.toNat < 2 ^ 32 := by
    have hval : dl.toBitVec.toNat = dl.toNat := rfl
    omega
  unfold toInt
  rw [BitVec.toInt_eq_toNat_cond, if_pos hlt]
  rfl

/-- Where the wait goes on, what is copied is the length that was read, or less. -/
theorem mfhssdrvReadResult_of_ne (h : res ≠ 0) : mfhssdrvReadResult res dl count =
    { copied := min dl.toNat count.toNat, ret := toInt dl } := by
  unfold mfhssdrvReadResult
  rw [if_neg h]
  dsimp only
  rw [toSize_toInt]
  split
  · next hle => rw [Nat.min_eq_left (UInt32.le_iff_toNat_le.mp hle)]
  · next hle => rw [Nat.min_eq_right (Nat.le_of_not_le fun h => hle (UInt32.le_iff_toNat_le.mpr h))]

theorem chrdrvReadResult_of_ne (h : res ≠ 0) : chrdrvReadResult res dl count =
    { copied := dl.toNat, ret := toInt dl } := by
  unfold chrdrvReadResult
  rw [if_neg h]
  dsimp only
  rw [toSize_toInt]

/-- What is copied is what a `Reader` copies. -/
theorem copied_eq_copyLen (h : res ≠ 0) :
    (mfhssdrvReadResult res dl count).copied = mfhssdrvRead.copyLen dl.toNat count.toNat ∧
      (chrdrvReadResult res dl count).copied = chrdrvRead.copyLen dl.toNat count.toNat := by
  rw [mfhssdrvReadResult_of_ne h, chrdrvReadResult_of_ne h]
  exact ⟨Nat.min_def, rfl⟩

/-- Nothing is copied after a timeout. -/
theorem respects_zero : ReadResult.Respects { copied := 0, ret := 0 } count :=
  ⟨Nat.zero_le _, rfl⟩

/-- As much as was read fits if it is copied as it is. -/
theorem respects_of_le (h : dl.toNat ≤ min count.toNat dmaSize) :
    ReadResult.Respects { copied := dl.toNat, ret := toInt dl } count := by
  refine ⟨h, toInt_of_lt ?_⟩
  have hdma : dmaSize < 2 ^ 31 := by decide
  omega

theorem mfhssdrvReadResult_respects_iff : (mfhssdrvReadResult res dl count).Respects count ↔
    (res ≠ 0 → dl.toNat ≤ min count.toNat dmaSize) := by
  by_cases hres : res = 0
  · subst hres
    exact iff_of_true respects_zero fun hne => absurd rfl hne
  · rw [mfhssdrvReadResult_of_ne hres]
    constructor
    · rintro ⟨hcopied, hret⟩ -
      dsimp only at hcopied hret
      -- What is returned is the length, so the length was copied.
      have hnonneg : (0 : Int) ≤ toInt dl := by omega
      have hdl : toInt dl = dl.toNat := by
        unfold toInt at hnonneg ⊢
        rw [BitVec.toInt_eq_toNat_cond] at hnonneg ⊢
        split at hnonneg
        · next hlt => rw [if_pos hlt]; rfl
        · have hbound := dl.toBitVec.isLt
          omega
      omega
    · intro hle
      have hmin : min dl.toNat count.toNat = dl.toNat := by
        have := hle hres
        omega
      rw [hmin]
      exact respects_of_le (hle hres)

theorem chrdrvReadResult_respects_iff : (chrdrvReadResult res dl count).Respects count ↔
    (res ≠ 0 → dl.toNat ≤ min count.toNat dmaSize) := by
  by_cases hres : res = 0
  · subst hres
    exact iff_of_true respects_zero fun hne => absurd rfl hne
  · rw [chrdrvReadResult_of_ne hres]
    constructor
    · intro h _
      exact h.copied_le
    · intro hle
      exact respects_of_le (hle hres)

/-- A caller that trusts the result keeps to its buffer. -/
theorem insertRead_of_respects (h : r.Respects count) (hbuf : buf.length = count.toNat) :
    insertRead block buf r.ret = some (block ++ buf.take r.copied) := by
  have hle := h.copied_le
  have hret := h.ret_eq
  unfold insertRead
  split
  · have hlength : r.ret.toNat ≤ buf.length := by omega
    rw [if_pos hlength, hret, Int.toNat_natCast]
  · have hzero : r.copied = 0 := by omega
    rw [hzero, List.take_zero, List.append_nil]

/-- **When a read respects both buffers**, in either driver: if the modem says no more than the
caller has asked for and the DMA buffer holds, and only then, unless the time is over. Then
`listen_modem` inserts what was copied to its buffer. -/
theorem read_respects_iff (res : Int) (dl count : UInt32) :
    ((mfhssdrvReadResult res dl count).Respects count ↔
      (res ≠ 0 → dl.toNat ≤ min count.toNat dmaSize)) ∧
    ((chrdrvReadResult res dl count).Respects count ↔
      (res ≠ 0 → dl.toNat ≤ min count.toNat dmaSize)) ∧
    ∀ r ∈ [mfhssdrvReadResult res dl 1024, chrdrvReadResult res dl 1024], r.Respects 1024 →
      ∀ block buf : List UInt8, buf.length = 1024 →
        insertRead block buf r.ret = some (block ++ buf.take r.copied) := by
  refine ⟨mfhssdrvReadResult_respects_iff, chrdrvReadResult_respects_iff, ?_⟩
  intro r _ hr block buf hbuf
  exact insertRead_of_respects hr hbuf

/-- Ten bytes for a caller that asked for four, more than the DMA buffer holds, and a result with
which `listen_modem` leaves its buffer. -/
theorem read_not_respects :
    (mfhssdrvReadResult 1 10 4 = { copied := 4, ret := 10 } ∧
      chrdrvReadResult 1 10 4 = { copied := 10, ret := 10 } ∧
      ¬ (mfhssdrvReadResult 1 10 4).Respects 4 ∧ ¬ (chrdrvReadResult 1 10 4).Respects 4) ∧
    (mfhssdrvReadResult 1 2000 2000).copied = 2000 ∧
    ∀ block buf : List UInt8, buf.length = 1024 →
      insertRead block buf (mfhssdrvReadResult 1 1025 1024).ret = none ∧
      insertRead block buf (chrdrvReadResult 1 1025 1024).ret = none := by
  refine ⟨⟨by decide, by decide, ?_, ?_⟩, by decide, ?_⟩
  · rw [mfhssdrvReadResult_respects_iff]
    decide
  · rw [chrdrvReadResult_respects_iff]
    decide
  · intro block buf hbuf
    have hpast : insertRead block buf 1025 = none := by
      simp [insertRead, hbuf]
    exact ⟨hpast, hpast⟩

end ModemFhss.CharDriver
