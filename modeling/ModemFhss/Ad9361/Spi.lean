import ModemFhss.Library.Errno
import ModemFhss.Library.Fields
import ModemFhss.Ad9361.Util

/-!
# Registers over SPI (`ad9361_spi_read`, `ad9361_spi_writef` and the others)

The driver talks to the transceiver in instructions of 16 bits: whether it writes, how many bytes
follow, and the address of the first one; the address of each further byte is one less. What is on
the other side of `spi_write_then_read` is a parameter. It is only asked to decode instructions this
way, and to keep what is written to the registers in question (`Chip.Keeps`).
-/

namespace ModemFhss.Ad9361

open Errno Fields

abbrev Byte := BitVec 8

/-! ## The driver's side -/

def adRead : BitVec 32 := 0#32 <<< 15

def adWrite : BitVec 32 := 1#32 <<< 15

def adCnt (x : BitVec 32) : BitVec 32 := ((x - 1#32) &&& 0x7#32) <<< 12

def adAddr (x : BitVec 32) : BitVec 32 := x &&& 0x3FF#32

def maxMbyteSpi : Nat := 8

/-- `spi_write_then_read`, for a device in some state: the bytes that are sent and how many are
read, to what it returns and the bytes that it read. -/
structure Chip (σ : Type*) where
  transfer : σ → List Byte → Nat → Int × σ × List Byte

/-- The two bytes of an instruction, the upper one first. -/
def instruction (cmd : BitVec 32) : List Byte :=
  let cmd := cmd.setWidth 16
  [(cmd >>> 8).setWidth 8, (cmd &&& 0xFF#16).setWidth 8]

variable {σ : Type*}

namespace Chip

/-- `rbuf` is returned. -/
def spiReadm (c : Chip σ) (s : σ) (reg : BitVec 32) (num : Nat) : Int × σ × List Byte :=
  if num > maxMbyteSpi then (-einval, s, []) else
  let (ret, s, rbuf) :=
    c.transfer s (instruction (adRead ||| adCnt (BitVec.ofNat 32 num) ||| adAddr reg)) num
  if ret < 0 then (ret, s, rbuf) else (0, s, rbuf)

def spiRead (c : Chip σ) (s : σ) (reg : BitVec 32) : Int × σ :=
  let (ret, s, rbuf) := c.spiReadm s reg 1
  if ret < 0 then (ret, s) else ((rbuf.headD 0#8).toNat, s)

def spiReadf (c : Chip σ) (s : σ) (reg mask : BitVec 32) : Int × σ :=
  if mask = 0#32 then (-einval, s) else
  let (ret, s, rbuf) := c.spiReadm s reg 1
  if ret < 0 then (ret, s) else
  let buf := ((rbuf.headD 0#8).setWidth 32 &&& mask).setWidth 8
  ((buf >>> findFirstBit mask).toNat, s)

def spiWrite (c : Chip σ) (s : σ) (reg val : BitVec 32) : Int × σ :=
  let (ret, s, _) :=
    c.transfer s (instruction (adWrite ||| adCnt 1#32 ||| adAddr reg) ++ [val.setWidth 8]) 0
  if ret < 0 then (ret, s) else (0, s)

def spiWritef (c : Chip σ) (s : σ) (reg mask val : BitVec 32) : Int × σ :=
  if mask = 0#32 then (-einval, s) else
  let (ret, s, rbuf) := c.spiReadm s reg 1
  if ret < 0 then (ret, s) else
  let buf := ((rbuf.headD 0#8).setWidth 32 &&& ~~~mask).setWidth 8
  let buf := (buf.setWidth 32 ||| ((val <<< findFirstBit mask) &&& mask)).setWidth 8
  c.spiWrite s reg (buf.setWidth 32)

def spiWritem (c : Chip σ) (s : σ) (reg : BitVec 32) (tbuf : List Byte) : Int × σ :=
  if tbuf.length > maxMbyteSpi then (-einval, s) else
  let (ret, s, _) := c.transfer s
    (instruction (adWrite ||| adCnt (BitVec.ofNat 32 tbuf.length) ||| adAddr reg) ++ tbuf) 0
  if ret < 0 then (ret, s) else (0, s)

end Chip

/-! ## The other side -/

section Instruction

/-- An instruction, as the device decodes it. -/
structure Instruction where
  write : Bool
  count : Nat
  addr : BitVec 10
  deriving DecidableEq

def decode (hi lo : Byte) : Instruction where
  write := (hi ++ lo).getLsbD 15
  count := (((hi ++ lo) >>> 12) &&& 7#16).toNat + 1
  addr := (hi ++ lo).setWidth 10

theorem append_bytes (cmd : BitVec 16) :
    (cmd >>> 8).setWidth 8 ++ (cmd &&& 0xFF#16).setWidth 8 = cmd := by
  apply BitVec.eq_of_getLsbD_eq
  intro i hi
  have hlow : (0xFF#16).getLsbD i = decide (i < 8) := by
    show (2 ^ 8 - 1).testBit i = _
    exact Nat.testBit_two_pow_sub_one ..
  rw [BitVec.getLsbD_append]
  by_cases h : i < 8
  · rw [if_pos h, BitVec.getLsbD_setWidth, BitVec.getLsbD_and, hlow]
    simp [h]
  · rw [if_neg h, BitVec.getLsbD_setWidth, BitVec.getLsbD_ushiftRight]
    simp [show i - 8 < 8 by omega, show 8 + (i - 8) = i by omega]

theorem getLsbD_adAddr {reg : BitVec 32} {i : Nat} :
    (adAddr reg).getLsbD i = (reg.getLsbD i && decide (i < 10)) := by
  have hlow : (0x3FF#32).getLsbD i = decide (i < 10) := by
    show (2 ^ 10 - 1).testBit i = _
    exact Nat.testBit_two_pow_sub_one ..
  rw [adAddr, BitVec.getLsbD_and, hlow]

/-- The upper bits of an instruction. -/
def head (write : Bool) (num : Nat) : BitVec 32 :=
  (if write then adWrite else adRead) ||| adCnt (BitVec.ofNat 32 num)

/-- Of the instructions that the driver sends, the device decodes what they are meant to say. -/
theorem decode_head {write : Bool} {num : Nat} {reg : BitVec 32} {hi lo : Byte} (h : 0 < num)
    (h8 : num ≤ maxMbyteSpi) (hbytes : instruction (head write num ||| adAddr reg) = [hi, lo]) :
    decode hi lo = ⟨write, num, reg.setWidth 10⟩ := by
  have hcmd : hi ++ lo = (head write num ||| adAddr reg).setWidth 16 := by
    simp only [instruction, List.cons.injEq, and_true] at hbytes
    rw [← hbytes.1, ← hbytes.2, append_bytes]
  have hconst : ∀ w : Bool, ∀ n < 9, 0 < n →
      (head w n).getLsbD 15 = w ∧
      (((head w n).setWidth 16 >>> 12) &&& 7#16).toNat + 1 = n ∧
      (head w n).setWidth 10 = 0#10 := by
    decide
  obtain ⟨hwrite, hcount, haddr⟩ := hconst write num (Nat.lt_succ_of_le h8) h
  have hlow : (adAddr reg).setWidth 16 >>> 12 = 0#16 := by
    apply BitVec.eq_of_getLsbD_eq
    intro i hi
    rw [BitVec.getLsbD_ushiftRight, BitVec.getLsbD_setWidth, getLsbD_adAddr]
    simp [show ¬ 12 + i < 10 by omega]
  unfold decode
  rw [hcmd]
  congr 1
  · rw [BitVec.getLsbD_setWidth, BitVec.getLsbD_or, getLsbD_adAddr, hwrite]
    simp
  · rw [BitVec.setWidth_or, BitVec.ushiftRight_or_distrib, hlow, BitVec.or_zero, hcount]
  · apply BitVec.eq_of_getLsbD_eq
    intro i hi
    have hzero : (head write num).getLsbD i = false := by
      have := congrArg (·.getLsbD i) haddr
      simpa [hi] using this
    simp [getLsbD_adAddr, hzero, hi]

/-- The registers after bytes are written to one address and those below it. -/
def stored (addr : BitVec 10) (data : List Byte) (r : BitVec 10 → Byte) (a : BitVec 10) : Byte :=
  data.getD (addr - a).toNat (r a)

/-- The device follows its instructions: a transfer does not fail, and the registers in `kept` are
changed by writes only and read as what they hold. Nothing is said of the others. -/
structure Chip.Keeps (c : Chip σ) (regs : σ → BitVec 10 → Byte) (kept : BitVec 10 → Prop) :
    Prop where
  read_ok : ∀ s hi lo, (decode hi lo).write = false →
    0 ≤ (c.transfer s [hi, lo] (decode hi lo).count).1
  read_keeps : ∀ s hi lo, (decode hi lo).write = false → ∀ a, kept a →
    regs (c.transfer s [hi, lo] (decode hi lo).count).2.1 a = regs s a
  read_bytes : ∀ s hi lo, (decode hi lo).write = false → ∀ i < (decode hi lo).count,
    kept ((decode hi lo).addr - BitVec.ofNat 10 i) →
    (c.transfer s [hi, lo] (decode hi lo).count).2.2[i]? =
      some (regs s ((decode hi lo).addr - BitVec.ofNat 10 i))
  write_ok : ∀ s hi lo data, (decode hi lo).write = true → (decode hi lo).count = data.length →
    0 ≤ (c.transfer s (hi :: lo :: data) 0).1
  write_stores : ∀ s hi lo data, (decode hi lo).write = true →
    (decode hi lo).count = data.length → ∀ a, kept a →
    regs (c.transfer s (hi :: lo :: data) 0).2.1 a = stored (decode hi lo).addr data (regs s) a

end Instruction

/-! ## The two together -/

section Keeps

variable {c : Chip σ} {regs : σ → BitVec 10 → Byte} {kept : BitVec 10 → Prop} {s : σ}
  {reg val : BitVec 32} {num : Nat} {tbuf : List Byte}

theorem exists_instruction (cmd : BitVec 32) : ∃ hi lo, instruction cmd = [hi, lo] := ⟨_, _, rfl⟩

theorem Chip.Keeps.spiReadm (hc : c.Keeps regs kept) (h : 0 < num) (h8 : num ≤ maxMbyteSpi)
    (s : σ) (reg : BitVec 32) :
    (c.spiReadm s reg num).1 = 0 ∧
    (∀ a, kept a → regs (c.spiReadm s reg num).2.1 a = regs s a) ∧
    ∀ i < num, kept (reg.setWidth 10 - BitVec.ofNat 10 i) →
      (c.spiReadm s reg num).2.2[i]? = some (regs s (reg.setWidth 10 - BitVec.ofNat 10 i)) := by
  obtain ⟨hi, lo, hbytes⟩ := exists_instruction (head false num ||| adAddr reg)
  have hdecode := decode_head h h8 hbytes
  have hok := hc.read_ok s hi lo (by rw [hdecode])
  have hkeeps := hc.read_keeps s hi lo (by rw [hdecode])
  have hread := hc.read_bytes s hi lo (by rw [hdecode])
  rw [hdecode] at hok hkeeps hread
  have hcall : c.spiReadm s reg num =
      (0, (c.transfer s [hi, lo] num).2.1, (c.transfer s [hi, lo] num).2.2) := by
    have hcmd : instruction (adRead ||| adCnt (BitVec.ofNat 32 num) ||| adAddr reg) = [hi, lo] :=
      hbytes
    unfold Chip.spiReadm
    rw [if_neg (Nat.not_lt.mpr h8), hcmd]
    exact if_neg (Int.not_lt.mpr hok)
  rw [hcall]
  exact ⟨rfl, hkeeps, hread⟩

theorem Chip.Keeps.spiWritem (hc : c.Keeps regs kept) (h : 0 < tbuf.length)
    (h8 : tbuf.length ≤ maxMbyteSpi) :
    (c.spiWritem s reg tbuf).1 = 0 ∧ ∀ a, kept a →
      regs (c.spiWritem s reg tbuf).2 a = stored (reg.setWidth 10) tbuf (regs s) a := by
  obtain ⟨hi, lo, hbytes⟩ := exists_instruction (head true tbuf.length ||| adAddr reg)
  have hdecode := decode_head h h8 hbytes
  have hok := hc.write_ok s hi lo tbuf (by rw [hdecode]) (by rw [hdecode])
  have hstores := hc.write_stores s hi lo tbuf (by rw [hdecode]) (by rw [hdecode])
  rw [hdecode] at hstores
  have hcall : c.spiWritem s reg tbuf = (0, (c.transfer s (hi :: lo :: tbuf) 0).2.1) := by
    have hcmd : instruction (adWrite ||| adCnt (BitVec.ofNat 32 tbuf.length) ||| adAddr reg) =
        [hi, lo] := hbytes
    unfold Chip.spiWritem
    rw [if_neg (Nat.not_lt.mpr h8), hcmd]
    exact if_neg (Int.not_lt.mpr hok)
  rw [hcall]
  exact ⟨rfl, hstores⟩

/-- A single byte is written as a buffer of one byte is. -/
theorem Chip.spiWrite_eq : c.spiWrite s reg val = c.spiWritem s reg [val.setWidth 8] := rfl

theorem stored_singleton {addr : BitVec 10} {b : Byte} {r : BitVec 10 → Byte} :
    stored addr [b] r = Function.update r addr b := by
  funext a
  unfold stored
  by_cases h : a = addr
  · subst h
    rw [Function.update_self, BitVec.sub_self]
    rfl
  · have hne : (addr - a).toNat ≠ 0 := by
      intro hzero
      have hsub : addr - a = 0#10 := BitVec.eq_of_toNat_eq hzero
      apply h
      rw [← BitVec.zero_add a, ← hsub, BitVec.sub_add_cancel]
    rw [Function.update_of_ne h, List.getD_eq_getElem?_getD, List.getElem?_eq_none]
    · rfl
    · exact Nat.one_le_iff_ne_zero.mpr hne

theorem Chip.Keeps.spiWrite (hc : c.Keeps regs kept) (s : σ) (reg val : BitVec 32) :
    (c.spiWrite s reg val).1 = 0 ∧ ∀ a, kept a → regs (c.spiWrite s reg val).2 a =
      Function.update (regs s) (reg.setWidth 10) (val.setWidth 8) a := by
  rw [Chip.spiWrite_eq, ← stored_singleton]
  exact hc.spiWritem (by simp) (by simp [maxMbyteSpi])

/-- Of a byte that is read at a kept address, the driver sees what the register holds. -/
theorem Chip.Keeps.spiReadm_one (hc : c.Keeps regs kept) (hreg : kept (reg.setWidth 10)) :
    (c.spiReadm s reg 1).1 = 0 ∧
    (∀ a, kept a → regs (c.spiReadm s reg 1).2.1 a = regs s a) ∧
    (c.spiReadm s reg 1).2.2.headD 0#8 = regs s (reg.setWidth 10) := by
  obtain ⟨hok, hkeeps, hread⟩ :=
    hc.spiReadm (by decide : 0 < 1) (by decide : 1 ≤ maxMbyteSpi) s reg
  have hfirst := hread 0 (by decide) (by simpa using hreg)
  refine ⟨hok, hkeeps, ?_⟩
  rw [List.headD_eq_head?_getD, List.head?_eq_getElem?, hfirst]
  simp

theorem Chip.Keeps.spiRead (hc : c.Keeps regs kept) (hreg : kept (reg.setWidth 10)) :
    (c.spiRead s reg).1 = (regs s (reg.setWidth 10)).toNat ∧
    ∀ a, kept a → regs (c.spiRead s reg).2 a = regs s a := by
  obtain ⟨hok, hkeeps, hread⟩ := hc.spiReadm_one (s := s) hreg
  unfold Chip.spiRead
  dsimp only
  rw [hok, if_neg (Int.lt_irrefl 0), hread]
  exact ⟨rfl, hkeeps⟩

/-! ### Fields -/

/-- A field of a register, as the driver names it: an address and a mask with a bit in it. -/
structure RegField where
  addr : BitVec 10
  mask : Byte
  mask_ne_zero : mask ≠ 0#8

namespace RegField

variable {f : RegField}

def reg32 (f : RegField) : BitVec 32 := f.addr.setWidth 32

def mask32 (f : RegField) : BitVec 32 := f.mask.setWidth 32

/-- The mask with the offset that `find_first_bit` finds for it. -/
def field (f : RegField) : BitField (BitVec 10) 8 := ⟨f.addr, f.mask, findFirstBit f.mask32⟩

@[simp] theorem field_addr : f.field.addr = f.addr := rfl

@[simp] theorem setWidth_reg32 : f.reg32.setWidth 10 = f.addr := by
  unfold reg32
  rw [BitVec.setWidth_setWidth_of_le _ (by decide), BitVec.setWidth_eq]

theorem mask32_ne_zero : f.mask32 ≠ 0#32 := by
  intro hzero
  apply f.mask_ne_zero
  have := congrArg (·.setWidth 8) hzero
  simpa [mask32, BitVec.setWidth_setWidth_of_le] using this

end RegField

variable {f : RegField}

theorem Chip.Keeps.spiReadf (hc : c.Keeps regs kept) (hf : kept f.addr) :
    (c.spiReadf s f.reg32 f.mask32).1 = (f.field.read (regs s)).toNat ∧
    ∀ a, kept a → regs (c.spiReadf s f.reg32 f.mask32).2 a = regs s a := by
  have hreg : kept (f.reg32.setWidth 10) := by rwa [RegField.setWidth_reg32]
  obtain ⟨hok, hkeeps, hread⟩ := hc.spiReadm_one (s := s) hreg
  rw [RegField.setWidth_reg32] at hread
  have hbuf : ((regs s f.addr).setWidth 32 &&& f.mask32).setWidth 8 = regs s f.addr &&& f.mask := by
    simp [RegField.mask32, BitVec.setWidth_setWidth_of_le]
  unfold Chip.spiReadf
  rw [if_neg RegField.mask32_ne_zero]
  dsimp only
  rw [hok, if_neg (Int.lt_irrefl 0), hread, hbuf]
  exact ⟨rfl, hkeeps⟩

theorem Chip.Keeps.spiWritef (hc : c.Keeps regs kept) (hf : kept f.addr) :
    (c.spiWritef s f.reg32 f.mask32 val).1 = 0 ∧ ∀ a, kept a →
      regs (c.spiWritef s f.reg32 f.mask32 val).2 a =
        f.field.write (val.setWidth 8) (regs s) a := by
  have hreg : kept (f.reg32.setWidth 10) := by rwa [RegField.setWidth_reg32]
  obtain ⟨hok, hkeeps, hread⟩ := hc.spiReadm_one (s := s) hreg
  rw [RegField.setWidth_reg32] at hread
  unfold Chip.spiWritef
  rw [if_neg RegField.mask32_ne_zero]
  dsimp only
  rw [hok, if_neg (Int.lt_irrefl 0), hread]
  obtain ⟨hwrite, hstores⟩ := hc.spiWrite (c.spiReadm s f.reg32 1).2.1 f.reg32
    (((((((regs s f.addr).setWidth 32 &&& ~~~f.mask32).setWidth 8).setWidth 32 |||
      ((val <<< findFirstBit f.mask32) &&& f.mask32)).setWidth 8).setWidth 32))
  refine ⟨hwrite, ?_⟩
  intro a ha
  rw [hstores a ha, RegField.setWidth_reg32]
  unfold BitField.write
  rw [RegField.field_addr]
  by_cases haddr : a = f.addr
  · subst haddr
    rw [Function.update_self, Function.update_self]
    apply BitVec.eq_of_getLsbD_eq
    intro i hi
    simp [Fields.put, RegField.field, RegField.mask32, hi]
  · rw [Function.update_of_ne haddr, hkeeps a ha]
    exact (Function.update_of_ne haddr _ _).symm

end Keeps

/-! ### Any sequence of accesses -/

/-- What the driver does on the bus, with a family of fields. -/
inductive SpiOp (ι : Type*) where
  | readm (reg : BitVec 32) (num : Nat)
  | writem (reg : BitVec 32) (tbuf : List Byte)
  | writef (i : ι) (val : BitVec 32)

section Run

variable {ι : Type*} {φ : ι → RegField} {c : Chip σ} {regs : σ → BitVec 10 → Byte} {s : σ}

def SpiOp.exec (c : Chip σ) (φ : ι → RegField) (s : σ) : SpiOp ι → σ
  | readm reg num => (c.spiReadm s reg num).2.1
  | writem reg tbuf => (c.spiWritem s reg tbuf).2
  | writef i val => (c.spiWritef s (φ i).reg32 (φ i).mask32 val).2

/-- Some bytes are read or written, and none is written to a register with a field of the family. -/
def SpiOp.Clear (φ : ι → RegField) : SpiOp ι → Prop
  | readm _ num => 0 < num
  | writem reg tbuf => 0 < tbuf.length ∧
      ∀ i, tbuf.length ≤ (reg.setWidth 10 - (φ i).addr).toNat
  | writef _ _ => True

/-- What is put into the fields. -/
def SpiOp.puts : List (SpiOp ι) → List (ι × Byte) :=
  List.filterMap fun
    | readm _ _ => none
    | writem _ _ => none
    | writef i val => some (i, val.setWidth 8)

/-- The registers with a field of the family. -/
def Holding (φ : ι → RegField) (a : BitVec 10) : Prop := ∃ i, (φ i).addr = a

theorem holding (i : ι) : Holding φ (φ i).addr := ⟨i, rfl⟩

/-- One access changes the registers of the family as its write to a field does. -/
theorem SpiOp.exec_spec (hc : c.Keeps regs (Holding φ)) {op : SpiOp ι} (hop : op.Clear φ)
    {a : BitVec 10} (ha : Holding φ a) :
    regs (op.exec c φ s) a =
      BitField.writes (fun i => (φ i).field) (SpiOp.puts [op]) (regs s) a := by
  cases op with
  | readm reg num =>
    by_cases h8 : num ≤ maxMbyteSpi
    · exact (hc.spiReadm hop h8 s reg).2.1 a ha
    · rw [exec, Chip.spiReadm, if_pos (Nat.not_le.mp h8)]
      rfl
  | writem reg tbuf =>
    by_cases h8 : tbuf.length ≤ maxMbyteSpi
    · obtain ⟨i, rfl⟩ := ha
      rw [exec, (hc.spiWritem hop.1 h8).2 _ (holding i)]
      unfold stored
      rw [List.getD_eq_getElem?_getD, List.getElem?_eq_none (hop.2 i)]
      rfl
    · rw [exec, Chip.spiWritem, if_pos (Nat.not_le.mp h8)]
      rfl
  | writef i val => exact (hc.spiWritef (holding i)).2 a ha

theorem SpiOp.puts_cons (op : SpiOp ι) (ops : List (SpiOp ι)) :
    puts (op :: ops) = puts [op] ++ puts ops := by
  cases op <;> rfl

/-- The registers of the family do not depend on what the others hold. -/
theorem writes_congr {r r' : BitVec 10 → Byte} (h : ∀ a, Holding φ a → r a = r' a)
    (l : List (ι × Byte)) : ∀ a, Holding φ a →
      BitField.writes (fun i => (φ i).field) l r a =
        BitField.writes (fun i => (φ i).field) l r' a := by
  induction l generalizing r r' with
  | nil => exact h
  | cons e l ih =>
    apply ih
    intro a ha
    show (φ e.1).field.write e.2 r a = (φ e.1).field.write e.2 r' a
    unfold BitField.write
    by_cases haddr : a = (φ e.1).addr
    · subst haddr
      rw [RegField.field_addr, Function.update_self, Function.update_self, h _ (holding e.1)]
    · rw [RegField.field_addr, Function.update_of_ne haddr, Function.update_of_ne haddr, h a ha]

theorem SpiOp.run_spec (hc : c.Keeps regs (Holding φ)) {ops : List (SpiOp ι)}
    (hops : ∀ op ∈ ops, op.Clear φ) : ∀ a, Holding φ a →
      regs (ops.foldl (exec c φ) s) a =
        BitField.writes (fun i => (φ i).field) (puts ops) (regs s) a := by
  induction ops generalizing s with
  | nil => exact fun _ _ => rfl
  | cons op ops ih =>
    obtain ⟨hop, hops⟩ := List.forall_mem_cons.mp hops
    intro a ha
    rw [List.foldl_cons, ih hops a ha, puts_cons, BitField.writes_append]
    exact writes_congr (fun a ha => exec_spec hc hop ha) _ a ha

/-- **Fields of registers behave as variables**: over a device that follows its instructions, and
whatever else is read and written elsewhere, `ad9361_spi_readf` of a field gives what
`ad9361_spi_writef` last put there, if no two fields of the family share a bit. -/
theorem spiReadf_run [DecidableEq ι] (hc : c.Keeps regs (Holding φ))
    (hφ : ∀ i j, i ≠ j → (φ i).field.Apart (φ j).field) {ops : List (SpiOp ι)}
    (hops : ∀ op ∈ ops, op.Clear φ) (i : ι) :
    (c.spiReadf (ops.foldl (SpiOp.exec c φ) s) (φ i).reg32 (φ i).mask32).1 =
      (((Assignments.last i (SpiOp.puts ops)).map (φ i).field.clip).getD
        ((φ i).field.read (regs s))).toNat := by
  rw [(hc.spiReadf (holding i)).1, ← BitField.read_writes hφ]
  unfold BitField.read
  rw [RegField.field_addr, SpiOp.run_spec hc hops _ (holding i)]

/-- A device that stores at every address. -/
def registerFile : Chip (BitVec 10 → Byte) where
  transfer s txbuf num :=
    match txbuf with
    | hi :: lo :: data =>
      if (decode hi lo).write then (txbuf.length, stored (decode hi lo).addr data s, []) else
      (num + 2, s, (List.range num).map fun i => s ((decode hi lo).addr - BitVec.ofNat 10 i))
    | _ => (-einval, s, [])

section RegisterFile

variable {r : BitVec 10 → Byte} {hi lo : Byte}

theorem registerFile_read (h : (decode hi lo).write = false) (num : Nat) :
    registerFile.transfer r [hi, lo] num =
      ((num : Int) + 2, r,
        (List.range num).map fun i => r ((decode hi lo).addr - BitVec.ofNat 10 i)) := by
  have hnot : ¬ (decode hi lo).write = true := by simp [h]
  exact if_neg hnot

theorem registerFile_write (h : (decode hi lo).write = true) (data : List Byte) :
    registerFile.transfer r (hi :: lo :: data) 0 =
      (((hi :: lo :: data).length : Int), stored (decode hi lo).addr data r, []) :=
  if_pos h

theorem registerFile_keeps (kept : BitVec 10 → Prop) : registerFile.Keeps id kept where
  read_ok r hi lo h := by
    rw [registerFile_read h]
    show 0 ≤ ((decode hi lo).count : Int) + 2
    omega
  read_keeps r hi lo h a _ := by rw [registerFile_read h]
  read_bytes r hi lo h i hi' _ := by
    rw [registerFile_read h]
    simp [hi']
  write_ok r hi lo data h _ := by
    rw [registerFile_write h]
    exact Int.natCast_nonneg _
  write_stores r hi lo data h _ a _ := by
    rw [registerFile_write h]
    rfl

end RegisterFile

/-- `TX_VCO_DIVIDER(~0)` and `RX_VCO_DIVIDER(~0)` of `REG_RFPLL_DIVIDERS`. -/
def vcoDivider (tx : Bool) : RegField :=
  if tx then ⟨0x005#10, 0xF0#8, by decide⟩ else ⟨0x005#10, 0x0F#8, by decide⟩

def dividerOps : List (SpiOp Bool) :=
  [.writef true 5, .writef false 2, .writem 0x235#32 [1, 2, 3, 4, 5], .readm 0x005#32 1,
    .writef false 6]

theorem spiReadf_run_dividerOps :
    (registerFile.spiReadf (dividerOps.foldl (SpiOp.exec registerFile vcoDivider) fun _ => 0xAA#8)
      (vcoDivider true).reg32 (vcoDivider true).mask32).1 = 5 :=
  (spiReadf_run (registerFile_keeps _) (by decide)
    (by
      intro op hop
      simp only [dividerOps, List.mem_cons, List.not_mem_nil, or_false] at hop
      rcases hop with rfl | rfl | rfl | rfl | rfl
      all_goals unfold SpiOp.Clear; decide) true).trans (by decide)

end Run

end ModemFhss.Ad9361
