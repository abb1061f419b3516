import ModemFhss.KeySender.Station
import ModemFhss.Library.Chunk

/-!
# Saving the keys, when files fail (`MODEM_SAVE_KEYS`)

`saveKeysToFile` copies `srcfile` to `dstdir + srcfile` through two streams that throw nothing: what
a `read` or a `write` could not do is in the state of the streams, and so is a `close` that could
not write what was left in the buffer. Nobody looks at it, and `srcfile` is removed after the call.

`Outcome` says what the files do to each operation. The copy is all of `srcfile` if and only if
every read and every write does its whole block (`out_copyBlocks`), and the step is safe if and only
if the copy is, or `srcfile` stays (`keepsKeys_iff`).
-/

namespace ModemFhss.KeySender

/-- `srcfile` and `dstdir + srcfile`. -/
structure KeyFiles where
  srcfile : Option Text
  keyfile : Option Text
  deriving DecidableEq

/-- What the files do. -/
structure Outcome where
  /-- `srcfile`, if it is there, can be opened. -/
  opensSrc : Bool
  opensDst : Bool
  /-- How many bytes the `i`-th `read` gets, of those asked for and there. -/
  reads : Nat → Nat
  /-- How many bytes the `i`-th `write` gets rid of. -/
  writes : Nat → Nat
  /-- What the destination holds after `close`, if that is not what was written. -/
  close : Option Text
  /-- `remove` can remove `srcfile`. -/
  removes : Bool

/-- The streams of `saveKeysToFile`. -/
structure Streams where
  /-- Not yet read. -/
  left : Text
  /-- `ifs.good()` -/
  ifsGood : Bool
  /-- Written. -/
  out : Text
  /-- `ofs.good()` -/
  ofsGood : Bool

namespace Streams

/-- `ifs.read(buf.get(), 256)`: the `ifs.gcount()` bytes in `buf`. -/
def read (s : Streams) (n : Nat) : Text × Streams :=
  if s.ifsGood then
    let block := s.left.take (min n 256)
    (block, { s with left := s.left.drop block.length, ifsGood := block.length = 256 })
  else
    ([], s)

/-- `ofs.write(buf.get(), ifs.gcount())` -/
def write (s : Streams) (block : Text) (n : Nat) : Streams :=
  if s.ofsGood then { s with out := s.out ++ block.take n, ofsGood := block.length ≤ n } else s

end Streams

/-- The `do` loop from its `i`-th turn on. A turn that is not the last one reads something. -/
def copyBlocks (o : Outcome) : Nat → Nat → Streams → Streams
  | 0, _, s => s
  | fuel + 1, i, s =>
    let (block, s) := s.read (o.reads i)
    let s := s.write block (o.writes i)
    if block = [] then s else copyBlocks o fuel (i + 1) s

/-- What was written to `ofs` when it is closed. -/
def copied (o : Outcome) (src : Text) : Text :=
  (copyBlocks o (src.length + 1) 0 ⟨src, true, [], true⟩).out

/-- `MODEM_SAVE_KEYS`: `saveKeysToFile` and `remove`. If not both files are open there is an
exception, but `ofs` has made its file empty by then. -/
def KeyFiles.save (f : KeyFiles) (o : Outcome) : KeyFiles :=
  let opened := if o.opensDst then { f with keyfile := some [] } else f
  match f.srcfile with
  | none => opened
  | some src =>
    if o.opensSrc ∧ o.opensDst then
      { srcfile := if o.removes then none else some src
        keyfile := some (o.close.getD (copied o src)) }
    else
      opened

/-- What was in `srcfile` is still there, or else in the destination file. -/
def KeyFiles.KeepsKeys (f : KeyFiles) (o : Outcome) : Prop :=
  ∀ src ∈ f.srcfile, (f.save o).srcfile = some src ∨
    (f.save o).srcfile = none ∧ (f.save o).keyfile = some src

/-- Each block is read and written from its first to its last byte. -/
def Outcome.Whole (o : Outcome) (src : Text) : Prop :=
  ∀ i < Chunk.count 256 src,
    (Chunk.piece 256 src i).length ≤ o.reads i ∧ (Chunk.piece 256 src i).length ≤ o.writes i

/-- The destination is all of `srcfile`: nothing failed, or what it holds is just that all the
same. -/
def Outcome.Copies (o : Outcome) (src : Text) : Prop :=
  o.close = none ∧ o.Whole src ∨ o.close = some src

instance (f : KeyFiles) (o : Outcome) : Decidable (f.KeepsKeys o) :=
  inferInstanceAs (Decidable (∀ src ∈ f.srcfile, _))

instance (o : Outcome) (src : Text) : Decidable (o.Whole src) :=
  inferInstanceAs (Decidable (∀ i < Chunk.count 256 src, _))

instance (o : Outcome) (src : Text) : Decidable (o.Copies src) :=
  inferInstanceAs (Decidable (_ ∨ _))

/-! ## The copy -/

variable {o : Outcome} {s : Streams} {fuel i n : Nat} {src out block : Text}

theorem out_read (s : Streams) (n : Nat) : (s.read n).2.out = s.out := by
  unfold Streams.read
  split <;> rfl

theorem read_of_not_good (h : s.ifsGood = false) : s.read n = ([], s) := by
  unfold Streams.read
  rw [h]
  rfl

theorem out_write_nil (s : Streams) (n : Nat) : (s.write [] n).out = s.out := by
  unfold Streams.write
  split
  · simp
  · rfl

theorem write_of_not_good (h : s.ofsGood = false) : s.write block n = s := by
  unfold Streams.write
  rw [h]
  rfl

/-- After an error of either stream nothing more is written. -/
theorem out_copyBlocks_of_not_good (h : s.ifsGood = false ∨ s.ofsGood = false) :
    (copyBlocks o fuel i s).out = s.out := by
  induction fuel generalizing i s with
  | zero => rfl
  | succ fuel ih =>
    unfold copyBlocks
    rcases h with hifs | hofs
    · rw [read_of_not_good hifs]
      exact out_write_nil s _
    · have hofs' : (s.read (o.reads i)).2.ofsGood = false := by
        unfold Streams.read
        split <;> exact hofs
      dsimp only
      rw [write_of_not_good hofs']
      split
      · exact out_read s _
      · rw [ih (.inr hofs'), out_read]

/-- One turn of the loop while both streams are good. -/
theorem copyBlocks_succ (o : Outcome) (fuel i : Nat) (src out : Text) :
    copyBlocks o (fuel + 1) i ⟨src.drop (i * 256), true, out, true⟩ =
      let block := (Chunk.piece 256 src i).take (o.reads i)
      let s : Streams :=
        { left := (src.drop (i * 256)).drop block.length
          ifsGood := block.length = 256
          out := out ++ block.take (o.writes i)
          ofsGood := block.length ≤ o.writes i }
      if block = [] then s else copyBlocks o fuel (i + 1) s := by
  unfold Chunk.piece
  rw [List.take_take]
  rfl

/-- A turn that reads and writes its whole block. -/
theorem copyBlocks_of_whole (fuel : Nat) (hin : i < Chunk.count 256 src)
    (hread : (Chunk.piece 256 src i).length ≤ o.reads i)
    (hwrite : (Chunk.piece 256 src i).length ≤ o.writes i) :
    copyBlocks o (fuel + 1) i ⟨src.drop (i * 256), true, src.take (i * 256), true⟩ =
      copyBlocks o fuel (i + 1)
        { left := src.drop ((i + 1) * 256)
          ifsGood := (Chunk.piece 256 src i).length = 256
          out := src.take ((i + 1) * 256)
          ofsGood := true } := by
  have hne : Chunk.piece 256 src i ≠ [] :=
    List.length_pos_iff.mp (Chunk.length_piece_pos (by decide) hin)
  have hout : src.take (i * 256) ++ Chunk.piece 256 src i = src.take ((i + 1) * 256) := by
    rw [Nat.add_mul, Nat.one_mul, List.take_add]
    rfl
  have hleft : (src.drop (i * 256)).drop (Chunk.piece 256 src i).length =
      src.drop ((i + 1) * 256) := by
    rw [List.drop_drop, Chunk.length_piece]
    rcases Nat.le_total 256 (src.length - i * 256) with hlong | hshort
    · rw [Nat.min_eq_left hlong, Nat.add_mul, Nat.one_mul]
    · rw [Nat.min_eq_right hshort, List.drop_of_length_le (by omega),
        List.drop_of_length_le (by omega)]
  rw [copyBlocks_succ]
  dsimp only
  rw [List.take_of_length_le hread, List.take_of_length_le hwrite, if_neg hne, hout, hleft,
    decide_eq_true hwrite]

/-- A turn that does not: a byte is lost, and all after it. -/
theorem out_copyBlocks_of_not_whole (fuel : Nat) (hi : i * 256 < src.length)
    (h : ¬ ((Chunk.piece 256 src i).length ≤ o.reads i ∧
      (Chunk.piece 256 src i).length ≤ o.writes i)) :
    (copyBlocks o (fuel + 1) i ⟨src.drop (i * 256), true, src.take (i * 256), true⟩).out ≠
      src := by
  have hblock : (Chunk.piece 256 src i).length = min 256 (src.length - i * 256) :=
    Chunk.length_piece
  have hlost : (src.take (i * 256) ++
      ((Chunk.piece 256 src i).take (o.reads i)).take (o.writes i)).length < src.length := by
    simp only [List.length_append, List.length_take]
    omega
  have hbad : decide (((Chunk.piece 256 src i).take (o.reads i)).length = 256) = false ∨
      decide (((Chunk.piece 256 src i).take (o.reads i)).length ≤ o.writes i) = false := by
    simp only [List.length_take, decide_eq_false_iff_not]
    omega
  intro hcopied
  rw [copyBlocks_succ] at hcopied
  dsimp only at hcopied
  split at hcopied
  · exact absurd (congrArg List.length hcopied) (Nat.ne_of_lt hlost)
  · rw [out_copyBlocks_of_not_good hbad] at hcopied
    exact absurd (congrArg List.length hcopied) (Nat.ne_of_lt hlost)

/-- **From the `i`-th turn on**, the rest is copied if and only if each of its blocks is whole. -/
theorem out_copyBlocks (o : Outcome) (hfuel : src.length < fuel + i * 256) :
    (copyBlocks o fuel i ⟨src.drop (i * 256), true, src.take (i * 256), true⟩).out = src ↔
      ∀ j < Chunk.count 256 src, i ≤ j →
        (Chunk.piece 256 src j).length ≤ o.reads j ∧
          (Chunk.piece 256 src j).length ≤ o.writes j := by
  have hcount (j : Nat) : j < Chunk.count 256 src ↔ j * 256 < src.length :=
    Chunk.lt_count_iff (by decide)
  have hlength (j : Nat) : (Chunk.piece 256 src j).length = min 256 (src.length - j * 256) :=
    Chunk.length_piece
  induction fuel generalizing i with
  | zero =>
    refine iff_of_true (List.take_of_length_le (by omega)) ?_
    intro j hj hij
    have := (hcount j).mp hj
    omega
  | succ fuel ih =>
    by_cases hi : i * 256 < src.length
    · have hin := (hcount i).mpr hi
      by_cases hwhole : (Chunk.piece 256 src i).length ≤ o.reads i ∧
          (Chunk.piece 256 src i).length ≤ o.writes i
      · -- a whole block is added to the copy, and if it is a full one the loop goes on
        rw [copyBlocks_of_whole fuel hin hwhole.1 hwhole.2]
        by_cases hfull : (Chunk.piece 256 src i).length = 256
        · rw [decide_eq_true hfull]
          refine (ih (by omega)).trans ⟨?_, ?_⟩
          · intro h j hj hij
            rcases Nat.eq_or_lt_of_le hij with rfl | hlt
            · exact hwhole
            · exact h j hj hlt
          · exact fun h j hj hij => h j hj (Nat.le_of_succ_le hij)
        · -- the last block, a short one: the next read finds `eofbit`
          rw [out_copyBlocks_of_not_good (.inl (decide_eq_false hfull))]
          have hlast := hlength i
          refine iff_of_true (List.take_of_length_le (by omega)) ?_
          intro j hj hij
          have hj' := (hcount j).mp hj
          obtain rfl : i = j := by omega
          exact hwhole
      · exact iff_of_false (out_copyBlocks_of_not_whole fuel hi hwhole)
          fun h => hwhole (h i hin (Nat.le_refl i))
    · -- the last block was a full one, and there is nothing left
      have hnone : Chunk.piece 256 src i = [] :=
        List.eq_nil_of_length_eq_zero (by rw [hlength]; omega)
      rw [copyBlocks_succ, hnone]
      apply iff_of_true
      · simp only [List.take_nil, if_true, List.append_nil]
        exact List.take_of_length_le (by omega)
      · intro j hj hij
        have := (hcount j).mp hj
        omega

/-- The copy is all of `srcfile` if and only if every block is whole. -/
theorem copied_eq_iff : copied o src = src ↔ o.Whole src := by
  have hfuel : src.length < src.length + 1 + 0 * 256 := by omega
  have hcopy := out_copyBlocks o hfuel
  rw [Nat.zero_mul, List.drop_zero, List.take_zero] at hcopy
  rw [copied, hcopy]
  constructor
  · intro h i hi
    exact h i hi (Nat.zero_le i)
  · intro h i hi _
    exact h i hi

theorem copies_iff : o.close.getD (copied o src) = src ↔ o.Copies src := by
  unfold Outcome.Copies
  cases o.close with
  | none => simp [copied_eq_iff]
  | some left => simp

/-- Where nothing fails, this is the step of `Station`. -/
theorem save_station (s : Station) (hopens : o.opensSrc = true ∧ o.opensDst = true)
    (hremoves : o.removes = true) (hclose : o.close = none)
    (hwhole : ∀ src ∈ s.srcfile, o.Whole src) :
    KeyFiles.save ⟨s.srcfile, s.keyfile⟩ o =
      ⟨s.saveKeysToFile.srcfile, s.saveKeysToFile.keyfile⟩ := by
  unfold KeyFiles.save Station.saveKeysToFile
  cases hsrc : s.srcfile with
  | none => simp [hopens.2, Station.stop]
  | some src =>
    have hcopied : copied o src = src := copied_eq_iff.mpr (hwhole src hsrc)
    simp [hopens, hremoves, hclose, hcopied, Station.copyFile_eq]

/-- **When the step keeps the keys**: it does not come to the copy, or cannot remove `srcfile`, or
has copied all of it. -/
theorem keepsKeys_iff (f : KeyFiles) (o : Outcome) : f.KeepsKeys o ↔
    ∀ src ∈ f.srcfile,
      o.opensSrc = false ∨ o.opensDst = false ∨ o.removes = false ∨ o.Copies src := by
  obtain ⟨srcfile, keyfile⟩ := f
  refine forall_congr' fun src => forall_congr' fun hsrc => ?_
  obtain rfl : srcfile = some src := hsrc
  unfold KeyFiles.save
  by_cases hopen : o.opensSrc = true ∧ o.opensDst = true
  · simp only [if_pos hopen]
    rw [← copies_iff, hopen.1, hopen.2]
    cases o.removes <;> simp
  · simp only [if_neg hopen]
    refine iff_of_true (.inl ?_) ?_
    · split <;> rfl
    · rcases not_and_or.mp hopen with h | h
      · exact .inl (Bool.eq_false_iff.mpr h)
      · exact .inr (.inl (Bool.eq_false_iff.mpr h))

/-- A flash that has no room left: what was in `srcfile` is nowhere. -/
theorem not_keepsKeys : ¬ KeyFiles.KeepsKeys ⟨some "hop/seed:1\n".toList, none⟩
    { opensSrc := true
      opensDst := true
      reads := fun _ => 256
      writes := fun _ => 256
      close := some []
      removes := true } := by
  decide

end ModemFhss.KeySender
