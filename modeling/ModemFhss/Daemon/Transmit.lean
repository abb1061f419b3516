import ModemFhss.Daemon.Modem

/-!
# Writing a block to the modem

`write_modem` adds whatever `write` returns to its static `bytes`, also the `-1` of a failure. The
offset then says one byte less than `write` has accepted, or points before the block.

`Transmission` follows the bytes that `write` accepts: `taken` of the block that is being written,
`finished` of the blocks that have been cleared. As long as `write` does not fail, they are the
blocks themselves, each byte once (`run_writesOnce`).
-/

namespace ModemFhss.Daemon

open Machine

structure Transmission (κ : Type) where
  worker : ModemWorker κ
  /-- What `write` has accepted of `block_to_modem_`. -/
  taken : Block
  /-- The blocks cleared, each with what `write` has accepted of it. -/
  finished : List (Block × Block)

namespace Transmission

variable {κ : Type}

def init : Transmission κ where
  worker := .init
  taken := []
  finished := []

/-- `write` has accepted `result` bytes of what it was given, `block_to_modem_` from `bytes` on. -/
def accept (s : Transmission κ) (worker : ModemWorker κ) (result : Int) : Transmission κ :=
  let range := (s.worker.blockToModem.drop s.worker.bytes.toNat).take result.toNat
  if worker.blockToModem = [] then
    { worker, taken := [], finished := s.finished ++ [(s.worker.blockToModem, s.taken ++ range)] }
  else
    { s with worker, taken := s.taken ++ range }

/-- One call of the worker's loop. -/
def step (s : Transmission κ) (e : ModemWorker.Event κ) : Option (Transmission κ) :=
  match ModemWorker.step s.worker e with
  | none => none
  | some worker =>
    match e with
    | .writeModem (some result) =>
      if 0 < s.worker.blockToModem.length then
        some (s.accept worker result)
      else
        some { s with worker }
    | _ => some { s with worker }

/-- The offset is inside the block and counts what has been accepted, the first bytes of the block;
a block is cleared when all of it has been accepted, not before and not later. -/
structure WritesOnce (s : Transmission κ) : Prop where
  offset : 0 ≤ s.worker.bytes ∧ s.worker.bytes ≤ s.worker.blockToModem.length
  taken : s.taken <+: s.worker.blockToModem
  length_taken : s.taken.length = s.worker.bytes
  unfinished : s.worker.blockToModem ≠ [] → s.taken ≠ s.worker.blockToModem
  finished : ∀ x ∈ s.finished, x.2 = x.1

/-- A call of `write` does not fail. -/
def Writes (s : Transmission κ) : ModemWorker.Event κ → Prop
  | .writeModem (some result) => 0 < s.worker.blockToModem.length → 0 ≤ result
  | _ => True

instance : ∀ (s : Transmission κ) (e : ModemWorker.Event κ), Decidable (s.Writes e)
  | _, .writeModem (some _) => inferInstanceAs (Decidable (_ → _))
  | _, .writeModem none => isTrue trivial
  | _, .dataReceive .. => isTrue trivial
  | _, .listenModem .. => isTrue trivial

/-! ## One call -/

variable {s s' : Transmission κ} {e : ModemWorker.Event κ} {es : List (ModemWorker.Event κ)}
  {worker : ModemWorker κ} {result : Int}

theorem writesOnce_init : (init : Transmission κ).WritesOnce where
  offset := ⟨Int.le_refl _, Int.le_refl _⟩
  taken := List.prefix_refl _
  length_taken := rfl
  unfinished h := absurd rfl h
  finished := by simp [init]

/-- With nothing to write the offset is at the start. -/
theorem WritesOnce.idle (h : s.WritesOnce) (hblock : s.worker.blockToModem = []) :
    s.worker.bytes = 0 ∧ s.taken = [] := by
  have hoffset := h.offset
  have htaken := h.taken
  rw [hblock] at hoffset htaken
  exact ⟨Int.le_antisymm hoffset.2 hoffset.1, List.prefix_nil.mp htaken⟩

/-- A call that does not write may bring a block when there is none. -/
theorem WritesOnce.keep (h : s.WritesOnce) (hbytes : worker.bytes = s.worker.bytes)
    (hblock : worker.blockToModem = s.worker.blockToModem ∨ s.worker.blockToModem = []) :
    ({ s with worker } : Transmission κ).WritesOnce := by
  rcases hblock with hsame | hempty
  · refine ⟨?_, ?_, ?_, ?_, h.finished⟩
    · rw [hbytes, hsame]
      exact h.offset
    · rw [hsame]
      exact h.taken
    · rw [hbytes]
      exact h.length_taken
    · rw [hsame]
      exact h.unfinished
  · obtain ⟨hzero, hnone⟩ := h.idle hempty
    refine ⟨?_, ?_, ?_, ?_, h.finished⟩
    · rw [hbytes, hzero]
      exact ⟨Int.le_refl _, Int.natCast_nonneg _⟩
    · show s.taken <+: _
      rw [hnone]
      exact List.nil_prefix
    · rw [hbytes]
      exact h.length_taken
    · intro hne
      show s.taken ≠ _
      rw [hnone]
      exact hne.symm

/-- A write takes the next bytes of the block. -/
theorem WritesOnce.take_accepted (h : s.WritesOnce) (result : Int) :
    s.taken ++ (s.worker.blockToModem.drop s.worker.bytes.toNat).take result.toNat =
      s.worker.blockToModem.take (s.worker.bytes.toNat + result.toNat) := by
  have hlength : s.worker.bytes.toNat = s.taken.length := by
    rw [← h.length_taken]
    rfl
  rw [List.prefix_iff_eq_take.mp h.taken, ← hlength, List.take_add]

theorem WritesOnce.accept (h : s.WritesOnce) (hblock : 0 < s.worker.blockToModem.length)
    (hfull : result ≤ s.worker.blockToModem.length - s.worker.bytes) (hpos : 0 ≤ result)
    (hwrite : s.worker.writeModem (some result) = .ok worker) :
    (s.accept worker result).WritesOnce := by
  have hnonneg : 0 ≤ s.worker.bytes := h.offset.1
  have hall := h.take_accepted result
  simp only [ModemWorker.writeModem, if_pos hblock, if_neg (Int.not_lt.mpr hnonneg)] at hwrite
  unfold Transmission.accept
  dsimp only
  rw [hall]
  split at hwrite
  · next hdone =>
    -- the last bytes: the block goes, and the next one starts at offset zero
    cases hwrite
    rw [if_pos rfl]
    refine ⟨⟨Int.le_refl _, Int.le_refl _⟩, List.prefix_refl _, rfl, fun hne => absurd rfl hne, ?_⟩
    intro x hx
    rcases List.mem_append.mp hx with hx | hx
    · exact h.finished x hx
    · rw [List.mem_singleton.mp hx]
      exact List.take_of_length_le (by omega)
  · next hmore =>
    cases hwrite
    rw [if_neg (List.ne_nil_of_length_pos hblock)]
    have hlt : s.worker.bytes.toNat + result.toNat < s.worker.blockToModem.length := by omega
    refine ⟨⟨?_, ?_⟩, List.take_prefix _ _, ?_, fun _ heq => ?_, h.finished⟩
    · show 0 ≤ s.worker.bytes + result
      omega
    · show s.worker.bytes + result ≤ (s.worker.blockToModem.length : Int)
      omega
    · show ((s.worker.blockToModem.take _).length : Int) = s.worker.bytes + result
      rw [List.length_take, Nat.min_eq_left (Nat.le_of_lt hlt)]
      omega
    · have hlength := congrArg List.length heq
      rw [List.length_take, Nat.min_eq_left (Nat.le_of_lt hlt)] at hlength
      exact absurd hlength (Nat.ne_of_lt hlt)

/-- A call of the worker's loop: `write` has accepted something, or nothing was written. -/
theorem step_cases (h : s.step e = some s') :
    (∃ result, e = .writeModem (some result) ∧ 0 < s.worker.blockToModem.length ∧
      result ≤ s.worker.blockToModem.length - s.worker.bytes ∧
        ∃ worker, s.worker.writeModem (some result) = .ok worker ∧ s' = s.accept worker result) ∨
    (∃ worker, worker.bytes = s.worker.bytes ∧
      (worker.blockToModem = s.worker.blockToModem ∨ s.worker.blockToModem = []) ∧
        s' = { s with worker }) := by
  unfold step at h
  cases hstep : ModemWorker.step s.worker e with
  | none => simp [hstep] at h
  | some worker =>
    simp only [hstep] at h
    rcases ModemWorker.step_cases hstep with ⟨sys, tcp, chunks, closed, v, rfl, hv, -, rfl⟩ |
      ⟨result, rfl, hrange, hwrite⟩ | ⟨now, buf, rfl, -, rfl⟩
    · cases h
      exact .inr ⟨{ s.worker with toWorker := v }, rfl, Worker.dataReceive_blockToModem hv, rfl⟩
    · cases result with
      | none =>
        cases h
        cases hwrite
        exact .inr ⟨_, rfl, .inl rfl, rfl⟩
      | some result =>
        by_cases hblock : 0 < s.worker.blockToModem.length
        · simp only [if_pos hblock] at h
          cases h
          exact .inl ⟨result, rfl, hblock, (hrange result rfl).2, worker, hwrite, rfl⟩
        · simp only [if_neg hblock] at h
          simp only [ModemWorker.writeModem, if_neg hblock] at hwrite
          cases h
          cases hwrite
          exact .inr ⟨_, rfl, .inl rfl, rfl⟩
    · cases h
      obtain ⟨hblock, hbytes, -⟩ := @ModemWorker.listenModem_frame κ s.worker now buf
      exact .inr ⟨_, hbytes, .inl hblock, rfl⟩

theorem WritesOnce.step (h : s.WritesOnce) (hwrites : s.Writes e) (hs : s.step e = some s') :
    s'.WritesOnce := by
  rcases step_cases hs with ⟨result, rfl, hblock, hfull, worker, hwrite, rfl⟩ |
    ⟨worker, hbytes, hblock, rfl⟩
  · exact h.accept hblock hfull (hwrites hblock) hwrite
  · exact h.keep hbytes hblock

/-! ## Whole runs -/

/-- **Each byte is written once**: while no call of `write` fails, `write` accepts the block from
its first byte to its last, and the offset is where it has got to. -/
theorem run_writesOnce (hm : Meets step Writes (init : Transmission κ) es)
    (hr : run step init es = some s) : s.WritesOnce :=
  run_invariant_of_meets (fun _ _ _ => WritesOnce.step) writesOnce_init hm hr

/-- A client's block, and the results of `write` while it is written. -/
def written (results : List Int) : List (ModemWorker.Event Unit) :=
  .dataReceive .bare () [[0, 5, 2, 7, 8]] false :: results.map fun result =>
    .writeModem (some result)

theorem run_writesOnce_partial :
    ∃ s, run step (init : Transmission Unit) (written [3, 0, 1]) = some s ∧ s.WritesOnce :=
  exists_of_isSome (by decide +kernel) fun _ hr => run_writesOnce (by decide +kernel) hr

/-- After a failure in the middle the byte before it is written again. -/
theorem failedWrite_not_writesOnce :
    ∃ s, run step (init : Transmission Unit) (written [3, -1, 3]) = some s ∧ ¬ s.WritesOnce := by
  obtain ⟨s, hr, hfinished⟩ :
      ∃ s, run step (init : Transmission Unit) (written [3, -1, 3]) = some s ∧
        s.finished = [([0, 5, 2, 7, 8], [0, 5, 2, 2, 7, 8])] := by
    decide +kernel
  refine ⟨s, hr, fun h => ?_⟩
  have hsame := h.finished _ (by rw [hfinished]; exact List.mem_singleton_self _)
  exact absurd hsame (by decide)

end Transmission

end ModemFhss.Daemon
