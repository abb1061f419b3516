import ModemFhss.Daemon.Modem

/-!
# What comes from the modem in one burst

Data from the modem comes in bursts, and a burst ends when nothing has come for three seconds.
`Bursts` follows the bursts beside the worker: it takes every chunk and every silence from the reads
themselves, never from `block_from_modem_`, and writes down how each burst was judged.

A burst with less than three bytes is found too small and yet stays in the buffer, in front of the
next one. `run_judged` says that every burst is judged on its own exactly if none is that short.
-/

namespace ModemFhss.Daemon

open Machine

/-- The end of a burst: the client's block before and after, and what is left in the buffer. -/
structure Judgement where
  burst : Block
  before : Block
  after : Block
  left : Block
  deriving DecidableEq, Repr

/-- The client gets the burst if it is a well-formed block; either way the buffer is empty. -/
structure Judgement.Fair (j : Judgement) : Prop where
  client : j.after = if WellFormed j.burst then j.burst else j.before
  clean : j.left = []

structure Bursts (κ : Type) where
  worker : ModemWorker κ
  /-- What has come since the last burst ended. -/
  burst : Block
  /-- When the last of it came. -/
  last : Int
  judged : List Judgement

namespace Bursts

variable {κ : Type}

def init : Bursts κ where
  worker := .init
  burst := []
  last := 0
  judged := []

/-- A read without bytes, three seconds or more after the last chunk. -/
def Ends (s : Bursts κ) (now : Int) (buf : Block) : Prop :=
  buf = [] ∧ 0 < s.burst.length ∧ 3000 ≤ now - s.last

instance (s : Bursts κ) (now : Int) (buf : Block) : Decidable (s.Ends now buf) :=
  inferInstanceAs (Decidable (_ ∧ _))

/-- What a read means for the bursts, `worker` being the worker after it. -/
def read (s : Bursts κ) (worker : ModemWorker κ) (now : Int) (buf : Block) : Bursts κ :=
  if 0 < buf.length then
    { s with worker, burst := s.burst ++ buf, last := now }
  else if s.Ends now buf then
    { s with
      worker
      burst := []
      judged := s.judged ++
        [⟨s.burst, s.worker.blockToClient, worker.blockToClient, worker.blockFromModem⟩] }
  else
    { s with worker }

/-- One call of the worker's loop. -/
def step (s : Bursts κ) (e : ModemWorker.Event κ) : Option (Bursts κ) :=
  match ModemWorker.step s.worker e with
  | none => none
  | some worker =>
    match e with
    | .listenModem now (some buf) => some (s.read worker now buf)
    | _ => some { s with worker }

/-- A burst that ends has three bytes. -/
def LongEnough (s : Bursts κ) : ModemWorker.Event κ → Prop
  | .listenModem now (some buf) => s.Ends now buf → 3 ≤ s.burst.length
  | _ => True

instance : ∀ (s : Bursts κ) (e : ModemWorker.Event κ), Decidable (s.LongEnough e)
  | _, .listenModem _ (some _) => inferInstanceAs (Decidable (_ → _))
  | _, .listenModem _ none => isTrue trivial
  | _, .dataReceive .. => isTrue trivial
  | _, .writeModem _ => isTrue trivial

/-! ## One call -/

variable {s s' : Bursts κ} {e : ModemWorker.Event κ} {es : List (ModemWorker.Event κ)}
  {worker : ModemWorker κ} {now : Int} {buf : Block}

/-- The buffer and the stopwatch know the burst, and all the bursts before it were judged fairly. -/
structure Inv (s : Bursts κ) : Prop where
  buffer : s.worker.blockFromModem = s.burst
  clock : s.burst ≠ [] → s.worker.timeoutOp = s.last
  judged : ∀ j ∈ s.judged, j.Fair

theorem inv_init : (init : Bursts κ).Inv where
  buffer := rfl
  clock h := absurd rfl h
  judged := by simp [init]

/-- A call of the worker's loop: a read of the modem, or something that leaves its buffer alone. -/
theorem step_cases (h : s.step e = some s') :
    (∃ now buf, e = .listenModem now (some buf) ∧
      s' = s.read (s.worker.listenModem now (some buf)) now buf) ∨
    ((∀ now buf, e ≠ .listenModem now (some buf)) ∧
      ∃ worker, worker.blockFromModem = s.worker.blockFromModem ∧
        worker.timeoutOp = s.worker.timeoutOp ∧ s' = { s with worker }) := by
  unfold step at h
  cases hstep : ModemWorker.step s.worker e with
  | none => simp [hstep] at h
  | some worker =>
    simp only [hstep] at h
    rcases ModemWorker.step_cases hstep with ⟨sys, tcp, chunks, closed, v, rfl, -, -, rfl⟩ |
      ⟨result, rfl, -, hwrite⟩ | ⟨now, buf, rfl, -, rfl⟩
    · cases h
      exact .inr ⟨nofun, { s.worker with toWorker := v }, rfl, rfl, rfl⟩
    · cases h
      obtain ⟨-, hbuffer, hclock, -⟩ := ModemWorker.writeModem_frame hwrite
      exact .inr ⟨nofun, worker, hbuffer, hclock, rfl⟩
    · cases buf with
      | none =>
        cases h
        exact .inr ⟨nofun, s.worker, rfl, rfl, rfl⟩
      | some buf =>
        cases h
        exact .inl ⟨now, buf, rfl, rfl⟩

theorem longEnough_of_other (h : ∀ now buf, e ≠ .listenModem now (some buf)) : s.LongEnough e := by
  unfold LongEnough
  split
  · next now buf => exact absurd rfl (h now buf)
  · trivial

theorem Inv.keep (h : s.Inv) (hbuffer : worker.blockFromModem = s.worker.blockFromModem)
    (hclock : worker.timeoutOp = s.worker.timeoutOp) :
    ({ s with worker } : Bursts κ).Inv where
  buffer := hbuffer.trans h.buffer
  clock hne := hclock.trans (h.clock hne)
  judged := h.judged

/-- The worker finds the end of the burst where it is. -/
theorem Inv.listenModem_nil (h : s.Inv) : s.worker.listenModem now (some []) =
    if s.Ends now [] then s.worker.endOfBlock else s.worker := by
  have hends : (0 < s.worker.blockFromModem.length ∧ 3000 ≤ now - s.worker.timeoutOp) ↔
      s.Ends now [] := by
    unfold Ends
    rw [h.buffer]
    constructor
    · rintro ⟨hlength, htime⟩
      rw [h.clock (List.ne_nil_of_length_pos hlength)] at htime
      exact ⟨rfl, hlength, htime⟩
    · rintro ⟨-, hlength, htime⟩
      rw [h.clock (List.ne_nil_of_length_pos hlength)]
      exact ⟨hlength, htime⟩
  simp only [ModemWorker.listenModem, List.length_nil, Nat.lt_irrefl, if_false, hends]

/-- How the worker ends a burst of three bytes or more. -/
theorem endOfBlock_of_long {w : ModemWorker κ} (h : 3 ≤ w.blockFromModem.length) :
    w.endOfBlock.blockFromModem = [] ∧ w.endOfBlock.blockToClient =
      if WellFormed w.blockFromModem then w.blockFromModem else w.blockToClient := by
  unfold ModemWorker.endOfBlock
  rw [if_neg (Nat.not_lt_of_le h)]
  by_cases hsize : Worker.header w.blockFromModem = w.blockFromModem.length
  · have hwf : WellFormed w.blockFromModem := ⟨hsize, h⟩
    rw [if_pos hsize, if_pos hwf]
    exact ⟨rfl, rfl⟩
  · have hwf : ¬ WellFormed w.blockFromModem := fun hwf => hsize hwf.size
    rw [if_neg hsize, if_neg hwf]
    exact ⟨rfl, rfl⟩

theorem Inv.read (h : s.Inv) (hlong : s.Ends now buf → 3 ≤ s.burst.length) :
    (s.read (s.worker.listenModem now (some buf)) now buf).Inv := by
  unfold Bursts.read
  split
  · next hpos =>
    simp only [ModemWorker.listenModem, if_pos hpos]
    refine ⟨?_, fun _ => rfl, h.judged⟩
    show s.worker.blockFromModem ++ buf = s.burst ++ buf
    rw [h.buffer]
  · next hzero =>
    obtain rfl : buf = [] := List.eq_nil_of_length_eq_zero (Nat.eq_zero_of_not_pos hzero)
    rw [h.listenModem_nil]
    split
    · next hends =>
      -- the burst is over: it is in the buffer, and long enough to be judged
      have hbuffer : 3 ≤ s.worker.blockFromModem.length := by
        rw [h.buffer]
        exact hlong hends
      obtain ⟨hclean, hclient⟩ := endOfBlock_of_long hbuffer
      rw [h.buffer] at hclient
      refine ⟨hclean, fun hne => absurd rfl hne, fun j hj => ?_⟩
      rcases List.mem_append.mp hj with hj | hj
      · exact h.judged j hj
      · rw [List.mem_singleton.mp hj]
        exact ⟨hclient, hclean⟩
    · exact h

/-- A burst that is too short stays in the buffer. -/
theorem Inv.not_fair (h : s.Inv) (hends : s.Ends now buf) (hshort : s.burst.length < 3) :
    ∃ j ∈ (s.read (s.worker.listenModem now (some buf)) now buf).judged, ¬ j.Fair := by
  obtain ⟨rfl, hpos, -⟩ := id hends
  have hbuffer : s.worker.blockFromModem.length < 3 := by rwa [h.buffer]
  have hstays : s.worker.endOfBlock = s.worker := if_pos hbuffer
  rw [h.listenModem_nil, if_pos hends, hstays]
  unfold Bursts.read
  rw [if_neg (by simp), if_pos hends]
  refine ⟨_, List.mem_append_right _ (List.mem_singleton_self _), fun hfair => ?_⟩
  have hclean : s.worker.blockFromModem = [] := hfair.clean
  rw [h.buffer] at hclean
  rw [hclean] at hpos
  exact Nat.lt_irrefl 0 hpos

theorem Inv.step (h : s.Inv) (hlong : s.LongEnough e) (hs : s.step e = some s') : s'.Inv := by
  rcases step_cases hs with ⟨now, buf, rfl, rfl⟩ | ⟨-, worker, hbuffer, hclock, rfl⟩
  · exact h.read hlong
  · exact h.keep hbuffer hclock

theorem Inv.unfair_of_short (h : s.Inv) (hshort : ¬ s.LongEnough e) (hs : s.step e = some s') :
    ¬ ∀ j ∈ s'.judged, j.Fair := by
  rcases step_cases hs with ⟨now, buf, rfl, rfl⟩ | ⟨hother, worker, -, -, rfl⟩
  · obtain ⟨hends, hlt⟩ := Classical.not_imp.mp hshort
    obtain ⟨j, hj, hunfair⟩ := h.not_fair hends (Nat.lt_of_not_le hlt)
    exact fun hall => hunfair (hall j hj)
  · exact absurd (longEnough_of_other hother) hshort

/-- The judgements are never taken back. -/
theorem judged_step (hs : s.step e = some s') : s.judged <+: s'.judged := by
  rcases step_cases hs with ⟨now, buf, rfl, rfl⟩ | ⟨-, worker, -, -, rfl⟩
  · unfold Bursts.read
    split
    · exact List.prefix_refl _
    · split
      · exact List.prefix_append _ _
      · exact List.prefix_refl _
  · exact List.prefix_refl _

/-! ## Whole runs -/

/-- **Every burst on its own**: in a run all bursts are judged fairly if and only if none of them
ends with less than three bytes. -/
theorem run_judged (hr : run step (init : Bursts κ) es = some s) :
    Meets step LongEnough init es ↔ ∀ j ∈ s.judged, j.Fair :=
  meets_iff_of_run (I := Inv) (P := fun s => ∀ j ∈ s.judged, j.Fair) (fun _ _ _ => Inv.step)
    (fun _ h => h.judged) (fun _ _ _ => Inv.unfair_of_short)
    (fun _ _ _ hnot hs hall => hnot fun j hj => hall j ((judged_step hs).subset hj)) inv_init hr

/-- The modem is read every second from time zero. -/
def everySecond (reads : List Block) : List (ModemWorker.Event Unit) :=
  reads.mapIdx fun k buf => .listenModem (1000 * k) (some buf)

/-- A block in two chunks, and a burst whose header is wrong. -/
theorem run_judged_two :
    ∃ s, run step (init : Bursts Unit)
        (everySecond [[0, 4], [], [2, 7], [], [], [], [9, 9, 9], [], [], []]) = some s ∧
      ∀ j ∈ s.judged, j.Fair :=
  exists_of_isSome (by decide +kernel) fun _ hr => (run_judged hr).mp (by decide +kernel)

/-- A byte by itself, and a block after it. -/
def strayByte : List (ModemWorker.Event Unit) :=
  everySecond [[7], [], [], [], [0, 3, 2], [], [], []]

/-- The byte stays in front of the block, which the client never gets. -/
theorem strayByte_unfair : ∃ s, run step (init : Bursts Unit) strayByte = some s ∧
    s.judged = [⟨[7], [], [], [7]⟩, ⟨[0, 3, 2], [], [], []⟩] ∧ ¬ ∀ j ∈ s.judged, j.Fair := by
  obtain ⟨s, hr, hjudged⟩ : ∃ s, run step (init : Bursts Unit) strayByte = some s ∧
      s.judged = [⟨[7], [], [], [7]⟩, ⟨[0, 3, 2], [], [], []⟩] := by
    decide +kernel
  refine ⟨s, hr, hjudged, fun hall => ?_⟩
  have hfair := hall ⟨[0, 3, 2], [], [], []⟩ (by simp [hjudged])
  exact absurd hfair.client (by decide)

end Bursts

end ModemFhss.Daemon
