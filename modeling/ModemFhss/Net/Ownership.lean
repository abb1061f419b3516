import ModemFhss.Library.Log
import ModemFhss.Library.Machine
import ModemFhss.Net.Tx

/-!
# Who owns a socket buffer

`Owned` is what the driver has to do with the socket buffers it accepts, `InTurn` a condition on the
order of calls and interrupts, and `run_owned` says that the driver keeps to the first exactly in
the runs that keep to the second. It does nothing itself to keep them in turn: after a timeout the
next call comes too early, and an interrupt that is late, or not the modem's, finds in `priv->skb`
a buffer that is not the one it stands for, or one that was freed.

One direction is an invariant (`Inv`). For the other, a run that is not in turn has a first step
that is not; what goes wrong there (`Broken`) cannot be made good again.
-/

namespace ModemFhss.Net

open Machine

namespace Tx

/-- A buffer is not touched after it was freed. -/
def Alive (before : List Action) (a : Action) : Prop :=
  ∀ use skb, a = .touch use (some skb) → .touch .free (some skb) ∉ before

/-- No buffer is touched while none is outstanding. -/
def Awaited (before : List Action) (a : Action) : Prop :=
  ∀ use skb, a = .touch use skb → outstanding before ≠ []

/-- What the driver owes the owner of the socket buffers. -/
structure Owned (s : Tx) : Prop where
  /-- A buffer was freed once, or it was not freed yet and is the one the next interrupt frees. -/
  freed : ∀ skb ∈ accepts s.history, s.history.count (.touch .free (some skb)) = 1 ∨
    s.history.count (.touch .free (some skb)) = 0 ∧ s.skb = some skb
  alive : Log.Always Alive s.history
  awaited : Log.Always Awaited s.history
  counted : s.stats.txPackets ≤ (accepts s.history).length

/-- A buffer is accepted when all those before it were freed, and an interrupt comes when one was
not. -/
def InTurn (s : Tx) : TxEvent → Prop
  | .mfhssTxPkt _ => outstanding s.history = []
  | .irqTxHandler _ => outstanding s.history ≠ []
  | .mfhssTxTimeout => True

instance : ∀ (s : Tx) (e : TxEvent), Decidable (s.InTurn e)
  | s, .mfhssTxPkt _ => inferInstanceAs (Decidable (outstanding s.history = []))
  | s, .irqTxHandler _ => inferInstanceAs (Decidable (outstanding s.history ≠ []))
  | _, .mfhssTxTimeout => isTrue trivial

variable {s s' : Tx} {e : TxEvent} {es : List TxEvent} {history : List Action} {skb : Nat}
  {p : Option Nat}

/-! ## The history -/

theorem accepts_accept : accepts (history ++ [.accept skb]) = accepts history ++ [skb] := by
  simp [accepts]

theorem accepts_touch {use : Use} : accepts (history ++ [.touch use p]) = accepts history := by
  simp [accepts]

theorem mem_outstanding :
    skb ∈ outstanding history ↔ skb ∈ accepts history ∧ .touch .free (some skb) ∉ history := by
  simp [outstanding]

theorem outstanding_accept (h : .touch .free (some skb) ∉ history) :
    outstanding (history ++ [.accept skb]) = outstanding history ++ [skb] := by
  simp [outstanding, accepts_accept, h]

theorem outstanding_read : outstanding (history ++ [.touch .read p]) = outstanding history := by
  simp [outstanding, accepts_touch]

theorem outstanding_free : outstanding (history ++ [.touch .free (some skb)]) =
    (outstanding history).filter (· ≠ skb) := by
  unfold outstanding
  rw [accepts_touch, List.filter_filter]
  apply List.filter_congr
  intro k _
  simp [eq_comm, and_comm]

/-! ## What holds in every run -/

/-- Buffers are numbered as they are accepted, and nothing else is touched. -/
structure Numbered (s : Tx) : Prop where
  inOrder : accepts s.history = List.range s.accepted.length
  touched : ∀ use skb, .touch use (some skb) ∈ s.history → skb < s.accepted.length
  slot : ∀ skb, s.skb = some skb → skb < s.accepted.length

theorem numbered_init : init.Numbered where
  inOrder := rfl
  touched _ _ h := by cases h
  slot _ h := by cases h

theorem Numbered.lt (h : s.Numbered) (hskb : skb ∈ accepts s.history) :
    skb < s.accepted.length := by
  rw [h.inOrder] at hskb
  exact List.mem_range.mp hskb

/-- The next buffer is a new one. -/
theorem Numbered.fresh (h : s.Numbered) (use : Use) :
    .touch use (some s.accepted.length) ∉ s.history :=
  fun hmem => Nat.lt_irrefl _ (h.touched use _ hmem)

/-- An event is a call, an interrupt with or without a buffer in `priv->skb`, or a timeout. -/
theorem step_cases (hs : step s e = some s') :
    (∃ skb, e = .mfhssTxPkt skb ∧ s' = s.mfhssTxPkt skb) ∨
    (∃ stale, e = .irqTxHandler stale ∧ s' = s.irqTxHandler stale) ∨
    (e = .mfhssTxTimeout ∧ s' = s.mfhssTxTimeout) := by
  unfold step at hs
  split at hs
  · cases hs
  · cases e with
    | mfhssTxPkt skb =>
      simp only at hs
      split at hs
      · cases hs
      · exact .inl ⟨skb, rfl, (Option.some.inj hs).symm⟩
    | irqTxHandler stale => exact .inr (.inl ⟨stale, rfl, (Option.some.inj hs).symm⟩)
    | mfhssTxTimeout => exact .inr (.inr ⟨rfl, (Option.some.inj hs).symm⟩)

theorem irqTxHandler_none {stale : Nat} (h : s.skb = none) : s.irqTxHandler stale =
    { s with
      stats.txPackets := s.stats.txPackets + 1
      oops := true
      history := s.history ++ [.touch .read none] } := by
  simp only [irqTxHandler, h]

theorem irqTxHandler_some {stale : Nat} (h : s.skb = some skb) : s.irqTxHandler stale =
    { s with
      stats := { s.stats with
        txPackets := s.stats.txPackets + 1
        txBytes := s.stats.txBytes + s.skbLen skb stale }
      history := s.history ++ [.touch .read (some skb)] ++ [.touch .free (some skb)]
      stopped := false } := by
  simp only [irqTxHandler, h]
  rfl

theorem Numbered.step (h : s.Numbered) (hs : Tx.step s e = some s') : s'.Numbered := by
  obtain ⟨skb, -, rfl⟩ | ⟨stale, -, rfl⟩ | ⟨-, rfl⟩ := step_cases hs
  · refine ⟨?_, fun use k hk => ?_, fun k hk => ?_⟩
    · show accepts (s.history ++ [.accept s.accepted.length]) =
        List.range (s.accepted ++ [skb]).length
      rw [accepts_accept, h.inOrder, List.length_append, List.length_singleton, List.range_succ]
    · have hold : .touch use (some k) ∈ s.history := by simpa [mfhssTxPkt] using hk
      have hlt := h.touched use k hold
      show k < (s.accepted ++ [skb]).length
      rw [List.length_append]
      exact Nat.lt_add_right _ hlt
    · cases hk
      show s.accepted.length < (s.accepted ++ [skb]).length
      simp
  · cases hslot : s.skb with
    | none =>
      rw [irqTxHandler_none hslot]
      refine ⟨accepts_touch.trans h.inOrder, fun use k hk => ?_, h.slot⟩
      have hold : .touch use (some k) ∈ s.history := by simpa using hk
      exact h.touched use k hold
    | some skb =>
      rw [irqTxHandler_some hslot]
      refine ⟨?_, fun use k hk => ?_, h.slot⟩
      · show accepts (s.history ++ _ ++ _) = _
        rw [accepts_touch, accepts_touch]
        exact h.inOrder
      · -- only the buffer in the slot is touched, and it was accepted
        have hk' : .touch use (some k) ∈ s.history ∨ k = skb := by
          simp only [List.mem_append, List.mem_singleton, Action.touch.injEq,
            Option.some.injEq] at hk
          rcases hk with (hold | ⟨-, rfl⟩) | ⟨-, rfl⟩
          · exact .inl hold
          · exact .inr rfl
          · exact .inr rfl
        rcases hk' with hold | rfl
        · exact h.touched use k hold
        · exact h.slot k hslot
  · exact ⟨h.inOrder, h.touched, h.slot⟩

/-! ## In turn, the driver keeps its duty -/

structure Inv (s : Tx) : Prop where
  numbered : s.Numbered
  alive : Log.Always Alive s.history
  awaited : Log.Always Awaited s.history
  /-- Every buffer was freed, or all but the one in `priv->skb`. -/
  turn : outstanding s.history = [] ∧ s.stats.txPackets = s.accepted.length ∨
    ∃ skb, outstanding s.history = [skb] ∧ s.skb = some skb ∧
      s.stats.txPackets + 1 = s.accepted.length

theorem inv_init : init.Inv where
  numbered := numbered_init
  alive := Log.always_nil
  awaited := Log.always_nil
  turn := .inl ⟨rfl, rfl⟩

theorem Inv.mfhssTxPkt (h : s.Inv) {skb : Frame} (hnum : (s.mfhssTxPkt skb).Numbered)
    (hnone : outstanding s.history = []) : (s.mfhssTxPkt skb).Inv where
  numbered := hnum
  alive := Log.always_concat.mpr ⟨h.alive, fun use k hk => by cases hk⟩
  awaited := Log.always_concat.mpr ⟨h.awaited, fun use k hk => by cases hk⟩
  turn := by
    rcases h.turn with ⟨-, hcount⟩ | ⟨k, hk, -⟩
    · refine .inr ⟨s.accepted.length, ?_, rfl, ?_⟩
      · show outstanding (s.history ++ [.accept s.accepted.length]) = _
        rw [outstanding_accept (h.numbered.fresh .free), hnone]
        rfl
      · show s.stats.txPackets + 1 = (s.accepted ++ [skb]).length
        rw [hcount, List.length_append, List.length_singleton]
    · rw [hnone] at hk
      cases hk

theorem Inv.irqTxHandler (h : s.Inv) {stale : Nat} (hnum : (s.irqTxHandler stale).Numbered)
    (hsome : outstanding s.history ≠ []) : (s.irqTxHandler stale).Inv := by
  rcases h.turn with ⟨hnone, -⟩ | ⟨skb, hskb, hslot, hcount⟩
  · exact absurd hnone hsome
  · -- the buffer outstanding is the one in the slot: it is read, freed, and outstanding no more
    have hlive : .touch .free (some skb) ∉ s.history :=
      (mem_outstanding.mp (hskb ▸ List.mem_singleton_self skb)).2
    have hread : outstanding (s.history ++ [.touch .read (some skb)]) = [skb] :=
      outstanding_read.trans hskb
    rw [irqTxHandler_some hslot] at hnum ⊢
    refine ⟨hnum, ?_, ?_, .inl ⟨?_, hcount⟩⟩
    · refine Log.always_concat.mpr ⟨Log.always_concat.mpr ⟨h.alive, ?_⟩, ?_⟩
      · intro use k hk
        cases hk
        exact hlive
      · intro use k hk
        cases hk
        simpa using hlive
    · refine Log.always_concat.mpr ⟨Log.always_concat.mpr ⟨h.awaited, fun _ _ _ => hsome⟩, ?_⟩
      intro _ _ _
      rw [hread]
      exact List.cons_ne_nil _ _
    · show outstanding (s.history ++ _ ++ _) = []
      rw [outstanding_free, hread]
      simp

theorem Inv.step (h : s.Inv) (hg : s.InTurn e) (hs : Tx.step s e = some s') : s'.Inv := by
  have hnum := h.numbered.step hs
  obtain ⟨skb, rfl, rfl⟩ | ⟨stale, rfl, rfl⟩ | ⟨-, rfl⟩ := step_cases hs
  · exact h.mfhssTxPkt hnum hg
  · exact h.irqTxHandler hnum hg
  · exact ⟨hnum, h.alive, h.awaited, h.turn⟩

/-- A buffer is freed at most once. -/
theorem count_free_le (h : Log.Always Alive history) :
    history.count (.touch .free (some skb)) ≤ 1 := by
  apply Log.count_le_one
  intro before a after heq ha
  exact h before a after heq .free skb ha

theorem Inv.owned (h : s.Inv) : s.Owned where
  freed skb hskb := by
    by_cases hfree : .touch .free (some skb) ∈ s.history
    · left
      have hpos := List.count_pos_iff.mpr hfree
      have hle : s.history.count (.touch .free (some skb)) ≤ 1 := count_free_le h.alive
      omega
    · right
      refine ⟨List.count_eq_zero_of_not_mem hfree, ?_⟩
      have hout : skb ∈ outstanding s.history := mem_outstanding.mpr ⟨hskb, hfree⟩
      rcases h.turn with ⟨hnone, -⟩ | ⟨k, hk, hslot, -⟩
      · rw [hnone] at hout
        cases hout
      · rw [hk, List.mem_singleton] at hout
        rw [hslot, hout]
  alive := h.alive
  awaited := h.awaited
  counted := by
    rw [h.numbered.inOrder, List.length_range]
    rcases h.turn with ⟨-, hcount⟩ | ⟨-, -, -, hcount⟩
    · exact Nat.le_of_eq hcount
    · omega

/-! ## Out of turn, it cannot -/

/-- A buffer was touched while none was outstanding, or one that was never freed is lost. -/
def Broken (s : Tx) : Prop :=
  ¬ Log.Always Awaited s.history ∨
    ∃ skb ∈ accepts s.history, .touch .free (some skb) ∉ s.history ∧ s.skb ≠ some skb

theorem Broken.not_owned (h : s.Broken) : ¬ s.Owned := by
  intro howned
  rcases h with h | ⟨skb, hskb, hfree, hslot⟩
  · exact h howned.awaited
  · rcases howned.freed skb hskb with hcount | ⟨-, hslot'⟩
    · rw [List.count_eq_zero_of_not_mem hfree] at hcount
      cases hcount
    · exact hslot hslot'

theorem Broken.step (h : s.Broken) (hnum : s.Numbered) (hs : Tx.step s e = some s') :
    s'.Broken := by
  rcases h with h | ⟨skb, hskb, hfree, hslot⟩
  · left
    obtain ⟨skb, -, rfl⟩ | ⟨stale, -, rfl⟩ | ⟨-, rfl⟩ := step_cases hs
    · exact fun halways => h halways.of_append
    · cases hslot : s.skb with
      | none =>
        rw [irqTxHandler_none hslot]
        exact fun halways => h halways.of_append
      | some k =>
        rw [irqTxHandler_some hslot]
        exact fun halways => h halways.of_append.of_append
    · exact h
  · -- a buffer that is not in the slot does not get there again, and only the slot is freed
    right
    obtain ⟨new, -, rfl⟩ | ⟨stale, -, rfl⟩ | ⟨-, rfl⟩ := step_cases hs
    · refine ⟨skb, ?_, ?_, ?_⟩
      · show skb ∈ accepts (s.history ++ _)
        rw [accepts_accept]
        exact List.mem_append_left _ hskb
      · simpa [Tx.mfhssTxPkt] using hfree
      · -- the slot now holds the new buffer
        intro heq
        cases heq
        exact Nat.lt_irrefl _ (hnum.lt hskb)
    · cases hslot' : s.skb with
      | none =>
        rw [irqTxHandler_none hslot']
        refine ⟨skb, accepts_touch.symm ▸ hskb, ?_, hslot⟩
        simpa using hfree
      | some k =>
        rw [irqTxHandler_some hslot']
        refine ⟨skb, ?_, ?_, hslot⟩
        · show skb ∈ accepts (s.history ++ _ ++ _)
          rw [accepts_touch, accepts_touch]
          exact hskb
        · have hne : skb ≠ k := fun heq => hslot (heq ▸ hslot')
          simpa using ⟨hfree, hne⟩
    · exact ⟨skb, hskb, hfree, hslot⟩

/-- The first event out of turn breaks it. -/
theorem Inv.broken (h : s.Inv) (hg : ¬ s.InTurn e) (hs : Tx.step s e = some s') : s'.Broken := by
  obtain ⟨new, rfl, rfl⟩ | ⟨stale, rfl, rfl⟩ | ⟨rfl, rfl⟩ := step_cases hs
  · -- the buffer that is still outstanding is overwritten
    right
    obtain ⟨skb, hout⟩ := List.exists_mem_of_ne_nil _ hg
    obtain ⟨hskb, hfree⟩ := mem_outstanding.mp hout
    refine ⟨skb, ?_, ?_, ?_⟩
    · show skb ∈ accepts (s.history ++ _)
      rw [accepts_accept]
      exact List.mem_append_left _ hskb
    · simpa [Tx.mfhssTxPkt] using hfree
    · intro heq
      cases heq
      exact Nat.lt_irrefl _ (h.numbered.lt hskb)
  · -- whatever is in the slot is read
    left
    have hnone : outstanding s.history = [] := Decidable.not_not.mp hg
    have hbad : ∀ p later, ¬ Log.Always Awaited (s.history ++ .touch .read p :: later) :=
      fun p later halways => halways _ _ _ rfl .read p rfl hnone
    cases hslot : s.skb with
    | none =>
      rw [irqTxHandler_none hslot]
      exact hbad none []
    | some k =>
      rw [irqTxHandler_some hslot]
      show ¬ Log.Always Awaited (s.history ++ _ ++ _)
      rw [List.append_assoc]
      exact hbad (some k) _
  · exact absurd trivial hg

/-! ## Runs -/

/-- **The driver owns up to its socket buffers exactly in the runs that are in turn.** -/
theorem run_owned (hr : run Tx.step init es = some s) :
    s.Owned ↔ Meets Tx.step InTurn init es := by
  constructor
  · -- after the first event out of turn the driver is broken, and stays so
    intro howned
    by_contra hm
    obtain ⟨es₁, t, e, t', es₂, hm₁, ht, hg, hstep, hrest⟩ := exists_first_failure hr hm
    have hinv : t.Inv := run_invariant_of_meets (fun _ _ _ h hg hs => h.step hg hs) inv_init hm₁ ht
    have hbroken : s.Numbered ∧ s.Broken :=
      run_invariant (I := fun s => s.Numbered ∧ s.Broken)
        (fun _ _ _ h hs => ⟨h.1.step hs, h.2.step h.1 hs⟩)
        ⟨hinv.numbered.step hstep, hinv.broken hg hstep⟩ hrest
    exact hbroken.2.not_owned howned
  · intro hm
    have hinv : s.Inv := run_invariant_of_meets (fun _ _ _ h hg hs => h.step hg hs) inv_init hm hr
    exact hinv.owned

/-- The first interrupt is late, but no call came in between. -/
def patience : List TxEvent :=
  [.mfhssTxPkt [1], .mfhssTxTimeout, .irqTxHandler 0, .mfhssTxPkt [2], .irqTxHandler 0]

theorem run_owned_patience : ∃ s, run Tx.step init patience = some s ∧
    s.history.count (.touch .free (some 0)) = 1 ∧ s.Owned := by
  have hm : Meets Tx.step InTurn init patience := by decide +kernel
  obtain ⟨s, hs, hfreed⟩ : ∃ s, run Tx.step init patience = some s ∧
      s.history.count (.touch .free (some 0)) = 1 := by decide +kernel
  exact ⟨s, hs, hfreed, (run_owned hs).mpr hm⟩

/-- After a timeout the kernel hands over the next buffer, and then both are sent. -/
def lateInterrupt : List TxEvent :=
  [.mfhssTxPkt [1], .mfhssTxTimeout, .mfhssTxPkt [2], .irqTxHandler 0, .irqTxHandler 0]

/-- The first buffer is never freed, the second twice. -/
theorem lateInterrupt_not_owned : ∃ s, run Tx.step init lateInterrupt = some s ∧
    s.history.count (.touch .free (some 0)) = 0 ∧
    s.history.count (.touch .free (some 1)) = 2 ∧ ¬ s.Owned := by
  obtain ⟨s, hs, hlost, htwice, hskb⟩ : ∃ s, run Tx.step init lateInterrupt = some s ∧
      s.history.count (.touch .free (some 0)) = 0 ∧
      s.history.count (.touch .free (some 1)) = 2 ∧ 1 ∈ accepts s.history := by decide +kernel
  refine ⟨s, hs, hlost, htwice, fun h => ?_⟩
  rcases h.freed 1 hskb with hcount | ⟨hcount, -⟩ <;> rw [htwice] at hcount <;> cases hcount

end Tx

end ModemFhss.Net
