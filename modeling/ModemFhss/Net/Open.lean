import ModemFhss.Library.Errno
import ModemFhss.Library.Machine
import ModemFhss.Library.Resource
import ModemFhss.Net.Device

/-!
# Opening and closing the interface (`mfhss_open`, `mfhss_close`)

`mfhss_open` acquires two DMA buffers and three interrupt handlers, and returns with the error of
the first call that fails. What it has acquired until then, and everything in `mfhss_close`, is
released by `mfhss_close_from`, a `switch` whose cases fall through from the stage it is given.

A handler is called by the next interrupt after it is registered, so what is held matters between
any two operations and not only when a call returns. The kernel opens an interface that is down and
closes one that is up. The registers by which the device is started and stopped are left out, except
that the addresses of the buffers are given to it.
-/

namespace ModemFhss.Net

open Errno Resource Machine

/-- What an open interface holds. -/
inductive OpenRes where
  /-- `priv->src_addr` -/
  | srcAddr
  /-- `priv->dst_addr` -/
  | dstAddr
  | irqRx
  | irqTx
  | irqLinkOn
  deriving DecidableEq

/-- An interrupt handler. -/
def OpenRes.Irq : OpenRes → Prop
  | irqRx | irqTx | irqLinkOn => True
  | srcAddr | dstAddr => False

instance : DecidablePred OpenRes.Irq
  | .irqRx | .irqTx | .irqLinkOn => isTrue trivial
  | .srcAddr | .dstAddr => isFalse id

/-- `enum close_stage_` -/
inductive CloseStage where
  | freeAll
  | unregIrqLinkOn
  | unregIrqTx
  | unregIrqRx
  | freeDmaDst
  | freeDmaSrc
  deriving DecidableEq

/-- `mfhss_close_from`. There is a case for each stage, so the default is never taken. -/
def mfhssCloseFrom : CloseStage → List (Op OpenRes) :=
  fallThrough
    [(.freeAll, []),
     (.unregIrqLinkOn, [.release .irqLinkOn]),
     (.unregIrqTx, [.release .irqTx]),
     (.unregIrqRx, [.release .irqRx]),
     (.freeDmaDst, [.release .dstAddr]),
     (.freeDmaSrc, [.release .srcAddr])]

/-- What the kernel answers to `mfhss_open`. -/
structure OpenCalls where
  /-- The first `dma_zalloc_coherent` finds memory. -/
  srcAddr : Bool
  /-- The second `dma_zalloc_coherent` finds memory. -/
  dstAddr : Bool
  /-- What `request_irq` returns for `irq_rx`. -/
  irqRx : Int
  irqTx : Int
  irqLinkOn : Int

/-- Each of the calls succeeds. -/
def OpenCalls.Succeed (c : OpenCalls) : Prop :=
  c.srcAddr = true ∧ c.dstAddr = true ∧ c.irqRx = 0 ∧ c.irqTx = 0 ∧ c.irqLinkOn = 0

/-- `mfhss_open`: what it returns, and what it does. -/
def mfhssOpen (c : OpenCalls) : Int × List (Op OpenRes) :=
  if c.srcAddr = false then
    (-enomem, [])
  else if c.dstAddr = false then
    (-enomem, [.acquire .srcAddr] ++ mfhssCloseFrom .freeDmaSrc)
  else if c.irqRx ≠ 0 then
    (c.irqRx, [.acquire .srcAddr, .acquire .dstAddr] ++ mfhssCloseFrom .freeDmaDst)
  else if c.irqTx ≠ 0 then
    (c.irqTx,
      [.acquire .srcAddr, .acquire .dstAddr, .acquire .irqRx] ++ mfhssCloseFrom .unregIrqRx)
  else if c.irqLinkOn ≠ 0 then
    (c.irqLinkOn,
      [.acquire .srcAddr, .acquire .dstAddr, .acquire .irqRx, .acquire .irqTx] ++
        mfhssCloseFrom .unregIrqTx)
  else
    (0,
      [.acquire .srcAddr, .acquire .dstAddr, .acquire .irqRx, .acquire .irqTx,
        .acquire .irqLinkOn, .use .srcAddr, .use .dstAddr])

/-- `mfhss_close` -/
def mfhssClose : List (Op OpenRes) := mfhssCloseFrom .freeAll

/-- An interface over its life: whether it is up, and what was done until now. -/
structure Interface where
  up : Bool
  ops : List (Op OpenRes)

inductive InterfaceEvent where
  | mfhssOpen (c : OpenCalls)
  | mfhssClose

namespace Interface

def init : Interface := ⟨false, []⟩

def step (s : Interface) : InterfaceEvent → Option Interface
  | .mfhssOpen c =>
    if s.up then none
    else some ⟨(Net.mfhssOpen c).1 = 0, s.ops ++ (Net.mfhssOpen c).2⟩
  | .mfhssClose => if s.up then some ⟨false, s.ops ++ Net.mfhssClose⟩ else none

end Interface

/-! ## The two calls -/

/-- A registered handler implies that both buffers are there. -/
def Buffered (h : List OpenRes) : Prop :=
  ∀ r ∈ h, r.Irq → .srcAddr ∈ h ∧ .dstAddr ∈ h

instance : DecidablePred Buffered := fun h =>
  inferInstanceAs (Decidable (∀ r ∈ h, r.Irq → .srcAddr ∈ h ∧ .dstAddr ∈ h))

/-- What an open interface holds, the last acquired first. -/
def opened : List OpenRes := [.irqLinkOn, .irqTx, .irqRx, .dstAddr, .srcAddr]

theorem mem_opened (r : OpenRes) : r ∈ opened := by cases r <;> decide

theorem mfhssOpen_of_succeed {c : OpenCalls} (h : c.Succeed) :
    (mfhssOpen c).1 = 0 ∧ Passes Buffered [] (mfhssOpen c).2 ∧
      held [] (mfhssOpen c).2 = opened := by
  obtain ⟨hsrc, hdst, hrx, htx, hlink⟩ := h
  simp only [mfhssOpen, hsrc, hdst, hrx, htx, hlink]
  decide

theorem mfhssOpen_of_not_succeed {c : OpenCalls} (h : ¬ c.Succeed) :
    (mfhssOpen c).1 ≠ 0 ∧ Passes Buffered [] (mfhssOpen c).2 ∧ held [] (mfhssOpen c).2 = [] := by
  unfold mfhssOpen
  split_ifs with hsrc hdst hrx htx hlink
  · decide
  · decide
  · exact ⟨hrx, by dsimp only; decide⟩
  · exact ⟨htx, by dsimp only; decide⟩
  · exact ⟨hlink, by dsimp only; decide⟩
  · refine absurd ?_ h
    exact ⟨eq_true_of_ne_false hsrc, eq_true_of_ne_false hdst, not_not.mp hrx, not_not.mp htx,
      not_not.mp hlink⟩

theorem passes_mfhssClose : Passes Buffered opened mfhssClose ∧ held opened mfhssClose = [] := by
  decide

namespace Interface

variable {s s' : Interface} {e : InterfaceEvent} {es : List InterfaceEvent}

/-- What is held between two calls, and how it came about. -/
def Inv (s : Interface) : Prop :=
  Passes Buffered [] s.ops ∧ held [] s.ops = if s.up then opened else []

theorem Inv.step (h : s.Inv) (hs : Interface.step s e = some s') : s'.Inv := by
  obtain ⟨hpasses, hheld⟩ := h
  cases e with
  | mfhssOpen c =>
    simp only [Interface.step] at hs
    split at hs
    · cases hs
    next hup =>
      cases hs
      rw [if_neg hup] at hheld
      by_cases hc : c.Succeed
      · obtain ⟨hret, hopen, hafter⟩ := mfhssOpen_of_succeed hc
        refine ⟨passes_append.mpr ⟨hpasses, by rwa [hheld]⟩, ?_⟩
        rw [held_append, hheld, hafter]
        simp [hret]
      · obtain ⟨hret, hopen, hafter⟩ := mfhssOpen_of_not_succeed hc
        refine ⟨passes_append.mpr ⟨hpasses, by rwa [hheld]⟩, ?_⟩
        rw [held_append, hheld, hafter]
        simp [hret]
  | mfhssClose =>
    simp only [Interface.step] at hs
    split at hs
    next hup =>
      cases hs
      rw [if_pos hup] at hheld
      obtain ⟨hclose, hafter⟩ := passes_mfhssClose
      refine ⟨passes_append.mpr ⟨hpasses, by rwa [hheld]⟩, ?_⟩
      rw [held_append, hheld, hafter]
      rfl
    · cases hs

theorem run_inv (hr : run step init es = some s) : s.Inv :=
  run_invariant (fun _ _ _ h hs => h.step hs) ⟨by decide, rfl⟩ hr

/-- The discipline of `mfhss_open` and `mfhss_close`. -/
structure Disciplined (s : Interface) : Prop where
  /-- Between any two operations, the handlers registered have their buffers. -/
  buffered : ∀ before after, s.ops = before ++ after → Buffered (held [] before)
  /-- Nothing is acquired while it is held, and nothing released that is not. -/
  legal : ∀ before op after, s.ops = before ++ op :: after → op.Legal (held [] before)
  /-- One release for each acquisition, but for what an open interface holds. -/
  once : ∀ r, s.ops.count (.acquire r) = s.ops.count (.release r) + if s.up then 1 else 0
  /-- An open interface holds everything, one that is not open nothing. -/
  all : ∀ r, r ∈ held [] s.ops ↔ s.up = true

theorem Inv.disciplined (h : s.Inv) : s.Disciplined where
  buffered before after heq := by
    have hpasses := h.1
    rw [heq] at hpasses
    exact hpasses.prefix
  legal before op after heq := by
    have hlegal := h.1.legal
    rw [heq] at hlegal
    exact hlegal.at
  once r := by
    have hcount := h.1.legal.count r
    rw [List.count_nil, Nat.zero_add, h.2] at hcount
    rw [hcount]
    cases s.up with
    | false => rfl
    | true => cases r <;> rfl
  all r := by
    rw [h.2]
    cases s.up with
    | false => simp
    | true => simp [mem_opened]

/-- **Open and close**: over every sequence of calls the discipline is kept; an open in which a
call fails returns an error and holds nothing, and any other returns 0 and holds everything. -/
theorem run_disciplined (hr : run step init es = some s) :
    s.Disciplined ∧ ∀ c s', step s (.mfhssOpen c) = some s' →
      (c.Succeed → (mfhssOpen c).1 = 0 ∧ ∀ r, r ∈ held [] s'.ops) ∧
      (¬ c.Succeed → (mfhssOpen c).1 ≠ 0 ∧ held [] s'.ops = []) := by
  have hinv := run_inv hr
  refine ⟨hinv.disciplined, fun c s' hs => ?_⟩
  have hafter := (hinv.step hs).2
  have hup : s'.up = decide ((mfhssOpen c).1 = 0) := by
    simp only [step] at hs
    split at hs
    · cases hs
    · cases hs; rfl
  constructor
  · intro hc
    have hret := (mfhssOpen_of_succeed hc).1
    refine ⟨hret, fun r => ?_⟩
    rw [hafter, hup, hret]
    exact mem_opened r
  · intro hc
    have hret := (mfhssOpen_of_not_succeed hc).1
    refine ⟨hret, ?_⟩
    rw [hafter, hup]
    simp [hret]

/-- The last handler is refused, then all calls succeed, and the interface is closed. -/
def secondTry : List InterfaceEvent :=
  [.mfhssOpen ⟨true, true, 0, 0, -16⟩, .mfhssOpen ⟨true, true, 0, 0, 0⟩, .mfhssClose]

theorem run_disciplined_secondTry : ∃ s, run step init secondTry = some s ∧
    s.Disciplined ∧ ∀ c s', step s (.mfhssOpen c) = some s' →
      (c.Succeed → (mfhssOpen c).1 = 0 ∧ ∀ r, r ∈ held [] s'.ops) ∧
      (¬ c.Succeed → (mfhssOpen c).1 ≠ 0 ∧ held [] s'.ops = []) :=
  exists_of_isSome (by decide +kernel) fun _ hr => run_disciplined hr

end Interface

end ModemFhss.Net
