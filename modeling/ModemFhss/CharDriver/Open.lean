import ModemFhss.Library.Errno
import ModemFhss.Library.Machine

/-!
# Opening and releasing the device (`mfhssdrv_open`, `chrdrv_open`)

A device is opened by one process at a time: a flag says that it is open, and an open registers the
two interrupt handlers. Both drivers return an error as soon as `request_irq` refuses one, without
undoing what came before: `mfhssdrv_open` has then registered the first handler, and `chrdrv_open`
has also set the flag, which it does at the beginning.

The handlers are registered with `IRQF_SHARED`, so the kernel takes a handler a second time.
`free_irq` takes the oldest away. The kernel calls `release` for a file that was opened, when the
last process lets go of it.
-/

namespace ModemFhss.CharDriver

open Errno Machine

inductive Irq where
  /-- `irq_rx` -/
  | rx
  /-- `irq_tx` -/
  | tx
  deriving DecidableEq, Repr

/-- The device, with the files that are open. -/
structure DeviceFile where
  /-- `is_open`, `device_open` -/
  deviceOpen : Int
  /-- The handlers that are registered, the oldest first. -/
  handlers : List Irq
  files : Nat
  deriving DecidableEq, Repr

/-- What `request_irq` returns for the handlers. -/
structure IrqCalls where
  rx : Int
  tx : Int
  deriving DecidableEq

namespace DeviceFile

def init : DeviceFile := { deviceOpen := 0, handlers := [], files := 0 }

/-- `request_irq` -/
def requestIrq (s : DeviceFile) (irq : Irq) : DeviceFile :=
  { s with handlers := s.handlers ++ [irq] }

def freeIrq (s : DeviceFile) (irq : Irq) : DeviceFile :=
  { s with handlers := s.handlers.erase irq }

end DeviceFile

def mfhssdrvOpen (c : IrqCalls) (s : DeviceFile) : Int × DeviceFile :=
  if s.deviceOpen ≠ 0 then
    (-enomem, s)
  else if c.rx ≠ 0 then
    (-enomem, s)
  else
    let s := s.requestIrq .rx
    if c.tx ≠ 0 then
      (-enomem, s)
    else
      (0, { s.requestIrq .tx with deviceOpen := 1 })

def mfhssdrvRelease (s : DeviceFile) : DeviceFile :=
  { (s.freeIrq .rx).freeIrq .tx with deviceOpen := 0 }

def chrdrvOpen (c : IrqCalls) (s : DeviceFile) : Int × DeviceFile :=
  if s.deviceOpen ≠ 0 then
    (-ebusy, s)
  else
    let s := { s with deviceOpen := s.deviceOpen + 1 }
    if c.rx ≠ 0 then
      (-enomem, s)
    else
      let s := s.requestIrq .rx
      if c.tx ≠ 0 then
        (-enomem, s)
      else
        (0, s.requestIrq .tx)

def chrdrvClose (s : DeviceFile) : DeviceFile :=
  { (s.freeIrq .rx).freeIrq .tx with deviceOpen := s.deviceOpen - 1 }

/-- The operations of a driver. -/
structure FileOps where
  openDevice : IrqCalls → DeviceFile → Int × DeviceFile
  release : DeviceFile → DeviceFile

/-- `mfhssdrv_fops` -/
def mfhssdrvFops : FileOps := { openDevice := mfhssdrvOpen, release := mfhssdrvRelease }

/-- `chrdrv_fops` -/
def chrdrvFops : FileOps := { openDevice := chrdrvOpen, release := chrdrvClose }

inductive FileEvent where
  | open (c : IrqCalls)
  | release

namespace DeviceFile

/-- A call to the device: an open that succeeds makes a file, and a file can be released. -/
def step (ops : FileOps) (s : DeviceFile) : FileEvent → Option DeviceFile
  | .open c =>
    let (ret, t) := ops.openDevice c s
    some { t with files := if ret = 0 then s.files + 1 else s.files }
  | .release => if 0 < s.files then some { ops.release s with files := s.files - 1 } else none

/-- An open that fails changes nothing, and a release frees what is registered. -/
def Clean (ops : FileOps) (s : DeviceFile) : FileEvent → Prop
  | .open c => (ops.openDevice c s).1 ≠ 0 →
      (ops.openDevice c s).2.handlers = s.handlers ∧
        (ops.openDevice c s).2.deviceOpen = s.deviceOpen
  | .release => 0 < s.files → .rx ∈ s.handlers ∧ .tx ∈ s.handlers

/-- The handlers are registered exactly if the device is marked open. -/
def Marked (s : DeviceFile) : Prop := (.rx ∈ s.handlers ∧ .tx ∈ s.handlers) ↔ s.deviceOpen ≠ 0

/-- An open can succeed, now or later. -/
def CanOpen (ops : FileOps) (s : DeviceFile) : Prop :=
  ∃ es t, run (step ops) s es = some t ∧ ∃ c, (ops.openDevice c t).1 = 0

/-- What is wanted of a run. -/
def Disciplined (ops : FileOps) (es : List FileEvent) : Prop :=
  Meets (step ops) (Clean ops) init es ∧
    ∀ es', es' <+: es → ∀ s, run (step ops) init es' = some s → s.Marked ∧ s.CanOpen ops

/-- An open of a device that is not open gets its handlers as `granted` says. -/
def Served (granted : IrqCalls → Prop) (s : DeviceFile) : FileEvent → Prop
  | .open c => s.deviceOpen = 0 → granted c
  | .release => True

end DeviceFile

/-- Both handlers are registered. -/
def IrqCalls.Both (c : IrqCalls) : Prop := c.rx = 0 ∧ c.tx = 0

/-- The second handler is registered if the first is. -/
def IrqCalls.NotHalf (c : IrqCalls) : Prop := c.rx = 0 → c.tx = 0

variable {ops : FileOps} {granted : IrqCalls → Prop} {s t : DeviceFile} {e : FileEvent}
  {c : IrqCalls}

/-! ## The calls -/

/-- What a driver's calls do. -/
structure FileOps.Lawful (ops : FileOps) (granted : IrqCalls → Prop) : Prop where
  busy : ∀ c s, s.deviceOpen ≠ 0 → (ops.openDevice c s).1 ≠ 0 ∧ (ops.openDevice c s).2 = s
  both : ∀ c s, s.deviceOpen = 0 → c.Both → ops.openDevice c s =
    (0, { s with deviceOpen := 1, handlers := s.handlers ++ [.rx, .tx] })
  refused : ∀ c s, s.deviceOpen = 0 → granted c → ¬ c.Both →
    (ops.openDevice c s).1 ≠ 0 ∧ (ops.openDevice c s).2 = s
  /-- What is refused otherwise leaves something behind. -/
  half : ∀ c s, s.deviceOpen = 0 → ¬ granted c → (ops.openDevice c s).1 ≠ 0 ∧
    ¬ ((ops.openDevice c s).2.handlers = s.handlers ∧
      (ops.openDevice c s).2.deviceOpen = s.deviceOpen)
  release : ∀ s, s.deviceOpen = 1 → ops.release s =
    { s with deviceOpen := 0, handlers := (s.handlers.erase .rx).erase .tx }

theorem handlers_ne (irq : Irq) : s.handlers ++ [irq] ≠ s.handlers := by
  intro h
  have hlength := congrArg List.length h
  rw [List.length_append, List.length_singleton] at hlength
  omega

theorem enomem_ne_zero : (-enomem : Int) ≠ 0 := by decide

theorem mfhssdrvFops_lawful : mfhssdrvFops.Lawful IrqCalls.NotHalf where
  busy c s h := by
    have hopen : mfhssdrvFops.openDevice c s = (-enomem, s) := if_pos h
    rw [hopen]
    exact ⟨enomem_ne_zero, rfl⟩
  both c s h hboth := by
    show mfhssdrvOpen c s = _
    unfold mfhssdrvOpen
    rw [if_neg (not_not.mpr h), if_neg (not_not.mpr hboth.1)]
    dsimp only
    rw [if_neg (not_not.mpr hboth.2)]
    simp [DeviceFile.requestIrq]
  refused c s h hgranted hboth := by
    have hrx : c.rx ≠ 0 := fun hrx => hboth ⟨hrx, hgranted hrx⟩
    have hopen : mfhssdrvFops.openDevice c s = (-enomem, s) := by
      show mfhssdrvOpen c s = _
      unfold mfhssdrvOpen
      rw [if_neg (not_not.mpr h), if_pos hrx]
    rw [hopen]
    exact ⟨enomem_ne_zero, rfl⟩
  half c s h hgranted := by
    obtain ⟨hrx, htx⟩ := Classical.not_imp.mp hgranted
    have hopen : mfhssdrvFops.openDevice c s = (-enomem, s.requestIrq .rx) := by
      show mfhssdrvOpen c s = _
      unfold mfhssdrvOpen
      rw [if_neg (not_not.mpr h), if_neg (not_not.mpr hrx)]
      exact if_pos htx
    rw [hopen]
    exact ⟨enomem_ne_zero, fun hsame => handlers_ne .rx hsame.1⟩
  release s _ := rfl

theorem chrdrvFops_lawful : chrdrvFops.Lawful IrqCalls.Both where
  busy c s h := by
    have hopen : chrdrvFops.openDevice c s = (-ebusy, s) := if_pos h
    rw [hopen]
    exact ⟨show (-ebusy : Int) ≠ 0 by decide, rfl⟩
  both c s h hboth := by
    show chrdrvOpen c s = _
    unfold chrdrvOpen
    rw [if_neg (not_not.mpr h)]
    dsimp only
    rw [if_neg (not_not.mpr hboth.1), if_neg (not_not.mpr hboth.2)]
    simp [DeviceFile.requestIrq, h]
  refused c s _ hgranted hboth := absurd hgranted hboth
  half c s h hgranted := by
    -- The flag was set before anything could fail.
    have hopen : (chrdrvFops.openDevice c s).1 = -enomem ∧
        (chrdrvFops.openDevice c s).2.deviceOpen = s.deviceOpen + 1 := by
      show (chrdrvOpen c s).1 = -enomem ∧ (chrdrvOpen c s).2.deviceOpen = s.deviceOpen + 1
      unfold chrdrvOpen
      rw [if_neg (not_not.mpr h)]
      dsimp only
      split_ifs with hrx htx
      · exact ⟨rfl, rfl⟩
      · exact ⟨rfl, rfl⟩
      · exact absurd ⟨not_not.mp hrx, not_not.mp htx⟩ hgranted
    rw [hopen.1, hopen.2]
    refine ⟨enomem_ne_zero, fun hsame => ?_⟩
    have hflag := hsame.2
    omega
  release s h := by
    show chrdrvClose s = _
    unfold chrdrvClose
    rw [h]
    rfl

/-! ## Runs -/

namespace DeviceFile

/-- The device is closed, or open as it should be. -/
def Inv (s : DeviceFile) : Prop :=
  s = init ∨ s = { deviceOpen := 1, handlers := [.rx, .tx], files := 1 }

theorem clean_iff_served (hops : ops.Lawful granted) (h : s.Inv) :
    s.Clean ops e ↔ s.Served granted e := by
  cases e with
  | «open» c =>
    unfold Clean Served
    dsimp only
    by_cases hopen : s.deviceOpen = 0
    · by_cases hgranted : granted c
      · refine iff_of_true (fun hret => ?_) fun _ => hgranted
        by_cases hboth : c.Both
        · rw [hops.both c s hopen hboth] at hret
          exact absurd rfl hret
        · rw [(hops.refused c s hopen hgranted hboth).2]
          exact ⟨rfl, rfl⟩
      · obtain ⟨hret, hchanged⟩ := hops.half c s hopen hgranted
        exact iff_of_false (fun hclean => hchanged (hclean hret)) fun hserved =>
          hgranted (hserved hopen)
    · refine iff_of_true (fun _ => ?_) fun hzero => absurd hzero hopen
      rw [(hops.busy c s hopen).2]
      exact ⟨rfl, rfl⟩
  | release =>
    refine iff_of_true (fun hfiles => ?_) trivial
    rcases h with rfl | rfl
    · exact absurd hfiles (by decide)
    · exact ⟨by decide, by decide⟩

theorem step_open_of_refused
    (h : (ops.openDevice c s).1 ≠ 0 ∧ (ops.openDevice c s).2 = s) :
    step ops s (.open c) = some s := by
  unfold step
  dsimp only
  rw [h.2, if_neg h.1]

theorem step_open_of_zero (h : ops.openDevice c s = (0, t)) :
    step ops s (.open c) = some { t with files := s.files + 1 } := by
  simp [step, h]

theorem Inv.step (hops : ops.Lawful granted) (h : s.Inv) (hserved : s.Served granted e)
    (hs : step ops s e = some t) : t.Inv := by
  cases e with
  | «open» c =>
    rcases h with rfl | rfl
    · by_cases hboth : c.Both
      · rw [step_open_of_zero (hops.both c init rfl hboth)] at hs
        cases hs
        exact .inr rfl
      · rw [step_open_of_refused (hops.refused c init rfl (hserved rfl) hboth)] at hs
        cases hs
        exact .inl rfl
    · rw [step_open_of_refused (hops.busy c _ (show (1 : Int) ≠ 0 by decide))] at hs
      cases hs
      exact .inr rfl
  | release =>
    rcases h with rfl | rfl
    · cases hs
    · have hrelease := hops.release { deviceOpen := 1, handlers := [.rx, .tx], files := 1 } rfl
      simp only [DeviceFile.step, hrelease] at hs
      cases hs
      exact .inl rfl

theorem Inv.marked (h : s.Inv) : s.Marked := by
  unfold Marked
  rcases h with rfl | rfl
  · exact iff_of_false (fun hmem => absurd hmem.1 List.not_mem_nil) (not_not.mpr rfl)
  · exact iff_of_true ⟨by decide, by decide⟩ (show (1 : Int) ≠ 0 by decide)

/-- The next open succeeds if the device is closed, and if it is open, after a release. -/
theorem Inv.canOpen (hops : ops.Lawful granted) (h : s.Inv) : s.CanOpen ops := by
  have hopen : (ops.openDevice { rx := 0, tx := 0 } init).1 = 0 := by
    rw [hops.both { rx := 0, tx := 0 } init rfl ⟨rfl, rfl⟩]
  rcases h with rfl | rfl
  · exact ⟨[], init, rfl, _, hopen⟩
  · have hrelease := hops.release { deviceOpen := 1, handlers := [.rx, .tx], files := 1 } rfl
    refine ⟨[.release], init, ?_, _, hopen⟩
    simp only [run, DeviceFile.step, hrelease]
    rfl

/-- Where an open that fails changes nothing is where each open of a closed device is served. -/
theorem disciplined_iff (hops : ops.Lawful granted) (es : List FileEvent) :
    Disciplined ops es ↔ Meets (DeviceFile.step ops) (Served granted) init es := by
  constructor
  · rintro ⟨hclean, -⟩
    apply meets_of_invariant (G := Clean ops) (I := Inv) ?_ ?_ (.inl rfl) hclean
    · intro s e t h hclean hs
      exact h.step hops ((clean_iff_served hops h).mp hclean) hs
    · intro s e h hclean
      exact (clean_iff_served hops h).mp hclean
  · intro hserved
    refine ⟨?_, ?_⟩
    · apply meets_of_invariant (G := Served granted) (I := Inv) ?_ ?_ (.inl rfl) hserved
      · intro s e t h hserved hs
        exact h.step hops hserved hs
      · intro s e h hserved
        exact (clean_iff_served hops h).mpr hserved
    · intro es' hinitial s hr
      have hinv : s.Inv := run_invariant_of_meets (fun s e t h hserved hs => h.step hops hserved hs)
        (.inl rfl) (meets_initial hinitial hserved) hr
      exact ⟨hinv.marked, hinv.canOpen hops⟩

/-- **When failed opens do no harm.** In `mfhssdrv`, if no open gets the first handler without the
second; in `modem-fhss`, if no open of a device that is not marked open fails at all. -/
theorem run_disciplined_iff (es : List FileEvent) :
    (Disciplined mfhssdrvFops es ↔
      Meets (DeviceFile.step mfhssdrvFops) (Served IrqCalls.NotHalf) init es) ∧
    (Disciplined chrdrvFops es ↔
      Meets (DeviceFile.step chrdrvFops) (Served IrqCalls.Both) init es) :=
  ⟨disciplined_iff mfhssdrvFops_lawful es, disciplined_iff chrdrvFops_lawful es⟩

/-- Once `chrdrv_open` has failed, every open does. -/
theorem chrdrv_never_opens (hopen : s.deviceOpen ≠ 0) (hfiles : s.files = 0) :
    ¬ s.CanOpen chrdrvFops := by
  rintro ⟨es, t, hr, c, hret⟩
  have hstuck : t.deviceOpen ≠ 0 ∧ t.files = 0 := by
    refine run_invariant (I := fun s => s.deviceOpen ≠ 0 ∧ s.files = 0) ?_ ⟨hopen, hfiles⟩ hr
    rintro s e t ⟨hopen, hfiles⟩ hs
    cases e with
    | «open» c =>
      rw [step_open_of_refused (chrdrvFops_lawful.busy c s hopen)] at hs
      cases hs
      exact ⟨hopen, hfiles⟩
    | release =>
      simp [DeviceFile.step, hfiles] at hs
  exact (chrdrvFops_lawful.busy c t hstuck.1).1 hret

/-- The second handler is refused once: `mfhssdrv_open` leaves the first one registered, for good
even if the device is opened and released later, and `chrdrv_open` leaves the device marked open. -/
theorem halfOpen_not_disciplined :
    (∃ s, run (DeviceFile.step mfhssdrvFops) init [.open { rx := 0, tx := -16 }] = some s ∧
      s.handlers = [.rx] ∧ s.deviceOpen = 0) ∧
    (∃ s, run (DeviceFile.step mfhssdrvFops) init
        [.open { rx := 0, tx := -16 }, .open { rx := 0, tx := 0 }, .release] = some s ∧
      s.handlers ≠ []) ∧
    (∃ s, run (DeviceFile.step chrdrvFops) init [.open { rx := -16, tx := 0 }] = some s ∧
      s.handlers = [] ∧ s.deviceOpen = 1 ∧ ¬ s.Marked ∧ ¬ s.CanOpen chrdrvFops) ∧
    ¬ Disciplined mfhssdrvFops [.open { rx := 0, tx := -16 }] ∧
    ¬ Disciplined chrdrvFops [.open { rx := -16, tx := 0 }] := by
  refine ⟨⟨_, rfl, rfl, rfl⟩, ⟨_, rfl, by decide⟩, ⟨_, rfl, rfl, rfl, ?_, ?_⟩, ?_, ?_⟩
  · intro hmarked
    exact absurd (hmarked.mpr (by decide)).1 (by decide)
  · exact chrdrv_never_opens (by decide) rfl
  · rw [disciplined_iff mfhssdrvFops_lawful]
    intro hserved
    exact absurd (hserved.1 rfl rfl) (by decide)
  · rw [disciplined_iff chrdrvFops_lawful]
    intro hserved
    exact absurd (hserved.1 rfl).1 (by decide)

end DeviceFile

end ModemFhss.CharDriver
