import ModemFhss.Net.Probe

/-!
# What the receive side uses

Whatever interrupts and the tasklet do to the two lists, and even where they leave a packet in
neither, the links lead to packets of the pool only (`Rx.Within`). A step of the receive side then
uses the device, such packets and, in the handler, the DMA buffer (`Rx.Within.used`).
-/

namespace ModemFhss.Net

open ListHead

def Node.InPool : Node → Prop
  | .pkt k => k < poolSize
  | .poolList | .rxPktsList => True

theorem inPool_poolList : Node.poolList.InPool := trivial

theorem inPool_rxPktsList : Node.rxPktsList.InPool := trivial

def Handler.InPool : Handler → Prop
  | .got k | .filled k => k < poolSize
  | .idle | .entered | .queued => True

def Tasklet.InPool : Tasklet → Prop
  | .idle | .start => True
  | .load p => p.InPool
  | .body k n | .del k n | .poison k n | .put k n => k < poolSize ∧ n.InPool
  | .delPrev k n prev next | .delNext k n prev next =>
    k < poolSize ∧ n.InPool ∧ prev.InPool ∧ next.InPool

/-- Whatever happens to the lists, they link the packets of the pool. -/
structure Rx.Within (s : Rx) : Prop where
  links : s.links.Inside Node.InPool
  handler : s.handler.InPool
  tasklet : s.tasklet.InPool

variable {s s' : Rx} {e : RxEvent} {skb : Bool}

/-- A packet that is taken from the pool. -/
theorem Pool.inside_poolGet {p p' : Pool} {k : Nat} (h : p.links.Inside Node.InPool)
    (hget : p.poolGet = some (some k, p')) : p'.links.Inside Node.InPool ∧ k < poolSize := by
  unfold Pool.poolGet at hget
  split at hget
  · cases hget
  · split at hget
    next k hnext =>
      split at hget
      · cases hget
      next links hdel =>
        cases hget
        exact ⟨h.listDel hdel, h.next hnext⟩
    · cases hget

/-- A packet that is put back. -/
theorem Pool.inside_poolPut {p p' : Pool} {k : Nat} (h : p.links.Inside Node.InPool)
    (hk : k < poolSize) (hput : p.poolPut (some k) = some p') : p'.links.Inside Node.InPool := by
  unfold Pool.poolPut at hput
  dsimp only at hput
  split at hput
  · cases hput
  next links hadd =>
    cases hput
    have hpkt : (Node.pkt k).InPool := hk
    exact h.listAdd hpkt inPool_poolList hadd

theorem Rx.Within.irqRxHandler (h : s.Within) (hs : s.irqRxHandler = some s') : s'.Within := by
  obtain ⟨hlinks, hhandler, htasklet⟩ := h
  unfold Rx.irqRxHandler at hs
  split at hs
  · cases hs
  · split at hs
    · cases hs
    · cases hs
      exact ⟨hlinks, trivial, htasklet⟩
    next k pool hget =>
      cases hs
      obtain ⟨hpool, hk⟩ := Pool.inside_poolGet hlinks hget
      exact ⟨hpool, hk, htasklet⟩
  next k hgot =>
    cases hs
    rw [hgot] at hhandler
    exact ⟨hlinks, hhandler, htasklet⟩
  next k hfilled =>
    rw [hfilled] at hhandler
    split at hs
    · cases hs
    next links hadd =>
      cases hs
      have hk : (Node.pkt k).InPool := hhandler
      exact ⟨hlinks.listAdd hk inPool_rxPktsList hadd, trivial, htasklet⟩
  · cases hs
    exact ⟨hlinks, trivial, htasklet⟩

theorem Rx.Within.rxPkt (h : s.Within) (hs : s.rxPkt skb = some s') : s'.Within := by
  obtain ⟨hlinks, hhandler, htasklet⟩ := h
  unfold Rx.rxPkt at hs
  split at hs
  · -- the tasklet is started
    split at hs
    · cases hs
      exact ⟨hlinks, hhandler, trivial⟩
    · cases hs
  · -- the first link that it follows
    split at hs
    · cases hs
    next p hnext =>
      cases hs
      exact ⟨hlinks, hhandler, hlinks.next hnext⟩
  next p hload =>
    rw [hload] at htasklet
    split at hs
    · cases hs
    · cases hs
      exact ⟨hlinks, hhandler, trivial⟩
    next n k hnext =>
      cases hs
      exact ⟨hlinks, hhandler, htasklet, hlinks.next hnext⟩
    · cases hs
  next k n hbody =>
    rw [hbody] at htasklet
    cases skb with
    | false =>
      cases hs
      exact ⟨hlinks, hhandler, htasklet⟩
    | true =>
      cases hs
      exact ⟨hlinks, hhandler, htasklet⟩
  next k n hdel =>
    rw [hdel] at htasklet
    split at hs
    next prev next hprev hnext =>
      cases hs
      exact ⟨hlinks, hhandler, htasklet.1, htasklet.2, hlinks.prev hprev, hlinks.next hnext⟩
    · cases hs
  next k n prev next hprev =>
    rw [hprev] at htasklet
    cases hs
    exact ⟨hlinks.setPrev htasklet.2.2.1, hhandler, htasklet⟩
  next k n prev next hnext =>
    rw [hnext] at htasklet
    cases hs
    exact ⟨hlinks.setNext htasklet.2.2.2, hhandler, htasklet.1, htasklet.2.1⟩
  next k n hpoison =>
    rw [hpoison] at htasklet
    cases hs
    exact ⟨hlinks.poison, hhandler, htasklet⟩
  next k n hput =>
    rw [hput] at htasklet
    split at hs
    · cases hs
    next pool hpool =>
      cases hs
      exact ⟨Pool.inside_poolPut hlinks htasklet.1 hpool, hhandler, htasklet.2⟩

theorem Rx.Within.step (h : s.Within) (hs : s.step e = some s') : s'.Within := by
  cases e with
  | interrupt dstAddr dl =>
    simp only [Rx.step] at hs
    split at hs
    · cases hs
      exact ⟨h.links, trivial, h.tasklet⟩
    · cases hs
  | handler => exact h.irqRxHandler hs
  | tasklet skb =>
    simp only [Rx.step] at hs
    split at hs
    · exact h.rxPkt hs
    · cases hs

/-- The packets of `pool_create` are those of the pool. -/
theorem createFrom_inside {m : Kmalloc ethDataLen} {n i : Nat} {p p' : Pool} {err : Int}
    (hn : i + n ≤ poolSize) (hp : p.links.Inside Node.InPool)
    (hok : Pool.createFrom m n i p = some (err, p')) : p'.links.Inside Node.InPool := by
  induction n generalizing i p with
  | zero =>
    cases hok
    exact hp
  | succ n ih =>
    unfold Pool.createFrom at hok
    split at hok
    · cases hok
      exact hp
    · split at hok
      · cases hok
        exact hp
      · split at hok
        · cases hok
        next links hadd =>
          have hi : (Node.pkt i).InPool := Nat.lt_of_lt_of_le (by omega) hn
          exact ih (by omega) (hp.listAdd hi inPool_poolList hadd) hok

theorem mfhssnetProbe_inside {m : Kmalloc ethDataLen} {p p' : Pool} {err : Int}
    (hp : p.links.Inside Node.InPool) (hok : Rx.mfhssnetProbe m p = some (err, p')) :
    p'.links.Inside Node.InPool :=
  createFrom_inside (by simp)
    ((hp.initListHead inPool_rxPktsList).initListHead inPool_poolList) hok

/-! ## What is used -/

/-- What the receive side uses: the device, packets of the pool and, in the handler, the buffer. -/
def Used (s : Rx) (e : RxEvent) (r : Res) : Prop :=
  r = .netdev ∨ r = .stats ∨ r = .ioBase ∨ (∃ k < poolSize, r = .data k ∨ r = .pkt k) ∨
    r = .opened .dstAddr ∧ e = .handler ∧ s.handler ≠ .idle

theorem used_pkt {k : Nat} (hk : k < poolSize) : Used s e (.pkt k) := by
  simp [Used, hk]

theorem used_data {k : Nat} (hk : k < poolSize) : Used s e (.data k) := by
  simp [Used, hk]

theorem used_linked {x : Option Node} {r : Res} (hx : ∀ y, x = some y → y.InPool)
    (hr : r ∈ linked x) : Used s e r := by
  match x with
  | some (.pkt k) =>
    rw [List.mem_singleton.mp hr]
    exact used_pkt (hx _ rfl)
  | some .rxPktsList => exact .inl (List.mem_singleton.mp hr)
  | some .poolList => cases hr
  | none => cases hr

theorem Rx.Within.used (h : s.Within) : ∀ r ∈ s.uses e, Used s e r := by
  obtain ⟨hlinks, hhandler, htasklet⟩ := h
  have hnext : ∀ {x r}, r ∈ linked (s.links.next x) → Used s e r :=
    fun hr => used_linked (fun _ hy => hlinks.next hy) hr
  have hprev : ∀ {x r}, r ∈ linked (s.links.prev x) → Used s e r :=
    fun hr => used_linked (fun _ hy => hlinks.prev hy) hr
  have hsome : ∀ {x : Node} {r}, x.InPool → r ∈ linked (some x) → Used s e r :=
    fun hx hr => used_linked (fun _ hy => Option.some.inj hy ▸ hx) hr
  cases e with
  | interrupt dstAddr dl => exact fun r hr => by cases hr
  | handler =>
    simp only [Rx.uses]
    split
    · simp
    · split
      next k hfirst =>
        have hk : k < poolSize := hlinks.next hfirst
        simp only [List.forall_mem_append, List.forall_mem_singleton]
        exact ⟨⟨used_pkt hk, fun r => hnext⟩, fun r => hprev⟩
      · simp [Used]
    next k hgot =>
      rw [hgot] at hhandler
      simp only [List.forall_mem_cons]
      refine ⟨.inl rfl, used_pkt hhandler, used_data hhandler, .inr (.inr (.inl rfl)), ?_, nofun⟩
      simp [Used, hgot]
    next k hfilled =>
      rw [hfilled] at hhandler
      simp only [List.forall_mem_append, List.forall_mem_cons]
      exact ⟨⟨.inl rfl, used_pkt hhandler, nofun⟩, fun r => hnext⟩
    · simp [Used]
  | tasklet skb =>
    simp only [Rx.uses]
    split
    · simp
    · simp [Used]
    next p hload =>
      rw [hload] at htasklet
      exact fun r => hsome htasklet
    next k n hbody =>
      rw [hbody] at htasklet
      cases skb <;> simp [Used, htasklet.1]
    next k n hdel =>
      rw [hdel] at htasklet
      simp [Used, htasklet.1]
    next k n hpoison =>
      rw [hpoison] at htasklet
      simp [Used, htasklet.1]
    next k n prev next hdel =>
      rw [hdel] at htasklet
      exact fun r => hsome htasklet.2.2.2
    next k n prev next hdel =>
      rw [hdel] at htasklet
      exact fun r => hsome htasklet.2.2.1
    next k n hput =>
      rw [hput] at htasklet
      simp only [List.forall_mem_append, List.forall_mem_cons]
      exact ⟨⟨used_pkt htasklet.1, used_data htasklet.1, nofun⟩, fun r => hnext⟩

/-- The tasklet does not move the handler. -/
theorem rxPkt_handler (hs : s.rxPkt skb = some s') : s'.handler = s.handler := by
  unfold Rx.rxPkt at hs
  split at hs
  · split at hs
    · cases hs
      rfl
    · cases hs
  · split at hs
    · cases hs
    · cases hs
      rfl
  · split at hs
    · cases hs
    · cases hs
      rfl
    · cases hs
      rfl
    · cases hs
  · cases skb <;> cases hs <;> rfl
  · split at hs
    · cases hs
      rfl
    · cases hs
  · cases hs
    rfl
  · cases hs
    rfl
  · cases hs
    rfl
  · split at hs
    · cases hs
    · cases hs
      rfl

end ModemFhss.Net
