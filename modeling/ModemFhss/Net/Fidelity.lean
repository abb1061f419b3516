import ModemFhss.Net.Order
import ModemFhss.Net.Ownership

/-!
# From one driver to the other

Three sizes have to agree: the MTU limits what the kernel hands over, but counts without the link
header; the DMA buffers have 2048 bytes; and the packets of the pool, which have to hold the whole
frame, were given `ETH_DATA_LEN` bytes, which is the largest MTU and no frame's length. A frame
comes through as it is, or padded if it is short, exactly if it is no longer than that
(`transfer_faithful`); a longer one is written past the end of its packet's buffer.

The modem is the copy that connects the two: the first `SL` bytes of the one's source buffer become
the first bytes of the other's destination buffer, and `SL` becomes `DL`.
-/

namespace ModemFhss.Net

open ListHead Machine

/-- `mfhss_change_mtu`: what it returns, and `dev->mtu`. -/
def mfhssChangeMtu (mtu newMtu : Int) : Int × Int :=
  -- `-EINVAL` is only in a comment
  if newMtu < 68 ∨ newMtu > 1500 then (0, mtu) else (0, newMtu)

theorem mtu_le {mtu : Int} (h : ∀ old, (mfhssChangeMtu old mtu).2 = mtu) : mtu ≤ 1500 := by
  by_contra hgt
  have hkept := h 68
  rw [mfhssChangeMtu, if_pos (.inr (Int.lt_of_not_ge hgt))] at hkept
  have h68 : (68 : Int) = mtu := hkept
  omega

/-- A frame that is too short is filled up with zeros. -/
def padded (frame : Frame) : Frame := frame ++ List.replicate (ethZlen - frame.length) 0

theorem length_padded (frame : Frame) : (padded frame).length = max ethZlen frame.length := by
  unfold padded
  rw [List.length_append, List.length_replicate]
  omega

/-! ## The sender -/

namespace Tx

variable {t : Tx} {frame : Frame} {es : List TxEvent}

theorem srcAddr_mfhssTxPkt : (t.mfhssTxPkt frame).srcAddr =
    memcpy t.srcAddr (padded frame) (padded frame).length := by
  rw [length_padded]
  unfold mfhssTxPkt padded
  by_cases hshort : frame.length < ethZlen
  · have hlen : max ethZlen frame.length = ethZlen := Nat.max_eq_left (Nat.le_of_lt hshort)
    simp only [hshort, if_true, hlen]
    rw [show memcpy (List.replicate ethZlen 0) frame frame.length =
      frame ++ List.replicate (ethZlen - frame.length) 0 by simp [memcpy]]
  · have hlen : max ethZlen frame.length = frame.length := by omega
    have hzero : ethZlen - frame.length = 0 := by omega
    simp only [hshort, if_false, hlen, hzero, List.replicate_zero, List.append_nil]

theorem sl_mfhssTxPkt : (t.mfhssTxPkt frame).sl = (padded frame).length := by
  rw [length_padded]
  show (if frame.length < ethZlen then ethZlen else frame.length) = _
  split <;> omega

/-- The kernel hands over frames of at most the MTU and the link header. -/
def Sized : TxEvent → Prop
  | .mfhssTxPkt skb => skb.length ≤ ethDataLen + ethHlen
  | _ => True

/-- The DMA source buffer keeps its size: nothing is written past its end. -/
theorem run_srcAddr (hm : Meets step (fun _ e => Sized e) init es)
    (hr : run step init es = some t) : t.srcAddr.length = mfhssnetDmaSize := by
  refine run_invariant_of_meets (I := fun t => t.srcAddr.length = mfhssnetDmaSize)
    (fun s e s' hlen hg hs => ?_) List.length_replicate hm hr
  obtain ⟨skb, rfl, rfl⟩ | ⟨stale, -, rfl⟩ | ⟨-, rfl⟩ := step_cases hs
  · have hskb : skb.length ≤ ethDataLen + ethHlen := hg
    have hbound : max ethZlen (ethDataLen + ethHlen) ≤ mfhssnetDmaSize := by decide
    rw [srcAddr_mfhssTxPkt, length_memcpy (Nat.le_refl _), length_padded, hlen]
    omega
  · cases hslot : s.skb with
    | none =>
      rw [irqTxHandler_none hslot]
      exact hlen
    | some k =>
      rw [irqTxHandler_some hslot]
      exact hlen
  · exact hlen

end Tx

/-! ## The receiver -/

theorem length_memset {dst : List UInt8} {c : UInt8} {len : Nat} (h : len ≤ dst.length) :
    (memset dst c len).length = dst.length := by
  unfold memset
  rw [List.length_append, List.length_replicate, List.length_drop]
  omega

namespace Rx

/-- The buffers of the packets are as `pool_create` allocated them. -/
def Intact (pkts : Nat → MfhssPkt) : Prop :=
  ∀ k < poolSize, (pkts k).data.length = ethDataLen ∧ (pkts k).datalen ≤ ethDataLen

variable {s s' : Rx} {l : Links Node} {free pending : List Nat} {k : Nat} {pkts : Nat → MfhssPkt}
  {e : RxEvent} {es : List RxEvent} {m : Kmalloc ethDataLen} {q pool : Pool}

theorem Intact.update {pkt : MfhssPkt} (h : Intact pkts)
    (hpkt : pkt.data.length = ethDataLen ∧ pkt.datalen ≤ ethDataLen) :
    Intact (Function.update pkts k pkt) := by
  intro j hj
  by_cases hjk : j = k
  · rw [hjk, Function.update_self]
    exact hpkt
  · rw [Function.update_of_ne hjk]
    exact h j hj

/-- The packets in the lists and in use are those of the pool. -/
theorem Inv.lt_poolSize (h : s.Inv l free pending)
    (hk : k ∈ free ++ pending ++ s.tasklet.held ++ s.handler.held) : k < poolSize :=
  List.mem_range.mp (h.whole.mem_iff.mp hk)

/-- The handler's step, when the frame has room: all buffers keep their size. -/
theorem Inv.intact_irqRxHandler (h : s.Inv l free pending) (hintact : Intact s.pkts)
    (hfits : s.handler ≠ .idle → s.dl ≤ ethDataLen ∧ s.dl ≤ s.dstAddr.length)
    (hs : s.irqRxHandler = some s') : Intact s'.pkts := by
  cases hpc : s.handler with
  | idle =>
    simp only [Rx.irqRxHandler, hpc] at hs
    cases hs
  | entered =>
    cases free with
    | nil =>
      cases (h.drop hpc).1.symm.trans hs
      exact hintact
    | cons k free =>
      obtain ⟨pool, hpkts, hs', -⟩ := h.take hpc
      cases hs'.symm.trans hs
      rw [show Intact pool.pkts ↔ _ from by rw [hpkts]]
      exact hintact
  | got k =>
    obtain ⟨pkt, rfl, hs', -⟩ := h.fill hpc
    cases hs'.symm.trans hs
    -- the one place where a buffer could grow
    obtain ⟨hroom, hread⟩ := hfits (by rw [hpc]; exact Handler.noConfusion)
    have hk : k < poolSize := h.lt_poolSize (by rw [hpc]; simp [Handler.held])
    apply hintact.update
    refine ⟨?_, hroom⟩
    rw [length_memcpy hread, (hintact k hk).1]
    exact Nat.max_eq_right hroom
  | filled k =>
    obtain ⟨links, hs', -⟩ := h.queue hpc
    cases hs'.symm.trans hs
    exact hintact
  | queued =>
    cases (h.schedule hpc).1.symm.trans hs
    exact hintact

/-- The handler leaves the DMA buffer and its registers as they are. -/
theorem irqRxHandler_dma (hs : s.irqRxHandler = some s') :
    s'.dl = s.dl ∧ s'.dstAddr = s.dstAddr := by
  unfold Rx.irqRxHandler at hs
  split at hs
  · cases hs
  · split at hs <;> cases hs <;> exact ⟨rfl, rfl⟩
  · cases hs
    exact ⟨rfl, rfl⟩
  · split at hs <;> cases hs
    exact ⟨rfl, rfl⟩
  · cases hs
    exact ⟨rfl, rfl⟩

theorem build_pkts {n : Node} {skb : Bool} :
    (s.build k n skb).pkts = s.pkts ∧ (s.build k n skb).handler = s.handler := by
  cases skb <;> exact ⟨rfl, rfl⟩

/-- The tasklet clears the packets it gives back and no others. -/
theorem Inv.intact_rxPkt {skb : Bool} (h : s.Inv l free pending) (hh : s.handler = .idle)
    (hintact : Intact s.pkts) (hs : s.rxPkt skb = some s') :
    Intact s'.pkts ∧ s'.handler = .idle := by
  cases ht : s.tasklet with
  | idle =>
    simp only [Rx.rxPkt, ht] at hs
    split at hs <;> cases hs
    exact ⟨hintact, hh⟩
  | start =>
    obtain ⟨p, -, hs', -⟩ := h.first hh ht skb
    cases hs'.symm.trans hs
    exact ⟨hintact, hh⟩
  | load p =>
    simp only [Rx.rxPkt, ht] at hs
    split at hs <;> cases hs <;> exact ⟨hintact, hh⟩
  | body k n =>
    cases (h.build hh ht skb).1.symm.trans hs
    rw [build_pkts.1, build_pkts.2]
    exact ⟨hintact, hh⟩
  | del k n =>
    obtain ⟨prev, next, hs', -⟩ := h.del hh ht skb
    cases hs'.symm.trans hs
    exact ⟨hintact, hh⟩
  | delPrev k n prev next | delNext k n prev next | poison k n =>
    simp only [Rx.rxPkt, ht] at hs
    cases hs
    exact ⟨hintact, hh⟩
  | put k n =>
    obtain ⟨pool, hpkts, hs', -⟩ := h.put hh ht skb
    cases hs'.symm.trans hs
    have hk : k < poolSize := h.lt_poolSize (by rw [ht]; simp [Tasklet.held])
    obtain ⟨hlen, hdatalen⟩ := hintact k hk
    refine ⟨?_, hh⟩
    show Intact pool.pkts
    rw [hpkts]
    apply hintact.update
    refine ⟨?_, Nat.zero_le _⟩
    rw [length_memset (by rw [hlen]; exact hdatalen), hlen]

/-- No frame was too long so far, and the one in the DMA buffer is not either. -/
def Sound (s : Rx) : Prop :=
  (∃ l free pending, s.Inv l free pending) ∧ Intact s.pkts ∧
    (s.handler ≠ .idle → s.dl ≤ ethDataLen ∧ s.dl ≤ s.dstAddr.length)

theorem Sound.step (h : s.Sound) (hfits : Fits e) (hatomic : s.Atomic e)
    (hs : Rx.step s e = some s') : s'.Sound := by
  obtain ⟨⟨l, free, pending, hinv⟩, hintact, hdma⟩ := h
  refine ⟨hinv.step hatomic.clear hs, ?_⟩
  have he := enabled_of_step hs
  cases e with
  | interrupt dstAddr dl =>
    cases (if_pos he).symm.trans hs
    refine ⟨hintact, fun _ => ⟨hfits.1, ?_⟩⟩
    show dl ≤ dstAddr.length
    rw [hfits.2]
    exact Nat.le_trans hfits.1 (by decide)
  | handler =>
    have hdma' := irqRxHandler_dma hs
    refine ⟨hinv.intact_irqRxHandler hintact hdma hs, fun _ => ?_⟩
    rw [hdma'.1, hdma'.2]
    exact hdma he
  | tasklet skb =>
    have hs' : s.rxPkt skb = some s' := (if_pos he.1).symm.trans hs
    obtain ⟨hintact', hidle⟩ := hinv.intact_rxPkt he.1 hintact hs'
    exact ⟨hintact', fun hne => absurd hidle hne⟩

theorem sound_init (h : mfhssnetProbe m q = some (0, pool)) : (init pool).Sound := by
  refine ⟨⟨_, _, _, inv_init h⟩, fun k hk => ?_, fun hne => absurd rfl hne⟩
  obtain ⟨hlen, hdatalen⟩ := (probe_holds h).2 k hk
  refine ⟨hlen, ?_⟩
  show (pool.pkts k).datalen ≤ ethDataLen
  rw [hdatalen]
  exact Nat.zero_le _

/-- The driver is at rest, and no packet is left in the list. -/
structure AtRest (s : Rx) : Prop where
  handler : s.handler = .idle
  tasklet : s.tasklet = .idle
  empty : s.links.next .rxPktsList = some .rxPktsList

theorem Inv.pending_eq_nil (h : s.Inv l free pending) (hrest : s.AtRest) : pending = [] := by
  have hhead : l.next .rxPktsList = (pending.map Node.pkt ++ [Node.rxPktsList]).head? :=
    h.lists.rxPktsList.next_head
  have hempty := hrest.empty
  rw [h.links, Tasklet.next_written, hhead] at hempty
  cases pending with
  | nil => rfl
  | cons k pending => cases hempty

/-- One frame, from its interrupt until it was handed up. -/
def oneFrame (dstAddr : List UInt8) (dl : Nat) : List RxEvent :=
  [.interrupt dstAddr dl, .handler, .handler, .handler, .handler,
    .tasklet true, .tasklet true, .tasklet true, .tasklet true]

theorem run_handler (hs : s.irqRxHandler = some s') :
    run Rx.step s (.handler :: es) = run Rx.step s' es := run_cons hs

theorem run_tasklet {skb : Bool} (hh : s.handler = .idle) (hs : s.rxPkt skb = some s') :
    run Rx.step s (.tasklet skb :: es) = run Rx.step s' es := run_cons ((if_pos hh).trans hs)

/-- What becomes of one frame: a packet is filled with it, and handed up. -/
theorem Inv.oneFrame (h : s.Inv l free pending) (hrest : s.AtRest) (dstAddr : List UInt8)
    (dl : Nat) : ∃ k < poolSize, ∃ s', run Rx.step s (oneFrame dstAddr dl) = some s' ∧
      s'.pkts = Function.update s.pkts k ⟨true, dl, memcpy (s.pkts k).data dstAddr dl⟩ ∧
      s'.handed = s.handed ++ [(memcpy (s.pkts k).data dstAddr dl).take dl] := by
  obtain rfl := h.pending_eq_nil hrest
  obtain ⟨hh, ht, -⟩ := hrest
  have hclear : s.Clear (.interrupt dstAddr dl) := fun _ => by rw [ht]; exact id
  cases free with
  | nil =>
    -- all packets are in the pool
    have hlen := h.whole.length_eq
    rw [ht, hh] at hlen
    cases hlen
  | cons k free =>
    -- the nine steps, one lemma each
    have hk : k < poolSize := h.lt_poolSize (by simp)
    have h₁ := h.interrupt hh hclear
    obtain ⟨pool, hpkts, hs₂, h₂⟩ := h₁.take rfl
    obtain ⟨pkt, hpkt, hs₃, h₃⟩ := h₂.fill rfl
    obtain ⟨links, hs₄, h₄⟩ := h₃.queue rfl
    obtain ⟨hs₅, h₅⟩ := h₄.schedule rfl
    obtain ⟨hs₆, h₆⟩ := h₅.start rfl ht rfl true
    obtain ⟨p, hp, hs₇, h₇⟩ := h₆.first rfl rfl true
    cases hp
    obtain ⟨n, -, hs₈, h₈⟩ := h₇.enter rfl rfl true
    obtain ⟨hs₉, -⟩ := h₈.build rfl rfl true
    have hfirst : Rx.step s (.interrupt dstAddr dl) = some { s with
        dstAddr, dl, handler := .entered, interrupts := s.interrupts + 1 } := if_pos hh
    refine ⟨k, hk, ?_⟩
    rw [Rx.oneFrame, run_cons hfirst, run_handler hs₂, run_handler hs₃, run_handler hs₄,
      run_handler hs₅, run_tasklet rfl hs₆, run_tasklet rfl hs₇, run_tasklet rfl hs₈,
      run_tasklet rfl hs₉, run_nil]
    refine ⟨_, rfl, ?_, ?_⟩
    · show Function.update pool.pkts k pkt = _
      rw [hpkt, hpkts]
    · show s.handed ++ [(Function.update pool.pkts k pkt k).data.take
        (Function.update pool.pkts k pkt k).datalen] = _
      rw [Function.update_self, hpkt, hpkts]

end Rx

/-! ## From the one to the other -/

/-- The modem copies the first `SL` bytes, sets `DL` and raises the interrupt; the other driver
takes the frame in. -/
def transfer (t : Tx) (s : Rx) : List RxEvent :=
  Rx.oneFrame (memcpy s.dstAddr t.srcAddr t.sl) t.sl

/-- Both copies stay inside their buffers, and the frame comes through. -/
def Faithful (t : Tx) (s : Rx) (frame : Frame) : Prop :=
  (t.mfhssTxPkt frame).srcAddr.length = t.srcAddr.length ∧
    ∃ s', run Rx.step s (transfer (t.mfhssTxPkt frame) s) = some s' ∧
      (∀ k < poolSize, (s'.pkts k).data.length = (s.pkts k).data.length) ∧
      s'.handed = s.handed ++ [padded frame]

variable {t : Tx} {s : Rx} {frame : Frame} {mtu : Int} {txs : List TxEvent} {rxs : List RxEvent}
  {m : Kmalloc ethDataLen} {q pool : Pool}

/-- What was copied twice is read back. -/
theorem take_memcpy_memcpy {dst src data : List UInt8} :
    (memcpy dst (memcpy src data data.length) data.length).take data.length = data := by
  have hlen : data.length ≤ (memcpy src data data.length).length := by
    rw [length_memcpy (Nat.le_refl _)]
    exact Nat.le_max_left ..
  rw [take_memcpy hlen, take_memcpy (Nat.le_refl _), List.take_length]

/-- **A frame comes through, and inside all buffers, exactly if it has room in a packet**, from any
driver that was handed no frame above its MTU to any at rest that got none too long before. -/
theorem transfer_faithful (hmtu : ∀ old, (mfhssChangeMtu old mtu).2 = mtu)
    (hframe : ethHlen ≤ frame.length ∧ (frame.length : Int) ≤ mtu + ethHlen)
    (htxs : Meets Tx.step (fun _ e => Tx.Sized e) .init txs) (ht : run Tx.step .init txs = some t)
    (hprobe : Rx.mfhssnetProbe m q = some (0, pool))
    (hrxs : Meets Rx.step (fun s e => Rx.Fits e ∧ s.Atomic e) (.init pool) rxs)
    (hs : run Rx.step (.init pool) rxs = some s) (hrest : s.AtRest) :
    Faithful t s frame ↔ frame.length ≤ ethDataLen := by
  obtain ⟨⟨l, free, pending, hinv⟩, hintact, -⟩ : s.Sound :=
    run_invariant_of_meets (fun _ _ _ h hg hs => h.step hg.1 hg.2 hs) (Rx.sound_init hprobe) hrxs hs
  have hsrc : t.srcAddr.length = mfhssnetDmaSize := Tx.run_srcAddr htxs ht
  have hsize : (padded frame).length ≤ mfhssnetDmaSize := by
    have hle := mtu_le hmtu
    have hbound : max ethZlen (ethDataLen + ethHlen) ≤ mfhssnetDmaSize := by decide
    have hdata : ethDataLen = 1500 := rfl
    rw [length_padded]
    omega
  have hsource : (t.mfhssTxPkt frame).srcAddr.length = t.srcAddr.length := by
    rw [Tx.srcAddr_mfhssTxPkt, length_memcpy (Nat.le_refl _), hsrc]
    exact Nat.max_eq_right hsize
  obtain ⟨k, hk, s', hrun, hpkts, hhanded⟩ := hinv.oneFrame hrest
    (memcpy s.dstAddr (t.mfhssTxPkt frame).srcAddr (padded frame).length) (padded frame).length
  have hread : (padded frame).length ≤
      (memcpy s.dstAddr (t.mfhssTxPkt frame).srcAddr (padded frame).length).length := by
    rw [length_memcpy (by rw [hsource, hsrc]; exact hsize)]
    exact Nat.le_max_left ..
  have hfilled : (s'.pkts k).data.length = max (padded frame).length ethDataLen := by
    rw [hpkts, Function.update_self]
    show (memcpy _ _ _).length = _
    rw [length_memcpy hread, (hintact k hk).1]
  have hzlen : ethZlen ≤ ethDataLen := by decide
  rw [Faithful, transfer, Tx.sl_mfhssTxPkt]
  constructor
  · -- a longer frame has made its packet's buffer longer
    rintro ⟨-, s'', hrun', hkept, -⟩
    cases hrun.symm.trans hrun'
    have hroom := hkept k hk
    rw [hfilled, (hintact k hk).1, length_padded] at hroom
    omega
  · intro hroom
    refine ⟨hsource, s', hrun, fun j hj => ?_, ?_⟩
    · by_cases hjk : j = k
      · rw [hjk, hfilled, (hintact k hk).1, length_padded]
        omega
      · rw [hpkts, Function.update_of_ne hjk]
    · rw [hhanded, take_memcpy hread, Tx.srcAddr_mfhssTxPkt, take_memcpy_memcpy]

/-- A frame of which there is no more than the link header. -/
def bareFrame : Frame := List.replicate ethHlen 1

theorem transfer_faithful_bareFrame :
    ∃ pool, Rx.mfhssnetProbe Rx.plenty Rx.unprobed = some (0, pool) ∧
      Faithful .init (.init pool) bareFrame := by
  have hprobe : (Rx.mfhssnetProbe Rx.plenty Rx.unprobed).any fun x =>
      decide (x.1 = 0 ∧ x.2.links.next .rxPktsList = some .rxPktsList) := by decide +kernel
  obtain ⟨⟨err, pool⟩, hprobe, hpool⟩ := (Option.any_eq_true ..).mp hprobe
  obtain ⟨herr, hempty⟩ := of_decide_eq_true hpool
  cases herr
  have hmtu : ∀ old, (mfhssChangeMtu old 1500).2 = 1500 := fun _ => rfl
  refine ⟨pool, hprobe, ?_⟩
  exact (transfer_faithful hmtu (by decide) meets_nil run_nil hprobe meets_nil run_nil
    ⟨rfl, rfl, hempty⟩).mpr (by decide)

/-- As much as the largest MTU allows, and the link header. -/
def fullFrame : Frame := List.replicate (ethDataLen + ethHlen) 1

/-- The largest frame is written past the end of its packet's buffer. -/
theorem fullFrame_not_faithful : (∀ old, (mfhssChangeMtu old 1500).2 = 1500) ∧
    ∃ pool, Rx.mfhssnetProbe Rx.plenty Rx.unprobed = some (0, pool) ∧
      ¬ Faithful .init (.init pool) fullFrame := by
  refine ⟨fun _ => rfl, ?_⟩
  have hrun : (Rx.mfhssnetProbe Rx.plenty Rx.unprobed).any fun x =>
      decide (x.1 = 0 ∧ (x.2.pkts 7).data.length = 1500 ∧
        ∃ s, run Rx.step (.init x.2) (transfer (Tx.mfhssTxPkt .init fullFrame) (.init x.2)) =
          some s ∧ (s.pkts 7).data.length = 1514) := by decide +kernel
  obtain ⟨⟨err, pool⟩, hprobe, hrun⟩ := (Option.any_eq_true ..).mp hrun
  obtain ⟨herr, hbefore, s, hs, hafter⟩ := of_decide_eq_true hrun
  cases herr
  refine ⟨pool, hprobe, ?_⟩
  rintro ⟨-, s', hs', hkept, -⟩
  cases hs.symm.trans hs'
  have hlen := hkept 7 (by decide)
  have hlen' : (s.pkts 7).data.length = (pool.pkts 7).data.length := hlen
  rw [hafter, hbefore] at hlen'
  cases hlen'

end ModemFhss.Net
