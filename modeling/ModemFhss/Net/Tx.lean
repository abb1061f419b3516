import ModemFhss.Net.Device

/-!
# The transmit side (`mfhss_tx_pkt`, `irq_tx_handler`, `mfhss_tx_timeout`)

The driver owns a socket buffer from the moment `mfhss_tx_pkt` accepts it and has to free it once.
It remembers one buffer, in `priv->skb`: the transmit interrupt reads its length for the statistics
and frees it, without asking whether the pointer still is the buffer that was sent, and
`mfhss_tx_pkt` overwrites it, without asking whether the buffer before it was freed. What keeps the
two in turn is the queue, which is stopped from one to the other; the watchdog wakes it as well.

A pointer to a socket buffer is the number of its acceptance, so that no two buffers are confused
when the allocator gives out the same memory again. `history` is what the driver has done with the
buffers. The debug output, the timestamp and the registers `CR` and `SR` are left out: nothing here
reads them.
-/

namespace ModemFhss.Net

/-- What the interrupt handler does with `priv->skb`. -/
inductive Use where
  /-- `priv->skb->len` -/
  | read
  /-- `dev_kfree_skb_irq(priv->skb)` -/
  | free
  deriving DecidableEq

inductive Action where
  /-- `mfhss_tx_pkt` takes the buffer over. -/
  | accept (skb : Nat)
  /-- `none` is the null pointer. -/
  | touch (use : Use) (skb : Option Nat)
  deriving DecidableEq

structure Tx where
  /-- `priv->skb` -/
  skb : Option Nat
  /-- The DMA source buffer, `priv->src_addr`. -/
  srcAddr : List UInt8
  /-- The DMA register `SL`. -/
  sl : Nat
  stats : NetDeviceStats
  /-- `netif_queue_stopped(dev)` -/
  stopped : Bool
  /-- The null pointer was read. -/
  oops : Bool
  /-- The contents of the socket buffers accepted. -/
  accepted : List Frame
  history : List Action

inductive TxEvent where
  | mfhssTxPkt (skb : Frame)
  /-- `stale` is what is read as the length of a buffer that has been freed. -/
  | irqTxHandler (stale : Nat)
  | mfhssTxTimeout

/-- The socket buffers accepted, in order. -/
def accepts (history : List Action) : List Nat :=
  history.filterMap fun
    | .accept skb => some skb
    | .touch .. => none

/-- The socket buffers accepted and not freed. -/
def outstanding (history : List Action) : List Nat :=
  (accepts history).filter fun skb => .touch .free (some skb) ∉ history

namespace Tx

/-- After `mfhss_open`. -/
def init : Tx where
  skb := none
  srcAddr := List.replicate mfhssnetDmaSize 0
  sl := 0
  stats := .zero
  stopped := false
  oops := false
  accepted := []
  history := []

def mfhssTxPkt (s : Tx) (skb : Frame) : Tx :=
  let len := if skb.length < ethZlen then ethZlen else skb.length
  let data :=
    if skb.length < ethZlen then memcpy (List.replicate ethZlen 0) skb skb.length else skb
  { s with
    stopped := true
    skb := some s.accepted.length
    srcAddr := memcpy s.srcAddr data len
    sl := len
    accepted := s.accepted ++ [skb]
    history := s.history ++ [.accept s.accepted.length] }

/-- `priv->skb->len` -/
def skbLen (s : Tx) (skb stale : Nat) : Nat :=
  if skb ∈ outstanding s.history then (s.accepted.getD skb []).length else stale

def irqTxHandler (s : Tx) (stale : Nat) : Tx :=
  let s := { s with stats.txPackets := s.stats.txPackets + 1 }
  match s.skb with
  | none => { s with oops := true, history := s.history ++ [.touch .read none] }
  | some skb =>
    { s with
      stats.txBytes := s.stats.txBytes + s.skbLen skb stale
      history := s.history ++ [.touch .read (some skb)] ++ [.touch .free (some skb)]
      stopped := false }

def mfhssTxTimeout (s : Tx) : Tx :=
  { s with stats.txErrors := s.stats.txErrors + 1, stopped := false }

/-- The kernel calls `mfhss_tx_pkt` only while the queue is not stopped. -/
def step (s : Tx) (e : TxEvent) : Option Tx :=
  if s.oops then
    none
  else
    match e with
    | .mfhssTxPkt skb => if s.stopped then none else some (s.mfhssTxPkt skb)
    | .irqTxHandler stale => some (s.irqTxHandler stale)
    | .mfhssTxTimeout => some s.mfhssTxTimeout

end Tx

end ModemFhss.Net
