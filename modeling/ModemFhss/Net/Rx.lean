import ModemFhss.Net.Pool

/-!
# The receive side (`irq_rx_handler`, `__rx_pkt`)

For each frame the interrupt handler takes a packet from the pool, fills it from the DMA buffer,
puts it into `rx_pkts_list` and schedules the tasklet; without a packet it drops the frame. The
tasklet walks over `rx_pkts_list`, builds a socket buffer from each packet and hands it to
`netif_rx`, or drops the frame if there is no memory, and gives the packet back.

An interrupt can come between any two steps of the tasklet, and the handler then runs to its end
before the tasklet goes on. A step of the tasklet is one access to the list and what follows it up
to the next, such as building the socket buffer and counting it; `list_del`, which takes no lock, is
the loads and stores it is made of. `pool_get` and `pool_put` take the pool's lock with interrupts
off, and are one step each, as are the calls of the handler, which nothing interrupts.

`stored`, `arrival`, `tried` and `handed` record which frames came to a packet and what became of
them; the driver does not know them. A frame that is handed up is the bytes copied into the socket
buffer: the marks that `eth_type_trans` and its neighbours set on it for the kernel are left out.
-/

namespace ModemFhss.Net

open ListHead

/-- Where `irq_rx_handler` is. -/
inductive Handler where
  | idle
  /-- Before `pool_get`. -/
  | entered
  /-- `pkt` was taken from the pool and is to be filled. -/
  | got (pkt : Nat)
  /-- Before `list_add`. -/
  | filled (pkt : Nat)
  /-- Before `tasklet_schedule`. -/
  | queued
  deriving DecidableEq

/-- Where `__rx_pkt` is. `p` is the cursor of `list_for_each_safe`, `n` the next one (`tmp`), and
from the loop's body on `p` is `&pkt->list`. -/
inductive Tasklet where
  | idle
  /-- Before the walk is at the first entry. -/
  | start
  /-- Before `n = p->next` and the loop's test. -/
  | load (p : Node)
  /-- Before `dev_alloc_skb`. -/
  | body (pkt : Nat) (n : Node)
  /-- Before `list_del`. -/
  | del (pkt : Nat) (n : Node)
  /-- In `list_del`, before `next->prev = prev`. -/
  | delPrev (pkt : Nat) (n prev next : Node)
  /-- In `list_del`, before `prev->next = next`. -/
  | delNext (pkt : Nat) (n prev next : Node)
  /-- In `list_del`, before the links of `pkt` are poisoned. -/
  | poison (pkt : Nat) (n : Node)
  /-- Before `pool_put`. -/
  | put (pkt : Nat) (n : Node)
  deriving DecidableEq

structure Rx extends Pool where
  /-- The DMA destination buffer, `priv->dst_addr`. -/
  dstAddr : List UInt8
  /-- The DMA register `DL`. -/
  dl : Nat
  stats : NetDeviceStats
  /-- `tasklet_schedule` was called and the tasklet has not started since. -/
  scheduled : Bool
  handler : Handler
  tasklet : Tasklet
  /-- The number of receive interrupts. -/
  interrupts : Nat
  /-- The frames for which `pool_get` had a packet, in the order of their interrupts. -/
  stored : List Frame
  /-- Which of these frames a packet was last taken for. -/
  arrival : Nat → Nat
  /-- For which of these frames a socket buffer was asked for, and whether there was one. -/
  tried : List (Nat × Bool)
  /-- What `netif_rx` got. -/
  handed : List Frame

inductive RxEvent where
  /-- The modem has put a frame into the DMA buffer and its length into `DL`. -/
  | interrupt (dstAddr : List UInt8) (dl : Nat)
  /-- The handler's next step. -/
  | handler
  /-- The tasklet's next step; `skb` says whether `dev_alloc_skb` finds memory. -/
  | tasklet (skb : Bool)

namespace Rx

/-- What `mfhssnet_probe` does to the lists: `mfhss_setup`, called by `alloc_netdev`, and
`pool_create`. -/
def mfhssnetProbe (m : Kmalloc ethDataLen) (p : Pool) : Option (Int × Pool) :=
  Pool.poolCreate m { p with links := p.links.initListHead .rxPktsList }

/-- The device has been opened. -/
def init (pool : Pool) : Rx where
  toPool := pool
  dstAddr := List.replicate mfhssnetDmaSize 0
  dl := 0
  stats := .zero
  scheduled := false
  handler := .idle
  tasklet := .idle
  interrupts := 0
  stored := []
  arrival := fun _ => 0
  tried := []
  handed := []

/-- `irq_rx_handler` -/
def irqRxHandler (s : Rx) : Option Rx :=
  match s.handler with
  | .idle => none
  | .entered =>
    match s.toPool.poolGet with
    | none => none
    | some (none, _) =>
      some { s with stats.rxDropped := s.stats.rxDropped + 1, handler := .idle }
    | some (some k, pool) =>
      some { s with
        toPool := pool
        handler := .got k
        stored := s.stored ++ [s.dstAddr.take s.dl]
        arrival := Function.update s.arrival k s.stored.length }
  | .got k =>
    let pkt := s.pkts k
    some { s with
      pkts := Function.update s.pkts k ⟨true, s.dl, memcpy pkt.data s.dstAddr s.dl⟩
      handler := .filled k }
  | .filled k =>
    match s.links.listAdd (.pkt k) .rxPktsList with
    | none => none
    | some links => some { s with links, handler := .queued }
  | .queued => some { s with scheduled := true, handler := .idle }

/-- The part of the loop between the test and `list_del`. -/
def build (s : Rx) (k : Nat) (n : Node) : Bool → Rx
  | false =>
    { s with
      stats.rxDropped := s.stats.rxDropped + 1
      tasklet := .del k n
      tried := s.tried ++ [(s.arrival k, false)] }
  | true =>
    let pkt := s.pkts k
    { s with
      stats.rxPackets := s.stats.rxPackets + 1
      stats.rxBytes := s.stats.rxBytes + pkt.datalen
      tasklet := .del k n
      tried := s.tried ++ [(s.arrival k, true)]
      handed := s.handed ++ [pkt.data.take pkt.datalen] }

/-- `__rx_pkt`, and the start of the tasklet. -/
def rxPkt (s : Rx) (skb : Bool) : Option Rx :=
  match s.tasklet with
  | .idle =>
    if s.scheduled then some { s with scheduled := false, tasklet := .start } else none
  | .start =>
    match s.links.next .rxPktsList with
    | none => none
    | some p => some { s with tasklet := .load p }
  | .load p =>
    match s.links.next p, p with
    | none, _ => none
    | some _, .rxPktsList => some { s with tasklet := .idle }
    | some n, .pkt k => some { s with tasklet := .body k n }
    -- `list_entry` of what is no packet
    | some _, .poolList => none
  | .body k n => some (s.build k n skb)
  | .del k n =>
    match s.links.prev (.pkt k), s.links.next (.pkt k) with
    | some prev, some next => some { s with tasklet := .delPrev k n prev next }
    | _, _ => none
  | .delPrev k n prev next =>
    some { s with links := s.links.setPrev next prev, tasklet := .delNext k n prev next }
  | .delNext k n prev next =>
    some { s with links := s.links.setNext prev next, tasklet := .poison k n }
  | .poison k n => some { s with links := s.links.poison (.pkt k), tasklet := .put k n }
  | .put k n =>
    match s.toPool.poolPut (some k) with
    | none => none
    | some pool => some { s with toPool := pool, tasklet := .load n }

/-- The handler interrupts the tasklet, and is not interrupted. -/
def step (s : Rx) : RxEvent → Option Rx
  | .interrupt dstAddr dl =>
    if s.handler = .idle then
      some { s with dstAddr, dl, handler := .entered, interrupts := s.interrupts + 1 }
    else
      none
  | .handler => s.irqRxHandler
  | .tasklet skb => if s.handler = .idle then s.rxPkt skb else none

end Rx

end ModemFhss.Net
