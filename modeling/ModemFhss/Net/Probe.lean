import ModemFhss.Net.Open
import ModemFhss.Net.Ownership
import ModemFhss.Net.Rx
import ModemFhss.Net.Sysfs

/-!
# Probing and removing the driver (`mfhssnet_probe`, `mfhssnet_remove`)

`mfhssnet_probe` acquires one thing after the other, and a step that fails calls `mfhss_cleanup`, a
`switch` whose cases fall through, with a stage chosen at that place. `mfhssnet_remove` enters it at
the first stage. Between the two the driver is in use: requests make directories and files, the
interface is opened and closed, and frames come and go.

A packet is known by the pass of `pool_create` it was allocated in, a subdirectory by its place in
its kset, where they are added at the end and stay, a register attribute by the number of the
request it was made for, and a socket buffer by the number of its acceptance. The kernel removes a
device whose interface is down; it closes it before. `free_irq` waits for the handler, so that it is
not running when the interface is closed; nothing waits for the tasklet, which belongs to the
module.

There is one device: it is probed only while the driver has none, and a second one is not modelled.
A request with a name that does not end in its field ends the run, as what is read past the field is
not known.

The null pointer in `priv->stats` is not noticed: nothing follows where the counters are written
then, as nothing follows where the transmit interrupt finds the null pointer in `priv->skb`. What
`pool_destroy` takes from the count of packets is left out: `pool_create` sets it anew.
-/

namespace ModemFhss.Net

open Errno Resource ListHead

inductive Res where
  /-- The `net_device`, with `struct mfhss_priv_` in it. -/
  | netdev
  /-- `priv->stats` -/
  | stats
  /-- A `struct mfhss_pkt_`. -/
  | pkt (k : Nat)
  /-- Its `data`. -/
  | data (k : Nat)
  /-- What `list_entry` makes of a list head. -/
  | listHead
  /-- The kset `mfhss-static`. -/
  | staticRegs
  /-- The kset `mfhss-dynamic`. -/
  | dynamicRegs
  /-- A `struct reg_dir` in one of the two. -/
  | staticDir (i : Nat)
  | dynamicDir (i : Nat)
  /-- A `struct reg_attribute`. -/
  | attribute (n : Nat)
  | memRegion
  | ioBase
  /-- The interface is registered. -/
  | registration
  /-- What `mfhss_open` acquires. -/
  | opened (r : OpenRes)
  /-- A socket buffer that is to be sent. -/
  | skb (n : Nat)
  deriving DecidableEq

/-- `enum destroy_stage_` -/
inductive DestroyStage where
  | destroyAll
  | unregisterNetdev
  | unmapMemRegion
  | destroyMemRegion
  | cleanDynamicRegsDir
  | destroyDynamicRegsDir
  | cleanStaticRegsDir
  | destroyStaticRegsDir
  | destroyPool
  | destroyStats
  | destroyNetdev
  deriving DecidableEq

/-! ## The pool -/

/-- What the passes of the loop in `pool_create` acquire, with `n` to go. -/
def createFromOps {maxlen : Nat} (m : Kmalloc maxlen) : Nat → Nat → List (Op Res)
  | 0, _ => []
  | n + 1, i =>
    if m.pkt i = false then
      []
    else
      match m.data i with
      | none => [.acquire (.pkt i), .release (.pkt i)]
      | some _ => [.acquire (.pkt i), .acquire (.data i)] ++ createFromOps m n (i + 1)

/-- A pass of the loop in `pool_destroy`. -/
def Node.destroy : Node → List (Op Res)
  | .pkt k => [.use (.pkt k), .release (.data k), .release (.pkt k)]
  | .poolList | .rxPktsList => [.use .listHead]

/-- The packets in `pool_list`. A walk that is longer than the pool comes to a packet twice. -/
def Pool.listed (p : Pool) : List Node := p.links.entries .poolList (poolSize + 1)

def Pool.poolDestroy (p : Pool) : List (Op Res) := p.listed.flatMap Node.destroy

/-! ## What the two directions use -/

/-- The memory that holds the links of a node that a link leads to. -/
def linked : Option Node → List Res
  | some (.pkt k) => [.pkt k]
  | some .rxPktsList => [.netdev]
  | some .poolList | none => []

/-- The memory that a step of the receive side reads or writes. -/
def Rx.uses (s : Rx) : RxEvent → List Res
  | .interrupt .. => []
  | .handler =>
    match s.handler with
    | .idle => []
    | .entered =>
      match s.links.next .poolList with
      | some (.pkt k) =>
        [.pkt k] ++ linked (s.links.next (.pkt k)) ++ linked (s.links.prev (.pkt k))
      | _ => [.netdev, .stats, .ioBase]
    | .got k => [.netdev, .pkt k, .data k, .ioBase, .opened .dstAddr]
    | .filled k => [.netdev, .pkt k] ++ linked (s.links.next .rxPktsList)
    | .queued => [.netdev, .ioBase]
  | .tasklet skb =>
    match s.tasklet with
    | .idle => []
    | .start => [.netdev]
    | .load p => linked (some p)
    | .body k _ => [.pkt k, .netdev, .stats] ++ if skb then [.data k] else []
    | .del k _ | .poison k _ => [.pkt k]
    | .delPrev _ _ _ next => linked (some next)
    | .delNext _ _ prev _ => linked (some prev)
    | .put k _ => [.pkt k, .data k] ++ linked (s.links.next .poolList)

/-- What an event of the transmit side does. -/
def Tx.does (s : Tx) : TxEvent → List (Op Res)
  | .mfhssTxPkt _ =>
    [.acquire (.skb s.accepted.length), .use (.skb s.accepted.length), .use .netdev,
      .use (.opened .srcAddr), .use .ioBase]
  | .irqTxHandler _ =>
    [.use .netdev, .use .stats] ++
      match s.skb with
      | none => []
      | some skb => [.use (.skb skb), .release (.skb skb), .use .ioBase]
  | .mfhssTxTimeout => [.use .netdev, .use .stats]

/-! ## The driver -/

structure Driver where
  ops : List (Op Res)
  /-- The number of requests until now. -/
  requests : Nat
  /-- The device was probed successfully, and not removed since. -/
  bound : Bool
  /-- The interface is up. -/
  up : Bool
  /-- `priv->stats` is not the null pointer. -/
  stats : Bool
  /-- The number of subdirectories in `priv->static_regs`. -/
  staticDirs : Nat
  /-- The subdirectories in `priv->dynamic_regs`. -/
  dynamicDirs : List RegDir
  rx : Rx
  tx : Tx

/-- What the kernel answers to `create_dma_subdir` and its like. -/
structure SubdirCalls where
  /-- There is memory. -/
  alloc : Bool
  /-- What `kobject_add` returns. -/
  add : Int

/-- What they return. -/
def SubdirCalls.err (c : SubdirCalls) : Int := if c.alloc then c.add else -enomem

/-- What the kernel answers to `mfhssnet_probe`. -/
structure ProbeCalls where
  /-- There is memory. -/
  netdev : Bool
  stats : Bool
  pool : Kmalloc ethDataLen
  staticRegs : Bool
  dma : SubdirCalls
  mlip : SubdirCalls
  link : SubdirCalls
  dynamicRegs : Bool
  /-- What `of_address_to_resource` returns. -/
  resource : Int
  /-- `request_mem_region` grants the region. -/
  memRegion : Bool
  /-- `of_iomap` maps it. -/
  ioBase : Bool
  /-- What `register_netdev` returns. -/
  registration : Int

inductive DriverEvent where
  | mfhssnetProbe (c : ProbeCalls)
  | mfhssnetRemove
  | mfhssIoctl (kzalloc memory : Bool) (r : Request)
  | mfhssOpen (c : OpenCalls)
  | mfhssClose
  | rx (e : RxEvent)
  | tx (e : TxEvent)

/-- `kobject_del` and `kobject_put`, the last reference, for each subdirectory. -/
def cleanDir (dirs : List Res) : List (Op Res) := dirs.flatMap fun r => [.use r, .release r]

namespace Driver

def init (pool : Pool) : Driver where
  ops := []
  requests := 0
  bound := false
  up := false
  stats := false
  staticDirs := 0
  dynamicDirs := []
  rx := .init pool
  tx := .init

def act (s : Driver) (ops : List (Op Res)) : Driver := { s with ops := s.ops ++ ops }

/-- The cases of the `switch` in `mfhss_cleanup`. -/
def cases (s : Driver) : List (DestroyStage × List (Op Res)) :=
  [(.destroyAll, []),
    (.unregisterNetdev, [.release .registration]),
    (.unmapMemRegion, [.release .ioBase]),
    (.destroyMemRegion, [.release .memRegion]),
    (.cleanDynamicRegsDir, cleanDir ((List.range s.dynamicDirs.length).map .dynamicDir)),
    (.destroyDynamicRegsDir, [.release .dynamicRegs]),
    (.cleanStaticRegsDir, cleanDir ((List.range s.staticDirs).map .staticDir)),
    (.destroyStaticRegsDir, [.release .staticRegs]),
    (.destroyPool, s.rx.poolDestroy),
    (.destroyStats, if s.stats then [.release .stats] else []),
    (.destroyNetdev, [.release .netdev])]

/-- `mfhss_cleanup`. There is a case for each stage, so the default is never taken. -/
def mfhssCleanup (s : Driver) (start : DestroyStage) : Driver :=
  { s.act (.use .netdev :: fallThrough s.cases start) with bound := false }

/-- `alloc_netdev`, which clears the private structure, the statistics and `pool_create`. -/
def allocPriv (s : Driver) (c : ProbeCalls) (pool : Pool) : Driver :=
  { s with
    ops := s.ops ++ [.acquire .netdev] ++ (if c.stats then [.acquire .stats] else []) ++
      createFromOps c.pool poolSize 0
    stats := c.stats
    staticDirs := 0
    dynamicDirs := []
    rx.toPool := pool
    rx.stats := .zero
    tx := .init }

/-- `create_dma_subdir`, `create_mlip_subdir` or `create_link_subdir`. -/
def createSubdir (s : Driver) (c : SubdirCalls) : Driver :=
  let subdir := Res.staticDir s.staticDirs
  if c.alloc = false then s
  else if c.add = 0 then
    { s.act [.acquire subdir, .use .staticRegs] with staticDirs := s.staticDirs + 1 }
  else s.act [.acquire subdir, .use .staticRegs, .release subdir]

/-- `register_netdev`, and what follows it when it succeeds. -/
def register (s : Driver) : Driver :=
  { s.act [.acquire .registration] with bound := true, up := false, rx.scheduled := false }

def mfhssnetProbe (s : Driver) (c : ProbeCalls) : Option (Int × Driver) :=
  if c.netdev = false then some (-enomem, s) else
  match Rx.mfhssnetProbe c.pool s.rx.toPool with
  | none => none
  | some (err, pool) =>
    let s := s.allocPriv c pool
    if err ≠ 0 then some (err, s.mfhssCleanup .destroyStats) else
    if c.staticRegs = false then some (-enomem, s.mfhssCleanup .destroyPool) else
    let s := s.act [.acquire .staticRegs]
    let s := s.createSubdir c.dma
    if c.dma.err ≠ 0 then some (c.dma.err, s.mfhssCleanup .destroyStaticRegsDir) else
    let s := s.createSubdir c.mlip
    if c.mlip.err ≠ 0 then some (c.mlip.err, s.mfhssCleanup .cleanStaticRegsDir) else
    let s := s.createSubdir c.link
    if c.link.err ≠ 0 then some (c.link.err, s.mfhssCleanup .cleanStaticRegsDir) else
    if c.dynamicRegs = false then some (-enomem, s.mfhssCleanup .cleanStaticRegsDir) else
    let s := s.act [.acquire .dynamicRegs]
    if c.resource ≠ 0 then some (c.resource, s.mfhssCleanup .cleanDynamicRegsDir) else
    if c.memRegion = false then some (-enomem, s.mfhssCleanup .cleanDynamicRegsDir) else
    let s := s.act [.acquire .memRegion]
    if c.ioBase = false then some (-enomem, s.mfhssCleanup .destroyMemRegion) else
    let s := s.act [.acquire .ioBase]
    if c.registration ≠ 0 then some (c.registration, s.mfhssCleanup .unmapMemRegion) else
    some (0, s.register)

def mfhssnetRemove (s : Driver) : Driver := s.mfhssCleanup .destroyAll

/-- What `create_dir` and `create_file` do. The walk to the target uses each subdirectory on its
way. -/
def request (s : Driver) (kzalloc memory : Bool) : Request → List (Op Res)
  | .makeDir nodeName =>
    let subdir := Res.dynamicDir s.dynamicDirs.length
    let name := (fieldString nodeName).getD []
    if kzalloc = false then []
    else if kobjectAdd memory s.dynamicDirs name = 0 then
      [.acquire subdir, .use .dynamicRegs]
    else
      [.acquire subdir, .use .dynamicRegs, .release subdir]
  | .makeFile regName targetNode _ =>
    let target := (fieldString targetNode).getD []
    let name := (fieldString regName).getD []
    let i := s.dynamicDirs.findIdx fun k => k.name = target
    let a := Res.attribute s.requests
    match s.dynamicDirs.find? fun k => k.name = target with
    | none => (List.range s.dynamicDirs.length).map fun i => .use (.dynamicDir i)
    | some k =>
      ((List.range (i + 1)).map fun i => .use (.dynamicDir i)) ++
        if kzalloc = false then []
        else if sysfsCreateFile memory k name = 0 then [.acquire a, .use (.dynamicDir i)]
        else [.acquire a, .use (.dynamicDir i), .release a]

def mfhssIoctl (s : Driver) (kzalloc memory : Bool) (r : Request) : Option Driver :=
  match ioctl kzalloc memory s.dynamicDirs r with
  | none => none
  | some (_, dirs) =>
    some { s.act (.use .netdev :: s.request kzalloc memory r) with
      requests := s.requests + 1
      dynamicDirs := dirs }

def mfhssOpen (s : Driver) (c : OpenCalls) : Driver :=
  { s.act (.use .netdev :: (Net.mfhssOpen c).2.map (.map .opened)) with
    up := (Net.mfhssOpen c).1 = 0
    rx.dstAddr := List.replicate mfhssnetDmaSize 0
    tx.srcAddr := List.replicate mfhssnetDmaSize 0
    tx.stopped := if (Net.mfhssOpen c).1 = 0 then false else s.tx.stopped }

def mfhssClose (s : Driver) : Driver :=
  { s.act (.use .netdev :: Net.mfhssClose.map (.map .opened)) with up := false, tx.stopped := true }

/-- A step of the receive side. -/
def receive (s : Driver) (e : RxEvent) : Option Driver :=
  if .stats ∈ s.rx.uses e ∧ s.stats = false then none
  else (s.rx.step e).map fun rx => { s.act ((s.rx.uses e).map .use) with rx }

def transmit (s : Driver) (e : TxEvent) : Option Driver :=
  if .use .stats ∈ s.tx.does e ∧ s.stats = false then none
  else (s.tx.step e).map fun tx => { s.act (s.tx.does e) with tx }

def step (s : Driver) (e : DriverEvent) : Option Driver :=
  if s.tx.oops then none
  else
    match e with
    | .mfhssnetProbe c => if s.bound then none else (s.mfhssnetProbe c).map Prod.snd
    | .mfhssnetRemove => if s.bound ∧ s.up = false then some s.mfhssnetRemove else none
    | .mfhssIoctl kzalloc memory r => if s.bound then s.mfhssIoctl kzalloc memory r else none
    | .mfhssOpen c => if s.bound ∧ s.up = false then some (s.mfhssOpen c) else none
    | .mfhssClose => if s.up ∧ s.rx.handler = .idle then some s.mfhssClose else none
    | .rx (.interrupt dstAddr dl) => if s.up then s.receive (.interrupt dstAddr dl) else none
    | .rx e => s.receive e
    | .tx e => if s.up then s.transmit e else none

/-- Nothing is released or used that is not held, nor acquired that is, and when the driver has no
device, nothing is held. -/
structure ReleasesOnce (s : Driver) : Prop where
  legal : Legal [] s.ops
  all : s.bound = false → held [] s.ops = []

instance (s : Driver) : Decidable s.ReleasesOnce :=
  decidable_of_iff (Legal [] s.ops ∧ (s.bound = false → held [] s.ops = []))
    ⟨fun h => ⟨h.1, h.2⟩, fun h => ⟨h.legal, h.all⟩⟩

end Driver

end ModemFhss.Net
