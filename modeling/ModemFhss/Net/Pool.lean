import ModemFhss.Library.ListHead
import ModemFhss.Net.Device

/-!
# The packet pool (`pool.c`)

`POOL_SIZE` packets are allocated once and afterwards only move: from `pool_list` to the interrupt
handler, from there into `rx_pkts_list`, to the tasklet, and back into `pool_list`. Both lists are
threaded through the packets, so that one store of links (`Links Node`) carries them both, and a
packet is the number of its allocation.

`Pool.Holds p free pending` says what the two lists hold; `poolGet_cons` and `poolPut_holds` are
what the two operations do to it. Both take the lock with interrupts off, and count as one step.
-/

namespace ModemFhss.Net

open ListHead

def poolSize : Nat := 8

/-- `struct mfhss_pkt_`, without its `list`. -/
structure MfhssPkt where
  /-- `dev` is not the null pointer. -/
  dev : Bool
  datalen : Nat
  data : List UInt8

/-- What the links link: the heads of the two lists, and the `list` of each packet. -/
inductive Node where
  | poolList
  | rxPktsList
  | pkt (k : Nat)
  deriving DecidableEq

structure Pool where
  links : Links Node
  pkts : Nat → MfhssPkt
  count : Nat

/-- What `kmalloc` returns in each pass of the loop in `pool_create`: whether there is memory for
the packet, and the memory of `maxlen` bytes for its data, if any. -/
structure Kmalloc (maxlen : Nat) where
  pkt : Nat → Bool
  data : Nat → Option { data : List UInt8 // data.length = maxlen }

namespace Pool

/-- The loop of `pool_create`, with `n` passes to go. -/
def createFrom {maxlen : Nat} (m : Kmalloc maxlen) : Nat → Nat → Pool → Option (Int × Pool)
  | 0, i, p => some (0, { p with count := i })
  | n + 1, i, p =>
    -- `-ENOMEM`
    if m.pkt i = false then
      some (-12, { p with count := i })
    else
      match m.data i with
      | none => some (-12, { p with count := i })
      | some data =>
        match p.links.listAdd (.pkt i) .poolList with
        | none => none
        | some links =>
          createFrom m n (i + 1)
            { p with links, pkts := Function.update p.pkts i ⟨true, 0, data.val⟩ }

def poolCreate {maxlen : Nat} (m : Kmalloc maxlen) (p : Pool) : Option (Int × Pool) :=
  createFrom m poolSize 0 { p with links := p.links.initListHead .poolList }

def poolGet (p : Pool) : Option (Option Nat × Pool) :=
  if p.links.next .poolList = some .poolList then
    some (none, p)
  else
    match p.links.next .poolList with
    | some (.pkt k) =>
      match p.links.listDel (.pkt k) with
      | none => none
      | some links => some (some k, { p with links, count := p.count - 1 })
    | _ => none

def poolPut (p : Pool) : Option Nat → Option Pool
  | none => some p
  | some k =>
    match p.links.listAdd (.pkt k) .poolList with
    | none => none
    | some links =>
      let pkt := p.pkts k
      some
        { links
          pkts := Function.update p.pkts k ⟨false, 0, memset pkt.data 0 pkt.datalen⟩
          count := p.count + 1 }

/-- The packets in `pool_list` and in `rx_pkts_list`. -/
structure Holds (p : Pool) (free pending : List Nat) : Prop where
  poolList : Ring p.links .poolList (free.map .pkt)
  rxPktsList : Ring p.links .rxPktsList (pending.map .pkt)
  count : p.count = free.length

variable {p p' : Pool} {free pending : List Nat} {k maxlen : Nat}

theorem pkt_mem_map {l : List Nat} : Node.pkt k ∈ l.map Node.pkt ↔ k ∈ l := by simp

/-- A list in which nothing was linked or taken out. -/
theorem ring_of_disjoint {l l' : Links Node} {head : Node} {xs : List Nat} {ys : List Node}
    (h : Ring l head (xs.map .pkt)) (hhead : head ∉ ys) (hd : ∀ x ∈ xs, .pkt x ∉ ys)
    (hl : ∀ x ∉ ys, l'.next x = l.next x ∧ l'.prev x = l.prev x) :
    Ring l' head (xs.map .pkt) := by
  apply h.congr
  intro x hx
  apply hl
  rcases List.mem_cons.mp hx with rfl | hx
  · exact hhead
  · obtain ⟨k, hk, rfl⟩ := List.mem_map.mp hx
    exact hd k hk

theorem poolGet_empty (h : p.links.next .poolList = some .poolList) :
    p.poolGet = some (none, p) := by
  rw [poolGet, if_pos h]

/-- The first packet of the pool is taken. -/
theorem poolGet_cons (h : p.Holds (k :: free) pending) (hd : ∀ x ∈ pending, x ∉ k :: free) :
    ∃ p', p.poolGet = some (some k, p') ∧ p'.Holds free pending ∧ p'.pkts = p.pkts ∧
      ∀ x ∉ k :: free, p'.links.next (.pkt x) = p.links.next (.pkt x) := by
  have hnext : p.links.next .poolList = some (.pkt k) := h.poolList.next_head
  have hfirst : Ring p.links .poolList ([] ++ .pkt k :: free.map .pkt) := h.poolList
  obtain ⟨links, hdel, hring, hframe⟩ := hfirst.listDel
  have hout : ∀ x ∉ k :: free, Node.pkt x ∉ Node.poolList :: (k :: free).map Node.pkt := by
    intro x hx hmem
    rcases List.mem_cons.mp hmem with heq | hmem
    · cases heq
    · exact hx (pkt_mem_map.mp hmem)
  refine ⟨{ p with links, count := p.count - 1 }, ?_, ⟨hring, ?_, ?_⟩, rfl, fun x hx => ?_⟩
  · simp only [poolGet, hnext, hdel]
    rfl
  · exact ring_of_disjoint h.rxPktsList (by simp) (fun x hx => hout x (hd x hx)) hframe
  · show p.count - 1 = free.length
    rw [h.count]
    rfl
  · exact (hframe _ (hout x hx)).1

/-- A packet comes back, cleared, as the first of the pool. -/
theorem poolPut_holds (h : p.Holds free pending) (hfree : k ∉ free) (hpending : k ∉ pending)
    (hd : ∀ x ∈ pending, x ∉ free) :
    ∃ p', p.poolPut (some k) = some p' ∧ p'.Holds (k :: free) pending ∧
      p'.pkts = Function.update p.pkts k
        ⟨false, 0, memset (p.pkts k).data 0 (p.pkts k).datalen⟩ := by
  have hnew : Node.pkt k ∉ Node.poolList :: free.map Node.pkt := by simpa using hfree
  obtain ⟨links, hadd, hring, hframe, -⟩ := h.poolList.listAdd hnew
  refine ⟨⟨links, Function.update p.pkts k ⟨false, 0, memset (p.pkts k).data 0 (p.pkts k).datalen⟩,
    p.count + 1⟩, by simp only [poolPut, hadd], ⟨hring, ?_, ?_⟩, rfl⟩
  · refine ring_of_disjoint h.rxPktsList (by simp) (fun x hx => ?_) hframe
    have hxk : x ≠ k := fun heq => hpending (heq ▸ hx)
    simpa [hxk] using hd x hx
  · show p.count + 1 = (k :: free).length
    rw [h.count]
    rfl

/-- Every pass of the loop adds one packet. -/
theorem createFrom_holds {m : Kmalloc maxlen} {n i : Nat}
    (hfree : Ring p.links .poolList ((List.range i).reverse.map .pkt))
    (hpending : Ring p.links .rxPktsList [])
    (hdata : ∀ k < i, (p.pkts k).data.length = maxlen ∧ (p.pkts k).datalen = 0)
    (hok : createFrom m n i p = some (0, p')) :
    p'.Holds (List.range (i + n)).reverse [] ∧
      ∀ k < i + n, (p'.pkts k).data.length = maxlen ∧ (p'.pkts k).datalen = 0 := by
  induction n generalizing i p with
  | zero =>
    cases hok
    exact ⟨⟨hfree, hpending, by simp⟩, hdata⟩
  | succ n ih =>
    have hnew : Node.pkt i ∉ Node.poolList :: (List.range i).reverse.map Node.pkt := by simp
    obtain ⟨links, hadd, hring, hframe, -⟩ := hfree.listAdd hnew
    simp only [createFrom, hadd] at hok
    split at hok
    · cases hok
    · split at hok
      · cases hok
      · next data _ =>
        have hlen : i + (n + 1) = i + 1 + n := by omega
        rw [hlen]
        refine ih ?_ ?_ (fun k hk => ?_) hok
        · rw [List.range_succ, List.reverse_append]
          exact hring
        · -- the other list, still empty, is not written to
          have hempty : Ring p.links .rxPktsList (([] : List Nat).map .pkt) := hpending
          exact ring_of_disjoint hempty (by simp) (by simp) hframe
        · show (Function.update p.pkts i _ k).data.length = maxlen ∧
            (Function.update p.pkts i _ k).datalen = 0
          by_cases hki : k = i
          · rw [hki, Function.update_self]
            exact ⟨data.property, rfl⟩
          · rw [Function.update_of_ne hki]
            exact hdata k (by omega)

/-- After a successful `pool_create` the pool holds `POOL_SIZE` packets, each empty and with room
for `maxlen` bytes. -/
theorem poolCreate_holds {m : Kmalloc maxlen} (hpending : Ring p.links .rxPktsList [])
    (hok : p.poolCreate m = some (0, p')) :
    p'.Holds (List.range poolSize).reverse [] ∧
      ∀ k < poolSize, (p'.pkts k).data.length = maxlen ∧ (p'.pkts k).datalen = 0 := by
  have hholds := createFrom_holds (i := 0) ring_initListHead ?_ (fun k hk => by omega) hok
  · rw [Nat.zero_add] at hholds
    exact hholds
  · apply hpending.congr
    intro x hx
    have hne : x ≠ .poolList := by
      rintro rfl
      simp at hx
    exact ⟨Function.update_of_ne hne .., Function.update_of_ne hne ..⟩

end Pool

end ModemFhss.Net
