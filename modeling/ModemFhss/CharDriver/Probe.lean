import ModemFhss.Library.Errno
import ModemFhss.Library.Resource

/-!
# Probing and removing the driver (`mfhssdrv_probe`, `mfhssdrv_remove`)

`mfhssdrv_probe` acquires one thing after the other, and each step that fails calls `cleanup_all`.
So does `mfhssdrv_remove`. What `cleanup_all` releases it finds in the private structure: bits that
say what was acquired, and the pointers to the two ksets, with a list of groups in each. The
requests `MFHSSDRV_IOMAKEGROUP` and `MFHSSDRV_IOMAKEREG` add groups and register attributes while
the driver is in use.

A group or an attribute is known by the number of its allocation, so that no two are confused when
the allocator gives out the same memory again. The kernel's answers are arguments. The node in
`/dev` and the character device are created without asking whether that failed; it does not here.
-/

namespace ModemFhss.CharDriver

open Errno Resource

inductive Res where
  /-- The private structure. -/
  | priv
  /-- The kset `mfhss-dynamic`. -/
  | dynamicRegs
  /-- The kset `mfhss-hardcoded`. -/
  | hardcodedRegs
  /-- A `struct reg_group` and the object in it. -/
  | group (n : Nat)
  /-- A `struct reg_attribute`. -/
  | attribute (n : Nat)
  | memRegion
  | ioBase
  | srcAddr
  | dstAddr
  /-- The node in `/dev`. -/
  | device
  | cdev
  deriving DecidableEq

/-- The driver: its private structure, and what was done until now. -/
structure Charpriv where
  ops : List (Op Res)
  /-- The number of groups and attributes allocated until now. -/
  allocs : Nat
  /-- The groups in a kset, with their names; `none` is the null pointer. -/
  dynamicRegs : Option (List (Nat × String))
  hardcodedRegs : Option (List (Nat × String))
  isDevmemAllocated : Bool
  isDevmemMapped : Bool
  isDmaOutbufAllocated : Bool
  isDmaIncbufAllocated : Bool

/-- What the kernel answers to `mfhssdrv_probe`. -/
structure ProbeCalls where
  /-- There is memory. -/
  priv : Bool
  dynamicRegs : Bool
  hardcodedRegs : Bool
  /-- There is memory for the group. -/
  dma : Bool
  /-- What `kobject_add` returns. -/
  dmaAdd : Int
  mlip : Bool
  mlipAdd : Int
  /-- What `of_address_to_resource` returns. -/
  resource : Int
  /-- `request_mem_region` grants the region. -/
  memRegion : Bool
  /-- `of_iomap` maps it. -/
  ioBase : Bool
  srcAddr : Bool
  dstAddr : Bool

/-- A request, with what the kernel answers. -/
inductive Request where
  /-- `alloc` is whether there is memory, `res` what `kobject_add` returns. -/
  | makeGroup (nodeName : String) (alloc : Bool) (res : Int)
  /-- `res` is what `sysfs_create_file` returns. -/
  | makeReg (targetNode : String) (alloc : Bool) (res : Int)

namespace Charpriv

/-- As `kzalloc` leaves it. -/
def empty : Charpriv where
  ops := []
  allocs := 0
  dynamicRegs := none
  hardcodedRegs := none
  isDevmemAllocated := false
  isDevmemMapped := false
  isDmaOutbufAllocated := false
  isDmaIncbufAllocated := false

def act (s : Charpriv) (ops : List (Op Res)) : Charpriv := { s with ops := s.ops ++ ops }

/-- `kset_create_and_add` -/
def createDynamicRegs (s : Charpriv) : Charpriv :=
  { s with ops := s.ops ++ [.acquire .dynamicRegs], dynamicRegs := some [] }

def createHardcodedRegs (s : Charpriv) : Charpriv :=
  { s with ops := s.ops ++ [.acquire .hardcodedRegs], hardcodedRegs := some [] }

/-- `kzalloc` of a group. -/
def allocGroup (s : Charpriv) : Charpriv :=
  { s with ops := s.ops ++ [.acquire (.group s.allocs)], allocs := s.allocs + 1 }

/-- `kobject_add` to the kset of the hardcoded registers, of the group allocated last. -/
def addHardcoded (s : Charpriv) (name : String) : Charpriv :=
  { s with hardcodedRegs := s.hardcodedRegs.map (· ++ [(s.allocs - 1, name)]) }

/-- `charpriv->status.flags.is_devmem_allocated = 1` -/
def setDevmemAllocated (s : Charpriv) : Charpriv := { s with isDevmemAllocated := true }

def mapIoBase (s : Charpriv) : Charpriv :=
  { s with ops := s.ops ++ [.acquire .ioBase], isDevmemMapped := true }

def allocSrcAddr (s : Charpriv) : Charpriv :=
  { s with ops := s.ops ++ [.acquire .srcAddr], isDmaOutbufAllocated := true }

def allocDstAddr (s : Charpriv) : Charpriv :=
  { s with ops := s.ops ++ [.acquire .dstAddr], isDmaIncbufAllocated := true }

end Charpriv

/-- `kobject_del` and `kobject_put`, the last reference. -/
def destroyObject (r : Res) : List (Op Res) := [.use r, .release r]

def destroyObjects (dir : Res) : Option (List (Nat × String)) → List (Op Res)
  | none => []
  | some groups => (groups.map fun g => Res.group g.1).flatMap destroyObject ++ [.release dir]

namespace Charpriv

def cleanupAll (s : Charpriv) : Charpriv :=
  { s with
    ops := s.ops ++ [.use .priv] ++
      (if s.isDmaOutbufAllocated then [.release .srcAddr] else []) ++
      (if s.isDmaIncbufAllocated then [.release .dstAddr] else []) ++
      (if s.isDevmemMapped then [.release .ioBase] else []) ++
      (if s.isDevmemAllocated then [.release .memRegion] else []) ++
      destroyObjects .dynamicRegs s.dynamicRegs ++
      destroyObjects .hardcodedRegs s.hardcodedRegs ++ [.release .priv]
    isDevmemAllocated := false
    isDevmemMapped := false
    isDmaOutbufAllocated := false
    isDmaIncbufAllocated := false }

end Charpriv

def mfhssdrvProbe (c : ProbeCalls) : Int × Charpriv :=
  let s := Charpriv.empty
  if c.priv = false then (-enomem, s) else
  let s := s.act [.acquire .priv]
  if c.dynamicRegs = false then (-enomem, s.cleanupAll) else
  let s := s.createDynamicRegs
  if c.hardcodedRegs = false then (-enomem, s.cleanupAll) else
  let s := s.createHardcodedRegs
  if c.dma = false then (-enomem, s.cleanupAll) else
  let s := s.allocGroup
  -- the object was not added, so `cleanup_all` does not find it
  if c.dmaAdd ≠ 0 then (-enomem, s.cleanupAll.act [.release (.group (s.allocs - 1))]) else
  let s := s.addHardcoded "dma"
  if c.mlip = false then (-enomem, s.cleanupAll) else
  let s := s.allocGroup
  if c.mlipAdd ≠ 0 then (-enomem, s.cleanupAll.act [.release (.group (s.allocs - 1))]) else
  let s := s.addHardcoded "mlip"
  if c.resource ≠ 0 then (c.resource, s.cleanupAll) else
  let s := s.setDevmemAllocated
  if c.memRegion = false then (-enomem, s.cleanupAll) else
  let s := s.act [.acquire .memRegion]
  if c.ioBase = false then (-enomem, s.cleanupAll) else
  let s := s.mapIoBase
  if c.srcAddr = false then (-enomem, s.cleanupAll) else
  let s := s.allocSrcAddr
  if c.dstAddr = false then (-enomem, s.cleanupAll) else
  let s := s.allocDstAddr
  (0, s.act [.acquire .device, .acquire .cdev])

namespace Charpriv

def mfhssdrvIoctl (s : Charpriv) : Request → Int × Charpriv
  | .makeGroup nodeName alloc res =>
    let s := s.act [.use .priv]
    if alloc = false then (-enomem, s) else
    let s := s.allocGroup
    if res ≠ 0 then (-enomem, s.act [.release (.group (s.allocs - 1))]) else
    (0, { s with dynamicRegs := s.dynamicRegs.map (· ++ [(s.allocs - 1, nodeName)]) })
  | .makeReg targetNode alloc res =>
    let s := s.act [.use .priv]
    match (s.dynamicRegs.getD []).find? (fun g => g.2 = targetNode) with
    | none => (0, s)
    | some g =>
      if alloc = false then (-enomem, s) else
      let s := { s.act [.acquire (.attribute s.allocs)] with allocs := s.allocs + 1 }
      -- `sysfs_create_file`
      let s := s.act [.use (.group g.1)]
      if res ≠ 0 then (-enomem, s.act [.release (.attribute (s.allocs - 1))]) else (0, s)

def mfhssdrvRemove (s : Charpriv) : Charpriv :=
  ((s.act [.use .priv, .release .cdev, .release .device]).cleanupAll).act [.release .priv]

/-- A probe, and if it succeeds requests and a remove. -/
def lifetime (c : ProbeCalls) (rs : List Request) : Charpriv :=
  match mfhssdrvProbe c with
  | (res, s) =>
    if res = 0 then (rs.foldl (fun s r => (s.mfhssdrvIoctl r).2) s).mfhssdrvRemove else s

/-- Nothing was released or used that was not held, and nothing is held any more. -/
def ReleasesOnce (s : Charpriv) : Prop := Owns s.ops []

end Charpriv

namespace ProbeCalls

/-- All goes well until the memory region is requested. -/
def ReachRegion (c : ProbeCalls) : Prop :=
  c.priv = true ∧ c.dynamicRegs = true ∧ c.hardcodedRegs = true ∧ c.dma = true ∧ c.dmaAdd = 0 ∧
    c.mlip = true ∧ c.mlipAdd = 0 ∧ c.resource = 0

def Succeed (c : ProbeCalls) : Prop :=
  c.ReachRegion ∧ c.memRegion = true ∧ c.ioBase = true ∧ c.srcAddr = true ∧ c.dstAddr = true

def RegionRefused (c : ProbeCalls) : Prop := c.ReachRegion ∧ c.memRegion = false

end ProbeCalls

/-! ## A probe that fails -/

section Fail

variable {c : ProbeCalls}

/-- An error is returned, and what was acquired is released. -/
def Unwound (r : Int × Charpriv) : Prop := r.1 ≠ 0 ∧ r.2.ReleasesOnce

theorem unwound_of_ops {res : Int} {s : Charpriv} (hres : res ≠ 0)
    (hops : Legal [] s.ops ∧ held [] s.ops = []) : Unwound (res, s) :=
  ⟨hres, hops.1, .of_eq hops.2⟩

/-- A step of a probe: it fails and is unwound, or the probe goes on. -/
theorem unwound_of_step {p : Prop} [Decidable p] {r rest : Int × Charpriv}
    (hfail : p → Unwound r) (hrest : ¬ p → Unwound rest) : Unwound (if p then r else rest) := by
  split
  next hp => exact hfail hp
  next hp => exact hrest hp

/-- Wherever a probe fails but at the memory region, it is unwound. -/
theorem mfhssdrvProbe_of_fail (hfail : ¬ c.Succeed) (hregion : ¬ c.RegionRefused) :
    Unwound (mfhssdrvProbe c) := by
  unfold mfhssdrvProbe
  dsimp only
  refine unwound_of_step (fun _ => unwound_of_ops (by decide) (by decide)) fun hpriv => ?_
  refine unwound_of_step (fun _ => unwound_of_ops (by decide) (by decide)) fun hdynamic => ?_
  refine unwound_of_step (fun _ => unwound_of_ops (by decide) (by decide)) fun hhardcoded => ?_
  refine unwound_of_step (fun _ => unwound_of_ops (by decide) (by decide)) fun hdma => ?_
  refine unwound_of_step (fun _ => unwound_of_ops (by decide) (by decide)) fun hdmaAdd => ?_
  refine unwound_of_step (fun _ => unwound_of_ops (by decide) (by decide)) fun hmlip => ?_
  refine unwound_of_step (fun _ => unwound_of_ops (by decide) (by decide)) fun hmlipAdd => ?_
  refine unwound_of_step (fun hres => unwound_of_ops hres (by decide)) fun hres => ?_
  have hreach : c.ReachRegion := by
    simp_all [ProbeCalls.ReachRegion]
  refine unwound_of_step (fun hmem => absurd ⟨hreach, hmem⟩ hregion) fun hmem => ?_
  refine unwound_of_step (fun _ => unwound_of_ops (by decide) (by decide)) fun hio => ?_
  refine unwound_of_step (fun _ => unwound_of_ops (by decide) (by decide)) fun hsrc => ?_
  refine unwound_of_step (fun _ => unwound_of_ops (by decide) (by decide)) fun hdst => ?_
  refine absurd ?_ hfail
  exact ⟨hreach, eq_true_of_ne_false hmem, eq_true_of_ne_false hio, eq_true_of_ne_false hsrc,
    eq_true_of_ne_false hdst⟩

theorem mfhssdrvProbe_of_regionRefused (h : c.RegionRefused) :
    (mfhssdrvProbe c).1 ≠ 0 ∧ ¬ Legal [] (mfhssdrvProbe c).2.ops := by
  obtain ⟨⟨hpriv, hdynamic, hhardcoded, hdma, hdmaAdd, hmlip, hmlipAdd, hres⟩, hmem⟩ := h
  unfold mfhssdrvProbe
  dsimp only
  rw [if_neg (by simp [hpriv]), if_neg (by simp [hdynamic]), if_neg (by simp [hhardcoded]),
    if_neg (by simp [hdma]), if_neg (by simp [hdmaAdd]), if_neg (by simp [hmlip]),
    if_neg (by simp [hmlipAdd]), if_neg (by simp [hres]), if_pos hmem]
  decide

end Fail

/-! ## A driver in use -/

/-- What a driver in use holds, in the order in which `mfhssdrv_remove` releases it, with these
dynamic groups and register attributes. -/
def inUse (groups : List (Nat × String)) (attributes : List Nat) : List Res :=
  [.cdev, .device, .srcAddr, .dstAddr, .ioBase, .memRegion] ++
    ((groups.map fun g => .group g.1) ++ .dynamicRegs :: .group 0 :: .group 1 :: .hardcodedRegs ::
      .priv :: attributes.map .attribute)

namespace Charpriv

structure Alive (s : Charpriv) (groups : List (Nat × String)) (attributes : List Nat) : Prop where
  owns : Owns s.ops (inUse groups attributes)
  dynamicRegs : s.dynamicRegs = some groups
  hardcodedRegs : s.hardcodedRegs = some [(0, "dma"), (1, "mlip")]
  isDevmemAllocated : s.isDevmemAllocated = true
  isDevmemMapped : s.isDevmemMapped = true
  isDmaOutbufAllocated : s.isDmaOutbufAllocated = true
  isDmaIncbufAllocated : s.isDmaIncbufAllocated = true
  /-- The numbers given out until now. -/
  allocs : 2 ≤ s.allocs
  groups_lt : ∀ g ∈ groups, g.1 < s.allocs
  attributes_lt : ∀ n ∈ attributes, n < s.allocs

variable {c : ProbeCalls} {s : Charpriv} {groups : List (Nat × String)} {attributes : List Nat}

theorem mfhssdrvProbe_of_succeed (h : c.Succeed) :
    (mfhssdrvProbe c).1 = 0 ∧ (mfhssdrvProbe c).2.Alive [] [] := by
  obtain ⟨⟨hpriv, hdynamic, hhardcoded, hdma, hdmaAdd, hmlip, hmlipAdd, hres⟩, hmem, hio, hsrc,
    hdst⟩ := h
  unfold mfhssdrvProbe
  dsimp only
  rw [if_neg (by simp [hpriv]), if_neg (by simp [hdynamic]), if_neg (by simp [hhardcoded]),
    if_neg (by simp [hdma]), if_neg (by simp [hdmaAdd]), if_neg (by simp [hmlip]),
    if_neg (by simp [hmlipAdd]), if_neg (by simp [hres]), if_neg (by simp [hmem]),
    if_neg (by simp [hio]), if_neg (by simp [hsrc]), if_neg (by simp [hdst])]
  refine ⟨rfl, ⟨?_, ?_⟩, rfl, rfl, rfl, rfl, rfl, rfl, ?_, ?_, ?_⟩
  · decide
  · decide
  · decide
  · simp
  · simp

theorem priv_mem : .priv ∈ inUse groups attributes := by simp [inUse]

theorem Alive.usePriv (h : s.Alive groups attributes) :
    (s.act [.use .priv]).Alive groups attributes :=
  { h with owns := h.owns.use priv_mem }

theorem Alive.group_fresh (h : s.Alive groups attributes) :
    .group s.allocs ∉ inUse groups attributes := by
  have hgroups := h.groups_lt
  have hallocs := h.allocs
  intro hmem
  simp only [inUse, List.mem_append, List.mem_cons, List.mem_map, reduceCtorEq, List.not_mem_nil,
    Res.group.injEq, false_or, or_false, and_false, exists_const] at hmem
  rcases hmem with ⟨g, hg, heq⟩ | hzero | hone
  · have := hgroups g hg
    omega
  · omega
  · omega

theorem Alive.attribute_fresh (h : s.Alive groups attributes) :
    .attribute s.allocs ∉ inUse groups attributes := by
  have hattributes := h.attributes_lt
  intro hmem
  simp only [inUse, List.mem_append, List.mem_cons, List.mem_map, reduceCtorEq, List.not_mem_nil,
    Res.attribute.injEq, false_or, or_false, and_false, exists_const] at hmem
  obtain ⟨n, hn, heq⟩ := hmem
  have := hattributes n hn
  omega

/-- One more allocation, after which what is owned is still in the kset or was forgotten. -/
theorem Alive.alloc {t : Charpriv} {groups' : List (Nat × String)} {attributes' : List Nat}
    (h : s.Alive groups attributes)
    (ht : t = { s with ops := t.ops, allocs := s.allocs + 1, dynamicRegs := some groups' })
    (ho : Owns t.ops (inUse groups' attributes'))
    (hgroups : ∀ g ∈ groups', g ∈ groups ∨ g.1 = s.allocs)
    (hattributes : ∀ n ∈ attributes', n ∈ attributes ∨ n = s.allocs) :
    t.Alive groups' attributes' := by
  rw [ht]
  exact
    { h with
      owns := ho
      dynamicRegs := rfl
      allocs := Nat.le_succ_of_le h.allocs
      groups_lt := by
        intro g hg
        rcases hgroups g hg with hold | hnew
        · exact Nat.lt_succ_of_lt (h.groups_lt g hold)
        · exact Nat.lt_succ_of_le (Nat.le_of_eq hnew)
      attributes_lt := by
        intro n hn
        rcases hattributes n hn with hold | hnew
        · exact Nat.lt_succ_of_lt (h.attributes_lt n hold)
        · exact Nat.lt_succ_of_le (Nat.le_of_eq hnew) }

theorem Alive.makeGroup (h : s.Alive groups attributes) (nodeName : String) (alloc : Bool)
    (res : Int) :
    ∃ groups', (s.mfhssdrvIoctl (.makeGroup nodeName alloc res)).2.Alive groups' attributes := by
  have hp := h.usePriv
  have hacquired := hp.owns.acquire hp.group_fresh
  simp only [Charpriv.mfhssdrvIoctl]
  split_ifs
  · exact ⟨groups, hp⟩
  · refine ⟨groups, hp.alloc ?_ hacquired.release (fun g hg => .inl hg) fun n hn => .inl hn⟩
    simp [act, allocGroup, h.dynamicRegs]
  · refine ⟨groups ++ [(s.allocs, nodeName)],
      hp.alloc ?_ (hacquired.perm ?_) ?_ fun n hn => .inl hn⟩
    · simp [act, allocGroup, h.dynamicRegs]
    · rw [List.perm_iff_count]
      intro r
      simp only [inUse, act, List.map_append, List.map_cons, List.map_nil, List.count_append,
        List.count_cons, List.count_nil]
      omega
    · intro g hg
      rcases List.mem_append.mp hg with hg | hg
      · exact .inl hg
      · rw [List.mem_singleton.mp hg]
        exact .inr rfl

theorem Alive.makeReg (h : s.Alive groups attributes) (targetNode : String) (alloc : Bool)
    (res : Int) :
    ∃ attributes',
      (s.mfhssdrvIoctl (.makeReg targetNode alloc res)).2.Alive groups attributes' := by
  have hp := h.usePriv
  simp only [Charpriv.mfhssdrvIoctl, hp.dynamicRegs, Option.getD_some]
  split
  · exact ⟨attributes, hp⟩
  next g hfind =>
    have hg : .group g.1 ∈ inUse groups attributes := by
      have hmem := List.mem_of_find?_eq_some hfind
      simp only [inUse, List.mem_append, List.mem_map]
      exact .inr (.inl ⟨g, hmem, rfl⟩)
    have hcreated := (hp.owns.acquire hp.attribute_fresh).use (List.mem_cons_of_mem _ hg)
    split_ifs
    · exact ⟨attributes, hp⟩
    · refine ⟨attributes, hp.alloc ?_ hcreated.release (fun g hg => .inl hg) fun n hn => .inl hn⟩
      simp [act, h.dynamicRegs]
    · refine ⟨s.allocs :: attributes, hp.alloc ?_ (hcreated.perm ?_) (fun g hg => .inl hg) ?_⟩
      · simp [act, h.dynamicRegs]
      · rw [List.perm_iff_count]
        intro r
        simp only [inUse, act, List.map_cons, List.count_append, List.count_cons]
        omega
      · intro n hn
        rcases List.mem_cons.mp hn with rfl | hn
        · exact .inr rfl
        · exact .inl hn

/-- Each request keeps the driver in use, with a group or an attribute more or not. -/
theorem Alive.mfhssdrvIoctl (h : s.Alive groups attributes) (r : Request) :
    ∃ groups' attributes', (s.mfhssdrvIoctl r).2.Alive groups' attributes' := by
  cases r with
  | makeGroup nodeName alloc res =>
    obtain ⟨groups', h'⟩ := h.makeGroup nodeName alloc res
    exact ⟨groups', attributes, h'⟩
  | makeReg targetNode alloc res =>
    obtain ⟨attributes', h'⟩ := h.makeReg targetNode alloc res
    exact ⟨groups, attributes', h'⟩

theorem Alive.requests (h : s.Alive groups attributes) (rs : List Request) :
    ∃ groups' attributes',
      (rs.foldl (fun s r => (s.mfhssdrvIoctl r).2) s).Alive groups' attributes' := by
  induction rs generalizing s groups attributes with
  | nil => exact ⟨groups, attributes, h⟩
  | cons r rs ih =>
    obtain ⟨_, _, h'⟩ := h.mfhssdrvIoctl r
    exact ih h'

/-! ## Removing it -/

theorem owns_destroyObjects {ops : List (Op Res)} {dir : Res} {l : List Res}
    (ho : Owns ops ((groups.map fun g => .group g.1) ++ dir :: l)) :
    Owns (ops ++ destroyObjects dir (some groups)) l := by
  have hdir := ho.releases.release
  rwa [List.append_assoc] at hdir

/-- What `cleanup_all` leaves: the register attributes, which no list leads to. -/
theorem Alive.cleanupAll (h : s.Alive groups attributes) :
    Owns ((s.act [.use .priv, .release .cdev, .release .device]).cleanupAll).ops
      (attributes.map .attribute) := by
  have hsrc := ((h.owns.use priv_mem).release.release.use (r := .priv) (by simp)).release
  have hmem := hsrc.release.release.release
  have hdynamic := owns_destroyObjects hmem
  have hhardcoded := @owns_destroyObjects [(0, "dma"), (1, "mlip")] _ _ _ hdynamic
  have hpriv := hhardcoded.release
  simp only [Charpriv.cleanupAll, act, h.dynamicRegs, h.hardcodedRegs, h.isDevmemAllocated,
    h.isDevmemMapped, h.isDmaOutbufAllocated, h.isDmaIncbufAllocated, if_true]
  simpa only [List.append_assoc, List.cons_append, List.nil_append] using hpriv

/-- **The private structure is freed twice** by every remove. -/
theorem Alive.mfhssdrvRemove (h : s.Alive groups attributes) : ¬ Legal [] s.mfhssdrvRemove.ops :=
  h.cleanupAll.not_release (by simp)

/-- **Everything once, exactly if the probe fails** anywhere but at the memory region. -/
theorem lifetime_releasesOnce (c : ProbeCalls) (rs : List Request) :
    (lifetime c rs).ReleasesOnce ↔ ¬ c.Succeed ∧ ¬ c.RegionRefused := by
  unfold lifetime
  by_cases hsucceed : c.Succeed
  · obtain ⟨hres, halive⟩ := mfhssdrvProbe_of_succeed hsucceed
    obtain ⟨groups, attributes, h⟩ := halive.requests rs
    simp only [hres, if_true, hsucceed, not_true, false_and, iff_false]
    exact fun hones => h.mfhssdrvRemove hones.1
  by_cases hregion : c.RegionRefused
  · obtain ⟨hres, hillegal⟩ := mfhssdrvProbe_of_regionRefused hregion
    simp only [hres, if_false, hregion, not_true, and_false, iff_false]
    exact fun hones => hillegal hones.1
  · obtain ⟨hres, hones⟩ := mfhssdrvProbe_of_fail hsucceed hregion
    simpa only [hres, if_false, hsucceed, hregion, not_false_iff, and_true, iff_true] using hones

/-- All calls succeed. -/
def allSucceed : ProbeCalls :=
  ⟨true, true, true, true, 0, true, 0, 0, true, true, true, true⟩

theorem removed_not_releasesOnce : ¬ (lifetime allSucceed []).ReleasesOnce :=
  fun h => absurd h.1 (by decide +kernel)

end Charpriv

end ModemFhss.CharDriver
