import ModemFhss.Net.Uses

/-!
# Unwinding a probe

`heldFrom` is what the cases of `mfhss_cleanup` from a stage on release. The stage at which a failed
probe enters the `switch` is right if this is what is held (`cleanup_owns`), and a probe keeps to
that from one acquisition to the next (`Probing`), if `pool_create` allocates all packets or none:
the packets of a pool that is not finished are not destroyed.

`Inv` is what holds of the driver between two events, and `mfhssnetProbe_inv` says that a probe
keeps it.
-/

namespace ModemFhss.Net

open Resource ListHead

/-- The packets of a pool in use. -/
def poolPkts : List Node := (List.range poolSize).map .pkt

/-- What is allocated for an entry of `pool_list`. -/
def Node.packet : Node → List Res
  | .pkt k => [.data k, .pkt k]
  | .poolList | .rxPktsList => []

variable {s s' : Driver} {x : Node} {packets : List Node} {ops : List (Op Res)} {l : List Res}
  {r : Res} {start : DestroyStage} {c : ProbeCalls}

/-! ## The cleanup -/

/-- Nothing but packets. -/
def Packets (xs : List Node) : Prop := ∀ x ∈ xs, ∃ k, x = .pkt k

theorem packets_poolPkts : Packets poolPkts := by
  intro x hx
  obtain ⟨k, -, rfl⟩ := List.mem_map.mp hx
  exact ⟨k, rfl⟩

theorem releases_destroy {k : Nat} : Releases (Node.pkt k).destroy (Node.pkt k).packet := by
  intro before l ho
  have huse := ho.use (r := .pkt k) (by simp [Node.packet])
  have hlast : Owns (before ++ [.use (.pkt k)] ++ [.release (.data k)] ++ [.release (.pkt k)]) l :=
    huse.release.release
  simpa only [Node.destroy, List.append_assoc, List.cons_append, List.nil_append] using hlast

/-- `pool_destroy` frees what it finds in `pool_list`. -/
theorem Pool.releases_poolDestroy {p : Pool} (hlisted : p.listed.Perm packets)
    (hp : Packets packets) : Releases p.poolDestroy (packets.flatMap Node.packet) := by
  have hall : Releases p.poolDestroy (p.listed.flatMap Node.packet) := by
    refine Releases.flatMap fun x hx => ?_
    obtain ⟨k, rfl⟩ := hp x (hlisted.mem_iff.mp hx)
    exact releases_destroy
  exact hall.perm (hlisted.flatMap_right _)

theorem releases_cleanDir {dirs : List Res} : Releases (cleanDir dirs) dirs :=
  fun _ _ ho => ho.releases

namespace Driver

/-- What the case of a stage releases, with these packets in the pool. -/
def owned (s : Driver) (packets : List Node) : DestroyStage → List Res
  | .destroyAll => []
  | .unregisterNetdev => [.registration]
  | .unmapMemRegion => [.ioBase]
  | .destroyMemRegion => [.memRegion]
  | .cleanDynamicRegsDir => (List.range s.dynamicDirs.length).map .dynamicDir
  | .destroyDynamicRegsDir => [.dynamicRegs]
  | .cleanStaticRegsDir => (List.range s.staticDirs).map .staticDir
  | .destroyStaticRegsDir => [.staticRegs]
  | .destroyPool => packets.flatMap Node.packet
  | .destroyStats => if s.stats then [.stats] else []
  | .destroyNetdev => [.netdev]

/-- What all cases from a stage on release. -/
def heldFrom (s : Driver) (packets : List Node) (start : DestroyStage) : List Res :=
  (s.cases.dropWhile fun c => c.1 ≠ start).flatMap fun c => s.owned packets c.1

theorem netdev_mem_heldFrom : .netdev ∈ s.heldFrom packets start := by
  cases start <;> simp [heldFrom, cases, owned]

/-- **The stage is right** if what is held is what the cases from it on release. -/
theorem cleanup_owns (hlisted : s.rx.listed.Perm packets) (hp : Packets packets)
    (ho : Owns s.ops (s.heldFrom packets start)) : Owns (s.mfhssCleanup start).ops [] := by
  have hcases : ∀ c ∈ s.cases, Releases c.2 (s.owned packets c.1) := by
    simp only [cases, List.forall_mem_cons, owned]
    refine ⟨releases_nil, releases_singleton, releases_singleton, releases_singleton,
      releases_cleanDir, releases_singleton, releases_cleanDir, releases_singleton,
      Pool.releases_poolDestroy hlisted hp, ?_, releases_singleton, nofun⟩
    split
    · exact releases_singleton
    · exact releases_nil
  have hpriv := ho.use (r := .netdev) netdev_mem_heldFrom
  rw [← List.append_nil (s.heldFrom packets start)] at hpriv
  have hlast := releases_fallThrough hcases start hpriv
  rwa [List.append_assoc] at hlast

end Driver

/-! ## The pool of a probe -/

section Create

variable {m : Kmalloc ethDataLen} {n i : Nat} {p p' : Pool} {err : Int}

/-- There is memory for all packets, or not for the first. -/
def Kmalloc.Whole (m : Kmalloc ethDataLen) : Prop :=
  (m.pkt 0 = false ∨ m.data 0 = none) ∨ ∀ i < poolSize, m.pkt i = true ∧ m.data i ≠ none

instance (m : Kmalloc ethDataLen) : Decidable m.Whole :=
  inferInstanceAs (Decidable ((m.pkt 0 = false ∨ m.data 0 = none) ∨
    ∀ i < poolSize, m.pkt i = true ∧ m.data i ≠ none))

theorem createFrom_whole (h : ∀ k, i ≤ k → k < i + n → m.pkt k = true ∧ m.data k ≠ none)
    (hok : Pool.createFrom m n i p = some (err, p')) : err = 0 := by
  induction n generalizing i p with
  | zero =>
    cases hok
    rfl
  | succ n ih =>
    obtain ⟨hpkt, hdata⟩ := h i (Nat.le_refl i) (by omega)
    simp only [Pool.createFrom, hpkt] at hok
    rw [if_neg (by decide)] at hok
    split at hok
    · next hnone => exact absurd hnone hdata
    · split at hok
      · cases hok
      · exact ih (fun k hi hk => h k (by omega) (by omega)) hok

theorem createFromOps_owns (h : ∀ k, i ≤ k → k < i + n → m.pkt k = true ∧ m.data k ≠ none)
    (hl : ∀ k, i ≤ k → .pkt k ∉ l ∧ .data k ∉ l) (ho : Owns ops l) :
    Owns (ops ++ createFromOps m n i)
      (((List.range' i n).map Node.pkt).flatMap Node.packet ++ l) := by
  induction n generalizing i ops l with
  | zero => simpa [createFromOps] using ho
  | succ n ih =>
    obtain ⟨hpkt, hdata⟩ := h i (Nat.le_refl i) (by omega)
    obtain ⟨data, hdata⟩ := Option.ne_none_iff_exists'.mp hdata
    obtain ⟨hnewPkt, hnewData⟩ := hl i (Nat.le_refl i)
    have hone : Owns (ops ++ [.acquire (.pkt i)] ++ [.acquire (.data i)])
        (.data i :: .pkt i :: l) :=
      (ho.acquire hnewPkt).acquire (by simpa using hnewData)
    have hfresh : ∀ k, i + 1 ≤ k → .pkt k ∉ .data i :: .pkt i :: l ∧
        .data k ∉ .data i :: .pkt i :: l := by
      intro k hk
      obtain ⟨hkPkt, hkData⟩ := hl k (by omega)
      have hne : k ≠ i := by omega
      simp [hkPkt, hkData, hne]
    have hrest := ih (fun k hi hk => h k (by omega) (by omega)) hfresh hone
    simp only [createFromOps, hpkt, hdata, Bool.true_eq_false, if_false]
    simp only [List.append_assoc, List.cons_append, List.nil_append] at hrest ⊢
    refine hrest.perm ?_
    rw [List.range'_succ, List.perm_iff_count]
    intro r
    simp only [List.map_cons, List.flatMap_cons, Node.packet, List.count_append, List.count_cons,
      List.count_nil]
    omega

/-- A pass without memory ends the loop. -/
theorem createFrom_nothing (h : m.pkt i = false ∨ m.data i = none) :
    Pool.createFrom m (n + 1) i p = some (-12, { p with count := i }) := by
  unfold Pool.createFrom
  rcases h with hpkt | hdata
  · rw [if_pos hpkt]
  · rw [hdata]
    split <;> rfl

theorem createFromOps_nothing (h : m.pkt i = false ∨ m.data i = none) (hl : .pkt i ∉ l)
    (ho : Owns ops l) : Owns (ops ++ createFromOps m (n + 1) i) l := by
  unfold createFromOps
  rcases h with hpkt | hdata
  · rwa [if_pos hpkt, List.append_nil]
  · rw [hdata]
    split
    · rwa [List.append_nil]
    · have hboth := (ho.acquire hl).release
      rwa [List.append_assoc] at hboth

/-- After a whole `pool_create` the packets listed are those allocated. -/
theorem mfhssnetProbe_listed (hm : m.Whole) (hok : Rx.mfhssnetProbe m p = some (err, p')) :
    ∃ packets, Packets packets ∧ p'.listed.Perm packets ∧ (err = 0 → packets = poolPkts) ∧
      (err ≠ 0 → packets = []) ∧ ∀ ops l, Owns ops l → (∀ k, .pkt k ∉ l ∧ .data k ∉ l) →
        Owns (ops ++ createFromOps m poolSize 0) (packets.flatMap Node.packet ++ l) := by
  rcases hm with hnone | hall
  · -- the first pass fails, and the list is left as it was initialised
    have hlisted : ∀ links : Links Node, (links.initListHead .poolList).entries .poolList
        (poolSize + 1) = [] := fun links => ring_initListHead.entries (Nat.succ_pos _)
    have hcreate := (createFrom_nothing (n := 7) hnone).symm.trans hok
    cases hcreate
    refine ⟨[], by simp [Packets], .of_eq (hlisted _), nofun, fun _ => rfl, fun ops l ho hl => ?_⟩
    exact createFromOps_nothing hnone (hl 0).1 ho
  · have hall' : ∀ k, 0 ≤ k → k < 0 + poolSize → m.pkt k = true ∧ m.data k ≠ none :=
      fun k _ hk => hall k (by omega)
    obtain rfl := createFrom_whole hall' hok
    have hholds := (Pool.poolCreate_holds ring_initListHead hok).1
    have hlisted : p'.listed = (List.range poolSize).reverse.map .pkt :=
      hholds.poolList.entries (by simp)
    refine ⟨poolPkts, packets_poolPkts, ?_, fun _ => rfl, fun herr => absurd rfl herr,
      fun ops l ho hl => ?_⟩
    · rw [hlisted]
      exact (List.reverse_perm _).map _
    · have hcreated := createFromOps_owns hall' (fun k _ => hl k) ho
      rwa [← List.range_eq_range'] at hcreated

end Create

/-! ## A probe -/

namespace Driver

/-- The interface is down, no tasklet is to run, and no socket buffer waits to be freed. -/
structure AtRest (s : Driver) : Prop where
  up : s.up = false
  handler : s.rx.handler = .idle
  tasklet : s.rx.tasklet = .idle
  scheduled : s.rx.scheduled = false
  sent : outstanding s.tx.history = []
  within : s.rx.Within
  tx : s.tx.Inv

/-- What a device in use holds. -/
def inUse (s : Driver) : List Res :=
  (if s.up then opened.map .opened else []) ++
    ((outstanding s.tx.history).map .skb ++ s.heldFrom poolPkts .destroyAll)

/-- What holds between two events. -/
structure Inv (s : Driver) : Prop where
  within : s.rx.Within
  tx : s.tx.Inv
  handler : s.up = false → s.rx.handler = .idle
  /-- Without a device. -/
  rest : s.bound = false → s.AtRest ∧ Owns s.ops []
  /-- With a device. -/
  owns : s.bound = true → Owns s.ops s.inUse

theorem AtRest.inv_unbound (h : s.AtRest) (hb : s.bound = false) (ho : Owns s.ops []) : s.Inv where
  within := h.within
  tx := h.tx
  handler _ := h.handler
  rest _ := ⟨h, ho⟩
  owns hbound := by
    rw [hb] at hbound
    cases hbound

/-- A probe under way: what is held is what the cleanup from this stage on releases. -/
structure Probing (s : Driver) (packets : List Node) (start : DestroyStage) : Prop where
  rest : s.AtRest
  pkts : Packets packets
  listed : s.rx.listed.Perm packets
  owns : Owns s.ops (s.heldFrom packets start)

/-- Where a probe fails, it has to enter the cleanup at its stage. -/
theorem Probing.cleanup (h : s.Probing packets start) : (s.mfhssCleanup start).Inv := by
  have hrest : (s.mfhssCleanup start).AtRest := { h.rest with }
  exact hrest.inv_unbound rfl (cleanup_owns h.listed h.pkts h.owns)

theorem Probing.stage {next : DestroyStage} (h : s.Probing packets start)
    (hnext : s.heldFrom packets next = s.heldFrom packets start) : s.Probing packets next :=
  { h with owns := by rw [hnext]; exact h.owns }

/-- One thing more, and the stage before. -/
theorem Probing.acquire {next : DestroyStage} (h : s.Probing packets start)
    (hr : r ∉ s.heldFrom packets start)
    (hnext : s.heldFrom packets next = r :: s.heldFrom packets start) :
    (s.act [.acquire r]).Probing packets next where
  rest := { h.rest with }
  pkts := h.pkts
  listed := h.listed
  owns := by
    show Owns (s.ops ++ [.acquire r]) (s.heldFrom packets next)
    rw [hnext]
    exact h.owns.acquire hr

theorem mem_packet : r ∈ x.packet ↔ ∃ k, x = .pkt k ∧ (r = .data k ∨ r = .pkt k) := by
  cases x <;> simp [Node.packet]

theorem probing_allocPriv {pool : Pool} {err : Int} (h : s.AtRest) (ho : Owns s.ops [])
    (hpool : Rx.mfhssnetProbe c.pool s.rx.toPool = some (err, pool)) (hp : Packets packets)
    (hlisted : pool.listed.Perm packets)
    (howns : ∀ ops l, Owns ops l → (∀ k, .pkt k ∉ l ∧ .data k ∉ l) →
      Owns (ops ++ createFromOps c.pool poolSize 0) (packets.flatMap Node.packet ++ l)) :
    (s.allocPriv c pool).Probing packets .destroyPool where
  rest :=
    { h with
      sent := rfl
      within := ⟨mfhssnetProbe_inside h.within.links hpool, h.within.handler, h.within.tasklet⟩
      tx := Tx.inv_init }
  pkts := hp
  listed := hlisted
  owns := by
    have hnetdev : Owns (s.ops ++ [.acquire .netdev]) [.netdev] := ho.acquire (by simp)
    have hstats : Owns (s.ops ++ [.acquire .netdev] ++ if c.stats then [.acquire .stats] else [])
        ((if c.stats then [.stats] else []) ++ [.netdev]) := by
      split
      · exact hnetdev.acquire (by simp)
      · rwa [List.append_nil]
    have hfresh : ∀ k, .pkt k ∉ (if c.stats then [.stats] else []) ++ [Res.netdev] ∧
        .data k ∉ (if c.stats then [.stats] else []) ++ [Res.netdev] := by
      intro k
      cases c.stats <;> simp
    exact howns _ _ hstats hfresh

section Subdir

variable {d : SubdirCalls}

/-- A subdirectory that could not be created is not counted. -/
theorem createSubdir_staticDirs (hd : d.err ≠ 0) :
    (s.createSubdir d).staticDirs = s.staticDirs := by
  unfold SubdirCalls.err at hd
  unfold Driver.createSubdir
  dsimp only
  split_ifs with halloc hadd
  · rfl
  · simp [halloc, hadd] at hd
  · rfl

theorem Probing.createSubdir (h : s.Probing packets .cleanStaticRegsDir) :
    (s.createSubdir d).Probing packets .cleanStaticRegsDir := by
  have hnew : .staticDir s.staticDirs ∉ s.heldFrom packets .cleanStaticRegsDir := by
    simp [heldFrom, cases, owned, mem_packet]
  have hadded := (h.owns.acquire hnew).use (r := .staticRegs) (by simp [heldFrom, cases, owned])
  unfold Driver.createSubdir
  dsimp only
  split_ifs
  · exact h
  · refine ⟨{ h.rest with }, h.pkts, h.listed, ?_⟩
    rw [List.append_assoc] at hadded
    refine hadded.perm ?_
    show (Res.staticDir s.staticDirs :: ((List.range s.staticDirs).map .staticDir ++
      s.heldFrom packets .destroyStaticRegsDir)).Perm
        ((List.range (s.staticDirs + 1)).map .staticDir ++
          s.heldFrom packets .destroyStaticRegsDir)
    rw [List.range_succ, List.map_append, List.append_assoc]
    exact List.perm_middle.symm
  · refine ⟨{ h.rest with }, h.pkts, h.listed, ?_⟩
    have hgone := hadded.release
    rwa [List.append_assoc, List.append_assoc] at hgone

theorem createSubdir_dynamicDirs : (s.createSubdir d).dynamicDirs = s.dynamicDirs := by
  unfold Driver.createSubdir
  dsimp only
  split_ifs <;> rfl

end Subdir

/-- The kset of the static registers, while it is empty. -/
theorem heldFrom_cleanStatic (h : s.staticDirs = 0) :
    s.heldFrom packets .cleanStaticRegsDir = s.heldFrom packets .destroyStaticRegsDir := by
  show (List.range s.staticDirs).map .staticDir ++ s.heldFrom packets .destroyStaticRegsDir = _
  rw [h]
  rfl

theorem heldFrom_cleanDynamic (h : s.dynamicDirs = []) :
    s.heldFrom packets .cleanDynamicRegsDir = s.heldFrom packets .destroyDynamicRegsDir := by
  show (List.range s.dynamicDirs.length).map .dynamicDir ++
    s.heldFrom packets .destroyDynamicRegsDir = _
  rw [h]
  rfl

/-- A probe that succeeds. -/
theorem Probing.register (h : s.Probing poolPkts .unmapMemRegion) : s.register.Inv where
  within := { h.rest.within with }
  tx := h.rest.tx
  handler _ := h.rest.handler
  rest hb := by cases hb
  owns _ := by
    have hregistered : (s.act [.acquire .registration]).Probing poolPkts .destroyAll :=
      h.acquire (by simp [heldFrom, cases, owned, mem_packet]) rfl
    have hsent : outstanding s.register.tx.history = [] := h.rest.sent
    unfold inUse
    rw [hsent]
    exact hregistered.owns

/-- A step of a probe: it fails at the right stage, or the probe goes on. -/
theorem inv_of_step {p : Prop} [Decidable p] {err err' : Int} {rest : Option (Int × Driver)}
    (hfail : p → s.Probing packets start) (hrest : ¬ p → rest = some (err', s') → s'.Inv)
    (h : (if p then some (err, s.mfhssCleanup start) else rest) = some (err', s')) : s'.Inv := by
  by_cases hp : p
  · rw [if_pos hp] at h
    cases h
    exact (hfail hp).cleanup
  · rw [if_neg hp] at h
    exact hrest hp h

theorem mfhssnetProbe_inv {err : Int} (h : s.Inv) (hb : s.bound = false)
    (hm : c.netdev = false ∨ c.pool.Whole) (hprobe : s.mfhssnetProbe c = some (err, s')) :
    s'.Inv := by
  obtain ⟨hrest, ho⟩ := h.rest hb
  unfold mfhssnetProbe at hprobe
  by_cases hnetdev : c.netdev = false
  · rw [if_pos hnetdev] at hprobe
    cases hprobe
    exact h
  rw [if_neg hnetdev] at hprobe
  split at hprobe
  · cases hprobe
  next err pool hpool =>
    obtain ⟨packets, hp, hlisted, hfull, hnone, howns⟩ :=
      mfhssnetProbe_listed (hm.resolve_left hnetdev) hpool
    have halloc := probing_allocPriv hrest ho hpool hp hlisted howns
    have hstatic : (s.allocPriv c pool).staticDirs = 0 := rfl
    have hdynamic : (s.allocPriv c pool).dynamicDirs = [] := rfl
    dsimp only at hprobe
    generalize s.allocPriv c pool = s₁ at *
    have hnoPool : err ≠ 0 → s₁.Probing [] .destroyStats := by
      intro herr
      obtain rfl := hnone herr
      exact halloc.stage rfl
    refine inv_of_step hnoPool ?_ hprobe
    intro herr hprobe
    refine inv_of_step (fun _ => halloc) ?_ hprobe
    intro _ hprobe
    have hkset : (s₁.act [.acquire .staticRegs]).Probing packets .destroyStaticRegsDir :=
      halloc.acquire (by simp [heldFrom, cases, owned, mem_packet]) rfl
    have hempty : (s₁.act [.acquire .staticRegs]).staticDirs = 0 := hstatic
    have hdynamic : (s₁.act [.acquire .staticRegs]).dynamicDirs = [] := hdynamic
    generalize s₁.act [.acquire .staticRegs] = s₂ at *
    have hdma := (hkset.stage (heldFrom_cleanStatic hempty)).createSubdir (d := c.dma)
    -- without the first subdirectory there is nothing to clean
    have hnoDma : c.dma.err ≠ 0 →
        (s₂.createSubdir c.dma).Probing packets .destroyStaticRegsDir := by
      intro hdmaErr
      have hnone := (createSubdir_staticDirs hdmaErr).trans hempty
      exact hdma.stage (heldFrom_cleanStatic hnone).symm
    refine inv_of_step hnoDma ?_ hprobe
    intro _ hprobe
    have hmlip := hdma.createSubdir (d := c.mlip)
    refine inv_of_step (fun _ => hmlip) ?_ hprobe
    intro _ hprobe
    have hlink := hmlip.createSubdir (d := c.link)
    refine inv_of_step (fun _ => hlink) ?_ hprobe
    intro _ hprobe
    have hdynamic : (((s₂.createSubdir c.dma).createSubdir c.mlip).createSubdir
        c.link).dynamicDirs = [] := by
      rw [createSubdir_dynamicDirs, createSubdir_dynamicDirs, createSubdir_dynamicDirs, hdynamic]
    generalize ((s₂.createSubdir c.dma).createSubdir c.mlip).createSubdir c.link = s₃ at *
    refine inv_of_step (fun _ => hlink) ?_ hprobe
    intro _ hprobe
    have hkset : (s₃.act [.acquire .dynamicRegs]).Probing packets .destroyDynamicRegsDir :=
      hlink.acquire (by simp [heldFrom, cases, owned, mem_packet]) rfl
    have hempty : (s₃.act [.acquire .dynamicRegs]).dynamicDirs = [] := hdynamic
    have hkset := hkset.stage (heldFrom_cleanDynamic hempty)
    generalize s₃.act [.acquire .dynamicRegs] = s₄ at *
    refine inv_of_step (fun _ => hkset) ?_ hprobe
    intro _ hprobe
    refine inv_of_step (fun _ => hkset) ?_ hprobe
    intro _ hprobe
    have hregion : (s₄.act [.acquire .memRegion]).Probing packets .destroyMemRegion :=
      hkset.acquire (by simp [heldFrom, cases, owned, mem_packet]) rfl
    refine inv_of_step (fun _ => hregion) ?_ hprobe
    intro _ hprobe
    have hmapped : ((s₄.act [.acquire .memRegion]).act [.acquire .ioBase]).Probing packets
        .unmapMemRegion :=
      hregion.acquire (by simp [heldFrom, cases, owned, mem_packet]) rfl
    refine inv_of_step (fun _ => hmapped) ?_ hprobe
    intro _ hprobe
    cases hprobe
    obtain rfl := hfull (not_not.mp herr)
    exact hmapped.register

end Driver

end ModemFhss.Net
