import ModemFhss.Net.Cleanup
import ModemFhss.Net.Conserve

/-!
# A driver over its life

Probes, requests, traffic and removes, in every order in which the kernel can bring them. Each event
keeps `Inv`, and `run_releasesOnce` says that nothing is released twice and nothing left behind in
the runs that are `Covered`. The code leaves something behind in others: packets of a pool that
could not be finished, and those that are not in the pool when it is destroyed; and register
attributes, which `clean_dir` does not free.
-/

namespace ModemFhss.Net

open Resource Machine

variable {s s' : Driver} {packets : List Node} {r : Res} {e : DriverEvent} {es : List DriverEvent}

namespace Driver

/-! ## What a device in use holds -/

/-- An interface that is up has its device. -/
theorem Inv.bound (h : s.Inv) (hup : s.up = true) : s.bound = true := by
  apply eq_true_of_ne_false
  intro hb
  cases hup.symm.trans (h.rest hb).1.up

theorem netdev_mem_inUse : .netdev ∈ s.inUse := by simp [inUse, netdev_mem_heldFrom]

theorem ioBase_mem_inUse : .ioBase ∈ s.inUse := by simp [inUse, heldFrom, cases, owned]

theorem stats_mem_inUse (h : s.stats = true) : .stats ∈ s.inUse := by
  simp [inUse, heldFrom, cases, owned, h]

theorem packet_mem_inUse {k : Nat} (hk : k < poolSize) (hr : r = .data k ∨ r = .pkt k) :
    r ∈ s.inUse := by
  have hmem : r ∈ poolPkts.flatMap Node.packet :=
    List.mem_flatMap.mpr ⟨.pkt k, List.mem_map_of_mem (List.mem_range.mpr hk),
      mem_packet.mpr ⟨k, rfl, hr⟩⟩
  simp [inUse, heldFrom, cases, owned, hmem]

theorem opened_mem_inUse {q : OpenRes} (h : s.up = true) : .opened q ∈ s.inUse := by
  simp [inUse, h, mem_opened]

/-- The packets are back in the pool, the tasklet has run, and the socket buffers were freed. -/
structure Returned (s : Driver) : Prop where
  listed : s.rx.listed.Perm poolPkts
  tasklet : s.rx.tasklet = .idle
  scheduled : s.rx.scheduled = false
  sent : outstanding s.tx.history = []

instance : Decidable s.Returned :=
  decidable_of_iff (s.rx.listed.Perm poolPkts ∧ s.rx.tasklet = .idle ∧ s.rx.scheduled = false ∧
    outstanding s.tx.history = []) ⟨fun ⟨h₁, h₂, h₃, h₄⟩ => ⟨h₁, h₂, h₃, h₄⟩,
      fun h => ⟨h.listed, h.tasklet, h.scheduled, h.sent⟩⟩

theorem Inv.mfhssnetRemove (h : s.Inv) (hb : s.bound = true) (hup : s.up = false)
    (hg : s.Returned) : s.mfhssnetRemove.Inv := by
  have ho := h.owns hb
  have hall : s.inUse = s.heldFrom poolPkts .destroyAll := by
    simp [inUse, hup, hg.sent]
  rw [hall] at ho
  have hrest : s.AtRest :=
    ⟨hup, h.handler hup, hg.tasklet, hg.scheduled, hg.sent, h.within, h.tx⟩
  exact Probing.cleanup ⟨hrest, packets_poolPkts, hg.listed, ho⟩

/-! ## Requests -/

section Requests

variable {kzalloc memory : Bool} {target name : Name} {address : UInt32} {dirs : List RegDir}

theorem length_makeFile :
    (makeFile kzalloc memory target name address dirs).2.length = dirs.length := by
  induction dirs with
  | nil => rfl
  | cons k dirs ih =>
    unfold makeFile
    split
    · rfl
    · exact congrArg Nat.succ ih

/-- What is in use depends on the number of directories only. -/
theorem inUse_congr {ops : List (Op Res)} {requests : Nat}
    (h : dirs.length = s.dynamicDirs.length) :
    { s with ops, requests, dynamicDirs := dirs : Driver }.inUse = s.inUse := by
  simp [inUse, heldFrom, cases, owned, h]

theorem heldFrom_destroyAll : s.heldFrom packets .destroyAll =
    .registration :: .ioBase :: .memRegion :: ((List.range s.dynamicDirs.length).map .dynamicDir ++
      s.heldFrom packets .destroyDynamicRegsDir) := rfl

theorem heldFrom_dynamic {ops : List (Op Res)} {requests : Nat} :
    { s with ops, requests, dynamicDirs := dirs : Driver }.heldFrom packets
      .destroyDynamicRegsDir = s.heldFrom packets .destroyDynamicRegsDir := rfl

/-- One directory more. -/
theorem inUse_concat {ops : List (Op Res)} {requests : Nat} {k : RegDir} :
    (Res.dynamicDir s.dynamicDirs.length :: s.inUse).Perm
      { s with ops, requests, dynamicDirs := s.dynamicDirs ++ [k] : Driver }.inUse := by
  rw [List.perm_iff_count]
  intro r
  simp only [inUse, heldFrom_destroyAll, List.length_append, List.length_singleton,
    List.range_succ, List.map_append, List.map_cons, List.count_append, List.count_cons,
    List.map_nil, List.count_nil, heldFrom_dynamic]
  omega

theorem makeDir_owns {nodeName : Name} {ops ops' : List (Op Res)} {requests : Nat}
    (hname : fieldString nodeName = some name) (ho : Owns ops s.inUse) :
    Owns (ops ++ s.request kzalloc memory (.makeDir nodeName))
      { s with
        ops := ops'
        requests
        dynamicDirs := (createDir kzalloc memory s.dynamicDirs name).2 : Driver }.inUse := by
  have hnew : .dynamicDir s.dynamicDirs.length ∉ s.inUse := by
    simp [inUse, heldFrom, cases, owned, mem_packet]
  have hadded := (ho.acquire hnew).use (r := .dynamicRegs)
    (by simp [inUse, heldFrom, cases, owned])
  simp only [request, createDir, hname, Option.getD_some]
  cases kzalloc with
  | false =>
    rw [if_pos rfl, if_neg (by decide), List.append_nil]
    exact ho
  | true =>
    rw [if_neg (by decide), if_pos rfl]
    by_cases hadd : kobjectAdd memory s.dynamicDirs name = 0
    · rw [if_pos hadd, if_pos hadd]
      rw [List.append_assoc] at hadded
      exact hadded.perm inUse_concat
    · rw [if_neg hadd, if_neg hadd]
      have hgone := hadded.release
      rwa [List.append_assoc, List.append_assoc] at hgone

/-- The file requested is made: there is a directory for it, and nothing fails. -/
def MakesFile (s : Driver) (kzalloc memory : Bool) (regName targetNode : Name) : Prop :=
  kzalloc = true ∧
    ∃ k ∈ s.dynamicDirs.find? (fun k => k.name = (fieldString targetNode).getD []),
      sysfsCreateFile memory k ((fieldString regName).getD []) = 0

theorem makeFile_owns {regName targetNode : Name} {ops : List (Op Res)} (ho : Owns ops s.inUse)
    (hnot : ¬ s.MakesFile kzalloc memory regName targetNode) :
    Owns (ops ++ s.request kzalloc memory (.makeFile regName targetNode address)) s.inUse := by
  have hwalk : ∀ n ≤ s.dynamicDirs.length,
      Owns (ops ++ (List.range n).map fun i => .use (.dynamicDir i)) s.inUse := by
    intro n hn
    have huses : ∀ r ∈ (List.range n).map Res.dynamicDir, r ∈ s.inUse := by
      intro r hr
      obtain ⟨i, hi, rfl⟩ := List.mem_map.mp hr
      have hlt : i < s.dynamicDirs.length := by
        have := List.mem_range.mp hi
        omega
      simp [inUse, heldFrom, cases, owned, hlt]
    have := ho.uses huses
    rwa [List.map_map] at this
  simp only [request]
  split
  · exact hwalk _ (Nat.le_refl _)
  next k hfind =>
    have hk := List.find?_some hfind
    have hlt : (s.dynamicDirs.findIdx fun k => k.name = (fieldString targetNode).getD []) <
        s.dynamicDirs.length :=
      List.findIdx_lt_length_of_exists ⟨k, List.mem_of_find?_eq_some hfind, hk⟩
    have hwalked := hwalk _ hlt
    rw [← List.append_assoc]
    split_ifs with halloc hfile
    · rwa [List.append_nil]
    · exact absurd ⟨eq_true_of_ne_false halloc, k, hfind, hfile⟩ hnot
    · have hnew : .attribute s.requests ∉ s.inUse := by
        simp [inUse, heldFrom, cases, owned, mem_packet]
      have hmem : .dynamicDir (s.dynamicDirs.findIdx fun k =>
          k.name = (fieldString targetNode).getD []) ∈ .attribute s.requests :: s.inUse := by
        simp [inUse, heldFrom, cases, owned, hlt]
      have hgone := ((hwalked.acquire hnew).use hmem).release
      rwa [List.append_assoc, List.append_assoc] at hgone

/-- The request makes no file. -/
def NoFile (s : Driver) (kzalloc memory : Bool) : Request → Prop
  | .makeDir _ => True
  | .makeFile regName targetNode _ => ¬ s.MakesFile kzalloc memory regName targetNode

instance (regName targetNode : Name) : Decidable (s.MakesFile kzalloc memory regName targetNode) :=
  inferInstanceAs (Decidable (kzalloc = true ∧
    ∃ k ∈ s.dynamicDirs.find? (fun k => k.name = (fieldString targetNode).getD []),
      sysfsCreateFile memory k ((fieldString regName).getD []) = 0))

instance : ∀ q : Request, Decidable (s.NoFile kzalloc memory q)
  | .makeDir _ => isTrue trivial
  | .makeFile regName targetNode _ =>
    inferInstanceAs (Decidable (¬ s.MakesFile kzalloc memory regName targetNode))

theorem Inv.mfhssIoctl {q : Request} (h : s.Inv) (hb : s.bound = true)
    (hg : s.NoFile kzalloc memory q) (hs : s.mfhssIoctl kzalloc memory q = some s') : s'.Inv := by
  have ho := (h.owns hb).use netdev_mem_inUse
  unfold Driver.mfhssIoctl at hs
  split at hs
  · cases hs
  next res dirs hioctl =>
    cases hs
    refine ⟨h.within, h.tx, h.handler, fun hb' => ?_, fun _ => ?_⟩
    · cases hb.symm.trans hb'
    cases q with
    | makeDir nodeName =>
      obtain ⟨name, hname, hdirs⟩ := Option.map_eq_some_iff.mp hioctl
      have hmade : Owns (s.ops ++ [.use .netdev] ++ s.request kzalloc memory (.makeDir nodeName))
          { s with
            ops := s.ops ++ .use .netdev :: s.request kzalloc memory (.makeDir nodeName)
            requests := s.requests + 1
            dynamicDirs := (createDir kzalloc memory s.dynamicDirs name).2 : Driver }.inUse :=
        makeDir_owns hname ho
      rw [hdirs, List.append_assoc] at hmade
      exact hmade
    | makeFile regName targetNode address =>
      have hmade : Owns (s.ops ++ [.use .netdev] ++
          s.request kzalloc memory (.makeFile regName targetNode address)) s.inUse :=
        makeFile_owns ho hg
      have hlen : dirs.length = s.dynamicDirs.length := by
        unfold ioctl at hioctl
        dsimp only at hioctl
        split at hioctl
        next target name _ _ =>
          have hdirs : (makeFile kzalloc memory target name address s.dynamicDirs).2 = dirs :=
            congrArg Prod.snd (Option.some.inj hioctl)
          rw [← hdirs]
          exact length_makeFile
        · cases hioctl
      rw [List.append_assoc] at hmade
      show Owns _ { s with ops := _, requests := _, dynamicDirs := dirs : Driver }.inUse
      rw [inUse_congr hlen]
      exact hmade

end Requests

/-! ## The interface -/

theorem opened_not_mem (q : OpenRes) :
    .opened q ∉ (outstanding s.tx.history).map Res.skb ++ s.heldFrom poolPkts .destroyAll := by
  simp [heldFrom, cases, owned, mem_packet]

theorem Inv.mfhssOpen {calls : OpenCalls} (h : s.Inv) (hb : s.bound = true) (hup : s.up = false) :
    (s.mfhssOpen calls).Inv where
  within := { h.within with }
  tx := { h.tx with numbered := { h.tx.numbered with } }
  handler _ := h.handler hup
  rest hb' := by
    cases hb.symm.trans hb'
  owns _ := by
    have ho := (h.owns hb).use netdev_mem_inUse
    have hdown : s.inUse = (([] : List OpenRes).map Res.opened) ++
        ((outstanding s.tx.history).map .skb ++ s.heldFrom poolPkts .destroyAll) := by
      simp [inUse, hup]
    rw [hdown] at ho
    have hpart : Legal [] (Net.mfhssOpen calls).2 ∧ held [] (Net.mfhssOpen calls).2 =
        if (Net.mfhssOpen calls).1 = 0 then opened else [] := by
      by_cases hc : calls.Succeed
      · obtain ⟨hret, hpasses, hheld⟩ := mfhssOpen_of_succeed hc
        rw [if_pos hret]
        exact ⟨hpasses.legal, hheld⟩
      · obtain ⟨hret, hpasses, hheld⟩ := mfhssOpen_of_not_succeed hc
        rw [if_neg hret]
        exact ⟨hpasses.legal, hheld⟩
    have hopened := ho.embed (fun _ _ heq => Res.opened.inj heq) opened_not_mem hpart.1
    rw [hpart.2, List.append_assoc] at hopened
    refine hopened.perm (.of_eq ?_)
    simp only [inUse, Driver.mfhssOpen, decide_eq_true_eq]
    split <;> rfl

theorem Inv.mfhssClose (h : s.Inv) (hb : s.bound = true) (hup : s.up = true)
    (hidle : s.rx.handler = .idle) : s.mfhssClose.Inv where
  within := { h.within with }
  tx := { h.tx with numbered := { h.tx.numbered with } }
  handler _ := hidle
  rest hb' := by
    cases hb.symm.trans hb'
  owns _ := by
    have ho := (h.owns hb).use netdev_mem_inUse
    have hopen : s.inUse = opened.map Res.opened ++
        ((outstanding s.tx.history).map .skb ++ s.heldFrom poolPkts .destroyAll) := by
      simp [inUse, hup]
    rw [hopen] at ho
    obtain ⟨hpasses, hheld⟩ := passes_mfhssClose
    have hclosed := ho.embed (fun _ _ heq => Res.opened.inj heq) opened_not_mem hpasses.legal
    rw [hheld, List.append_assoc] at hclosed
    exact hclosed

/-! ## Traffic -/

section Traffic

variable {e : RxEvent}

theorem Inv.receive (h : s.Inv) (hup : (∃ dstAddr dl, e = .interrupt dstAddr dl) → s.up = true)
    (hs : s.receive e = some s') : s'.Inv := by
  unfold Driver.receive at hs
  split at hs
  · cases hs
  next hstats =>
    obtain ⟨rx, hrx, rfl⟩ := Option.map_eq_some_iff.mp hs
    have hhandler : s.up = false → rx.handler = .idle := by
      intro hdown
      have hidle := h.handler hdown
      cases e with
      | interrupt dstAddr dl => cases hdown.symm.trans (hup ⟨dstAddr, dl, rfl⟩)
      | handler => simp [Rx.step, Rx.irqRxHandler, hidle] at hrx
      | tasklet skb =>
        simp only [Rx.step, hidle, if_true] at hrx
        exact (rxPkt_handler hrx).trans hidle
    refine ⟨h.within.step hrx, h.tx, hhandler, fun hb => ?_, fun hb => ?_⟩
    · -- without a device there is no interrupt, and the tasklet was not scheduled
      obtain ⟨hrest, -⟩ := h.rest hb
      exfalso
      cases e with
      | interrupt dstAddr dl => cases hrest.up.symm.trans (hup ⟨dstAddr, dl, rfl⟩)
      | handler => simp [Rx.step, Rx.irqRxHandler, hrest.handler] at hrx
      | tasklet skb =>
        simp [Rx.step, Rx.rxPkt, hrest.handler, hrest.tasklet, hrest.scheduled] at hrx
    · refine (h.owns hb).uses fun r hr => ?_
      rcases h.within.used r hr with rfl | rfl | rfl | ⟨k, hk, hr⟩ | ⟨rfl, rfl, hbusy⟩
      · exact netdev_mem_inUse
      · exact stats_mem_inUse (eq_true_of_ne_false fun hnone => hstats ⟨hr, hnone⟩)
      · exact ioBase_mem_inUse
      · exact packet_mem_inUse hk hr
      · exact opened_mem_inUse (eq_true_of_ne_false fun hdown => hbusy (h.handler hdown))

/-- What a device in use holds, the socket buffers first. -/
theorem inUse_perm : s.inUse.Perm ((outstanding s.tx.history).map .skb ++
    ((if s.up then opened.map .opened else []) ++ s.heldFrom poolPkts .destroyAll)) := by
  unfold inUse
  rw [← List.append_assoc, ← List.append_assoc]
  exact List.perm_append_comm.append_right _

theorem mfhssTxPkt_owns {skb : Frame} (h : s.Inv) (hb : s.bound = true) (hup : s.up = true)
    (hg : outstanding s.tx.history = []) :
    Owns (s.ops ++ s.tx.does (.mfhssTxPkt skb))
      { s with tx := s.tx.mfhssTxPkt skb : Driver }.inUse := by
  have hnew : .skb s.tx.accepted.length ∉ s.inUse := by
    simp [inUse, heldFrom, cases, owned, mem_packet, hg]
  have hbuffer : .opened .srcAddr ∈ s.inUse := opened_mem_inUse hup
  have hmem : ∀ r ∈ [.skb s.tx.accepted.length, .netdev, .opened .srcAddr, .ioBase],
      r ∈ .skb s.tx.accepted.length :: s.inUse := by
    simp [netdev_mem_inUse, ioBase_mem_inUse, hbuffer]
  have huses := ((h.owns hb).acquire hnew).uses hmem
  rw [List.append_assoc] at huses
  refine huses.perm ?_
  have hsent : outstanding (s.tx.mfhssTxPkt skb).history = [s.tx.accepted.length] := by
    show outstanding (s.tx.history ++ [.accept s.tx.accepted.length]) = _
    rw [Tx.outstanding_accept (h.tx.numbered.fresh .free), hg]
    rfl
  refine (inUse_perm.cons _).trans (.trans ?_ inUse_perm.symm)
  dsimp only
  rw [hsent, hg]
  exact .refl _

theorem irqTxHandler_owns {stale : Nat} (h : s.Inv) (hb : s.bound = true)
    (hstats : s.stats = true) (hg : outstanding s.tx.history ≠ []) :
    Owns (s.ops ++ s.tx.does (.irqTxHandler stale))
      { s with tx := s.tx.irqTxHandler stale : Driver }.inUse := by
  rcases h.tx.turn with ⟨hnone, -⟩ | ⟨skb, hskb, hslot, -⟩
  · exact absurd hnone hg
  have ho := ((h.owns hb).use netdev_mem_inUse).use (stats_mem_inUse hstats)
  have hperm := @inUse_perm s
  rw [hskb, List.map_singleton] at hperm
  have hread := (ho.perm hperm).use (r := .skb skb) (by simp)
  have hfreed : Owns _ ((if s.up then opened.map .opened else []) ++
      s.heldFrom poolPkts .destroyAll) := hread.release
  have hlast := hfreed.use (r := .ioBase) (by simp [heldFrom, cases, owned])
  have hsent : outstanding (s.tx.irqTxHandler stale).history = [] := by
    rw [Tx.irqTxHandler_some hslot]
    show outstanding (s.tx.history ++ _ ++ _) = []
    rw [Tx.outstanding_free, Tx.outstanding_read, hskb]
    simp
  have hinUse : { s with tx := s.tx.irqTxHandler stale : Driver }.inUse =
      (if s.up then opened.map .opened else []) ++ s.heldFrom poolPkts .destroyAll := by
    unfold inUse
    dsimp only
    rw [hsent]
    rfl
  rw [hinUse]
  simp only [Tx.does, hslot]
  simpa only [List.append_assoc, List.cons_append, List.nil_append] using hlast

theorem Inv.transmit {e : TxEvent} (h : s.Inv) (hup : s.up = true) (hg : s.tx.InTurn e)
    (hs : s.transmit e = some s') : s'.Inv := by
  have hb := h.bound hup
  unfold Driver.transmit at hs
  split at hs
  · cases hs
  next hstats =>
    obtain ⟨tx, htx, rfl⟩ := Option.map_eq_some_iff.mp hs
    have hstats : .use .stats ∈ s.tx.does e → s.stats = true :=
      fun hmem => eq_true_of_ne_false fun hnone => hstats ⟨hmem, hnone⟩
    refine ⟨h.within, h.tx.step hg htx, h.handler, fun hb' => ?_, fun _ => ?_⟩
    · cases hb.symm.trans hb'
    obtain ⟨skb, rfl, rfl⟩ | ⟨stale, rfl, rfl⟩ | ⟨rfl, rfl⟩ := Tx.step_cases htx
    · exact mfhssTxPkt_owns h hb hup hg
    · exact irqTxHandler_owns h hb (hstats (by simp [Tx.does])) hg
    · have hcount := stats_mem_inUse (hstats (by simp [Tx.does]))
      have ho := ((h.owns hb).use netdev_mem_inUse).use hcount
      rw [List.append_assoc] at ho
      exact ho

end Traffic

/-! ## Runs -/

/-- The runs that leave nothing behind: every probe finds memory for all packets or not for the
first; no register file is made; socket buffers are accepted and freed in turn; and at a remove
everything has come back. -/
def Covered (s : Driver) : DriverEvent → Prop
  | .mfhssnetProbe c => c.netdev = false ∨ c.pool.Whole
  | .mfhssnetRemove => s.Returned
  | .mfhssIoctl kzalloc memory q => s.NoFile kzalloc memory q
  | .tx e => s.tx.InTurn e
  | .mfhssOpen _ | .mfhssClose | .rx _ => True

instance : ∀ (s : Driver) (e : DriverEvent), Decidable (s.Covered e)
  | _, .mfhssnetProbe c => inferInstanceAs (Decidable (c.netdev = false ∨ c.pool.Whole))
  | s, .mfhssnetRemove => inferInstanceAs (Decidable s.Returned)
  | s, .mfhssIoctl kzalloc memory q => inferInstanceAs (Decidable (s.NoFile kzalloc memory q))
  | s, .tx e => inferInstanceAs (Decidable (s.tx.InTurn e))
  | _, .mfhssOpen _ | _, .mfhssClose | _, .rx _ => isTrue trivial

theorem Inv.step (h : s.Inv) (hg : s.Covered e) (hs : Driver.step s e = some s') : s'.Inv := by
  unfold Driver.step at hs
  split at hs
  · cases hs
  cases e with
  | mfhssnetProbe c =>
    dsimp only at hs
    split at hs
    · cases hs
    next hb =>
      obtain ⟨⟨err, t⟩, hprobe, rfl⟩ := Option.map_eq_some_iff.mp hs
      exact mfhssnetProbe_inv h (eq_false_of_ne_true hb) hg hprobe
  | mfhssnetRemove =>
    dsimp only at hs
    split at hs
    next hdown =>
      cases hs
      exact h.mfhssnetRemove hdown.1 hdown.2 hg
    · cases hs
  | mfhssIoctl kzalloc memory q =>
    dsimp only at hs
    split at hs
    next hb => exact h.mfhssIoctl hb hg hs
    · cases hs
  | mfhssOpen c =>
    dsimp only at hs
    split at hs
    next hdown =>
      cases hs
      exact h.mfhssOpen hdown.1 hdown.2
    · cases hs
  | mfhssClose =>
    dsimp only at hs
    split at hs
    next hup =>
      cases hs
      exact h.mfhssClose (h.bound hup.1) hup.1 hup.2
    · cases hs
  | rx e =>
    cases e with
    | interrupt dstAddr dl =>
      dsimp only at hs
      split at hs
      next hup => exact h.receive (fun _ => hup) hs
      · cases hs
    | handler => exact h.receive (fun ⟨_, _, heq⟩ => by cases heq) hs
    | tasklet skb => exact h.receive (fun ⟨_, _, heq⟩ => by cases heq) hs
  | tx e =>
    dsimp only at hs
    split at hs
    next hup => exact h.transmit hup hg hs
    · cases hs

theorem Inv.releasesOnce (h : s.Inv) : s.ReleasesOnce where
  legal := by
    cases hb : s.bound with
    | false => exact (h.rest hb).2.1
    | true => exact (h.owns hb).1
  all hb := (h.rest hb).2.held_eq_nil

theorem inv_init {pool : Pool} (hpool : pool.links.Inside Node.InPool) : (init pool).Inv where
  within := ⟨hpool, trivial, trivial⟩
  tx := Tx.inv_init
  handler _ := rfl
  rest _ := ⟨⟨rfl, rfl, rfl, rfl, rfl, ⟨hpool, trivial, trivial⟩, Tx.inv_init⟩, owns_nil⟩
  owns hb := by cases hb

/-- **Everything once.** -/
theorem run_releasesOnce (hm : Meets step Covered (init Rx.unprobed) es)
    (hr : run step (init Rx.unprobed) es = some s) : s.ReleasesOnce := by
  have hunprobed : Rx.unprobed.links.Inside Node.InPool := by
    rintro x y (hy | hy) <;> cases hy
  exact (run_invariant_of_meets (fun _ _ _ h hg hs => h.step hg hs) (inv_init hunprobed) hm
    hr).releasesOnce

/-- All calls succeed. -/
def allSucceed : ProbeCalls where
  netdev := true
  stats := true
  pool := Rx.plenty
  staticRegs := true
  dma := ⟨true, 0⟩
  mlip := ⟨true, 0⟩
  link := ⟨true, 0⟩
  dynamicRegs := true
  resource := 0
  memRegion := true
  ioBase := true
  registration := 0

/-- A string in its field. -/
def nameField (name : String) : Name :=
  name.toList ++ List.replicate (regNameSize - name.length) '\x00'

/-- The first probe is refused the memory region. After the second there are a directory, a frame in
each direction, and a remove. -/
def wholeLife : List DriverEvent :=
  [.mfhssnetProbe { allSucceed with memRegion := false }, .mfhssnetProbe allSucceed,
    .mfhssIoctl true true (.makeDir (nameField "dsp")), .mfhssOpen ⟨true, true, 0, 0, 0⟩,
    .tx (.mfhssTxPkt [1]), .rx (.interrupt [2] 1), .rx .handler, .rx .handler,
    .tx (.irqTxHandler 0), .rx .handler, .rx .handler] ++
      List.replicate 10 (.rx (.tasklet true)) ++ [.mfhssClose, .mfhssnetRemove]

theorem run_releasesOnce_wholeLife :
    ∃ s, run step (init Rx.unprobed) wholeLife = some s ∧ s.ReleasesOnce :=
  exists_of_isSome (by decide +kernel) fun _ hr => run_releasesOnce (by decide +kernel) hr

/-- There is memory for one packet. -/
def onePkt : Kmalloc ethDataLen := { Rx.plenty with pkt := fun i => i = 0 }

/-- The probe fails, and its packet stays allocated. -/
theorem onePkt_not_releasesOnce :
    ∃ s, run step (init Rx.unprobed) [.mfhssnetProbe { allSucceed with pool := onePkt }] = some s ∧
      ¬ s.ReleasesOnce := by
  decide +kernel

/-- A register file outlives its directory. -/
example : ∃ s, run step (init Rx.unprobed)
    [.mfhssnetProbe allSucceed, .mfhssIoctl true true (.makeDir (nameField "dsp")),
      .mfhssIoctl true true (.makeFile (nameField "gain") (nameField "dsp") 4),
      .mfhssnetRemove] = some s ∧ held [] s.ops = [.attribute 1] := by
  decide +kernel

/-- A packet that waits for the tasklet is not in the pool. -/
example : ∃ s, run step (init Rx.unprobed)
    ([.mfhssnetProbe allSucceed, .mfhssOpen ⟨true, true, 0, 0, 0⟩, .rx (.interrupt [1] 1)] ++
      List.replicate 4 (.rx .handler) ++ [.mfhssClose, .mfhssnetRemove]) = some s ∧
        held [] s.ops = [.data 7, .pkt 7] := by
  decide +kernel

end Driver

end ModemFhss.Net
