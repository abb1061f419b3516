import Mathlib.Data.List.GetD
import Mathlib.Data.Nat.Digits.Lemmas
import ModemFhss.Library.Shuffle
import ModemFhss.KeySender.Agreement
import ModemFhss.KeySender.RoundTrip

/-!
# Generating the keys (`keygen.cpp`)

Each key is made of numbers that `std::uniform_int_distribution` draws, up to a limit of each. The
key of the interleaver is an order of eight indices, four bits each, found by a shuffle.

* `existsUnique_sapIntrKey` — every order comes out of exactly one sequence of draws.
* `run_generates` — in any run of two stations, whatever is lost or fails on the way, the registers
  of each key hold a number that can be drawn for it.
-/

namespace ModemFhss.KeySender

open Machine

/-! ## The draws -/

/-- What `Generate` of a class does: the limits of its distributions, and the key that it makes of
what they give. -/
structure Generator where
  limits : List Nat
  make : (Nat → Nat) → KeyValue

def ciKeyGenerate : Generator := ⟨[0xFFFFFFFF, 0x00FFFFFF], fun d => ⟨d 0, d 1⟩⟩

def sapKeyGenerate : Generator := ⟨[0xFFFF], fun d => ⟨d 0, 0⟩⟩

/-- The indices are written to the key, the first one to the lowest bits. -/
def packItems (items : Nat → Nat) : Nat → BitVec 32
  | 0 => 0#32
  | n + 1 => packItems items n ||| (BitVec.ofNat 32 (items n) <<< (n * 4))

/-- The place of each round is also its limit. -/
def sapIntrKeyGenerate : Generator :=
  ⟨[0, 1, 2, 3, 4, 5, 6, 7], fun d => ⟨(packItems (Shuffle.shuffle d 7 id) 8).toNat, 0⟩⟩

def dLinkCoderKeyGenerate : Generator := ⟨[0xFFF], fun d => ⟨d 0, 0⟩⟩

def hopSeedKeyGenerate : Generator := ⟨[0xFFFFFFFF], fun d => ⟨d 0, 0⟩⟩

/-- `DLinkDataPreampbleKey::table` -/
def preambleTable : List (Int × Int) :=
  [(-2089607810, -787797425), (-1649176374, -1436468809), (-55281145, 1882134175),
    (2024526128, 420981308), (1758821869, -1107994448), (-80556058, 763493855),
    (280896504, 1729883312), (456168298, -746860366), (-1754528183, -334319047),
    (-86045016, -1739853055), (-1613690280, -109759607), (-211495878, 1587350465),
    (-1964094566, -1078038929), (981195141, -1568492574), (1708104527, 826477164),
    (-1787401617, 878084339), (-1663453691, -155730669), (271951951, 1822872260),
    (-1632157535, 1191314211), (-234709309, -521520277), (1087760201, 2135611976),
    (-1954021021, 29974213), (-319781938, -1207571157), (1716849113, -1999152892),
    (-1629961094, -1413192849), (1085957010, -1819493884), (-1947761224, -317768055),
    (-212278891, 1416658075), (1099929631, -875520584), (-1965916619, -1252845259),
    (-307561320, 211790555), (977792042, -1469070152), (1710468832, 1001291062),
    (-367653158, 802566237), (447527263, -93708560), (-1726497363, -200428697)]

def dLinkDataPreampbleKeyGenerate : Generator :=
  ⟨[preambleTable.length - 1], fun d =>
    let row := preambleTable.getD (d 0) (0, 0)
    ⟨(BitVec.ofInt 32 row.2).toNat, (BitVec.ofInt 32 row.1).toNat⟩⟩

def dLinkCommonKeyGenerate : Generator := ⟨[0xFFF], fun d => ⟨d 0, 0⟩⟩

def phyCommonKeyGenerate : Generator := ⟨[0x7FF], fun d => ⟨d 0, 0⟩⟩

def generators : List (KeyClass × Generator) :=
  [(ciKey, ciKeyGenerate), (sapKey, sapKeyGenerate), (sapIntrKey, sapIntrKeyGenerate),
    (dLinkCoderKey, dLinkCoderKeyGenerate), (hopSeedKey, hopSeedKeyGenerate),
    (dLinkDataPreampbleKey, dLinkDataPreampbleKeyGenerate),
    (dLinkCommonKey, dLinkCommonKeyGenerate), (phyCommonKey, phyCommonKeyGenerate)]

/-- The draws are within their limits; no others are made. -/
def Generator.Within (g : Generator) (d : Nat → Nat) : Prop := ∀ i, d i ≤ g.limits.getD i 0

/-- The value is one that `Generate` of the class can come to. -/
def KeyClass.Generates (k : KeyClass) (value : KeyValue) : Prop :=
  ∃ g ∈ generators.lookup k, ∃ d, g.Within d ∧ g.make d = value

/-! ## The key of the interleaver -/

variable {items : Nat → Nat} {n i : Nat} {k : KeyClass} {value : KeyValue}

/-- The four bits of each index. -/
def nibbles (key : Nat) : List Nat := (List.range 8).map fun i => key / 16 ^ i % 16

/-- The eight indices of a key of 32 bits are those from 0 to 7. -/
def Interleaves (key : Nat) : Prop := key < 2 ^ 32 ∧ (nibbles key).Perm (List.range 8)

instance (key : Nat) : Decidable (Interleaves key) := inferInstanceAs (Decidable (_ ∧ _))

theorem packItems_toNat (hitems : ∀ i < 8, items i < 16) (hn : n ≤ 8) :
    (packItems items n).toNat = Nat.ofDigits 16 ((List.range n).map items) := by
  induction n with
  | zero => rfl
  | succ n ih =>
    have hlow : Nat.ofDigits 16 ((List.range n).map items) < 16 ^ n := by
      have hlt := Nat.ofDigits_lt_base_pow_length (b := 16) (l := (List.range n).map items)
        (by decide) (by simpa using fun i hi => hitems i (by omega))
      simpa using hlt
    have hpow : 16 ^ n = 2 ^ (n * 4) := by
      rw [Nat.mul_comm, Nat.pow_mul]
    have hshift : (BitVec.ofNat 32 (items n) <<< (n * 4)).toNat = items n <<< (n * 4) := by
      have hitem := hitems n (by omega)
      have hfits : items n <<< (n * 4) < 2 ^ 32 := by
        rw [Nat.shiftLeft_eq]
        calc items n * 2 ^ (n * 4) < 2 ^ 4 * 2 ^ (n * 4) :=
              Nat.mul_lt_mul_of_pos_right hitem (Nat.two_pow_pos _)
          _ = 2 ^ (4 + n * 4) := (Nat.pow_add 2 4 _).symm
          _ ≤ 2 ^ 32 := Nat.pow_le_pow_right (by decide) (by omega)
      rw [BitVec.toNat_shiftLeft, BitVec.toNat_ofNat,
        Nat.mod_eq_of_lt (by omega : items n < 2 ^ 32), Nat.mod_eq_of_lt hfits]
    rw [packItems, BitVec.toNat_or, ih (by omega), hshift, List.range_succ, List.map_append,
      Nat.ofDigits_append, List.length_map, List.length_range]
    rw [hpow] at hlow ⊢
    rw [Nat.or_comm, ← Nat.shiftLeft_add_eq_or_of_lt hlow, Nat.shiftLeft_eq]
    simp
    ring

/-- The indices can be read off the key. -/
theorem nibbles_packItems (hitems : ∀ i < 8, items i < 16) :
    nibbles (packItems items 8).toNat = (List.range 8).map items := by
  have h0 := hitems 0 (by decide)
  have h1 := hitems 1 (by decide)
  have h2 := hitems 2 (by decide)
  have h3 := hitems 3 (by decide)
  have h4 := hitems 4 (by decide)
  have h5 := hitems 5 (by decide)
  have h6 := hitems 6 (by decide)
  have h7 := hitems 7 (by decide)
  have hvalue : Nat.ofDigits 16 ((List.range 8).map items) =
      items 0 + 16 * (items 1 + 16 * (items 2 + 16 * (items 3 + 16 * (items 4 +
        16 * (items 5 + 16 * (items 6 + 16 * (items 7 + 16 * 0))))))) :=
    rfl
  rw [packItems_toNat hitems (Nat.le_refl 8), hvalue]
  simp only [nibbles, List.range, List.range.loop, List.map_cons, List.map_nil, List.cons.injEq,
    and_true]
  refine ⟨?_, ?_, ?_, ?_, ?_, ?_, ?_, ?_⟩ <;> omega

theorem ofDigits_nibbles {key : Nat} (h : key < 2 ^ 32) : Nat.ofDigits 16 (nibbles key) = key := by
  simp only [nibbles, List.range, List.range.loop, List.map_cons, List.map_nil, Nat.ofDigits_cons,
    Nat.ofDigits_nil]
  omega

/-- The key that is made of some draws. -/
def sapIntrKeyOf (d : Shuffle.Draws 7) : Nat := (sapIntrKeyGenerate.make d.draw).l

theorem nibbles_sapIntrKeyOf (d : Shuffle.Draws 7) :
    nibbles (sapIntrKeyOf d) = (List.range 8).map (Shuffle.arrange d.draw 7) := by
  apply nibbles_packItems
  intro i hi
  have hle := Shuffle.le_of_fixes Shuffle.arrange_injective (fun k => Shuffle.arrange_of_lt d.le)
    (Nat.le_of_lt_succ hi)
  exact Nat.lt_of_le_of_lt hle (by decide)

theorem interleaves_sapIntrKeyOf (d : Shuffle.Draws 7) : Interleaves (sapIntrKeyOf d) := by
  refine ⟨(packItems _ 8).isLt, ?_⟩
  rw [nibbles_sapIntrKeyOf]
  exact Shuffle.map_range_perm Shuffle.arrange_injective fun k => Shuffle.arrange_of_lt d.le

/-- **Every order of the indices comes out of exactly one sequence of draws**, so that each is as
likely as any other. -/
theorem existsUnique_sapIntrKey (key : Nat) :
    Interleaves key ↔ ∃! d : Shuffle.Draws 7, sapIntrKeyOf d = key := by
  constructor
  · rintro ⟨hlt, hperm⟩
    -- the order that the key says, and every place behind it alone
    let f := fun i => if i < 8 then key / 16 ^ i % 16 else i
    have hsmall : ∀ i < 8, f i < 8 := by
      intro i hi
      have hmem : key / 16 ^ i % 16 ∈ nibbles key :=
        List.mem_map.mpr ⟨i, List.mem_range.mpr hi, rfl⟩
      simp only [f, if_pos hi]
      exact List.mem_range.mp (hperm.mem_iff.mp hmem)
    have hfix : ∀ k, 7 < k → f k = k := fun k hk => if_neg (Nat.not_lt.mpr hk)
    have hmap : (List.range 8).map f = nibbles key :=
      List.map_congr_left fun i hi => if_pos (List.mem_range.mp hi)
    have hinj : Function.Injective f := by
      have hnodup : ((List.range 8).map f).Nodup := by
        rw [hmap]
        exact hperm.nodup_iff.mpr List.nodup_range
      intro i j hij
      rcases Nat.lt_or_ge i 8 with hi | hi <;> rcases Nat.lt_or_ge j 8 with hj | hj
      · exact List.inj_on_of_nodup_map hnodup (List.mem_range.mpr hi) (List.mem_range.mpr hj) hij
      · have := hsmall i hi
        rw [hij, hfix j hj] at this
        omega
      · have := hsmall j hj
        rw [← hij, hfix i hi] at this
        omega
      · rwa [hfix i hi, hfix j hj] at hij
    have hiff : ∀ d : Shuffle.Draws 7, sapIntrKeyOf d = key ↔ Shuffle.arrange d.draw 7 = f := by
      intro d
      constructor
      · intro heq
        have hlists : (List.range 8).map (Shuffle.arrange d.draw 7) = (List.range 8).map f := by
          rw [← nibbles_sapIntrKeyOf, heq, hmap]
        funext i
        rcases Nat.lt_or_ge i 8 with hi | hi
        · exact List.map_inj_left.mp hlists i (List.mem_range.mpr hi)
        · rw [Shuffle.arrange_of_lt d.le hi, hfix i hi]
      · intro heq
        rw [← ofDigits_nibbles hlt, ← hmap, ← heq, ← nibbles_sapIntrKeyOf,
          ofDigits_nibbles (interleaves_sapIntrKeyOf d).1]
    exact (existsUnique_congr hiff).mpr (Shuffle.existsUnique_arrange hinj hfix)
  · rintro ⟨d, rfl, -⟩
    exact interleaves_sapIntrKeyOf d

/-- The order of the example in the source. -/
example : Interleaves 0x01234567 := by decide

/-! ## What the registers hold -/

section Runs

variable {P : KeyClass → KeyValue → Prop} {v v' : List KeyClass} {file : Option Text}
  {hw : Registers}

/-- The registers of each key hold one that is as `P` says. -/
def HoldsSome (P : KeyClass → KeyValue → Prop) (v : List KeyClass) (hw : Registers) : Prop :=
  ∀ k ∈ v, ∃ value, P k value ∧ ∀ w ∈ k.words value, hw w.1 = w.2

/-- All that is read from the file is as `P` says. -/
def Readable (P : KeyClass → KeyValue → Prop) (v : List KeyClass) (file : Option Text) : Prop :=
  ∀ k ∈ v, ∀ value, k.readFrom file = .ok value → P k value

/-- To write one key leaves the others alone. -/
theorem HoldsSome.writeToHW (h : HoldsSome P v hw) (hnd : (v.flatMap KeyClass.registers).Nodup)
    (hk : k ∈ v) (hP : P k value) : HoldsSome P v (k.writeToHW value hw) := by
  obtain ⟨hone, hpairwise⟩ := List.nodup_flatMap.mp hnd
  intro k' hk'
  rcases eq_or_ne k' k with rfl | hne
  · exact ⟨value, hP, fun w hw => k'.writeToHW_of_mem (hone k' hk') hw⟩
  · obtain ⟨value', hP', hwords⟩ := h k' hk'
    refine ⟨value', hP', fun w hw => ?_⟩
    have hsymm : Std.Symm (Function.onFun List.Disjoint KeyClass.registers) :=
      ⟨fun _ _ => List.Disjoint.symm⟩
    have hdisjoint : Function.onFun List.Disjoint KeyClass.registers k' k :=
      hpairwise.forall hk' hk hne
    rw [k.writeToHW_of_notMem (hdisjoint ((Stations.mem_registers_iff value').mpr ⟨w, hw, rfl⟩))]
    exact hwords w hw

/-- An installation keeps that, wherever it ends. -/
theorem HoldsSome.installKeys (h : HoldsSome P v hw) (hnd : (v.flatMap KeyClass.registers).Nodup)
    (hsub : v' ⊆ v) (hfile : Readable P v' file) : HoldsSome P v (installKeys v' file hw).1 := by
  induction v' generalizing hw with
  | nil => exact h
  | cons k v' ih =>
    unfold KeySender.installKeys
    cases hread : k.readFrom file with
    | error err => exact h
    | ok value =>
      have hk := hsub List.mem_cons_self
      exact ih (h.writeToHW hnd hk (hfile k List.mem_cons_self value hread))
        (fun k hk => hsub (List.mem_cons_of_mem _ hk))
        fun k hk => hfile k (List.mem_cons_of_mem _ hk)

theorem HoldsSome.reset {t : ModemType} (h : HoldsSome P t.keys hw) :
    HoldsSome P t.keys (reset hw) := by
  have hrst : "m/rst".toList ∉ t.keys.flatMap KeyClass.registers := by
    cases t <;> decide +kernel
  intro k hk
  obtain ⟨value, hP, hwords⟩ := h k hk
  refine ⟨value, hP, fun w hw => ?_⟩
  have hne : w.1 ≠ "m/rst".toList := by
    intro heq
    apply hrst
    rw [← heq]
    exact List.mem_flatMap.mpr ⟨k, hk, (Stations.mem_registers_iff value).mpr ⟨w, hw, rfl⟩⟩
  rw [Station.reset_of_ne hne]
  exact hwords w hw

/-! ## One station -/

/-- The registers and the files hold keys that are as `P` says. -/
structure Station.Sound (P : KeyClass → KeyValue → Prop) (s : Station) : Prop where
  hw : HoldsSome P s.keys s.hw
  keyfile : Readable P s.keys s.keyfile
  srcfile : s.state = .sendKeys ∨ s.state = .saveKeys → Readable P s.keys s.srcfile

variable {s : Station} {i : Input}

/-- In the other states the file to send is not looked at. -/
theorem Station.Sound.move (h : s.Sound P) {st : State} (hst : st ≠ .sendKeys ∧ st ≠ .saveKeys) :
    { s with state := st }.Sound P :=
  ⟨h.hw, h.keyfile, fun hstate => (hstate.elim hst.1 hst.2).elim⟩

theorem Station.Sound.stop (h : s.Sound P) (e : Ending) : (s.stop e).Sound P :=
  ⟨h.hw, h.keyfile, h.srcfile⟩

theorem Station.Sound.install (h : s.Sound P) : s.install.Sound P := by
  have hinstalled := h.hw.installKeys s.type.nodup_registers (List.Subset.refl _) h.keyfile
  unfold Station.install
  generalize KeySender.installKeys s.keys s.keyfile s.hw = r at hinstalled
  obtain ⟨hw, _ | err⟩ := r
  · have hmoved : { s with hw := KeySender.reset hw }.Sound P :=
      ⟨hinstalled.reset, h.keyfile, h.srcfile⟩
    exact hmoved.move (by decide)
  · have hfailed : { s with hw }.Sound P := ⟨hinstalled, h.keyfile, h.srcfile⟩
    exact hfailed.stop _

theorem Station.Sound.loop (h : s.Sound P)
    (hcreate : s.state = .createKeys → s.srcfile = none ∧
      ∀ k ∈ s.keys, P k (i.values k) ∧ k.Range (i.values k))
    (hsave : s.state = .saveKeys → s.srcfile.isSome) : (s.loop i).Sound P := by
  by_cases hturns : s.Turns i
  · rw [Station.loop_of_turns hturns, Station.turn]
    cases hstate : s.state with
    | waitConnect =>
      dsimp only
      split
      · exact h.move (by split <;> decide)
      · exact h
    | ping =>
      dsimp only
      split
      · split
        · exact h.move (by decide)
        · exact h
      · exact h.stop _
    | createKeys =>
      obtain ⟨hnone, hvalues⟩ := hcreate hstate
      refine ⟨h.hw, h.keyfile, fun _ => ?_⟩
      intro k hk value hread
      have hkeys : k ∈ s.type.keys := hk
      have hvalue := readFrom_keyFile (t := s.type) (fun k hk => (hvalues k hk).2) hkeys
      have hfile : createKeys s.keys i.values (s.srcfile.getD []) = s.type.keyFile i.values := by
        rw [hnone]
        rfl
      dsimp only at hread
      rw [hfile, hvalue] at hread
      cases hread
      exact (hvalues k hk).1
    | sendKeys =>
      dsimp only
      split
      · split
        · exact ⟨h.hw, h.keyfile, fun _ => h.srcfile (.inl hstate)⟩
        · exact h
      · exact h.stop _
    | saveKeys =>
      obtain ⟨src, hsrc⟩ := Option.isSome_iff_exists.mp (hsave hstate)
      dsimp only
      unfold Station.saveKeysToFile
      rw [hsrc]
      refine ⟨h.hw, ?_, fun hother => by simp at hother⟩
      dsimp only
      rw [Station.copyFile_eq, ← hsrc]
      exact h.srcfile (.inr hstate)
    | waitDisconnect =>
      dsimp only
      split
      · exact h
      · exact h.install
  · obtain ⟨e, he⟩ := Station.loop_of_not_turns hturns
    rw [he]
    exact ⟨h.hw, h.keyfile, h.srcfile⟩

/-! ## Two stations -/

variable {s s' s₀ : Stations} {es : List StationEvent}

/-- Both stations are sound. -/
def Stations.Sound (P : KeyClass → KeyValue → Prop) (s : Stations) : Prop :=
  s.master.Sound P ∧ s.slave.Sound P

/-- What is drawn in an iteration of the master is as `P` says. -/
def StationEvent.Draws (P : KeyClass → KeyValue → Prop) (t : ModemType) : StationEvent → Prop
  | .master i _ => ∀ k ∈ t.keys, P k (i.values k) ∧ k.Range (i.values k)
  | _ => True

theorem Stations.Sound.step {e : StationEvent} (h : s.Sound P) (hinv : s.Inv)
    (he : e.Draws P s.master.type) (hs : s.step e = some s') : s'.Sound P := by
  obtain ⟨hmaster, hslave⟩ := h
  have hphase := hinv.phase
  have hmasterLoop : ∀ i : Input,
      (∀ k ∈ s.master.type.keys, P k (i.values k) ∧ k.Range (i.values k)) →
        (s.master.loop i).Sound P := by
    intro i hvalues
    apply hmaster.loop
    · intro hstate
      rw [hstate] at hphase
      exact ⟨hphase.1, hvalues⟩
    · intro hstate
      rw [hstate] at hphase
      exact hphase.1
  have hslaveLoop : ∀ i : Input, (s.slave.loop i).Sound P := by
    intro i
    apply hslave.loop <;> intro hstate <;> rcases hinv.slaveState with h | h <;>
      rw [h] at hstate <;> cases hstate
  cases e with
  | link up =>
    cases hs
    exact ⟨hmaster, hslave⟩
  | slave i =>
    cases hs
    exact ⟨hmaster, hslaveLoop _⟩
  | master i copied =>
    unfold Stations.step at hs
    dsimp only at hs
    split at hs
    · next hsend =>
      have hafter : (s.afterCopy copied).Sound P := by
        unfold Stations.afterCopy
        split
        · refine ⟨hslave.hw, ?_, hslave.srcfile⟩
          have hkeys : s.slave.keys = s.master.keys := congrArg ModemType.keys hinv.type
          show Readable P s.slave.keys s.master.srcfile
          rw [hkeys]
          exact hmaster.srcfile (.inl hsend.2)
        · exact hslave
      split at hs
      · cases hs
      · cases hs
        exact ⟨hmasterLoop _ he, hafter⟩
    · cases hs
      exact ⟨hmasterLoop _ he, hslave⟩

/-! ## Every run -/

theorem KeyClass.Generates.range (h : k.Generates value) : k.Range value := by
  obtain ⟨g, hlookup, d, hd, rfl⟩ := h
  have hg : (k, g) ∈ generators := by
    obtain ⟨l₁, l₂, hl, -⟩ := List.lookup_eq_some_iff.mp hlookup
    simp [hl]
  simp only [generators, List.mem_cons, Prod.mk.injEq, List.not_mem_nil, or_false] at hg
  have h0 := hd 0
  rcases hg with ⟨rfl, rfl⟩ | ⟨rfl, rfl⟩ | ⟨rfl, rfl⟩ | ⟨rfl, rfl⟩ | ⟨rfl, rfl⟩ | ⟨rfl, rfl⟩ |
    ⟨rfl, rfl⟩ | ⟨rfl, rfl⟩
  · have h1 : d 1 ≤ 0x00FFFFFF := hd 1
    exact ⟨Nat.lt_succ_of_le h0, by show d 1 < 2 ^ 32; omega⟩
  · exact ⟨Nat.lt_succ_of_le h0, rfl⟩
  · exact ⟨(packItems _ 8).isLt, rfl⟩
  · have h0 : d 0 ≤ 0xFFF := h0
    exact ⟨by show d 0 < 2 ^ 16; omega, rfl⟩
  · exact ⟨Nat.lt_succ_of_le h0, rfl⟩
  · exact ⟨(BitVec.ofInt 32 _).isLt, (BitVec.ofInt 32 _).isLt⟩
  · have h0 : d 0 ≤ 0xFFF := h0
    exact ⟨by show d 0 < 2 ^ 16; omega, rfl⟩
  · have h0 : d 0 ≤ 0x7FF := h0
    exact ⟨by show d 0 < 2 ^ 16; omega, rfl⟩

theorem ModemType.mem_generators (t : ModemType) : t.keys ⊆ generators.map Prod.fst := by
  cases t <;> decide +kernel

/-- The values of an iteration are ones that `Generate` can come to. -/
def StationEvent.Generated : StationEvent → Prop
  | .master i _ => ∀ k ∈ generators.map Prod.fst, k.Generates (i.values k)
  | _ => True

theorem StationEvent.Generated.draws {e : StationEvent} (h : e.Generated) (t : ModemType) :
    e.Draws KeyClass.Generates t := by
  cases e with
  | link up => trivial
  | slave i => trivial
  | master i copied =>
    intro k hk
    have hgenerates := h k (t.mem_generators hk)
    exact ⟨hgenerates, hgenerates.range⟩

theorem Stations.Starts.sound (h₀ : s₀.Starts)
    (hfile : Readable P s₀.master.keys s₀.master.keyfile) : s₀.Sound P := by
  have hsome : ∀ {s : Station}, Readable P s.keys s.keyfile → Holds s.keys s.keyfile s.hw →
      HoldsSome P s.keys s.hw := by
    intro s hfile hholds k hk
    obtain ⟨value, hread, hwords⟩ := hholds k hk
    exact ⟨value, hfile k hk value hread, hwords⟩
  have hslave : Readable P s₀.slave.keys s₀.slave.keyfile := by
    have hkeys : s₀.slave.keys = s₀.master.keys := congrArg ModemType.keys h₀.type
    rw [hkeys, ← h₀.keyfile]
    exact hfile
  constructor
  · refine ⟨hsome hfile h₀.masterHolds, hfile, ?_⟩
    rw [h₀.masterState]
    rintro (hstate | hstate) <;> cases hstate
  · refine ⟨hsome hslave h₀.slaveHolds, hslave, ?_⟩
    rw [h₀.slaveState]
    rintro (hstate | hstate) <;> cases hstate

/-- Every register of the interleaver's key has an order of the indices. -/
theorem HoldsSome.interleaves {t : ModemType} (h : HoldsSome KeyClass.Generates t.keys hw) :
    Interleaves (hw sapIntrKey.regname) := by
  have hmem : sapIntrKey ∈ t.keys := by
    cases t <;> decide
  obtain ⟨value, ⟨g, hg, d, hd, rfl⟩, hwords⟩ := h sapIntrKey hmem
  have hlookup : generators.lookup sapIntrKey = some sapIntrKeyGenerate := rfl
  rw [hlookup] at hg
  cases hg
  have hlimit : ∀ i < 8, sapIntrKeyGenerate.limits.getD i 0 ≤ i := by decide
  have hzero : ∀ i, 7 < i → d i = 0 := by
    intro i hi
    have hle := hd i
    rwa [List.getD_eq_default _ _ (show sapIntrKeyGenerate.limits.length ≤ i from hi),
      Nat.le_zero] at hle
  let draws : Shuffle.Draws 7 :=
    { draw := d
      le := fun i => by
        rcases Nat.lt_or_ge i 8 with hi | hi
        · exact Nat.le_trans (hd i) (hlimit i hi)
        · rw [hzero i hi]
          exact Nat.zero_le i
      eq_zero := hzero }
  rw [hwords _ List.mem_cons_self]
  exact interleaves_sapIntrKeyOf draws

/-- **No register ever holds what is not a key**: whatever is lost, fails or comes in between, the
registers of each key of either station hold a number that `Generate` can come to. In particular
the one of the interleaver always has an order of the indices. -/
theorem run_generates (h₀ : s₀.Starts)
    (hfile : Readable KeyClass.Generates s₀.master.keys s₀.master.keyfile)
    (hes : ∀ e ∈ es, e.Generated) (hr : run Stations.step s₀ es = some s) :
    HoldsSome KeyClass.Generates s.master.keys s.master.hw ∧
      HoldsSome KeyClass.Generates s.slave.keys s.slave.hw ∧
      Interleaves (s.master.hw sapIntrKey.regname) ∧
      Interleaves (s.slave.hw sapIntrKey.regname) := by
  obtain ⟨-, hmaster, hslave⟩ : s.Inv ∧ s.Sound KeyClass.Generates :=
    run_invariant_of_meets (I := fun s => s.Inv ∧ s.Sound KeyClass.Generates)
      (fun _ _ _ h he hstep => ⟨h.1.step hstep, h.2.step h.1 (he.draws _) hstep⟩)
      ⟨h₀.inv, h₀.sound hfile⟩ (meets_of_forall hes) hr
  exact ⟨hmaster.hw, hslave.hw, HoldsSome.interleaves hmaster.hw, HoldsSome.interleaves hslave.hw⟩

/-- What `Generate` comes to if the least number is drawn each time. -/
def leastValues (k : KeyClass) : KeyValue :=
  ((generators.lookup k).map fun g => g.make fun _ => 0).getD ⟨0, 0⟩

theorem generates_leastValues (hk : k ∈ generators.map Prod.fst) : k.Generates (leastValues k) := by
  simp only [generators, List.map_cons, List.map_nil, List.mem_cons, List.not_mem_nil,
    or_false] at hk
  rcases hk with rfl | rfl | rfl | rfl | rfl | rfl | rfl | rfl
  all_goals exact ⟨_, rfl, fun _ => 0, fun _ => Nat.zero_le _, rfl⟩

/-- Two stations of one type that have just read one file of keys. -/
def stationsWith (t : ModemType) (file : Option Text) : Stations :=
  let station (isMaster : Bool) : Station :=
    { type := t, isMaster, state := .waitConnect, srcfile := none, keyfile := file
      hw := (installKeys t.keys file fun _ => 0).1, ended := none }
  ⟨station true, station false, false⟩

theorem starts_stationsWith (hnone : (installKeys t.keys file fun _ => 0).2 = none) :
    (stationsWith t file).Starts :=
  have hholds := holds_installKeys t.nodup_registers hnone
  ⟨rfl, rfl, rfl, rfl, rfl, rfl, rfl, hholds, hholds⟩

/-- Both have the keys of the least draws. -/
def leastStations : Stations :=
  stationsWith .rtkU (some (ModemType.rtkU.keyFile leastValues))

theorem readFrom_leastValues {t : ModemType} (hk : k ∈ t.keys) :
    k.readFrom (some (t.keyFile leastValues)) = .ok (leastValues k) :=
  readFrom_keyFile (fun _ hk => (generates_leastValues (t.mem_generators hk)).range) hk

theorem starts_leastStations : leastStations.Starts :=
  starts_stationsWith (installKeys_eq_none fun _ hk => ⟨_, readFrom_leastValues hk⟩)

/-- New keys are created and sent, and the slave installs them. -/
def leastRun : List StationEvent :=
  let i : Input := ⟨none, false, .exited 0, .exited 0, leastValues⟩
  [.link true, .slave i, .master i false, .master i false, .master i false, .master i true,
    .link false, .slave i]

theorem run_generates_leastRun : ∃ s, run Stations.step leastStations leastRun = some s ∧
    Interleaves (s.slave.hw sapIntrKey.regname) := by
  obtain ⟨s, hs⟩ : ∃ s, run Stations.step leastStations leastRun = some s := by
    rw [← Option.isSome_iff_exists]
    decide +kernel
  have hfile : Readable KeyClass.Generates leastStations.master.keys
      leastStations.master.keyfile := by
    intro k hk value hread
    have hvalue := readFrom_leastValues (t := .rtkU) hk
    cases hvalue.symm.trans hread
    exact generates_leastValues (ModemType.mem_generators .rtkU hk)
  have hes : ∀ e ∈ leastRun, e.Generated := by
    have hi : ∀ k ∈ generators.map Prod.fst, k.Generates (leastValues k) :=
      fun _ => generates_leastValues
    simp only [leastRun, List.forall_mem_cons, StationEvent.Generated]
    exact ⟨trivial, trivial, hi, hi, hi, hi, trivial, trivial, by simp⟩
  exact ⟨s, hs, (run_generates starts_leastStations hfile hes hs).2.2.2⟩

end Runs

end ModemFhss.KeySender
