import ModemFhss.Library.Machine
import ModemFhss.Ad9361.Pll

/-!
# The two carriers (`ad9361_rfpll_int_set_rate`)

With both directions on at once and one frequency for both, the VCOs use the tables of the other
mode; so when one carrier is set, the other may have to be set again, in another round of the loop.

* `RfpllSystem.rounds_spec` — the loop ends, and a carrier that is set again keeps its rate.
* `RfpllSystem.recalcRate_run` — what is read of each carrier is what it was last set to, up to the
  rounding.
-/

namespace ModemFhss.Ad9361

variable {σ : Type*}

/-- Of `struct ad9361_rf_phy`, with `current_tx_lo_freq` and the others by direction. -/
structure RfpllSystem (σ : Type*) where
  fdd : Bool
  fddIndependentMode : Bool
  currentLoFreq : Bool → Nat
  currentUseTddTable : Bool → Bool
  chip : σ

namespace RfpllSystem

def bothOn (x : RfpllSystem σ) : Bool := x.fdd && !x.fddIndependentMode

def sameFreq (x : RfpllSystem σ) : Bool := x.currentLoFreq true == x.currentLoFreq false

/-- Which table `ad9361_rfpll_vco_init` uses. -/
def vcoInit (x : RfpllSystem σ) (tx : Bool) : RfpllSystem σ :=
  { x with
    currentUseTddTable := Function.update x.currentUseTddTable tx (!(x.bothOn && !x.sameFreq)) }

def fixupOther (x : RfpllSystem σ) : Bool :=
  (x.bothOn && x.sameFreq && (x.currentUseTddTable true != x.currentUseTddTable false)) ||
    (x.bothOn && !x.sameFreq && (x.currentUseTddTable true || x.currentUseTddTable false))

/-- The body of the loop, up to its condition. -/
def round (c : Chip σ) (x : RfpllSystem σ) (tx : Bool) (d : RfpllDivider) : RfpllSystem σ :=
  { x.vcoInit tx with chip := writeRfpll c x.chip tx d }

/-- The dividers of the next round. What cannot be calculated again stays as it is. -/
def fixupDivider (devSel : DevId) (parentRate : Nat) (x : RfpllSystem σ) (tx : Bool)
    (d : RfpllDivider) : RfpllDivider :=
  if x.sameFreq then d else
  match calcRfpllIntDivder devSel (fromClk (x.currentLoFreq tx)) parentRate 7 with
  | some (.ok d) => d
  | _ => d

/-- The loop of `ad9361_rfpll_int_set_rate`, in so many rounds at most: `d` is written for the
carrier `tx`, then for the other one than `source`. -/
def rounds (devSel : DevId) (c : Chip σ) (parentRate : Nat) (source : Bool) :
    Nat → RfpllSystem σ → Bool → RfpllDivider → Option (RfpllSystem σ)
  | 0, _, _, _ => none
  | fuel + 1, x, tx, d =>
    let x := x.round c tx d
    if x.fixupOther then
      rounds devSel c parentRate source fuel x (!source)
        (x.fixupDivider devSel parentRate (!source) d)
    else some x

/-- The rate is recorded before it is written. -/
def record (x : RfpllSystem σ) (tx : Bool) (rate : Nat) : RfpllSystem σ :=
  { x with currentLoFreq := Function.update x.currentLoFreq tx rate }

/-- `ad9361_rfpll_int_set_rate`, in two rounds; a rate that is not allowed is not written. -/
def setRate (devSel : DevId) (c : Chip σ) (parentRate : Nat) (x : RfpllSystem σ) (tx : Bool)
    (rate : Nat) : Option (RfpllSystem σ) :=
  match calcRfpllIntDivder devSel (fromClk rate) parentRate 7 with
  | none => none
  | some (.error _) => some x
  | some (.ok d) => rounds devSel c parentRate tx 2 (x.record tx rate) tx d

end RfpllSystem

/-- What is done with the carriers: one is set to a rate, or read. -/
inductive RfpllOp where
  | set (tx : Bool) (rate : Nat)
  | recalc (tx : Bool)

/-- The rate that a carrier gets. -/
def RfpllOp.effect (devSel : DevId) : RfpllOp → Option (Bool × Nat)
  | set tx rate => if validateRfpll devSel (fromClk rate) = 0 then some (tx, rate) else none
  | recalc _ => none

namespace RfpllSystem

variable {devSel : DevId} {c : Chip σ} {regs : σ → BitVec 10 → Byte} {kept : BitVec 10 → Prop}
  {parentRate rate : Nat} {x y : RfpllSystem σ} {tx : Bool} {d : RfpllDivider}

/-- One reference is for both. -/
def step (devSel : DevId) (c : Chip σ) (parentRate : Nat) (x : RfpllSystem σ) :
    RfpllOp → Option (RfpllSystem σ)
  | .set tx rate => x.setRate devSel c parentRate tx rate
  | .recalc tx => some { x with chip := (rfpllIntRecalcRate c x.chip tx parentRate).2 }

/-- The carrier has the rate that is recorded for it. -/
structure Tuned (devSel : DevId) (regs : σ → BitVec 10 → Byte) (parentRate : Nat)
    (x : RfpllSystem σ) (tx : Bool) : Prop where
  valid : validateRfpll devSel (fromClk (x.currentLoFreq tx)) = 0
  meets : Meets (regs x.chip) tx (x.currentLoFreq tx) parentRate

/-- A carrier has only been set again if it was set. -/
def Inv (devSel : DevId) (regs : σ → BitVec 10 → Byte) (parentRate : Nat) (x : RfpllSystem σ) :
    Prop :=
  ∀ tx, x.currentUseTddTable tx = true → x.Tuned devSel regs parentRate tx

/-- One round, for a carrier that the dividers are right for. -/
theorem tuned_round (hc : c.Keeps regs kept) (hkept : ∀ a, RfpllReg a → kept a)
    (hvalid : validateRfpll devSel (fromClk (x.currentLoFreq tx)) = 0)
    (hd : ∀ s, Meets (regs (writeRfpll c s tx d)) tx (x.currentLoFreq tx) parentRate) :
    (x.round c tx d).Tuned devSel regs parentRate tx ∧
      ∀ t, t ≠ tx → x.Tuned devSel regs parentRate t →
        (x.round c tx d).Tuned devSel regs parentRate t :=
  ⟨⟨hvalid, hd _⟩, fun _ hne h =>
    ⟨h.valid, meets_writeRfpll_of_ne hc hkept (Ne.symm hne) h.meets⟩⟩

theorem useTddTable_round (c : Chip σ) (x : RfpllSystem σ) (tx t : Bool) (d : RfpllDivider) :
    (x.round c tx d).currentUseTddTable t =
      if t = tx then !(x.bothOn && !x.sameFreq) else x.currentUseTddTable t :=
  Function.update_apply ..

/-- Once both tables are chosen for the same frequencies, nothing is set again. -/
theorem fixupOther_eq_false
    (h : ∀ t, x.currentUseTddTable t = !(x.bothOn && !x.sameFreq)) : x.fixupOther = false := by
  unfold fixupOther
  rw [h, h]
  cases x.bothOn <;> cases x.sameFreq <;> rfl

/-- When the other carrier is set again, it was set before, or the frequencies are the same. -/
theorem useTddTable_of_fixupOther {x : RfpllSystem σ}
    (h : x.fixupOther = true) (hsame : x.sameFreq = false)
    (htx : x.currentUseTddTable tx = !(x.bothOn && !x.sameFreq)) :
    x.currentUseTddTable (!tx) = true := by
  unfold fixupOther at h
  cases tx <;> cases hon : x.bothOn <;> simp_all

/-- The other carrier gets the dividers of its own rate. -/
theorem fixupDivider_spec (hc : c.Keeps regs kept) (hkept : ∀ a, RfpllReg a → kept a)
    (hp : 2 * minVcoFreqHz < 2048 * parentRate) (hfix : x.fixupOther = true)
    (htx : x.currentUseTddTable tx = !(x.bothOn && !x.sameFreq))
    (hvalid : validateRfpll devSel (fromClk (x.currentLoFreq tx)) = 0)
    (hd : ∀ s t, Meets (regs (writeRfpll c s t d)) t (x.currentLoFreq tx) parentRate)
    (hother : x.currentUseTddTable (!tx) = true → x.Tuned devSel regs parentRate !tx) :
    validateRfpll devSel (fromClk (x.currentLoFreq !tx)) = 0 ∧
    ∀ s, Meets (regs (writeRfpll c s (!tx) (x.fixupDivider devSel parentRate (!tx) d))) (!tx)
      (x.currentLoFreq !tx) parentRate := by
  unfold fixupDivider
  cases hsame : x.sameFreq with
  | true =>
    have heq : (x.currentLoFreq !tx) = x.currentLoFreq tx := by
      have h : x.currentLoFreq true = x.currentLoFreq false := by simpa [sameFreq] using hsame
      cases tx
      · exact h
      · exact h.symm
    rw [if_pos rfl, heq]
    exact ⟨hvalid, fun s => hd s _⟩
  | false =>
    have hvalid' := (hother (useTddTable_of_fixupOther hfix hsame htx)).valid
    obtain ⟨d', hcalc, hmeets⟩ := exists_divider hc hkept hvalid' hp
    rw [if_neg Bool.false_ne_true, hcalc]
    exact ⟨hvalid', fun s => hmeets s _⟩

theorem rounds_spec (hc : c.Keeps regs kept) (hkept : ∀ a, RfpllReg a → kept a)
    (hp : 2 * minVcoFreqHz < 2048 * parentRate)
    (hvalid : validateRfpll devSel (fromClk (x.currentLoFreq tx)) = 0)
    (hd : ∀ s t, Meets (regs (writeRfpll c s t d)) t (x.currentLoFreq tx) parentRate)
    (hother : x.currentUseTddTable (!tx) = true → x.Tuned devSel regs parentRate !tx) :
    ∃ y, rounds devSel c parentRate tx 2 x tx d = some y ∧
      y.currentLoFreq = x.currentLoFreq ∧ y.Tuned devSel regs parentRate tx ∧
      (x.Tuned devSel regs parentRate (!tx) → y.Tuned devSel regs parentRate !tx) ∧
      Inv devSel regs parentRate y := by
  have hne : (!tx) ≠ tx := by cases tx <;> decide
  have hcases : ∀ t, t = tx ∨ t = !tx := by cases tx <;> decide
  obtain ⟨htuned, hkeeps⟩ := tuned_round (x := x) hc hkept hvalid fun s => hd s tx
  have htx : (x.round c tx d).currentUseTddTable tx = !(x.bothOn && !x.sameFreq) := by
    rw [useTddTable_round, if_pos rfl]
  have hother₁ : (x.round c tx d).currentUseTddTable (!tx) = true →
      (x.round c tx d).Tuned devSel regs parentRate !tx := by
    rw [useTddTable_round, if_neg hne]
    exact fun h => hkeeps _ hne (hother h)
  unfold rounds
  dsimp only
  cases hfix : (x.round c tx d).fixupOther with
  | false =>
    refine ⟨x.round c tx d, rfl, rfl, htuned, hkeeps _ hne, fun t ht => ?_⟩
    obtain rfl | rfl := hcases t
    · exact htuned
    · exact hother₁ ht
  | true =>
    rw [if_pos rfl]
    obtain ⟨hvalid', hmeets⟩ := fixupDivider_spec hc hkept hp hfix htx hvalid hd hother₁
    generalize (x.round c tx d).fixupDivider devSel parentRate (!tx) d = d' at hmeets ⊢
    obtain ⟨htuned', hkeeps'⟩ := tuned_round (x := x.round c tx d) hc hkept hvalid' hmeets
    have hends : ((x.round c tx d).round c (!tx) d').fixupOther = false := by
      apply fixupOther_eq_false
      intro t
      rw [useTddTable_round]
      obtain rfl | rfl := hcases t
      · rw [if_neg (Ne.symm hne), htx]
        rfl
      · rw [if_pos rfl]
        rfl
    unfold rounds
    dsimp only
    rw [hends]
    refine ⟨(x.round c tx d).round c (!tx) d', rfl, rfl, hkeeps' _ (Ne.symm hne) htuned,
      fun _ => htuned', fun t _ => ?_⟩
    obtain rfl | rfl := hcases t
    · exact hkeeps' _ (Ne.symm hne) htuned
    · exact htuned'

theorem record_self : (x.record tx rate).currentLoFreq tx = rate := Function.update_self ..

theorem Tuned.record (h : x.Tuned devSel regs parentRate !tx) :
    (x.record tx rate).Tuned devSel regs parentRate !tx := by
  have hlo : (x.record tx rate).currentLoFreq (!tx) = x.currentLoFreq !tx :=
    Function.update_of_ne (by cases tx <;> decide) _ _
  refine ⟨?_, ?_⟩
  · rw [hlo]
    exact h.valid
  · rw [hlo]
    exact h.meets

theorem setRate_spec (tx : Bool) (hc : c.Keeps regs kept) (hkept : ∀ a, RfpllReg a → kept a)
    (hp : 2 * minVcoFreqHz < 2048 * parentRate) (hx : Inv devSel regs parentRate x)
    (hvalid : validateRfpll devSel (fromClk rate) = 0) :
    ∃ y, x.setRate devSel c parentRate tx rate = some y ∧
      y.currentLoFreq = (x.record tx rate).currentLoFreq ∧ y.Tuned devSel regs parentRate tx ∧
      (x.Tuned devSel regs parentRate (!tx) → y.Tuned devSel regs parentRate !tx) ∧
      Inv devSel regs parentRate y := by
  obtain ⟨d, hcalc, hmeets⟩ := exists_divider hc hkept hvalid hp
  have hd : ∀ s t, Meets (regs (writeRfpll c s t d)) t ((x.record tx rate).currentLoFreq tx)
      parentRate := by
    rw [record_self]
    exact hmeets
  obtain ⟨y, hy, hlo, htuned, hother, hinv⟩ := rounds_spec hc hkept hp
    (by rw [record_self]; exact hvalid) hd fun h => (hx _ h).record
  refine ⟨y, ?_, hlo, htuned, fun h => hother h.record, hinv⟩
  unfold setRate
  rw [hcalc]
  exact hy

theorem step_of_none (parentRate : Nat) (hc : c.Keeps regs kept)
    (hkept : ∀ a, RfpllReg a → kept a) {op : RfpllOp} (h : op.effect devSel = none) :
    ∃ y, x.step devSel c parentRate op = some y ∧
      y.currentLoFreq = x.currentLoFreq ∧ y.currentUseTddTable = x.currentUseTddTable ∧
      ∀ tx, synth (regs y.chip) tx = synth (regs x.chip) tx := by
  cases op with
  | set tx rate =>
    have hret : validateRfpll devSel (fromClk rate) ≠ 0 := by
      intro hvalid
      simp [RfpllOp.effect, hvalid] at h
    refine ⟨x, ?_, rfl, rfl, fun _ => rfl⟩
    rw [step, setRate, calcRfpllIntDivder]
    dsimp only
    rw [if_pos hret]
  | recalc tx =>
    have hkeeps : ∀ a, kept a →
        regs (rfpllIntRecalcRate c x.chip tx parentRate).2 a = regs x.chip a :=
      fun a ha => recalc_keeps hc ha
    refine ⟨{ x with chip := (rfpllIntRecalcRate c x.chip tx parentRate).2 }, rfl, rfl, rfl,
      fun tx' => ?_⟩
    apply synth_congr
    · intro i hi
      exact hkeeps _ (hkept _ (rfpllReg_synthReg hi))
    · unfold Fields.BitField.read
      rw [RegField.field_addr]
      exact congrArg _ (hkeeps _ (hkept _ rfpllReg_vcoDivider))

theorem Tuned.congr (hlo : y.currentLoFreq = x.currentLoFreq)
    (hsynth : synth (regs y.chip) tx = synth (regs x.chip) tx)
    (h : x.Tuned devSel regs parentRate tx) : y.Tuned devSel regs parentRate tx := by
  refine ⟨by rw [hlo]; exact h.valid, ?_⟩
  unfold Meets
  rw [hlo, hsynth]
  exact h.meets

/-- After a run every carrier that was set is tuned to its last rate. -/
theorem tuned_run (hc : c.Keeps regs kept) (hkept : ∀ a, RfpllReg a → kept a)
    (hp : 2 * minVcoFreqHz < 2048 * parentRate) (hx : Inv devSel regs parentRate x)
    (ops : List RfpllOp) : ∃ y, Machine.run (step devSel c parentRate) x ops = some y ∧
      Inv devSel regs parentRate y ∧ ∀ tx rate,
        Assignments.last tx (ops.filterMap (RfpllOp.effect devSel)) = some rate →
        y.currentLoFreq tx = rate ∧ y.Tuned devSel regs parentRate tx := by
  induction ops using List.reverseRecOn with
  | nil => exact ⟨x, rfl, hx, fun _ _ h => by cases h⟩
  | append_singleton ops op ih =>
    obtain ⟨y, hy, hinv, hlast⟩ := ih
    have hrun : ∀ z, step devSel c parentRate y op = some z →
        Machine.run (step devSel c parentRate) x (ops ++ [op]) = some z := by
      intro z hz
      rw [Machine.run_append hy]
      exact Machine.run_cons hz
    cases heffect : op.effect devSel with
    | none =>
      obtain ⟨z, hz, hlo, htable, hsynth⟩ :=
        step_of_none (x := y) parentRate hc hkept heffect
      refine ⟨z, hrun z hz, fun tx ht => (hinv tx (htable ▸ ht)).congr hlo (hsynth tx), ?_⟩
      intro tx rate h
      rw [List.filterMap_append, List.filterMap_cons_none heffect, List.filterMap_nil,
        List.append_nil] at h
      obtain ⟨hfreq, htuned⟩ := hlast tx rate h
      exact ⟨hlo ▸ hfreq, htuned.congr hlo (hsynth tx)⟩
    | some e =>
      cases op with
      | recalc tx' => cases heffect
      | set tx' rate' =>
        have heffect' := heffect
        simp only [RfpllOp.effect, Option.ite_none_right_eq_some, Option.some.injEq] at heffect'
        obtain ⟨hvalid, rfl⟩ := heffect'
        obtain ⟨z, hz, hlo, htuned, hother, hinv'⟩ :=
          setRate_spec tx' hc hkept hp hinv hvalid
        refine ⟨z, hrun z hz, hinv', fun tx rate h => ?_⟩
        rw [List.filterMap_append, List.filterMap_cons_some heffect, List.filterMap_nil,
          Assignments.last_append_singleton] at h
        by_cases htx : tx' = tx
        · subst htx
          rw [if_pos rfl] at h
          cases h
          exact ⟨by rw [hlo, record_self], htuned⟩
        · rw [if_neg htx] at h
          obtain rfl : tx = !tx' := by
            revert htx
            cases tx <;> cases tx' <;> decide
          obtain ⟨hfreq, htuned'⟩ := hlast _ rate h
          refine ⟨?_, hother htuned'⟩
          rw [hlo]
          exact (Function.update_of_ne (Ne.symm htx) _ _).trans hfreq

/-- **Each carrier has the rate that it was last set to**, up to the rounding of its word, whatever
was set and read for the other one, and whatever was refused: the loop of each call ends, and a
carrier that it sets again gets its own rate. -/
theorem recalcRate_run (hc : c.Keeps regs kept) (hkept : ∀ a, RfpllReg a → kept a)
    (hp : 2 * minVcoFreqHz < 2048 * parentRate) (hp32 : parentRate < 2 ^ 32)
    (hx : Inv devSel regs parentRate x) (ops : List RfpllOp) :
    ∃ y, Machine.run (step devSel c parentRate) x ops = some y ∧ ∀ tx rate,
      Assignments.last tx (ops.filterMap (RfpllOp.effect devSel)) = some rate →
      (rfpllIntRecalcRate c y.chip tx parentRate).1 ≤ rate + parentRate / (2 * rfpllModulus) ∧
        rate ≤ (rfpllIntRecalcRate c y.chip tx parentRate).1 +
          parentRate / (2 * rfpllModulus) + 2 := by
  obtain ⟨y, hy, -, hlast⟩ := tuned_run hc hkept hp hx ops
  refine ⟨y, hy, fun tx rate h => ?_⟩
  obtain ⟨rfl, htuned⟩ := hlast tx rate h
  have hmeets := htuned.meets
  rw [recalc_eq hc hkept]
  unfold Meets at hmeets
  generalize calcRfpllIntFreq _ _ _ _ = freq at hmeets ⊢
  unfold toClk
  rw [Nat.shiftRight_eq_div_pow, Nat.pow_one]
  simp only [rfpllModulus, maxCarrierFreqHz] at *
  omega

/-- Nothing is set yet. -/
def untuned : RfpllSystem (BitVec 10 → Byte) where
  fdd := true
  fddIndependentMode := false
  currentLoFreq _ := 0
  currentUseTddTable _ := false
  chip _ := 0xFF#8

/-- 2.4 GHz for both, in the units of half of them, then 2 GHz for one; and a rate that is
refused. -/
def carrierOps : List RfpllOp :=
  [.set true 1200000000, .set false 1200000000, .recalc true, .set false 1000000000,
    .set true 4000000000]

theorem recalcRate_run_carrierOps : ∃ y,
    Machine.run (step .ad9361 registerFile 40000000) untuned carrierOps = some y ∧
    (rfpllIntRecalcRate registerFile y.chip true 40000000).1 ≤ 1200000002 ∧
    1200000000 ≤ (rfpllIntRecalcRate registerFile y.chip true 40000000).1 + 4 := by
  have hx : Inv .ad9361 id 40000000 untuned := fun _ h => by cases h
  obtain ⟨y, hy, hlast⟩ := recalcRate_run (registerFile_keeps fun _ => True)
    (fun _ _ => trivial) (by decide) (by decide) hx carrierOps
  exact ⟨y, hy, hlast true 1200000000 (by decide)⟩

end RfpllSystem

end ModemFhss.Ad9361
