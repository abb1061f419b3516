import ModemFhss.Ad9361.Taps

/-!
# A filter that is rejected

The only check of a file comes when everything is loaded, and its branch returns at once: the
structures have what was loaded, the file is open and the buffer is not freed. So a call is clean if
the check does not fail. It looks at a counter of 8 bits, that a file of 257 taps brings back to 1.
-/

namespace ModemFhss.Ad9361

open Lines
open Registers (Text)

/-- The call stores in bounds, and if it returns an error there is nothing left of it. -/
structure RejectsCleanly (file : Option File) (initParam : InitParam) (tx : TXFIRConfig)
    (rx : RXFIRConfig) : Prop where
  inBounds : ∀ fuel e, ad9361GetConfigFir fuel file initParam tx rx ≠ some (.error e)
  untouched : ∀ fuel r, ad9361GetConfigFir fuel file initParam tx rx = some (.ok r) → r.ret ≠ 0 →
    r.initParam = initParam ∧ r.tx = tx ∧ r.rx = rx
  released : ∀ fuel r, ad9361GetConfigFir fuel file initParam tx rx = some (.ok r) → r.ret ≠ 0 →
    r.fileOpen = false ∧ r.bufAllocated = false

/-- The counter stays below 128 at each tap with a number, and does not end above. -/
structure Fits (file : File) : Prop where
  store : ∀ before buf after, file.reads = before ++ buf :: after → counted buf = true →
    tapNumbers buf ≠ [] → before.countP counted % 256 < 128
  check : file.reads.countP counted % 256 ≤ 128

variable {file : File} {s : Loading} {initParam : InitParam} {tx : TXFIRConfig} {rx : RXFIRConfig}

/-- What comes after the loop, and what it leaves. -/
theorem finish_ret (initParam : InitParam) (s : Loading) :
    (s.index.toNat ≤ 128 ∧ (finish initParam s).ret = 0) ∨
      (128 < s.index.toNat ∧ (finish initParam s).ret ≠ 0 ∧
        (finish initParam s).fileOpen = true) := by
  unfold finish maxNumTapsInterpolation1 maxNumTapsInterpolation2
  by_cases hsmall : s.index.toNat ≤ 64
  · left
    simp [hsmall]
    omega
  · by_cases hlarge : s.index.toNat ≤ 128
    · left
      simp [hsmall, hlarge]
    · right
      simp [hsmall, hlarge]
      omega

theorem index_loading (tx : TXFIRConfig) (rx : RXFIRConfig) : (loading tx rx).index.toNat = 0 := rfl

theorem index_of_run (h : file.reads.foldlM loadLine (loading tx rx) = .ok s) :
    s.index.toNat = file.reads.countP counted % 256 := by
  rw [index_of_foldlM h, index_loading, Nat.zero_add]

/-- A file that fits is loaded and accepted. -/
theorem run_of_fits (tx : TXFIRConfig) (rx : RXFIRConfig) (h : Fits file) : ∃ s,
    file.reads.foldlM loadLine (loading tx rx) = .ok s ∧ s.index.toNat ≤ 128 := by
  cases hrun : file.reads.foldlM loadLine (loading tx rx) with
  | error e =>
    obtain ⟨before, buf, after, hsplit, hbuf, hne, hge⟩ := foldlM_eq_error_iff.mp ⟨e, hrun⟩
    have hlt := h.store before buf after hsplit hbuf hne
    rw [index_loading, Nat.zero_add] at hge
    omega
  | ok s =>
    refine ⟨s, rfl, ?_⟩
    rw [index_of_run hrun]
    exact h.check

theorem fits_of_rejectsCleanly (h : RejectsCleanly (some file) initParam tx rx)
    (hone : file.text.length ≠ 1) : Fits file := by
  obtain ⟨fuel, hr⟩ := call_eq_some_iff.mpr ⟨hone, rfl⟩
  cases hrun : file.reads.foldlM loadLine (loading tx rx) with
  | error e =>
    rw [hrun] at hr
    exact absurd hr (h.inBounds fuel e)
  | ok s =>
    rw [hrun] at hr
    constructor
    · -- a tap beyond the end would be stored out of bounds
      intro before buf after hsplit hbuf hne
      by_contra hge
      have herror : ∃ e, file.reads.foldlM loadLine (loading tx rx) = .error e := by
        rw [foldlM_eq_error_iff]
        refine ⟨before, buf, after, hsplit, hbuf, hne, ?_⟩
        rw [index_loading, Nat.zero_add]
        exact Nat.le_of_not_lt hge
      obtain ⟨e, he⟩ := herror
      cases hrun.symm.trans he
    · rw [← index_of_run hrun]
      rcases finish_ret initParam s with ⟨hle, -⟩ | ⟨-, hret, hopen⟩
      · exact hle
      · -- the branch of the check leaves the file open
        have hclosed := (h.released fuel _ hr hret).1
        rw [hopen] at hclosed
        cases hclosed

/-- A file that fits is not rejected. -/
theorem ret_of_fits (h : Fits file) {fuel : Nat} {r : Except Fault Return}
    (hr : ad9361GetConfigFir fuel (some file) initParam tx rx = some r) :
    ∃ r', r = .ok r' ∧ r'.ret = 0 := by
  obtain ⟨-, rfl⟩ := call_eq_some_iff.mp ⟨fuel, hr⟩
  obtain ⟨s, hrun, hle⟩ := run_of_fits tx rx h
  refine ⟨finish initParam s, by rw [hrun]; rfl, ?_⟩
  rcases finish_ret initParam s with ⟨-, hret⟩ | ⟨hlt, -⟩
  · exact hret
  · omega

theorem rejectsCleanly_of_fits (h : file.text.length ≠ 1 → Fits file) :
    RejectsCleanly (some file) initParam tx rx := by
  have hzero {fuel : Nat} {r : Except Fault Return}
      (hr : ad9361GetConfigFir fuel (some file) initParam tx rx = some r) :
      ∃ r', r = .ok r' ∧ r'.ret = 0 :=
    ret_of_fits (h (call_eq_some_iff.mp ⟨fuel, hr⟩).1) hr
  constructor
  · intro fuel e hr
    obtain ⟨r', hr', -⟩ := hzero hr
    cases hr'
  · intro fuel r hr hne
    obtain ⟨r', hr', hret⟩ := hzero hr
    cases hr'
    exact absurd hret hne
  · intro fuel r hr hne
    obtain ⟨r', hr', hret⟩ := hzero hr
    cases hr'
    exact absurd hret hne

/-- Without a file nothing is touched. -/
theorem rejectsCleanly_none : RejectsCleanly none initParam tx rx := by
  constructor
  · intro fuel e hr
    cases hr
  · intro fuel r hr _
    cases hr
    exact ⟨rfl, rfl, rfl⟩
  · intro fuel r hr _
    cases hr
    exact ⟨rfl, rfl⟩

/-- **Which calls are clean**: those that find no file, or one that they never get to the end of,
and those whose file fits. -/
theorem rejectsCleanly_iff (file : Option File) (initParam : InitParam) (tx : TXFIRConfig)
    (rx : RXFIRConfig) : RejectsCleanly file initParam tx rx ↔
      ∀ f, file = some f → f.text.length = 1 ∨ Fits f := by
  constructor
  · rintro h f rfl
    by_cases hone : f.text.length = 1
    · exact .inl hone
    · exact .inr (fits_of_rejectsCleanly h hone)
  · intro h
    cases file with
    | none => exact rejectsCleanly_none
    | some f => exact rejectsCleanly_of_fits fun hone => (h f rfl).resolve_left hone

/-- 129 comments with a comma each. -/
def commaFile : File where
  text := (List.replicate 129 "#,\n".toList).flatten
  length_lt := by decide +kernel

/-- A filter that is already loaded. -/
def sevens : TXFIRConfig := { (default : TXFIRConfig) with txCoef := .replicate 128 7 }

/-- The file is rejected, the coefficients are gone, and the file stays open. -/
theorem commaFile_not_rejectsCleanly :
    (∃ fuel r, ad9361GetConfigFir fuel (some commaFile) default sevens default = some (.ok r) ∧
      r.ret = -1 ∧ r.tx ≠ sevens ∧ r.fileOpen = true ∧ r.bufAllocated = true) ∧
      ¬ RejectsCleanly (some commaFile) default sevens default := by
  have hrun : commaFile.reads.foldlM loadLine (loading sevens default) =
      .ok { loading sevens default with index := 129 } := by decide +kernel
  obtain ⟨fuel, hr⟩ : ∃ fuel, ad9361GetConfigFir fuel (some commaFile) default sevens default =
      some (.ok (finish default { loading sevens default with index := 129 })) := by
    rw [call_eq_some_iff, hrun]
    exact ⟨by decide +kernel, rfl⟩
  refine ⟨⟨fuel, _, hr, rfl, by decide +kernel, rfl, rfl⟩, fun h => ?_⟩
  exact absurd (h.released fuel _ hr (by decide)).1 (by decide)

end ModemFhss.Ad9361
