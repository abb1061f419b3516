import Mathlib.Tactic.SplitIfs
import ModemFhss.Ad9361.Fir

/-!
# The taps of a filter

What a run of the loop leaves, line by line: each line that is counted puts its numbers at the next
index, with the index modulo 256, and the other lines leave the coefficients alone.
-/

namespace ModemFhss.Ad9361

open Lines
open Registers (Text)

/-- The line is taken for a tap. -/
def counted (line : Text) : Bool := lineKind (cString line) = .coef

/-- The numbers of a line that is taken for a tap. -/
def tapNumbers (line : Text) : List Int := sscanf (directives "%hi,%hi".toList) (cString line)

/-- What a number leaves among coefficients that are zero. -/
def coefOf (n : Option Int) : Int16 := (n.map Int16.ofInt).getD 0

/-- What a line leaves that is taken for a tap. -/
def tap (line : Text) : Int16 × Int16 :=
  (coefOf (tapNumbers line)[0]?, coefOf (tapNumbers line)[1]?)

/-- What `fgets` gives, in order. -/
def File.reads (file : File) : List Text :=
  (lines (· = '\n') file.text).flatMap (pieces file.text)

/-- The coefficients are those of the taps so far, followed by zeros. -/
structure Loaded (taps : List (Int16 × Int16)) (s : Loading) : Prop where
  index : s.index.toNat = taps.length
  le : taps.length ≤ 128
  tx : s.tx.txCoef.toList = taps.map Prod.fst ++ List.replicate (128 - taps.length) 0
  rx : s.rx.rxCoef.toList = taps.map Prod.snd ++ List.replicate (128 - taps.length) 0

variable {line buf : Text} {ls : List Text} {s s' : Loading} {e : Fault} {n : Option Int}
  {ns : List Int} {coef : Vector Int16 128} {index : UInt8} {xs : List Int16}
  {taps : List (Int16 × Int16)} {file : File} {initParam : InitParam} {tx : TXFIRConfig}
  {rx : RXFIRConfig}

/-! ## The kinds of lines -/

theorem lineKind_of_no_tag (h : ∀ tag : Text, 'X' ∈ tag → 2 ≤ tag.length → ¬ tag <:+: buf) :
    lineKind buf = if ',' ∈ buf then .coef else .other := by
  unfold lineKind
  rw [if_neg (fun htag => h _ (by decide) (by decide) htag.1),
    if_neg (fun htag => h _ (by decide) (by decide) htag.1), if_neg (h _ (by decide) (by decide)),
    if_neg (h _ (by decide) (by decide)), if_neg (h _ (by decide) (by decide)),
    if_neg (h _ (by decide) (by decide))]

/-- Every tag has an `X` in it. -/
theorem lineKind_of_not_mem (h : 'X' ∉ buf) :
    lineKind buf = if ',' ∈ buf then .coef else .other := by
  apply lineKind_of_no_tag
  intro tag hmem _ hpart
  exact h (hpart.subset hmem)

theorem mem_of_lineKind (h : lineKind buf = .coef) : ',' ∈ buf := by
  unfold lineKind at h
  split_ifs at h with _ _ _ _ _ _ hmem
  exact hmem

theorem mem_of_counted (h : counted line = true) : ',' ∈ line := by
  have hmem := mem_of_lineKind (of_decide_eq_true h)
  exact (List.takeWhile_prefix _).subset hmem

/-- A line that is not counted has nothing to do with the coefficients. -/
theorem loadLine_of_not_counted (h : counted line = false) : ∃ s', loadLine s line = .ok s' ∧
    s'.index = s.index ∧ s'.tx.txCoef = s.tx.txCoef ∧ s'.rx.rxCoef = s.rx.rxCoef := by
  have hkind : lineKind (cString line) ≠ .coef := of_decide_eq_false h
  unfold loadLine
  cases hcase : lineKind (cString line) with
  | coef => exact absurd hcase hkind
  | _ => exact ⟨_, rfl, rfl, rfl, rfl⟩

theorem loadLine_of_counted (h : counted line = true) :
    loadLine s line = loadCoef s (tapNumbers line) := by
  have hkind : lineKind (cString line) = .coef := of_decide_eq_true h
  unfold loadLine
  rw [hkind]
  rfl

/-! ## One tap -/

theorem storeCoef_eq_error_iff : storeCoef coef index n = .error e ↔
    e = .outOfBounds index.toNat ∧ n ≠ none ∧ 128 ≤ index.toNat := by
  cases n with
  | none => simp [storeCoef]
  | some n =>
    unfold storeCoef
    by_cases hlt : index.toNat < 128
    · simp [hlt]
    · simp [hlt, Nat.le_of_not_lt hlt, eq_comm]

/-- A store in bounds, among coefficients that are zero from there on. -/
theorem storeCoef_of_lt (hindex : index.toNat = xs.length) (hlt : xs.length < 128)
    (hcoef : coef.toList = xs ++ List.replicate (128 - xs.length) 0) :
    ∃ coef', storeCoef coef index n = .ok coef' ∧
      coef'.toList = xs ++ [coefOf n] ++ List.replicate (128 - (xs.length + 1)) 0 := by
  have hzeros : List.replicate (128 - xs.length) (0 : Int16) =
      0 :: List.replicate (128 - (xs.length + 1)) 0 := by
    rw [← List.replicate_succ]
    congr 1
    omega
  rw [hzeros] at hcoef
  cases n with
  | none => exact ⟨coef, rfl, by rw [hcoef]; simp [coefOf]⟩
  | some n =>
    have hbound : index.toNat < 128 := hindex ▸ hlt
    refine ⟨_, dif_pos hbound, ?_⟩
    rw [Vector.toList_set, hcoef, hindex, List.set_append_right _ _ (Nat.le_refl _)]
    simp [coefOf]

theorem toNat_succ (index : UInt8) : (index + 1).toNat = (index.toNat + 1) % 256 := rfl

/-- A tap that is stored moves the index. -/
theorem index_of_loadCoef (h : loadCoef s ns = .ok s') : s'.index = s.index + 1 := by
  unfold loadCoef at h
  split at h
  · cases h
    rfl
  · cases h
  · cases h

/-- A tap goes wrong if it has a number and comes too late. -/
theorem loadCoef_eq_error_iff :
    (∃ e, loadCoef s ns = .error e) ↔ ns ≠ [] ∧ 128 ≤ s.index.toNat := by
  unfold loadCoef
  constructor
  · rintro ⟨e, h⟩
    split at h
    · cases h
    · next htx =>
      obtain ⟨-, hne, hge⟩ := storeCoef_eq_error_iff.mp htx
      refine ⟨?_, hge⟩
      rintro rfl
      exact hne rfl
    · next hrx _ =>
      obtain ⟨-, hne, hge⟩ := storeCoef_eq_error_iff.mp hrx
      refine ⟨?_, hge⟩
      rintro rfl
      exact hne rfl
  · rintro ⟨hne, hge⟩
    obtain ⟨n, ns, rfl⟩ := List.exists_cons_of_ne_nil hne
    have htx : storeCoef s.tx.txCoef s.index (some n) = .error (.outOfBounds s.index.toNat) :=
      storeCoef_eq_error_iff.mpr ⟨rfl, Option.some_ne_none n, hge⟩
    exact ⟨_, by rw [List.getElem?_cons_zero, htx]⟩

/-- A tap in bounds, among coefficients that are zero from there on. -/
theorem loaded_loadCoef (h : Loaded taps s) (hlt : taps.length < 128) : ∃ s',
    loadCoef s ns = .ok s' ∧ Loaded (taps ++ [(coefOf ns[0]?, coefOf ns[1]?)]) s' := by
  have hindex : s.index.toNat = (taps.map Prod.fst).length ∧
      s.index.toNat = (taps.map Prod.snd).length := by simp [h.index]
  obtain ⟨txCoef, htx, htxList⟩ := storeCoef_of_lt (n := ns[0]?) hindex.1 (by simpa using hlt)
    (by simpa using h.tx)
  obtain ⟨rxCoef, hrx, hrxList⟩ := storeCoef_of_lt (n := ns[1]?) hindex.2 (by simpa using hlt)
    (by simpa using h.rx)
  refine ⟨_, by rw [loadCoef, htx, hrx], ?_, ?_, ?_, ?_⟩
  · rw [toNat_succ, h.index, List.length_append, List.length_singleton]
    omega
  · rw [List.length_append, List.length_singleton]
    omega
  · simpa using htxList
  · simpa using hrxList

/-! ## A run -/

/-- One line, whatever it is. -/
theorem loaded_loadLine (line : Text) (h : Loaded taps s)
    (hle : taps.length + (if counted line = true then 1 else 0) ≤ 128) : ∃ s',
      loadLine s line = .ok s' ∧
        Loaded (taps ++ if counted line = true then [tap line] else []) s' := by
  cases hcounted : counted line with
  | true =>
    rw [loadLine_of_counted hcounted, if_pos rfl]
    rw [hcounted, if_pos rfl] at hle
    exact loaded_loadCoef h hle
  | false =>
    obtain ⟨s', hok, hindex, htx, hrx⟩ := loadLine_of_not_counted (s := s) hcounted
    refine ⟨s', hok, ?_⟩
    rw [if_neg Bool.false_ne_true, List.append_nil]
    exact ⟨hindex ▸ h.index, h.le, htx ▸ h.tx, hrx ▸ h.rx⟩

/-- **What a run leaves** that counts 128 lines at most. -/
theorem loaded_foldlM (h : Loaded taps s) (hle : taps.length + ls.countP counted ≤ 128) : ∃ s',
    ls.foldlM loadLine s = .ok s' ∧ Loaded (taps ++ (ls.filter counted).map tap) s' := by
  induction ls generalizing taps s with
  | nil => exact ⟨s, rfl, by simpa using h⟩
  | cons line ls ih =>
    rw [List.countP_cons] at hle
    obtain ⟨s', hok, hloaded⟩ := loaded_loadLine line h (by omega)
    have hlength : (if counted line = true then [tap line] else []).length =
        if counted line = true then 1 else 0 := by split <;> rfl
    obtain ⟨t, hrest, ht⟩ := ih hloaded (by
      rw [List.length_append, hlength]
      omega)
    refine ⟨t, by rw [List.foldlM_cons, hok]; exact hrest, ?_⟩
    rw [List.filter_cons]
    cases hcounted : counted line with
    | true => simpa [hcounted] using ht
    | false => simpa [hcounted] using ht

theorem index_of_loadLine (h : loadLine s line = .ok s') :
    s'.index.toNat = (s.index.toNat + if counted line = true then 1 else 0) % 256 := by
  cases hcounted : counted line with
  | true =>
    rw [loadLine_of_counted hcounted] at h
    rw [index_of_loadCoef h]
    rfl
  | false =>
    obtain ⟨t, hok, hindex, -⟩ := loadLine_of_not_counted (s := s) hcounted
    cases h.symm.trans hok
    rw [hindex]
    exact (Nat.mod_eq_of_lt s.index.toNat_lt).symm

theorem index_of_foldlM (h : ls.foldlM loadLine s = .ok s') :
    s'.index.toNat = (s.index.toNat + ls.countP counted) % 256 := by
  induction ls generalizing s with
  | nil =>
    cases h
    exact (Nat.mod_eq_of_lt s'.index.toNat_lt).symm
  | cons line ls ih =>
    rw [List.foldlM_cons] at h
    cases hline : loadLine s line with
    | error e =>
      rw [hline] at h
      cases h
    | ok t =>
      rw [hline] at h
      rw [ih h, index_of_loadLine hline, List.countP_cons, Nat.mod_add_mod]
      congr 1
      omega

/-- A line goes wrong if it is counted, has a number and comes too late. -/
theorem loadLine_eq_error_iff : (∃ e, loadLine s line = .error e) ↔
    counted line = true ∧ tapNumbers line ≠ [] ∧ 128 ≤ s.index.toNat := by
  cases hcounted : counted line with
  | true =>
    rw [loadLine_of_counted hcounted, loadCoef_eq_error_iff]
    exact iff_and_self.mpr fun _ => rfl
  | false =>
    obtain ⟨t, hok, -⟩ := loadLine_of_not_counted (s := s) hcounted
    simp [hok]

/-- **Where a run goes wrong**: at a tap with a number whose place, modulo 256, is from 128 on. -/
theorem foldlM_eq_error_iff : (∃ e, ls.foldlM loadLine s = .error e) ↔
    ∃ before line after, ls = before ++ line :: after ∧ counted line = true ∧
      tapNumbers line ≠ [] ∧ 128 ≤ (s.index.toNat + before.countP counted) % 256 := by
  constructor
  · intro h
    -- either the first line goes wrong, or it moves the index on and a later one does
    induction ls generalizing s with
    | nil =>
      obtain ⟨e, h⟩ := h
      cases h
    | cons first ls ih =>
      rw [List.foldlM_cons] at h
      cases hfirst : loadLine s first with
      | error e =>
        obtain ⟨hcounted, hne, hge⟩ := loadLine_eq_error_iff.mp ⟨e, hfirst⟩
        refine ⟨[], first, ls, rfl, hcounted, hne, ?_⟩
        rwa [List.countP_nil, Nat.add_zero, Nat.mod_eq_of_lt s.index.toNat_lt]
      | ok t =>
        rw [hfirst] at h
        obtain ⟨before, line, after, heq, hcounted, hne, hge⟩ := ih h
        refine ⟨first :: before, line, after, by rw [heq]; rfl, hcounted, hne, ?_⟩
        rw [index_of_loadLine hfirst, Nat.mod_add_mod] at hge
        rw [List.countP_cons]
        convert hge using 2
        omega
  · rintro ⟨before, line, after, rfl, hcounted, hne, hge⟩
    rw [List.foldlM_append]
    cases hbefore : before.foldlM loadLine s with
    | error e => exact ⟨e, rfl⟩
    | ok t =>
      rw [← index_of_foldlM hbefore] at hge
      obtain ⟨e, hline⟩ := loadLine_eq_error_iff.mpr ⟨hcounted, hne, hge⟩
      refine ⟨e, ?_⟩
      change (line :: after).foldlM loadLine t = _
      rw [List.foldlM_cons, hline]
      rfl

/-! ## A call -/

theorem size_eq (file : File) : file.size = file.text.length := by
  unfold File.size
  rw [UInt32.toInt32_ofNat', Int32.toInt_ofNat_of_lt file.length_lt, Int.toNat_natCast]

theorem loadLine_nil (s : Loading) : loadLine s [] = .ok s := rfl

theorem loaded_loading (tx : TXFIRConfig) (rx : RXFIRConfig) : Loaded [] (loading tx rx) := by
  exact ⟨rfl, Nat.zero_le _, Vector.toList_replicate, Vector.toList_replicate⟩

/-- **What a call returns** of a file. -/
theorem call_eq_some_iff {r : Except Fault Return} :
    (∃ fuel, ad9361GetConfigFir fuel (some file) initParam tx rx = some r) ↔
      file.text.length ≠ 1 ∧
        r = (file.reads.foldlM loadLine (loading tx rx)).map (finish initParam) := by
  have hloop (r : Except Fault Loading) :
      (∃ fuel, readLoop (· = '\n') file.text.length loadLine fuel file.text (loading tx rx) =
        some r) ↔ file.text.length ≠ 1 ∧ r = file.reads.foldlM loadLine (loading tx rx) :=
    exists_readLoop_eq_some_iff loadLine_nil
  unfold ad9361GetConfigFir
  simp only [size_eq, Option.map_eq_some_iff]
  constructor
  · rintro ⟨fuel, r', hrun, rfl⟩
    obtain ⟨hone, rfl⟩ := (hloop _).mp ⟨fuel, hrun⟩
    exact ⟨hone, rfl⟩
  · rintro ⟨hone, rfl⟩
    obtain ⟨fuel, hrun⟩ := (hloop _).mpr ⟨hone, rfl⟩
    exact ⟨fuel, _, hrun, rfl⟩

end ModemFhss.Ad9361
