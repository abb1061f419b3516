import ModemFhss.Ad9361.TapFormat

/-!
# What a filter's file should give

The taps of the file, followed by zeros, and no trace of the comments. The loader does that for a
file whose comments do not look like taps, with 128 taps at most (`loadsExactly_of_loadable`). A
file of one byte it never finishes, and of a file of one line it reads the last byte apart.
-/

namespace ModemFhss.Ad9361

open Lines Numeral
open Registers (Text)

def File.lines (file : File) : List Text := Lines.lines (· = '\n') file.text

/-- The taps of a file, in order. -/
def File.coefficients (file : File) : List (Int16 × Int16) := file.lines.filterMap coefficient?

/-- Lines with a comma are comments or taps. -/
def IsFir (file : File) : Prop :=
  ∀ line ∈ file.lines, ',' ∈ line → IsComment line ∨ (coefficient? line).isSome = true

/-- 64 or 128, whatever the taps fit in. -/
def coefSize (taps : List (Int16 × Int16)) : UInt8 := if taps.length ≤ 64 then 64 else 128

/-- The call comes to its end, stores in bounds, and leaves what the file says. -/
structure LoadsExactly (file : File) (initParam : InitParam) (tx : TXFIRConfig)
    (rx : RXFIRConfig) : Prop where
  terminates : ∃ fuel r, ad9361GetConfigFir fuel (some file) initParam tx rx = some r
  inBounds : ∀ fuel e, ad9361GetConfigFir fuel (some file) initParam tx rx ≠ some (.error e)
  few : ∀ fuel r, ad9361GetConfigFir fuel (some file) initParam tx rx = some (.ok r) → r.ret = 0 →
    file.coefficients.length ≤ 128
  exact : ∀ fuel r, ad9361GetConfigFir fuel (some file) initParam tx rx = some (.ok r) →
    r.ret = 0 →
      r.tx.txCoef.toList = file.coefficients.map Prod.fst ++
        List.replicate (128 - file.coefficients.length) 0 ∧
      r.rx.rxCoef.toList = file.coefficients.map Prod.snd ++
        List.replicate (128 - file.coefficients.length) 0 ∧
      r.tx.txCoefSize = coefSize file.coefficients ∧ r.rx.rxCoefSize = coefSize file.coefficients
  /-- Reading a comment changes nothing. -/
  comments : ∀ line ∈ file.lines, IsComment line → ∀ buf ∈ pieces file.text line, ∀ s,
    loadLine s buf = .ok s

/-- The files that are loaded as they should. -/
structure Loadable (file : File) : Prop where
  notOneByte : file.text.length ≠ 1
  counted : ∀ line ∈ file.lines, ∀ buf ∈ pieces file.text line, counted buf = true →
    (coefficient? line).isSome = true
  few : file.coefficients.length ≤ 128
  /-- The second number of a tap that is the whole file is followed by something, or it is 0. -/
  uncut : ∀ a b, file.text ∈ file.lines → coefficient? file.text = some (a, b) →
    (∃ c ∈ file.text.getLast?, isDigit 10 c = true) → b = 0

variable {file : File} {line buf : Text} {s : Loading} {c : Char} {a b : Int16}
  {taps : List (Int16 × Int16)} {initParam : InitParam} {tx : TXFIRConfig} {rx : RXFIRConfig}

/-! ## Comments -/

theorem not_coefficient_of_isComment (h : IsComment line) : coefficient? line = none := by
  cases hline : coefficient? line with
  | none => rfl
  | some p =>
    obtain ⟨sign, digits, sign', digits', blanks, htap, -⟩ := coefficient?_eq_some hline
    have hmem : '#' ∈ line := List.mem_of_mem_head? h
    rcases htap.char hmem with hc | hc | hc | hc <;> exact absurd hc (by decide)

theorem pathClks_nil (old : Vector UInt32 6) : pathClks [] old = old := by
  ext i hi
  simp [pathClks, uint32]

/-- No format of the loop begins like a comment. -/
theorem loadLine_of_head (h : buf.head? = some '#') (hnot : counted buf = false) :
    loadLine s buf = .ok s := by
  have hkind : lineKind (cString buf) ≠ .coef := of_decide_eq_false hnot
  obtain ⟨text, rfl⟩ : ∃ text, buf = '#' :: text := List.head?_eq_some_iff.mp h
  have hstring : cString ('#' :: text) = '#' :: cString text := rfl
  unfold loadLine
  rw [hstring] at hkind ⊢
  cases hcase : lineKind ('#' :: cString text) with
  | coef => exact absurd hcase hkind
  | rtx =>
    exact congrArg (fun clks => Except.ok { s with tx := { s.tx with txPathClks := clks } })
      (pathClks_nil s.tx.txPathClks)
  | rrx =>
    exact congrArg (fun clks => Except.ok { s with rx := { s.rx with rxPathClks := clks } })
      (pathClks_nil s.rx.rxPathClks)
  | _ => rfl

/-- No tag fits in one character. -/
theorem loadLine_singleton (hnot : counted [c] = false) : loadLine s [c] = .ok s := by
  have hshort : (cString [c]).length ≤ 1 := (List.takeWhile_prefix _).length_le
  have hkind : lineKind (cString [c]) ≠ .coef := of_decide_eq_false hnot
  have hother : lineKind (cString [c]) = if ',' ∈ cString [c] then .coef else .other := by
    apply lineKind_of_no_tag
    intro tag _ hlong hpart
    have hle := hpart.length_le
    omega
  unfold loadLine
  split at hother
  · exact absurd hother hkind
  · rw [hother]
    rfl

/-- **A comment that is not counted is passed over**, whatever there is in it. -/
theorem loadLine_of_isComment (h : IsComment line) (hone : file.text.length ≠ 1)
    (hbuf : buf ∈ pieces file.text line) (hnot : counted buf = false) :
    loadLine s buf = .ok s := by
  by_cases hline : line = file.text
  · obtain ⟨init, c, hconcat⟩ := (List.eq_nil_or_concat line).resolve_left (by
      rintro rfl
      cases h)
    rw [List.concat_eq_append] at hconcat
    rw [← hline, hconcat, pieces_self] at hbuf
    rcases List.mem_cons.mp hbuf with rfl | hlast
    · apply loadLine_of_head _ hnot
      cases buf with
      | nil =>
        rw [← hline, hconcat] at hone
        exact absurd rfl hone
      | cons d buf =>
        rw [hconcat] at h
        exact h
    · rw [List.mem_singleton.mp hlast] at hnot ⊢
      exact loadLine_singleton hnot
  · rw [pieces_of_ne hline, List.mem_singleton] at hbuf
    rw [hbuf] at hnot ⊢
    exact loadLine_of_head h hnot

/-- A line that is counted changes something. -/
theorem loadLine_ne_self (h : counted buf = true) : loadLine s buf ≠ .ok s := by
  intro hsame
  have hindex := index_of_loadLine hsame
  have hlt := s.index.toNat_lt
  rw [h, if_pos rfl] at hindex
  omega

/-! ## Which files are loaded exactly -/

theorem finish_of_loaded (initParam : InitParam) (h : Loaded taps s) :
    (finish initParam s).ret = 0 ∧
      (finish initParam s).tx.txCoef = s.tx.txCoef ∧ (finish initParam s).rx.rxCoef = s.rx.rxCoef ∧
        (finish initParam s).tx.txCoefSize = coefSize taps ∧
          (finish initParam s).rx.rxCoefSize = coefSize taps := by
  have hle := h.le
  unfold finish coefSize maxNumTapsInterpolation1 maxNumTapsInterpolation2
  rw [h.index]
  by_cases hsmall : taps.length ≤ 64
  · simp [hsmall]
  · simp [hsmall, hle]

section counting

variable (hcounted : ∀ line ∈ file.lines, ∀ buf ∈ pieces file.text line, counted buf = true →
  (coefficient? line).isSome = true)

include hcounted

/-- Where only taps are counted, each of them is counted once. -/
theorem length_filter_pieces (hline : line ∈ file.lines) :
    ((pieces file.text line).filter counted).length = (coefficient? line).toList.length := by
  cases hcoef : coefficient? line with
  | none =>
    have hnone : (pieces file.text line).filter counted = [] := by
      rw [List.filter_eq_nil_iff]
      intro buf hbuf hbufCounted
      have hsome := hcounted line hline buf hbuf hbufCounted
      rw [hcoef] at hsome
      cases hsome
    rw [hnone]
    rfl
  | some p =>
    obtain ⟨buf, b', hfilter, -⟩ := filter_pieces hcoef file.text
    rw [hfilter]
    rfl

theorem countP_reads : file.reads.countP counted = file.coefficients.length := by
  unfold File.reads File.coefficients
  rw [List.countP_flatMap, List.filterMap_eq_flatMap_toList, List.length_flatMap]
  congr 1
  apply List.map_congr_left
  intro line hline
  rw [Function.comp_apply, List.countP_eq_length_filter]
  exact length_filter_pieces hcounted hline

end counting

/-- The lines that are counted are the taps. -/
theorem taps_eq (h : Loadable file) : (file.reads.filter counted).map tap = file.coefficients := by
  have hline : ∀ line ∈ file.lines,
      ((pieces file.text line).filter counted).map tap = (coefficient? line).toList := by
    intro line hmem
    have hlength := length_filter_pieces h.counted hmem
    cases hcoef : coefficient? line with
    | none =>
      rw [hcoef] at hlength
      rw [List.eq_nil_of_length_eq_zero hlength]
      rfl
    | some p =>
      obtain ⟨a, b⟩ := p
      obtain ⟨buf, b', hfilter, -, htap, hcut⟩ := filter_pieces hcoef file.text
      have hb : b' = b := by
        apply hcut.mpr
        rintro rfl hdigit
        exact h.uncut a b hmem hcoef hdigit
      rw [hfilter, List.map_singleton, htap, hb]
      rfl
  unfold File.reads File.coefficients
  rw [List.filter_flatMap, List.map_flatMap, List.filterMap_eq_flatMap_toList]
  exact List.flatMap_congr hline

theorem loadsExactly_of_loadable (h : Loadable file) : LoadsExactly file initParam tx rx := by
  have htaps := taps_eq h
  have hcount := countP_reads h.counted
  have hle : ([] : List (Int16 × Int16)).length + file.reads.countP counted ≤ 128 := by
    rw [hcount, List.length_nil, Nat.zero_add]
    exact h.few
  obtain ⟨s, hrun, hloaded⟩ := loaded_foldlM (loaded_loading tx rx) hle
  rw [htaps, List.nil_append] at hloaded
  obtain ⟨-, htx, hrx, htxSize, hrxSize⟩ := finish_of_loaded initParam hloaded
  have hcall {r : Except Fault Return} {fuel : Nat}
      (hr : ad9361GetConfigFir fuel (some file) initParam tx rx = some r) :
      r = .ok (finish initParam s) := by
    rw [(call_eq_some_iff.mp ⟨fuel, hr⟩).2, hrun]
    rfl
  constructor
  · obtain ⟨fuel, hr⟩ := call_eq_some_iff.mpr ⟨h.notOneByte, rfl⟩
    exact ⟨fuel, _, hr⟩
  · intro fuel e hr
    cases hcall hr
  · intro fuel r hr _
    exact h.few
  · intro fuel r hr _
    cases hcall hr
    rw [htx, hrx]
    exact ⟨hloaded.tx, hloaded.rx, htxSize, hrxSize⟩
  · -- what is counted is a tap, and no comment is one
    intro line hline hcomment buf hbuf s
    apply loadLine_of_isComment hcomment h.notOneByte hbuf
    rw [Bool.eq_false_iff]
    intro hcounted
    have hsome := h.counted line hline buf hbuf hcounted
    rw [not_coefficient_of_isComment hcomment] at hsome
    cases hsome

/-! ## No other file of taps is -/

/-- There is a first element with `n` elements like it before it. -/
theorem exists_split_of_lt_countP {α : Type} {p : α → Bool} {n : Nat} {xs : List α}
    (h : n < xs.countP p) :
    ∃ before x after, xs = before ++ x :: after ∧ p x = true ∧ before.countP p = n := by
  induction xs generalizing n with
  | nil => cases h
  | cons x xs ih =>
    rw [List.countP_cons] at h
    cases hx : p x with
    | true =>
      cases n with
      | zero => exact ⟨[], x, xs, rfl, hx, rfl⟩
      | succ n =>
        obtain ⟨before, y, after, rfl, hy, hcount⟩ := ih (n := n) (by simp [hx] at h; omega)
        exact ⟨x :: before, y, after, rfl, hy, by rw [List.countP_cons, hcount, hx]; rfl⟩
    | false =>
      obtain ⟨before, y, after, rfl, hy, hcount⟩ := ih (n := n) (by simpa [hx] using h)
      exact ⟨x :: before, y, after, rfl, hy, by rw [List.countP_cons, hcount, hx]; rfl⟩

theorem counted_of_loadsExactly (hfir : IsFir file) (h : LoadsExactly file initParam tx rx)
    (hline : line ∈ file.lines) (hbuf : buf ∈ pieces file.text line)
    (hcounted : counted buf = true) : (coefficient? line).isSome = true := by
  have hcomma : ',' ∈ line := subset_of_mem_pieces hbuf (mem_of_counted hcounted)
  rcases hfir line hline hcomma with hcomment | hcoef
  · have hsame := h.comments line hline hcomment buf hbuf (loading tx rx)
    exact absurd hsame (loadLine_ne_self hcounted)
  · exact hcoef

/-- Of the 129th tap, the first number is stored out of bounds. -/
theorem few_of_inBounds (hone : file.text.length ≠ 1)
    (hcounted : ∀ line ∈ file.lines, ∀ buf ∈ pieces file.text line, counted buf = true →
      (coefficient? line).isSome = true)
    (h : ∀ fuel e, ad9361GetConfigFir fuel (some file) initParam tx rx ≠ some (.error e)) :
    file.coefficients.length ≤ 128 := by
  by_contra hmany
  have hcount := countP_reads hcounted
  obtain ⟨before, buf, after, hsplit, hbuf, hbefore⟩ :=
    exists_split_of_lt_countP (by rw [hcount]; omega : 128 < file.reads.countP counted)
  have hmem : buf ∈ file.reads := by simp [hsplit]
  obtain ⟨line, hline, hpiece⟩ := List.mem_flatMap.mp hmem
  obtain ⟨⟨a, b⟩, hcoef⟩ := Option.isSome_iff_exists.mp (hcounted line hline buf hpiece hbuf)
  obtain ⟨first, b', hfilter, hne, -⟩ := filter_pieces hcoef file.text
  -- a tap's line is counted once, and has a number
  have hfirst : buf = first := by
    have hin : buf ∈ (pieces file.text line).filter counted := List.mem_filter.mpr ⟨hpiece, hbuf⟩
    rwa [hfilter, List.mem_singleton] at hin
  have herror : ∃ e, file.reads.foldlM loadLine (loading tx rx) = .error e := by
    rw [foldlM_eq_error_iff]
    refine ⟨before, buf, after, hsplit, hbuf, hfirst ▸ hne, ?_⟩
    rw [hbefore]
    exact Nat.le_refl 128
  obtain ⟨e, he⟩ := herror
  obtain ⟨fuel, hr⟩ := call_eq_some_iff.mpr ⟨hone, rfl⟩
  rw [he] at hr
  exact h fuel e hr

/-- A number that was cut off is not the one in the file. -/
theorem uncut_of_exact (hone : file.text.length ≠ 1)
    (h : ∀ fuel r, ad9361GetConfigFir fuel (some file) initParam tx rx = some (.ok r) → r.ret = 0 →
      r.rx.rxCoef.toList = file.coefficients.map Prod.snd ++
        List.replicate (128 - file.coefficients.length) 0)
    (hmem : file.text ∈ file.lines) (hcoef : coefficient? file.text = some (a, b))
    (hdigit : ∃ c ∈ file.text.getLast?, isDigit 10 c = true) : b = 0 := by
  obtain ⟨buf, b', hfilter, -, htap, hcut⟩ := filter_pieces hcoef file.text
  have hlines : file.lines = [file.text] := lines_eq_singleton hmem
  have hcoefs : file.coefficients = [(a, b)] := by
    rw [File.coefficients, hlines]
    simp [hcoef]
  have hreads : file.reads = pieces file.text file.text := by
    change file.lines.flatMap _ = _
    rw [hlines, List.flatMap_singleton]
  -- one tap is loaded, with what was left of its second number
  have hle : ([] : List (Int16 × Int16)).length + file.reads.countP counted ≤ 128 := by
    rw [hreads, List.countP_eq_length_filter, hfilter]
    exact Nat.le_add_left 1 127
  obtain ⟨s, hrun, hloaded⟩ := loaded_foldlM (loaded_loading tx rx) hle
  obtain ⟨fuel, hr⟩ : ∃ fuel, ad9361GetConfigFir fuel (some file) initParam tx rx =
      some (.ok (finish initParam s)) := by
    rw [call_eq_some_iff, hrun]
    exact ⟨hone, rfl⟩
  obtain ⟨hret, -, hrx, -⟩ := finish_of_loaded initParam hloaded
  have hlist := h fuel _ hr hret
  rw [hrx, hloaded.rx, hreads, hfilter, hcoefs] at hlist
  have hb : b' = b := by simpa [htap] using hlist
  exact hcut.mp hb rfl hdigit

/-- **Which files are loaded as they should**: those with 128 taps at most where nothing else is
counted as one, that have not got just one byte and do not end in their only line's last number. -/
theorem loadsExactly_iff (file : File) (initParam : InitParam) (tx : TXFIRConfig)
    (rx : RXFIRConfig) :
    (IsFir file → (LoadsExactly file initParam tx rx ↔ Loadable file)) ∧
      (Loadable file → LoadsExactly file initParam tx rx) := by
  refine ⟨fun hfir => ⟨fun h => ?_, loadsExactly_of_loadable⟩, loadsExactly_of_loadable⟩
  obtain ⟨fuel, r, hr⟩ := h.terminates
  have hone := (call_eq_some_iff.mp ⟨fuel, hr⟩).1
  have hcounted : ∀ line ∈ file.lines, ∀ buf ∈ pieces file.text line, counted buf = true →
      (coefficient? line).isSome = true := by
    intro line hline buf hbuf
    exact counted_of_loadsExactly hfir h hline hbuf
  refine ⟨hone, hcounted, few_of_inBounds hone hcounted h.inBounds, ?_⟩
  intro a b hmem hcoef hdigit
  exact uncut_of_exact hone (fun fuel r hr hret => (h.exact fuel r hr hret).2.1) hmem hcoef hdigit

/-- Comments, the gain of one direction, and two taps, with the ends of lines of the wizard. -/
def plainFile : File where
  text := "# Generated\r\nTX 3 GAIN 0 INT 1\r\n-411,-439\r\n-116,-111\r\n".toList
  length_lt := by decide

theorem loadsExactly_plainFile : IsFir plainFile ∧ LoadsExactly plainFile default default default ∧
    plainFile.coefficients = [(-411, -439), (-116, -111)] := by
  have hfir : IsFir plainFile := by
    unfold IsFir
    decide +kernel
  refine ⟨hfir, ((loadsExactly_iff plainFile default default default).1 hfir).mpr ?_,
    by decide +kernel⟩
  have hmany : plainFile.text ∉ plainFile.lines := by decide +kernel
  refine ⟨by decide, by decide +kernel, by decide +kernel, ?_⟩
  intro a b hmem
  exact absurd hmem hmany

/-- A comment that takes the place of a tap. -/
def commentFile : File where
  text := "# tx, rx\n5,6\n".toList
  length_lt := by decide

/-- The comment is the first tap, with zeros, and the file's only tap comes second. -/
theorem commentFile_not_loadsExactly :
    IsFir commentFile ∧ commentFile.coefficients = [(5, 6)] ∧
      (∃ fuel r, ad9361GetConfigFir fuel (some commentFile) default default default =
          some (.ok r) ∧ r.ret = 0 ∧ r.tx.txCoef.toList = [0, 5] ++ List.replicate 126 0) ∧
      ¬ LoadsExactly commentFile default default default := by
  have hcoefs : commentFile.coefficients = [(5, 6)] := by decide +kernel
  have htaps : (commentFile.reads.filter counted).map tap = [(0, 0), (5, 6)] := by decide +kernel
  have hle : ([] : List (Int16 × Int16)).length + commentFile.reads.countP counted ≤ 128 := by
    decide +kernel
  obtain ⟨s, hrun, hloaded⟩ := loaded_foldlM (loaded_loading default default) hle
  rw [htaps] at hloaded
  obtain ⟨hret, htx, -⟩ := finish_of_loaded default hloaded
  obtain ⟨fuel, hr⟩ : ∃ fuel, ad9361GetConfigFir fuel (some commentFile) default default default =
      some (.ok (finish default s)) := by
    rw [call_eq_some_iff, hrun]
    exact ⟨by decide, rfl⟩
  have hlist : (finish default s).tx.txCoef.toList = [0, 5] ++ List.replicate 126 0 := by
    rw [htx, hloaded.tx]
    rfl
  refine ⟨by unfold IsFir; decide +kernel, hcoefs, ⟨fuel, _, hr, hret, hlist⟩, fun h => ?_⟩
  obtain ⟨hexact, -⟩ := h.exact fuel _ hr hret
  rw [hlist, hcoefs] at hexact
  exact absurd (List.cons.inj hexact).1 (by decide)

end ModemFhss.Ad9361
