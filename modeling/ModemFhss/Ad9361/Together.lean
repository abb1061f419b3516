import ModemFhss.Ad9361.Literal
import ModemFhss.Library.Assignments

/-!
# Keys and values

In a file that is one mapping of scalars, a value belongs to the key before it, and a field gets
the number of the last value of its key. The loop gives the values of unknown keys to the last
known one, and not every number survives the base and the type it is read with.
-/

namespace ModemFhss.Ad9361

open Assignments

variable {tokens rest : List Token} {entries : List (String × String)} {initParam : InitParam}
variable {f : Field} {key : Option Field} {tk : String} {s : Scan} {fuel : Nat}

/-! ## One key, one value -/

theorem find?_finRange {n : Nat} {p : Fin n → Bool} {i : Fin n} (h : ∀ j, p j = true ↔ j = i) :
    (List.finRange n).find? p = some i := by
  cases hfind : (List.finRange n).find? p with
  | none => exact absurd ((h i).mpr rfl) (List.find?_eq_none.mp hfind i (List.mem_finRange i))
  | some j => rw [(h j).mp (List.find?_some hfind)]

theorem fieldOf_eq_some_iff : fieldOf tk = some f ↔ tk = f.info.name := by
  constructor
  · intro h
    have hname := List.find?_some h
    exact (of_decide_eq_true hname).symm
  · rintro rfl
    apply find?_finRange
    intro g
    rw [decide_eq_true_iff]
    exact ⟨name_injective, fun h => h ▸ rfl⟩

/-- What `key` holds of a field that is known, and at first. -/
def codeOf : Option Field → UInt32
  | some f => keyOf f
  | none => 0

theorem keyOf_toNat (f : Field) : (keyOf f).toNat = f.val + 1 := by
  have hlt : f.val < fields.length := f.isLt
  have hlength : fields.length = 196 := by decide +kernel
  unfold keyOf
  rw [UInt32.toNat_ofNat_of_lt']
  show f.val + 1 < 4294967296
  omega

theorem parseKeys_codeOf : parseKeys tk (codeOf key) = codeOf ((fieldOf tk).or key) := by
  unfold parseKeys
  cases fieldOf tk <;> rfl

theorem fillAd9361St_keyOf : fillAd9361St initParam tk (keyOf f) = initParam.set f tk := by
  have hfind : (List.finRange fields.length).find? (fun g => keyOf f = keyOf g) = some f := by
    apply find?_finRange
    intro g
    rw [decide_eq_true_iff, ← UInt32.toNat_inj, keyOf_toNat, keyOf_toNat]
    omega
  unfold fillAd9361St
  rw [hfind]

theorem fillAd9361St_zero : fillAd9361St initParam tk 0 = initParam := by
  have hfind : (List.finRange fields.length).find? (fun g => (0 : UInt32) = keyOf g) = none := by
    apply List.find?_eq_none.mpr
    intro g _
    rw [decide_eq_true_iff, ← UInt32.toNat_inj, keyOf_toNat]
    exact Nat.zero_ne_add_one _
  unfold fillAd9361St
  rw [hfind]

/-! ## A flat mapping -/

/-- Whether a token changes anything or ends the loop. -/
def Token.significant : Token → Bool
  | .key | .value | .scalar _ | .streamEnd => true
  | _ => false

/-- A key and its value. -/
def entryTokens (e : String × String) : List Token := [.key, .scalar e.1, .value, .scalar e.2]

/-- The tokens of a mapping: keys and values in turn, and at places others, such as those that begin
and end it. -/
def IsFlatMapping (tokens : List Token) (entries : List (String × String)) : Prop :=
  tokens.filter Token.significant = entries.flatMap entryTokens ++ [.streamEnd]

instance (tokens : List Token) (entries : List (String × String)) :
    Decidable (IsFlatMapping tokens entries) := inferInstanceAs (Decidable (_ = _))

/-- The tokens of a mapping by lines. -/
def blockMapping (entries : List (String × String)) : List Token :=
  [.streamStart, .blockMappingStart] ++ entries.flatMap entryTokens ++ [.blockEnd, .streamEnd]

theorem isFlatMapping_blockMapping (entries : List (String × String)) :
    IsFlatMapping (blockMapping entries) entries := by
  have hentries : (entries.flatMap entryTokens).filter Token.significant =
      entries.flatMap entryTokens := by
    rw [List.filter_eq_self]
    intro token htoken
    obtain ⟨e, -, hmem⟩ := List.mem_flatMap.mp htoken
    simp only [entryTokens, List.mem_cons, List.not_mem_nil, or_false] at hmem
    rcases hmem with rfl | rfl | rfl | rfl <;> rfl
  unfold IsFlatMapping blockMapping
  rw [List.filter_append, List.filter_append, hentries]
  rfl

/-! ## The loop -/

theorem Scan.next_of_not_significant {token : Token} (h : token.significant = false) :
    s.next token = s := by
  cases token <;> first | rfl | cases h

theorem foldl_filter_significant (tokens : List Token) (s : Scan) :
    (tokens.filter Token.significant).foldl Scan.next s = tokens.foldl Scan.next s := by
  induction tokens generalizing s with
  | nil => rfl
  | cons token tokens ih =>
    cases h : token.significant with
    | true => rw [List.filter_cons_of_pos h, List.foldl_cons, List.foldl_cons, ih]
    | false =>
      rw [List.filter_cons_of_neg (by simp [h]), List.foldl_cons, Scan.next_of_not_significant h,
        ih]

/-- The loop goes on to the end of the stream, given as many rounds. -/
theorem tokenLoop_append (h : .streamEnd ∉ tokens) (fuel : Nat) (s : Scan) :
    tokenLoop fuel (tokens ++ .streamEnd :: rest) s =
      if tokens.length < fuel then some (tokens.foldl Scan.next s) else none := by
  induction tokens generalizing fuel s with
  | nil => cases fuel <;> simp [tokenLoop, Scan.next]
  | cons token tokens ih =>
    rw [List.mem_cons, not_or] at h
    cases fuel with
    | zero => simp [tokenLoop]
    | succ fuel => simp [tokenLoop, Ne.symm h.1, ih h.2]

/-- What the loop makes of one key and its value. -/
theorem foldl_entryTokens (e : String × String) (s : Scan) :
    (entryTokens e).foldl Scan.next s =
      { state := 1, key := parseKeys e.1 s.key,
        initParam := fillAd9361St s.initParam e.2 (parseKeys e.1 s.key) } := by
  simp [entryTokens, Scan.next]

/-- Values with an unknown key go to the field of the last known one. -/
theorem foldl_entries (entries : List (String × String)) (state : UInt32) (key : Option Field)
    (initParam : InitParam) :
    ((entries.flatMap entryTokens).foldl Scan.next
      { state, key := codeOf key, initParam }).initParam =
      (inherited fieldOf key entries).foldl (fun p e => p.set e.1 e.2) initParam := by
  induction entries generalizing state key initParam with
  | nil => rfl
  | cons e entries ih =>
    obtain ⟨k, v⟩ := e
    rw [List.flatMap_cons, List.foldl_append, foldl_entryTokens]
    simp only [parseKeys_codeOf]
    rw [ih]
    -- the field that `key` stands for after this entry
    cases h : (fieldOf k).or key with
    | none => rw [inherited_cons_of_or_eq_none h, codeOf, fillAd9361St_zero]
    | some f => rw [inherited_cons_of_or_eq_some h, codeOf, fillAd9361St_keyOf, List.foldl_cons]

/-- What a file assigns. -/
def assigned (initParam : InitParam) (entries : List (Field × String)) : InitParam :=
  { initParam with field := assign Field.convert initParam.field entries }

theorem foldl_set (entries : List (Field × String)) (initParam : InitParam) :
    entries.foldl (fun p e => p.set e.1 e.2) initParam = assigned initParam entries := by
  induction entries generalizing initParam with
  | nil => rfl
  | cons e entries ih =>
    rw [List.foldl_cons, ih]
    rfl

theorem streamEnd_not_mem_entries (entries : List (String × String)) :
    .streamEnd ∉ entries.flatMap entryTokens := by
  simp [entryTokens]

/-- A flat mapping up to its end. -/
theorem IsFlatMapping.exists_eq (h : IsFlatMapping tokens entries) : ∃ pre post,
    tokens = pre ++ .streamEnd :: post ∧ .streamEnd ∉ pre ∧
      pre.filter Token.significant = entries.flatMap entryTokens := by
  -- `noise` is between the last value and the end of the stream
  obtain ⟨front, back, rfl, hfront, hback⟩ := List.filter_eq_append_iff.mp h
  obtain ⟨noise, post, rfl, hnoise, -, -⟩ := List.filter_eq_cons_iff.mp hback
  refine ⟨front ++ noise, post, by rw [List.append_assoc], ?_, ?_⟩
  · intro hmem
    rcases List.mem_append.mp hmem with hmem | hmem
    · apply streamEnd_not_mem_entries entries
      rw [← hfront]
      exact List.mem_filter.mpr ⟨hmem, rfl⟩
    · exact hnoise _ hmem rfl
  · rw [List.filter_append, hfront, List.filter_eq_nil_iff.mpr hnoise, List.append_nil]

/-- What a call does on a flat mapping. -/
theorem exists_ad9361GetConfig_iff (h : IsFlatMapping tokens entries) (initParam : InitParam)
    {r : InitParam} :
    (∃ fuel, ad9361GetConfig fuel (some tokens) true initParam = some (0, r)) ↔
      r = assigned initParam (inherited fieldOf none entries) := by
  obtain ⟨pre, post, rfl, hend, hpre⟩ := h.exists_eq
  have hfold : (pre.foldl Scan.next { state := 0, key := 0, initParam }).initParam =
      assigned initParam (inherited fieldOf none entries) := by
    rw [← foldl_filter_significant, hpre, ← foldl_set]
    exact foldl_entries entries 0 none initParam
  unfold ad9361GetConfig
  simp only [if_true, tokenLoop_append hend, ← hfold]
  constructor
  · rintro ⟨fuel, hcall⟩
    split at hcall
    · cases hcall
      rfl
    · cases hcall
  · rintro rfl
    refine ⟨pre.length + 1, ?_⟩
    rw [if_pos (Nat.lt_succ_self _)]
    rfl

/-! ## Who gets which value -/

theorem assigned_field (initParam : InitParam) (l : List (Field × String)) (f : Field) :
    (assigned initParam l).field f = ((last f l).map f.convert).getD (initParam.field f) :=
  assign_apply Field.convert initParam.field l f

theorem last_own_fieldOf (f : Field) (entries : List (String × String)) :
    last f (own fieldOf entries) = last f.info.name entries :=
  last_own fun _ => fieldOf_eq_some_iff

/-- The entries with a known key. -/
def known (entries : List (String × String)) : List (String × String) :=
  entries.filter fun e => (fieldOf e.1).isSome

theorem inherited_known (entries : List (String × String)) :
    inherited fieldOf none (known entries) = own fieldOf entries := by
  rw [inherited_eq_own, known, own_filter]
  intro e he
  exact (List.mem_filter.mp he).2

/-- What a call should leave of a mapping in the parameters: each field has the number of the last
value of its key if the number is one of its type; a field without a key in the mapping stays, as
do the parameters that are no fields; and keys that are unknown could as well not be there. -/
structure KeepsTogether (initParam : InitParam) (entries : List (String × String))
    (r : InitParam) : Prop where
  number : ∀ f tk n, last f.info.name entries = some tk → number? tk = some n →
    f.info.type.Holds n → (r.field f : Int) = n
  unchanged : ∀ f, (∀ e ∈ entries, e.1 ≠ f.info.name) → r.field f = initParam.field f
  others : r = { initParam with field := r.field }
  unknown : ∃ fuel, ad9361GetConfig fuel (some (blockMapping (known entries))) true initParam =
    some (0, r)

/-- The mappings that are read right: the last value that is taken for a field's is as good as the
last of its key, and its number is in the base and the range that the field is read with. -/
structure ReadsTogether (entries : List (String × String)) : Prop where
  value : ∀ (f : Field) tk tk', last f.info.name entries = some tk →
    last f (inherited fieldOf none entries) = some tk' → f.convert tk' = f.convert tk
  number : ∀ (f : Field) tk base n, last f.info.name entries = some tk →
    literal? tk = some (base, n) → f.info.type.Holds n → ReadsRight f.info.conversion base n

/-- A field whose key occurs gets the last value that is taken for its own. -/
theorem assigned_inherited_of_some (initParam : InitParam)
    (h : last f.info.name entries = some tk) : ∃ tk',
      last f (inherited fieldOf none entries) = some tk' ∧
        (assigned initParam (inherited fieldOf none entries)).field f = f.convert tk' := by
  cases hlast : last f (inherited fieldOf none entries) with
  | none =>
    rw [last_inherited_eq_none_iff, last_own_fieldOf, h] at hlast
    cases hlast
  | some tk' =>
    refine ⟨tk', rfl, ?_⟩
    rw [assigned_field, hlast]
    rfl

theorem assigned_inherited_of_none (initParam : InitParam) (h : last f.info.name entries = none) :
    (assigned initParam (inherited fieldOf none entries)).field f = initParam.field f := by
  have hlast : last f (inherited fieldOf none entries) = none := by
    rw [last_inherited_eq_none_iff, last_own_fieldOf, h]
  rw [assigned_field, hlast]
  rfl

/-- What the known keys alone would leave is what the values that are taken for a field's leave. -/
theorem assigned_inherited_eq_iff (initParam : InitParam) (entries : List (String × String)) :
    assigned initParam (inherited fieldOf none entries) =
        assigned initParam (own fieldOf entries) ↔
      ∀ (f : Field) tk tk', last f.info.name entries = some tk →
        last f (inherited fieldOf none entries) = some tk' → f.convert tk' = f.convert tk := by
  constructor
  · intro heq f tk tk' htk htk'
    have hfield := congrArg (fun r => r.field f) heq
    simp only [assigned_field, last_own_fieldOf, htk, htk'] at hfield
    exact hfield
  · intro hvalue
    have hfield : (assigned initParam (inherited fieldOf none entries)).field =
        (assigned initParam (own fieldOf entries)).field := by
      funext f
      cases htk : last f.info.name entries with
      | none =>
        rw [assigned_inherited_of_none initParam htk, assigned_field, last_own_fieldOf, htk]
        rfl
      | some tk =>
        obtain ⟨tk', htk', heq⟩ := assigned_inherited_of_some initParam htk
        rw [heq, assigned_field, last_own_fieldOf, htk]
        exact hvalue f tk tk' htk htk'
    exact congrArg (fun field => { initParam with field }) hfield

/-- A field holds the number of its last value if the number is read right. -/
theorem convert_eq_iff {base : Nat} {n : Int} (h : literal? tk = some (base, n))
    (hfits : f.info.type.Holds n) :
    (f.convert tk : Int) = n ↔ ReadsRight f.info.conversion base n :=
  wrap_number_eq_iff (mem_kinds f) h hfits

/-- Keys and values of a flat mapping are kept together where it is read right. -/
theorem keepsTogether_iff (h : IsFlatMapping tokens entries) (initParam : InitParam) :
    (∃ fuel r, ad9361GetConfig fuel (some tokens) true initParam = some (0, r) ∧
      KeepsTogether initParam entries r) ↔ ReadsTogether entries := by
  constructor
  · rintro ⟨fuel, r, hcall, htogether⟩
    have hr := (exists_ad9361GetConfig_iff h initParam).mp ⟨fuel, hcall⟩
    have hknown := (exists_ad9361GetConfig_iff (isFlatMapping_blockMapping _) initParam).mp
      htogether.unknown
    rw [inherited_known, hr] at hknown
    -- without the unknown keys the same is left, so what they gave away changed nothing
    have hvalue := (assigned_inherited_eq_iff initParam entries).mp hknown
    refine ⟨hvalue, ?_⟩
    intro f tk base n htk hlit hfits
    obtain ⟨tk', htk', hfield⟩ := assigned_inherited_of_some initParam htk
    rw [← convert_eq_iff hlit hfits, ← hvalue f tk tk' htk htk', ← hfield, ← hr]
    exact htogether.number f tk n htk (by rw [number?, hlit]; rfl) hfits
  · intro hreads
    obtain ⟨fuel, hcall⟩ := (exists_ad9361GetConfig_iff h initParam).mpr rfl
    refine ⟨fuel, _, hcall, ?_, ?_, rfl, ?_⟩
    · intro f tk n htk hnumber hfits
      obtain ⟨tk', htk', hfield⟩ := assigned_inherited_of_some initParam htk
      obtain ⟨⟨base, n'⟩, hlit, rfl⟩ := Option.map_eq_some_iff.mp hnumber
      rw [hfield, hreads.value f tk tk' htk htk', convert_eq_iff hlit hfits]
      exact hreads.number f tk base n' htk hlit hfits
    · intro f hnone
      exact assigned_inherited_of_none initParam (last_eq_none_iff.mpr hnone)
    · rw [exists_ad9361GetConfig_iff (isFlatMapping_blockMapping _), inherited_known]
      exact (assigned_inherited_eq_iff initParam entries).mpr hreads.value

/-- Two known keys, one of them twice, and two unknown ones. -/
def mixedEntries : List (String × String) :=
  [("board", "7"), ("id_no", "1"), ("reference_clk_rate", "19200000"), ("sample_rate", "7"),
    ("reference_clk_rate", "40000000UL")]

theorem keepsTogether_mixedEntries : ∃ fuel r,
    ad9361GetConfig fuel (some (blockMapping mixedEntries)) true default = some (0, r) ∧
      KeepsTogether default mixedEntries r := by
  have hall : ∀ f : Field, ∀ tk ∈ last f.info.name mixedEntries,
      last f (inherited fieldOf none mixedEntries) = some tk ∧
        ∀ x ∈ literal? tk, ReadsRight f.info.conversion x.1 x.2 := by
    decide +kernel
  refine (keepsTogether_iff (isFlatMapping_blockMapping _) default).mpr ⟨?_, ?_⟩
  · intro f tk tk' htk htk'
    rw [(hall f tk htk).1] at htk'
    cases htk'
    rfl
  · intro f tk base n htk hlit _
    exact (hall f tk htk).2 (base, n) hlit

/-- A value with an unknown key goes to the field before. -/
theorem strayValue_not_keepsTogether :
    ¬ ∃ fuel r, ad9361GetConfig fuel
        (some (blockMapping [("id_no", "1"), ("sample_rate", "7")])) true default = some (0, r) ∧
      KeepsTogether default [("id_no", "1"), ("sample_rate", "7")] r := by
  rintro ⟨fuel, r, hcall, htogether⟩
  let f : Field := ⟨0, by decide +kernel⟩
  have hone : (r.field f : Int) = 1 :=
    htogether.number f "1" 1 (by decide +kernel) (by decide +kernel) (by decide)
  have hr := (exists_ad9361GetConfig_iff (isFlatMapping_blockMapping _) default).mp ⟨fuel, hcall⟩
  have hid : fieldOf "id_no" = some f := fieldOf_eq_some_iff.mpr rfl
  have hrate : fieldOf "sample_rate" = none := by decide +kernel
  have hlast : last f (inherited fieldOf none [("id_no", "1"), ("sample_rate", "7")]) =
      some "7" := by
    rw [inherited_cons_of_some hid, inherited_cons_of_or_eq_some (by rw [hrate, Option.none_or])]
    rfl
  have hseven : (f.convert "7" : Int) = 7 := by decide +kernel
  rw [hr, assigned_field, hlast, Option.map_some, Option.getD_some, hseven] at hone
  cases hone

end ModemFhss.Ad9361
