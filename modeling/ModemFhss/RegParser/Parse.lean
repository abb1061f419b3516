import ModemFhss.Library.Pattern

/-!
# Names in the register map (`regmap.cpp`)

`regmap_c::Parse` makes an entry of a register's declaration: the match of `m_rxRegName` without the
prefix, in lower case, and the address. Text is a list of characters, one for each byte.
-/

namespace ModemFhss.RegParser

abbrev Text := List Char

/-- `regentry_t`: the name of a register and its address. -/
structure RegMapEntry where
  name : Text
  address : UInt32
  deriving DecidableEq, Repr

/-- `[A-Z0-9_]` -/
def isNameChar (c : Char) : Bool := ('A' ≤ c && c ≤ 'Z') || ('0' ≤ c && c ≤ '9') || c = '_'

def regNamePrefix : Text := "ADDR_REG_".toList

/-- `regex_replace` of a fixed text by nothing, with `skip` characters of an occurrence to go. -/
def erase (pattern : Text) : Nat → Text → Text
  | _, [] => []
  | skip + 1, _ :: cs => erase pattern skip cs
  | 0, c :: cs =>
    if pattern.isPrefixOf (c :: cs) then
      erase pattern (pattern.length - 1) cs
    else
      c :: erase pattern 0 cs

/-- The name in a match of `m_rxRegName`. -/
def regName (str : Text) : Text := (erase regNamePrefix 0 str).map Char.toLower

/-- The matches of `m_rxRegName`. -/
def IsRegName (str : Text) : Prop :=
  ∃ name, str = regNamePrefix ++ name ∧ name ≠ [] ∧ ∀ c ∈ name, isNameChar c = true

/-- An entry that `Parse` can put into the map. -/
def Parsed (entry : RegMapEntry) : Prop := ∃ str, IsRegName str ∧ entry.name = regName str

variable {c : Char} {cs pattern str name : Text} {skip : Nat} {entry : RegMapEntry}

/-! ## Names with the prefix in them -/

/-- The length of an occurrence at the beginning of a text. -/
def occurrence (pattern : Text) (text : Text) : Nat :=
  if pattern.isPrefixOf text then pattern.length else 0

theorem erase_eq (hne : pattern ≠ []) :
    erase pattern skip cs = Pattern.erase (occurrence pattern) skip cs := by
  obtain ⟨a, l, rfl⟩ := List.exists_cons_of_ne_nil hne
  induction cs generalizing skip with
  | nil => cases skip <;> rfl
  | cons c cs ih =>
    cases skip with
    | succ skip => exact ih
    | zero =>
      by_cases hoccurs : (a :: l).isPrefixOf (c :: cs) = true
      · have hlength : occurrence (a :: l) (c :: cs) = l.length + 1 := if_pos hoccurs
        simp only [erase, Pattern.erase, hlength, if_pos hoccurs]
        exact ih
      · have hzero : occurrence (a :: l) (c :: cs) = 0 := if_neg hoccurs
        rw [Pattern.erase_cons hzero, erase, if_neg hoccurs, ih]

theorem erase_eq_self_iff (hne : pattern ≠ []) : erase pattern 0 cs = cs ↔ ¬ pattern <:+: cs := by
  rw [erase_eq hne, Pattern.erase_eq_self_iff]
  constructor
  · rintro h ⟨front, rest, rfl⟩
    have hsuffix : pattern ++ rest <:+ front ++ pattern ++ rest :=
      ⟨front, (List.append_assoc ..).symm⟩
    have hzero := h _ hsuffix (by simp [hne])
    have hoccurs : pattern.isPrefixOf (pattern ++ rest) = true :=
      List.isPrefixOf_iff_prefix.mpr (List.prefix_append _ _)
    rw [occurrence, if_pos hoccurs] at hzero
    exact hne (List.eq_nil_of_length_eq_zero hzero)
  · intro h t ht _
    refine if_neg fun hoccurs => h ?_
    exact (List.isPrefixOf_iff_prefix.mp hoccurs).isInfix.trans ht.isInfix

/-- A register has the name that is declared unless that holds the prefix again. -/
theorem regName_eq_iff : regName (regNamePrefix ++ name) = name.map Char.toLower ↔
    ¬ regNamePrefix <:+: name := by
  have herase : erase regNamePrefix 0 (regNamePrefix ++ name) = erase regNamePrefix 0 name := rfl
  have hne : regNamePrefix ≠ [] := by decide
  rw [regName, herase, ← erase_eq_self_iff hne]
  constructor
  · intro h
    have hlength := congrArg List.length h
    rw [List.length_map, List.length_map] at hlength
    rw [erase_eq hne] at hlength ⊢
    exact Pattern.erase_sublist.eq_of_length hlength
  · intro h
    rw [h]

/-! ## The characters of a name -/

theorem mem_of_mem_erase (h : c ∈ erase pattern skip cs) : c ∈ cs := by
  induction cs generalizing skip with
  | nil => exact h
  | cons d cs ih =>
    cases skip with
    | succ skip => exact List.mem_cons_of_mem _ (ih h)
    | zero =>
      unfold erase at h
      split at h
      · exact List.mem_cons_of_mem _ (ih h)
      · rcases List.mem_cons.mp h with rfl | hmem
        · exact List.mem_cons_self
        · exact List.mem_cons_of_mem _ (ih hmem)

theorem isNameChar_of_isRegName (h : IsRegName str) (hc : c ∈ str) : isNameChar c = true := by
  obtain ⟨name, rfl, -, hname⟩ := h
  rcases List.mem_append.mp hc with hprefix | hmem
  · have hall : regNamePrefix.all isNameChar = true := by decide
    exact List.all_eq_true.mp hall c hprefix
  · exact hname c hmem

theorem toLower_ne {d : Char} (h : isNameChar c = true) (hd : isNameChar d = false)
    (hlt : d.val.toNat < 97) : c.toLower ≠ d := by
  intro heq
  unfold Char.toLower at heq
  split at heq
  · next hupper =>
    have hval := congrArg (fun d : Char => d.val.toNat) heq
    have hle : c.val.toNat ≤ 90 := hupper.2
    have hge : 65 ≤ c.val.toNat := hupper.1
    have hdist : ('a'.val - 'A'.val).toNat = 32 := by decide
    dsimp only at hval
    rw [UInt32.toNat_add] at hval
    omega
  · rw [heq, hd] at h
    cases h

/-- What a name in the text cannot have is not in the one that is made of it. -/
theorem Parsed.not_mem {d : Char} (h : Parsed entry) (hd : isNameChar d = false)
    (hlt : d.val.toNat < 97) : d ∉ entry.name := by
  obtain ⟨str, hstr, hname⟩ := h
  rw [hname, regName, List.mem_map]
  rintro ⟨c, hc, heq⟩
  exact toLower_ne (isNameChar_of_isRegName hstr (mem_of_mem_erase hc)) hd hlt heq

theorem Parsed.zero_not_mem (h : Parsed entry) : '\x00' ∉ entry.name :=
  h.not_mem (by decide) (by decide)

theorem Parsed.slash_not_mem (h : Parsed entry) : '/' ∉ entry.name :=
  h.not_mem (by decide) (by decide)

end ModemFhss.RegParser
