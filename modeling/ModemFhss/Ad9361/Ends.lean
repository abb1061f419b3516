import ModemFhss.Ad9361.Together

/-!
# When loading ends

The loop of `ad9361_get_config` leaves at `YAML_STREAM_END_TOKEN` only. What `yaml_parser_scan`
returns is not looked at, and after an error it gives `YAML_NO_TOKEN` for ever, at which the loop
goes on: a file that the scanner does not get through is never loaded (`load_ends_iff`).
-/

namespace ModemFhss.Ad9361

/-! ## The scanner -/

/-- What the scanner makes of a file: tokens, and then the end of the stream or an error. -/
structure Scanned where
  tokens : List Token
  error : Bool
  streamEnd_not_mem : .streamEnd ∉ tokens

/-- The tokens that the calls of `yaml_parser_scan` give before the first `YAML_NO_TOKEN`. -/
def Scanned.given (s : Scanned) : List Token :=
  if s.error then s.tokens else s.tokens ++ [.streamEnd]

/-- A call of `ad9361_get_config` with this content of the file, if it can be opened. -/
def load (scan : List UInt8 → Scanned) (fuel : Nat) (file : Option (List UInt8))
    (parserInitialize : Bool) (initParam : InitParam) : Option (Int × InitParam) :=
  ad9361GetConfig fuel (file.map fun content => (scan content).given) parserInitialize initParam

variable {scan : List UInt8 → Scanned} {file : Option (List UInt8)} {content : List UInt8}
  {parserInitialize : Bool} {initParam : InitParam} {tokens : List Token} {s : Scan}

/-! ## The loop -/

/-- Without the token that it waits for, the loop goes on for any number of rounds. -/
theorem tokenLoop_eq_none (h : .streamEnd ∉ tokens) (fuel : Nat) :
    tokenLoop fuel tokens s = none := by
  induction fuel generalizing tokens s with
  | zero => rfl
  | succ fuel ih =>
    have hhead : tokens.headD .noToken ≠ .streamEnd := by
      cases tokens with
      | nil => exact Token.noConfusion
      | cons token tokens => exact fun heq => h (heq ▸ List.mem_cons_self)
    have htail : .streamEnd ∉ tokens.tail := fun hmem => h (List.mem_of_mem_tail hmem)
    unfold tokenLoop
    dsimp only
    rw [if_neg hhead]
    exact ih htail

theorem tokenLoop_given (scanned : Scanned) (fuel : Nat) :
    tokenLoop fuel scanned.given s =
      if scanned.error = false ∧ scanned.tokens.length < fuel then
        some (scanned.tokens.foldl Scan.next s)
      else none := by
  unfold Scanned.given
  cases herror : scanned.error with
  | true =>
    rw [if_pos rfl, if_neg fun h => Bool.noConfusion h.1]
    exact tokenLoop_eq_none scanned.streamEnd_not_mem fuel
  | false =>
    rw [if_neg Bool.false_ne_true, tokenLoop_append scanned.streamEnd_not_mem]
    simp only [true_and]

/-! ## A call -/

/-- What a call gives, and after how many rounds of the loop. -/
theorem load_some (fuel : Nat) : load scan fuel (some content) true initParam =
    if (scan content).error = false ∧ (scan content).tokens.length < fuel then
      some (0,
        ((scan content).tokens.foldl Scan.next { state := 0, key := 0, initParam }).initParam)
    else none := by
  unfold load ad9361GetConfig
  dsimp only [Option.map_some]
  rw [if_pos rfl, tokenLoop_given]
  split
  · rfl
  · rfl

/-- **A call ends unless the scanner meets an error**: it does if the file cannot be opened, if the
parser cannot be initialised, or if the scanner comes to the end of the stream. -/
theorem load_ends_iff : (∃ fuel r, load scan fuel file parserInitialize initParam = some r) ↔
    ∀ content ∈ file, parserInitialize = true → (scan content).error = false := by
  cases file with
  | none => exact iff_of_true ⟨0, _, rfl⟩ fun _ h => absurd h (Option.not_mem_none _)
  | some content =>
    cases parserInitialize with
    | false => exact iff_of_true ⟨0, _, rfl⟩ fun _ _ h => Bool.noConfusion h
    | true =>
      constructor
      · rintro ⟨fuel, r, hload⟩ content' hcontent -
        rw [load_some] at hload
        cases hcontent
        split at hload
        · next h => exact h.1
        · cases hload
      · intro h
        have herror := h content rfl rfl
        have hload : load scan ((scan content).tokens.length + 1) (some content) true initParam =
            _ := load_some _
        rw [if_pos ⟨herror, Nat.lt_succ_self _⟩] at hload
        exact ⟨_, _, hload⟩

/-- A scanner that meets an error at a first character that no token can start with, 64. -/
def scanReserved (content : List UInt8) : Scanned where
  tokens := [.streamStart]
  error := content.head? = some 64
  streamEnd_not_mem := by decide

/-- A file of the single character `@` is never loaded. -/
theorem not_load_ends : ¬ ∀ (file : Option (List UInt8)) (initParam : InitParam),
    ∃ fuel r, load scanReserved fuel file true initParam = some r := by
  intro h
  obtain ⟨fuel, r, hload⟩ := h (some [64]) default
  have herror : (scanReserved [64]).error = true := rfl
  rw [load_some, if_neg fun hends => by simp [herror] at hends] at hload
  cases hload

end ModemFhss.Ad9361
