import ModemFhss.Daemon.Worker
import ModemFhss.Library.Words

/-!
# Configuration requests (`modem_conf.cpp`)

The contents of a configuration block are a request: `set <register> <value>`, `get <register>` or
`send <message>`, its words separated by single spaces. `run_conf` takes it apart, opens the
register's file or calls the Python module, and leaves a text for the client in `msg_result_`.

Files and Python are outside the daemon: `System` says how they answer. A request can also keep
`run_conf` from returning, when Python gives no string back or when the text of a register is read
past the buffer it was read into; the result is then `none`.
-/

namespace ModemFhss.Daemon

/-- How the system answers while a request is served. Paths are those `open` sees. -/
structure System where
  /-- Whether the file can be opened for writing. -/
  openWrite : Block → Bool
  /-- What `read` finds in the file; `none` if it cannot be opened for reading. -/
  readFile : Block → Option Block
  /-- The string that `modemSendData` returns; `none` if it raises an exception. -/
  modemSendData : Block → Option Block

/-- A system with no register files and nobody to send to. -/
def System.bare : System where
  openWrite := fun _ => false
  readFile := fun _ => none
  modemSendData := fun _ => some []

namespace ModemConf

def space : UInt8 := 32

/-- A string up to its first zero byte. -/
def cStr (s : Block) : Block := s.takeWhile (· ≠ 0)

/-- `buffer.find(" ", start_pos)`. -/
def find (buffer : Block) (startPos : Nat) : Option Nat :=
  ((buffer.drop startPos).findIdx? (· == space)).map (startPos + ·)

/-- The loop of `parser_msg`, for `fuel` rounds. -/
def parserLoop (buffer : Block) (token : List Block) (startPos : Nat) : Nat → Option (List Block)
  | 0 => none
  | fuel + 1 =>
    match find buffer startPos with
    | none => some (token ++ [buffer.drop startPos])
    | some currentPos =>
      parserLoop buffer (token ++ [(buffer.drop startPos).take (currentPos - startPos)])
        (currentPos + 1) fuel

/-- `modem_conf::parser_msg`. Every round but the last passes a space, so the rounds allowed are
enough (`parserMsg_eq`). -/
def parserMsg (buffer : Block) : Option (List Block) := parserLoop buffer [] 0 (buffer.length + 1)

/-- `modem_conf::is_digits`. -/
def isDigits (str : Block) : Bool := str.all fun c => 48 ≤ c && c ≤ 57

def reg (name : Block) : Block := ascii "/sys/mfhssdrv-registers/" ++ name

/-- The text in the buffer of 1024 bytes that a register is read into; `none` if it has no end. -/
def text (content : Block) : Option Block :=
  if (cStr (content.take 1024)).length = 1024 then none else some (cStr (content.take 1024))

/-- The string handed to `modemSendData`. -/
def data (words : List Block) : Block := words.flatMap (· ++ [space])

/-- The `set` branch of `run_py_func`. -/
def runSet (sys : System) : List Block → Option Block
  | [name, value] =>
    if isDigits value then
      some (ascii "write " ++ value ++ ascii " to " ++ reg name ++
        if sys.openWrite (cStr (reg name)) then ascii " success" else ascii " fail")
    else
      some (ascii "Argument value is not digit")
  | _ => some (ascii "Not valid number arguments")

/-- The `get` branch of `run_py_func`. -/
def runGet (sys : System) : List Block → Option Block
  | [name] =>
    match sys.readFile (cStr (reg name)) with
    | none => some (ascii "read " ++ reg name ++ ascii " fail")
    | some content =>
      (text content).map fun ubuff => ascii "read " ++ reg name ++ ascii " success: " ++ ubuff
  | _ => some (ascii "Not valid number arguments")

/-- The `send` branch of `run_py_func`. -/
def runSend (sys : System) (words : List Block) : Option Block :=
  if data words ≠ [] then
    (sys.modemSendData (data words)).map fun result =>
      if result = [] then ascii "Message not receive" else result
  else
    some (ascii "message is empty")

/-- `modem_conf::run_py_func`: what is in `msg_result_` when it returns. -/
def runPyFunc (sys : System) : List Block → Option Block
  | [] => none
  | command :: args =>
    if command = ascii "set" then
      runSet sys args
    else if command = ascii "get" then
      runGet sys args
    else if command = ascii "send" then
      runSend sys args
    else
      some (ascii "First argument must be set/get/send")

/-- `modem_conf::run_conf`, then `get_msg_result`. -/
def runConf (sys : System) (buffer : Block) : Option Block :=
  (parserMsg buffer).bind (runPyFunc sys)

/-! ## Taking a request apart -/

variable {sys : System} {buffer name value : Block} {token args : List Block} {startPos n : Nat}

theorem parserLoop_eq (hstart : startPos ≤ buffer.length) (h : buffer.length - startPos < n) :
    parserLoop buffer token startPos n = some (token ++ (buffer.drop startPos).splitOn space) := by
  induction n generalizing token startPos with
  | zero => exact absurd h (Nat.not_lt_zero _)
  | succ n ih =>
    unfold parserLoop
    split
    · next hfind => rw [List.splitOn_eq_singleton (Words.find_eq_none hfind)]
    · next currentPos hfind =>
      obtain ⟨hle, hlt, -⟩ := Words.find_eq_some hfind
      rw [ih hlt (by omega), List.append_assoc, Words.splitOn_drop hfind]
      rfl

/-- **The tokens are the pieces between the spaces.** -/
theorem parserMsg_eq : parserMsg buffer = some (buffer.splitOn space) :=
  parserLoop_eq (Nat.zero_le _) (Nat.lt_succ_self _)

theorem runConf_eq : runConf sys buffer = runPyFunc sys (buffer.splitOn space) := by
  unfold runConf
  rw [parserMsg_eq]
  rfl

/-! ## The length of the answer -/

/-- A request and what it meets leave a text of at most `room` bytes. The numbers are the lengths of
the texts around the words of the request. -/
structure Fits (sys : System) (room : Nat) (token : List Block) : Prop where
  set : ∀ name value, token = [ascii "set", name, value] → isDigits value = true →
    name.length + value.length + (if sys.openWrite (cStr (reg name)) then 42 else 39) ≤ room
  get : ∀ name, token = [ascii "get", name] →
    match sys.readFile (cStr (reg name)) with
    | none => name.length + 34 ≤ room
    | some content => ∃ ubuff, text content = some ubuff ∧ name.length + ubuff.length + 39 ≤ room
  send : ∀ words, token = ascii "send" :: words → words ≠ [] →
    ∃ result, sys.modemSendData (data words) = some result ∧ result.length ≤ room

theorem length_ascii (s : String) : (ascii s).length = s.length := by
  unfold ascii
  rw [List.length_map, String.length_toList]

theorem length_reg : (reg name).length = 24 + name.length := by
  unfold reg
  rw [List.length_append]
  rfl

theorem length_written (opened : Bool) :
    (ascii "write " ++ value ++ ascii " to " ++ reg name ++
      if opened then ascii " success" else ascii " fail").length =
      name.length + value.length + if opened then 42 else 39 := by
  cases opened with
  | false =>
    show (ascii "write " ++ value ++ ascii " to " ++ reg name ++ ascii " fail").length = _
    simp only [List.length_append, length_reg]
    show 6 + value.length + 4 + (24 + name.length) + 5 = name.length + value.length + 39
    omega
  | true =>
    show (ascii "write " ++ value ++ ascii " to " ++ reg name ++ ascii " success").length = _
    simp only [List.length_append, length_reg]
    show 6 + value.length + 4 + (24 + name.length) + 8 = name.length + value.length + 42
    omega

theorem length_unread : (ascii "read " ++ reg name ++ ascii " fail").length = name.length + 34 := by
  simp only [List.length_append, length_reg]
  show 5 + (24 + name.length) + 5 = name.length + 34
  omega

theorem length_read {ubuff : Block} :
    (ascii "read " ++ reg name ++ ascii " success: " ++ ubuff).length =
      name.length + ubuff.length + 39 := by
  simp only [List.length_append, length_reg]
  show 5 + (24 + name.length) + 10 + ubuff.length = name.length + ubuff.length + 39
  omega

theorem data_ne_nil (h : args ≠ []) : data args ≠ [] := by
  obtain ⟨word, words, rfl⟩ := List.exists_cons_of_ne_nil h
  simp [data]

/-- A text comes back, and it has at most `room` bytes. -/
def Short (room : Nat) (result : Option Block) : Prop :=
  ∃ text, result = some text ∧ text.length ≤ room

variable {room : Nat}

@[simp] theorem short_none : ¬ Short room none := by
  rintro ⟨text, h, -⟩
  cases h

@[simp] theorem short_some {text : Block} : Short room (some text) ↔ text.length ≤ room := by
  unfold Short
  simp

/-- The fixed texts are short. -/
theorem short_ascii {s : String} (hroom : 35 ≤ room) (hs : s.length ≤ 35) :
    Short room (some (ascii s)) :=
  short_some.mpr (by rw [length_ascii]; omega)

theorem short_runSet (hroom : 35 ≤ room) :
    Short room (runSet sys args) ↔ ∀ name value, args = [name, value] → isDigits value = true →
      name.length + value.length + (if sys.openWrite (cStr (reg name)) then 42 else 39) ≤ room := by
  unfold runSet
  split
  · next name value =>
    split
    · next hdigits =>
      rw [short_some, length_written]
      exact ⟨fun h _ _ heq _ => by cases heq; exact h, fun h => h name value rfl hdigits⟩
    · next hdigits =>
      refine iff_of_true (short_ascii hroom (by decide)) fun _ _ heq hdigits' => ?_
      cases heq
      exact absurd hdigits' hdigits
  · next hargs =>
    exact iff_of_true (short_ascii hroom (by decide)) fun _ _ heq => absurd heq (hargs _ _)

theorem short_runGet (hroom : 35 ≤ room) :
    Short room (runGet sys args) ↔ ∀ name, args = [name] →
      match sys.readFile (cStr (reg name)) with
      | none => name.length + 34 ≤ room
      | some content =>
        ∃ ubuff, text content = some ubuff ∧ name.length + ubuff.length + 39 ≤ room := by
  unfold runGet
  split
  · next name =>
    have hone : Short room (runGet sys [name]) ↔ match sys.readFile (cStr (reg name)) with
        | none => name.length + 34 ≤ room
        | some content =>
          ∃ ubuff, text content = some ubuff ∧ name.length + ubuff.length + 39 ≤ room := by
      simp only [runGet]
      cases hfile : sys.readFile (cStr (reg name)) with
      | none => rw [short_some, length_unread]
      | some content =>
        cases htext : text content with
        | none => simp [htext]
        | some ubuff =>
          simp only [htext, Option.map_some, short_some, length_read]
          simp
    exact hone.trans ⟨fun h _ heq => by cases heq; exact h, fun h => h name rfl⟩
  · next hargs =>
    exact iff_of_true (short_ascii hroom (by decide)) fun _ heq => absurd heq (hargs _)

theorem short_runSend (hroom : 35 ≤ room) :
    Short room (runSend sys args) ↔ (args ≠ [] →
      ∃ result, sys.modemSendData (data args) = some result ∧ result.length ≤ room) := by
  unfold runSend
  by_cases hargs : args = []
  · rw [hargs]
    exact iff_of_true (short_ascii hroom (by decide)) fun h => absurd rfl h
  · rw [if_pos (data_ne_nil hargs)]
    cases hsend : sys.modemSendData (data args) with
    | none => simp [hargs]
    | some result =>
      by_cases hempty : result = []
      · have hfixed : Short room (some (ascii "Message not receive")) :=
          short_ascii hroom (by decide)
        simpa [hempty, hargs] using hfixed
      · simp [hempty, hargs]

/-- **When the text of the answer fits.** -/
theorem short_runPyFunc (hroom : 35 ≤ room) (htoken : token ≠ []) :
    Short room (runPyFunc sys token) ↔ Fits sys room token := by
  obtain ⟨command, args, rfl⟩ := List.exists_cons_of_ne_nil htoken
  simp only [runPyFunc]
  split
  · next hset =>
    subst hset
    rw [short_runSet hroom]
    constructor
    · intro h
      refine ⟨fun name value heq => h name value (List.cons.inj heq).2, fun name heq => ?_,
        fun words heq => ?_⟩
      · exact absurd (List.cons.inj heq).1 (by decide)
      · exact absurd (List.cons.inj heq).1 (by decide)
    · intro h name value heq
      exact h.set name value (by rw [heq])
  · next hset =>
    split
    · next hget =>
      subst hget
      rw [short_runGet hroom]
      constructor
      · intro h
        refine ⟨fun name value heq => ?_, fun name heq => h name (List.cons.inj heq).2,
          fun words heq => ?_⟩
        · exact absurd (List.cons.inj heq).1 (by decide)
        · exact absurd (List.cons.inj heq).1 (by decide)
      · intro h name heq
        exact h.get name (by rw [heq])
    · next hget =>
      split
      · next hsend =>
        subst hsend
        rw [short_runSend hroom]
        constructor
        · intro h
          refine ⟨fun name value heq => ?_, fun name heq => ?_, fun words heq => ?_⟩
          · exact absurd (List.cons.inj heq).1 (by decide)
          · exact absurd (List.cons.inj heq).1 (by decide)
          · rw [← (List.cons.inj heq).2]
            exact h
        · intro h
          exact h.send args rfl
      · next hsend =>
        refine iff_of_true (short_ascii hroom (by decide))
          ⟨fun name value heq => ?_, fun name heq => ?_, fun words heq => ?_⟩
        · exact absurd (List.cons.inj heq).1 hset
        · exact absurd (List.cons.inj heq).1 hget
        · exact absurd (List.cons.inj heq).1 hsend

theorem short_runConf (hroom : 35 ≤ room) :
    Short room (runConf sys buffer) ↔ Fits sys room (buffer.splitOn space) := by
  rw [runConf_eq]
  exact short_runPyFunc hroom (List.splitOn_ne_nil _ _)

end ModemConf

end ModemFhss.Daemon
