import Mathlib.Data.List.TakeWhile
import ModemFhss.KeySender.Keygen
import ModemFhss.Library.Words

/-!
# The command lines (`buildCmdline`, `buildArgs`)

`sshpass_c` and `ping_c` write a command line into one string, with a space before each argument,
and `buildArgs` cuts it at the spaces. `argv` has a pointer to each piece and a null pointer after
the last; `execvp` sees the pieces up to their first zero byte.

So a configured value is passed on as it is only if it has no spaces and no zero bytes, and an empty
address at the end of the line is lost (`reachesExecvp_iff`).
-/

namespace ModemFhss.KeySender

/-! ## Cutting a command line -/

/-- `cmdline.find(' ', pos)` -/
def find (cmdline : Text) (pos : Nat) : Option Nat := Words.find ' ' cmdline pos

/-- The loop of `buildArgs`, for `fuel` rounds: `args` and `pos`. Each round but the last passes a
space, so as many rounds as there are characters, and one more, are enough (`buildArgs_eq`). -/
def argsLoop (cmdline : Text) (args : List Text) (pos : Nat) : Nat → List Text × Nat
  | 0 => (args, pos)
  | fuel + 1 =>
    match find cmdline pos with
    | none => (args, pos)
    | some nextpos =>
      argsLoop cmdline (args ++ [(cmdline.drop pos).take (nextpos - pos)]) (nextpos + 1) fuel

/-- `daemon_c::buildArgs`, what it leaves in `args`. -/
def buildArgs (cmdline : Text) : List Text :=
  let (args, pos) := argsLoop cmdline [] 0 (cmdline.length + 1)
  if pos < cmdline.length then args ++ [cmdline.drop pos] else args

/-- A string as `c_str()` gives it to C. -/
def cStr (s : Text) : Text := s.takeWhile (· ≠ '\x00')

/-- `argv`; `none` is the null pointer. -/
def argv (args : List Text) : List (Option Text) := args.map (fun arg => some (cStr arg)) ++ [none]

/-! ## The commands -/

/-- `oss << n` for an `int`. -/
def decimal (n : Int) : Text :=
  if n < 0 then '-' :: Nat.toDigits 10 n.natAbs else Nat.toDigits 10 n.natAbs

/-- A `daemon_c`, with what its constructor is given. -/
inductive Command where
  | sshpass (ipaddr login password srcFile dstDir : Text) (timeout : Int)
  | ping (interface ipaddr : Text) (count timeout : Int)
  deriving DecidableEq, Repr

namespace Command

def buildCmdline : Command → Text
  | sshpass ipaddr login password srcFile dstDir timeout =>
    "sshpass".toList ++ " -p ".toList ++ password ++ " ".toList ++ "scp".toList ++
      " -o ConnectTimeout=".toList ++ decimal timeout ++ " ".toList ++ srcFile ++ " ".toList ++
      login ++ "@".toList ++ ipaddr ++ ":".toList ++ dstDir
  | ping interface ipaddr count timeout =>
    "ping".toList ++ " -I ".toList ++ interface ++ " -W ".toList ++ decimal timeout ++
      " -c ".toList ++ decimal count ++ " ".toList ++ ipaddr

/-- The arguments that are meant. -/
def arguments : Command → List Text
  | sshpass ipaddr login password srcFile dstDir timeout =>
    ["sshpass".toList, "-p".toList, password, "scp".toList, "-o".toList,
      "ConnectTimeout=".toList ++ decimal timeout, srcFile,
      login ++ "@".toList ++ ipaddr ++ ":".toList ++ dstDir]
  | ping interface ipaddr count timeout =>
    ["ping".toList, "-I".toList, interface, "-W".toList, decimal timeout, "-c".toList,
      decimal count, ipaddr]

/-- `execvp` gets the arguments that are meant, and a null pointer after them. -/
def ReachesExecvp (c : Command) : Prop :=
  argv (buildArgs c.buildCmdline) = c.arguments.map some ++ [none]

instance (c : Command) : Decidable c.ReachesExecvp := inferInstanceAs (Decidable (_ = _))

end Command

/-- A value that can be an argument: no spaces, no zero bytes. -/
def Plain (s : Text) : Prop := ' ' ∉ s ∧ '\x00' ∉ s

instance (s : Text) : Decidable (Plain s) := inferInstanceAs (Decidable (_ ∧ _))

/-- The configured values can be arguments; the one at the end of the line is there. -/
def Command.Passable : Command → Prop
  | sshpass ipaddr login password srcFile dstDir _ =>
    Plain password ∧ Plain srcFile ∧ Plain login ∧ Plain ipaddr ∧ Plain dstDir
  | ping interface ipaddr _ _ => Plain interface ∧ Plain ipaddr ∧ ipaddr ≠ []

variable {cmdline : Text} {args words : List Text} {pos fuel : Nat} {s t : Text}

/-! ## What `buildArgs` does -/

theorem argsLoop_eq (args : List Text) (hfuel : cmdline.length < pos + fuel)
    (hpos : pos ≤ cmdline.length) :
    ∃ stop ≤ cmdline.length, (argsLoop cmdline args pos fuel).2 = stop ∧
      (argsLoop cmdline args pos fuel).1 ++ [cmdline.drop stop] =
        args ++ (cmdline.drop pos).splitOn ' ' := by
  induction fuel generalizing args pos with
  | zero => exact absurd hpos (Nat.not_le_of_lt hfuel)
  | succ fuel ih =>
    unfold argsLoop
    cases hfind : find cmdline pos with
    | none =>
      refine ⟨pos, hpos, rfl, ?_⟩
      rw [List.splitOn_eq_singleton (Words.find_eq_none hfind)]
    | some nextpos =>
      obtain ⟨hle, hlt, -⟩ := Words.find_eq_some hfind
      obtain ⟨stop, hstop, hend, hargs⟩ :=
        ih (args ++ [(cmdline.drop pos).take (nextpos - pos)])
          (by omega : cmdline.length < nextpos + 1 + fuel) hlt
      refine ⟨stop, hstop, hend, hargs.trans ?_⟩
      rw [Words.splitOn_drop hfind, List.append_assoc]
      rfl

/-- **The arguments are the pieces between the spaces**, without the last if it is empty. -/
theorem buildArgs_eq (cmdline : Text) : buildArgs cmdline = Words.pieces ' ' cmdline := by
  obtain ⟨stop, hstop, hend, hargs⟩ :=
    argsLoop_eq [] (by omega : cmdline.length < 0 + (cmdline.length + 1))
      (Nat.zero_le cmdline.length)
  rw [List.drop_zero, List.nil_append] at hargs
  unfold buildArgs Words.pieces
  dsimp only
  rw [hend, ← hargs, List.getLast?_concat, List.dropLast_concat]
  by_cases hlast : stop < cmdline.length
  · rw [if_pos hlast, if_neg]
    simpa using hlast
  · rw [if_neg hlast, if_pos]
    simpa using hlast

/-! ## What `execvp` gets -/

theorem cStr_of_notMem (h : '\x00' ∉ s) : cStr s = s := by
  apply List.takeWhile_eq_self_iff.mpr
  intro c hc
  have hne : c ≠ '\x00' := by
    rintro rfl
    exact h hc
  simpa using hne

theorem notMem_cStr (s : Text) : '\x00' ∉ cStr s := by
  intro hmem
  simpa using List.mem_takeWhile_imp hmem

theorem map_cStr (h : ∀ w ∈ words, '\x00' ∉ w) : words.map cStr = words :=
  (List.map_congr_left fun w hw => cStr_of_notMem (h w hw)).trans (List.map_id words)

/-- The words of a line that is made of them, if they are plain and the last one is not empty. -/
theorem argv_intercalate_iff (hwords : words ≠ []) :
    argv (buildArgs ([' '].intercalate words)) = words.map some ++ [none] ↔
      (∀ w ∈ words, Plain w) ∧ words.getLast? ≠ some [] := by
  have hmap (args : List Text) : argv args = words.map some ++ [none] ↔ args.map cStr = words := by
    have hcomp : args.map (fun arg => some (cStr arg)) = (args.map cStr).map some :=
      (List.map_map ..).symm
    unfold argv
    rw [List.append_left_inj, hcomp]
    exact (List.map_injective_iff.mpr fun _ _ => Option.some.inj).eq_iff
  rw [hmap, buildArgs_eq]
  constructor
  · intro h
    have hzero : ∀ w ∈ words, '\x00' ∉ w := by
      intro w hw
      rw [← h] at hw
      obtain ⟨u, -, rfl⟩ := List.mem_map.mp hw
      exact notMem_cStr u
    -- then there are none in the line, so the pieces are the words
    have hpieces : ∀ w ∈ Words.pieces ' ' ([' '].intercalate words), '\x00' ∉ w := by
      intro w hw hmem
      have hline := (Words.of_mem_splitOn (Words.mem_splitOn_of_mem_pieces hw)).2 _ hmem
      rcases Words.of_mem_intercalate hline with heq | ⟨u, hu, hmem⟩
      · exact absurd heq (by decide)
      · exact hzero u hu hmem
    rw [map_cStr hpieces, Words.pieces_intercalate_iff hwords] at h
    exact ⟨fun w hw => ⟨h.1 w hw, hzero w hw⟩, h.2⟩
  · rintro ⟨hplain, hlast⟩
    rw [(Words.pieces_intercalate_iff hwords).mpr ⟨fun w hw => (hplain w hw).1, hlast⟩]
    exact map_cStr fun w hw => (hplain w hw).2

theorem plain_append : Plain (s ++ t) ↔ Plain s ∧ Plain t := by
  unfold Plain
  simp only [List.mem_append, not_or]
  tauto

theorem plain_decimal (n : Int) : Plain (decimal n) := by
  have hdigit {c : Char} (hc : c.isDigit = false) : c ∉ Nat.toDigits 10 n.natAbs := by
    intro hmem
    rw [Nat.isDigit_of_mem_toDigits (by decide) (by decide) hmem] at hc
    cases hc
  have hspace : ' ' ∉ Nat.toDigits 10 n.natAbs := hdigit (by decide)
  have hzero : '\x00' ∉ Nat.toDigits 10 n.natAbs := hdigit (by decide)
  unfold decimal Plain
  split
  · simp [hspace, hzero]
  · exact ⟨hspace, hzero⟩

namespace Command

/-- The line is the arguments with single spaces between them. -/
theorem buildCmdline_eq (c : Command) : c.buildCmdline = [' '].intercalate c.arguments := by
  have hspace : " ".toList = [' '] := rfl
  cases c with
  | sshpass ipaddr login password srcFile dstDir timeout =>
    have hp : " -p ".toList = [' '] ++ "-p".toList ++ [' '] := rfl
    have ho : " -o ConnectTimeout=".toList =
        [' '] ++ "-o".toList ++ [' '] ++ "ConnectTimeout=".toList := rfl
    unfold buildCmdline arguments
    dsimp only
    rw [hp, ho, hspace]
    generalize "sshpass".toList = sshpass, "-p".toList = p, "scp".toList = scp, "-o".toList = o,
      "ConnectTimeout=".toList = connectTimeout, "@".toList = sign, ":".toList = colon
    simp only [List.intercalate_cons_cons, List.intercalate_singleton, List.append_assoc]
  | ping interface ipaddr count timeout =>
    have hI : " -I ".toList = [' '] ++ "-I".toList ++ [' '] := rfl
    have hW : " -W ".toList = [' '] ++ "-W".toList ++ [' '] := rfl
    have hc : " -c ".toList = [' '] ++ "-c".toList ++ [' '] := rfl
    unfold buildCmdline arguments
    dsimp only
    rw [hI, hW, hc, hspace]
    generalize "ping".toList = ping, "-I".toList = I, "-W".toList = W, "-c".toList = c
    simp only [List.intercalate_cons_cons, List.intercalate_singleton, List.append_assoc]

/-- The fixed words and the numbers are plain, so it is up to the configured values. -/
theorem passable_iff (c : Command) :
    ((∀ w ∈ c.arguments, Plain w) ∧ c.arguments.getLast? ≠ some []) ↔ c.Passable := by
  cases c with
  | sshpass ipaddr login password srcFile dstDir timeout =>
    have hfixed : Plain "sshpass".toList ∧ Plain "-p".toList ∧ Plain "scp".toList ∧
        Plain "-o".toList ∧ Plain "ConnectTimeout=".toList ∧ Plain "@".toList ∧
        Plain ":".toList := by decide
    have hlast : login ++ "@".toList ++ ipaddr ++ ":".toList ++ dstDir ≠ [] := by simp
    unfold arguments Passable
    generalize "sshpass".toList = sshpass, "-p".toList = p, "scp".toList = scp, "-o".toList = o,
      "ConnectTimeout=".toList = connectTimeout, "@".toList = sign, ":".toList = colon
      at hfixed hlast ⊢
    have hnumber := plain_decimal timeout
    have hnil : ∀ w ∈ ([] : List Text), Plain w := fun _ hw => absurd hw List.not_mem_nil
    simp only [List.forall_mem_cons, List.getLast?_cons_cons, List.getLast?_singleton, plain_append]
    rw [Ne, Option.some.injEq]
    tauto
  | ping interface ipaddr count timeout =>
    have hfixed : Plain "ping".toList ∧ Plain "-I".toList ∧ Plain "-W".toList ∧
        Plain "-c".toList := by decide
    unfold arguments Passable
    generalize "ping".toList = ping, "-I".toList = I, "-W".toList = W, "-c".toList = c at hfixed ⊢
    have hnumbers := And.intro (plain_decimal timeout) (plain_decimal count)
    have hnil : ∀ w ∈ ([] : List Text), Plain w := fun _ hw => absurd hw List.not_mem_nil
    simp only [List.forall_mem_cons, List.getLast?_cons_cons, List.getLast?_singleton]
    rw [Ne, Option.some.injEq]
    tauto

end Command

/-- **Which command lines reach `execvp` as they are meant.** -/
theorem reachesExecvp_iff (c : Command) :
    (c.ReachesExecvp ↔ c.Passable) ∧
      (argv (buildArgs c.buildCmdline))[(buildArgs c.buildCmdline).length]? = some none := by
  constructor
  · have hwords : c.arguments ≠ [] := by cases c <;> exact List.cons_ne_nil _ _
    unfold Command.ReachesExecvp
    rw [c.buildCmdline_eq, argv_intercalate_iff hwords, c.passable_iff]
  · unfold argv
    rw [List.getElem?_append_right (by rw [List.length_map]), List.length_map, Nat.sub_self]
    rfl

/-- A password with a space is two arguments, and `scp` is no longer the program to run. -/
theorem not_reachesExecvp : ¬ (Command.sshpass "10.0.0.2".toList "root".toList "my pass".toList
    "keys".toList "/mnt/".toList 5).ReachesExecvp := by
  decide +kernel

end ModemFhss.KeySender
