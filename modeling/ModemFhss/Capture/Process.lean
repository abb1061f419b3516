import ModemFhss.Library.ByteField
import ModemFhss.Library.Machine

/-!
# The capture daemon (`worker_process.cpp`)

A client connects, sends one `cappkt` and gets the words that the capture device returns for it.
The packet is received into a member of the process, so what a short `recv` leaves out is still
there from the connection before; and the data is read into fresh memory and sent whole, however
much of it `read` has filled. `run_owed` says for which histories every client nevertheless gets
what it is owed.

A `Visit` is a connection with everything outside the process that its answer depends on: the result
of `receive_data`, the device, and what `malloc` finds in the memory.
-/

namespace ModemFhss.Capture

open ByteField Machine

abbrev Block := List UInt8

/-! ## `struct cappkt` -/

/-- `sizeof (struct cappkt)`. -/
def sizeofCappkt : Nat := 5

def header (cp : Block) : Nat := u8At cp 0

def flags (cp : Block) : Nat := u8At cp 1

def address (cp : Block) : Nat := u8At cp 2

def length (cp : Block) : Nat := u16At cp 3

structure Visit where
  /-- The bytes that `receive_data` stores; `none` when it returns `-1`. -/
  received : Option Block
  received_le : ∀ bytes ∈ received, bytes.length ≤ sizeofCappkt
  /-- Whether `open` succeeds. -/
  opened : Bool
  /-- What `read` returns for an address, flags and a size; `none` when it fails. -/
  device : Nat → Nat → Nat → Option Block
  device_le : ∀ addr flags size, ∀ data ∈ device addr flags size, data.length ≤ size
  /-- The bytes of the memory that `malloc` returns. -/
  memory : Nat → UInt8

structure WorkerProcess where
  /-- `cp_`. -/
  cp : Block
  /-- `caddr` of the driver. -/
  caddr : Nat
  /-- `cflags` of the driver. -/
  cflags : Nat
  /-- The connections, each with what was sent on it. -/
  replies : List (Visit × Block)

namespace WorkerProcess

def init : WorkerProcess where
  cp := List.replicate sizeofCappkt 0
  caddr := 0
  cflags := 0
  replies := []

/-- `receive_data ((char *)&cp_, sizeof (struct cappkt))`. -/
def receive (s : WorkerProcess) (v : Visit) : WorkerProcess :=
  match v.received with
  | none => s
  | some bytes => { s with cp := bytes ++ s.cp.drop bytes.length }

/-- The two calls of `ioctl`, which fail if `open` has. -/
def ioctl (s : WorkerProcess) (v : Visit) : WorkerProcess :=
  if v.opened then { s with caddr := address s.cp, cflags := flags s.cp } else s

/-- `capture_` after `read (fd, capture_, size)`. -/
def capture (s : WorkerProcess) (v : Visit) (size : Nat) : Block :=
  let data := if v.opened then (v.device s.caddr s.cflags size).getD [] else []
  data ++ ((List.range size).drop data.length).map v.memory

variable (captureHeader : Nat)

/-- One round of the loop in `start_process`: the process after it, and what was sent. -/
def serve (s : WorkerProcess) (v : Visit) : WorkerProcess × Block :=
  let s := s.receive v
  if header s.cp = captureHeader then
    let s := s.ioctl v
    (s, s.capture v (length s.cp * 4))
  else
    (s, [])

def step (s : WorkerProcess) (v : Visit) : Option WorkerProcess :=
  let (s', reply) := s.serve captureHeader v
  some { s' with replies := s.replies ++ [(v, reply)] }

end WorkerProcess

/-! ## What a connection is owed -/

namespace Visit

/-- All of a `cappkt` was received. -/
def Complete (v : Visit) : Prop := (v.received.getD []).length = sizeofCappkt

instance (v : Visit) : Decidable v.Complete := inferInstanceAs (Decidable (_ = _))

/-- What the device returns for a request. -/
def returned (v : Visit) (cp : Block) : Block :=
  if v.opened then (v.device (address cp) (flags cp) (length cp * 4)).getD [] else []

/-- What the device returns for the request that was received on this connection. -/
def owed (v : Visit) (captureHeader : Nat) : Block :=
  let cp := v.received.getD []
  if v.Complete ∧ header cp = captureHeader then v.returned cp else []

theorem length_returned_le (v : Visit) (cp : Block) :
    (v.returned cp).length ≤ length cp * 4 := by
  unfold returned
  split
  · cases hdata : v.device (address cp) (flags cp) (length cp * 4) with
    | none => exact Nat.zero_le _
    | some data => exact v.device_le _ _ _ data hdata
  · exact Nat.zero_le _

end Visit

namespace WorkerProcess

variable (captureHeader : Nat) {s s' : WorkerProcess} {v : Visit}

/-- If the process takes what it has received for a request, then all of it was received now and the
device returns as much as it asks for, or it asks for nothing. -/
def Answerable (s : WorkerProcess) (v : Visit) : Prop :=
  header (s.receive v).cp = captureHeader →
    if v.Complete then
      (v.returned (s.receive v).cp).length = length (s.receive v).cp * 4
    else
      length (s.receive v).cp = 0

/-! ## One connection -/

theorem cp_receive (h : s.cp.length = sizeofCappkt) :
    (s.receive v).cp.length = sizeofCappkt ∧
      (v.Complete → (s.receive v).cp = v.received.getD []) := by
  unfold receive Visit.Complete
  cases hrec : v.received with
  | none => exact ⟨h, fun hcomplete => absurd hcomplete (by decide)⟩
  | some bytes =>
    have hle := v.received_le bytes hrec
    constructor
    · show (bytes ++ s.cp.drop bytes.length).length = sizeofCappkt
      rw [List.length_append, List.length_drop, h]
      omega
    · intro hcomplete
      have hcomplete : bytes.length = sizeofCappkt := hcomplete
      show bytes ++ s.cp.drop bytes.length = bytes
      rw [List.drop_of_length_le (by omega), List.append_nil]

/-- What is sent: what the device returns, and memory for the rest. -/
theorem capture_ioctl (s : WorkerProcess) (v : Visit) :
    (s.ioctl v).capture v (length (s.ioctl v).cp * 4) = v.returned s.cp ++
      ((List.range (length s.cp * 4)).drop (v.returned s.cp).length).map v.memory := by
  unfold capture ioctl Visit.returned
  split
  · rfl
  · rfl

theorem length_capture (s : WorkerProcess) (v : Visit) :
    ((s.ioctl v).capture v (length (s.ioctl v).cp * 4)).length = length s.cp * 4 := by
  have hle := v.length_returned_le s.cp
  rw [capture_ioctl, List.length_append, List.length_map, List.length_drop, List.length_range]
  omega

/-- **One connection** gets what it is owed exactly if the process can answer it. -/
theorem reply_eq_owed (h : s.cp.length = sizeofCappkt) :
    (s.serve captureHeader v).2 = v.owed captureHeader ↔ s.Answerable captureHeader v := by
  have hcp := (cp_receive (v := v) h).2
  unfold serve Answerable Visit.owed
  dsimp only
  by_cases hheader : header (s.receive v).cp = captureHeader
  · rw [if_pos hheader]
    by_cases hcomplete : v.Complete
    · have hown : header (v.received.getD []) = captureHeader := by rwa [← hcp hcomplete]
      have hle := v.length_returned_le (s.receive v).cp
      rw [if_pos ⟨hcomplete, hown⟩, if_pos hcomplete, ← hcp hcomplete]
      -- the device's bytes come first, so nothing may follow them
      rw [capture_ioctl, List.append_right_eq_self, List.map_eq_nil_iff, List.drop_eq_nil_iff,
        List.length_range]
      constructor
      · intro hge _
        exact Nat.le_antisymm hle hge
      · intro hall
        exact Nat.le_of_eq (hall hheader).symm
    · rw [if_neg fun hboth => hcomplete hboth.1, if_neg hcomplete, ← List.length_eq_zero_iff,
        length_capture]
      constructor
      · intro hzero _
        omega
      · intro hzero
        have := hzero hheader
        omega
  · have hown : ¬ (v.Complete ∧ header (v.received.getD []) = captureHeader) := by
      rintro ⟨hcomplete, hown⟩
      rw [← hcp hcomplete] at hown
      exact hheader hown
    rw [if_neg hheader, if_neg hown]
    exact iff_of_true rfl fun heq => absurd heq hheader

/-! ## Whole runs -/

/-- `cp_` is a `cappkt`, and all the connections have got what they are owed. -/
structure Inv (s : WorkerProcess) : Prop where
  size : s.cp.length = sizeofCappkt
  owed : ∀ x ∈ s.replies, x.2 = x.1.owed captureHeader

theorem inv_init : init.Inv captureHeader := ⟨List.length_replicate, by simp [init]⟩

theorem serve_frame (h : s.cp.length = sizeofCappkt) :
    (s.serve captureHeader v).1.cp.length = sizeofCappkt ∧
      (s.serve captureHeader v).1.replies = s.replies := by
  have hsize := (cp_receive (v := v) h).1
  have hreplies : (s.receive v).replies = s.replies := by
    unfold receive
    split
    · rfl
    · rfl
  unfold serve ioctl
  dsimp only
  split
  · split
    · exact ⟨hsize, hreplies⟩
    · exact ⟨hsize, hreplies⟩
  · exact ⟨hsize, hreplies⟩

variable {captureHeader} in
theorem Inv.step (h : s.Inv captureHeader) (hs : s.Answerable captureHeader v) :
    ∃ s', s.step captureHeader v = some s' ∧ s'.Inv captureHeader := by
  refine ⟨_, rfl, (serve_frame captureHeader h.size).1, ?_⟩
  intro x hx
  rcases List.mem_append.mp hx with hx | hx
  · exact h.owed x hx
  · rw [List.mem_singleton.mp hx]
    exact (reply_eq_owed captureHeader h.size).mpr hs

/-- **Every connection gets what it is owed**, and so nothing of another connection's and nothing
that happened to be in the memory, if and only if the process can answer each of them. -/
theorem run_owed (visits : List Visit) :
    Meets (step captureHeader) (Answerable captureHeader) init visits ↔
      ∀ visits', visits' <+: visits → ∃ s, run (step captureHeader) init visits' = some s ∧
        ∀ x ∈ s.replies, x.2 = x.1.owed captureHeader := by
  refine meets_iff_forall_prefix (I := Inv captureHeader) (fun _ _ => Inv.step) (fun _ h => h.owed)
    ?_ (inv_init captureHeader)
  intro s v s' h hnot hs hall
  obtain rfl := Option.some.inj hs
  refine hnot ((reply_eq_owed captureHeader h.size).mp ?_)
  exact hall (v, _) (List.mem_append_right _ (List.mem_singleton_self _))

/-- A connection that delivers these bytes. The device returns sevens, the memory has nines. -/
def visit (bytes : Block) (h : bytes.length ≤ sizeofCappkt) (opened : Bool) : Visit where
  received := some bytes
  received_le := by simpa using h
  opened
  device _ _ size := some (List.replicate size 7)
  device_le _ _ _ _ hdata := by
    cases hdata
    exact Nat.le_of_eq List.length_replicate
  memory _ := 9

/-- A request for one word; a connection that sends nothing; a request while the device is busy. -/
def threeVisits : List Visit :=
  [visit [0xAB, 1, 2, 1, 0] (by decide) true, visit [] (by decide) true,
    visit [0xAB, 1, 2, 1, 0] (by decide) false]

/-- The second connection gets the word that the first one asked for, the third what was in the
memory; neither is owed anything. -/
theorem threeVisits_not_owed : ∃ s, run (step 0xAB) init threeVisits = some s ∧
    s.replies.map (fun x => (x.2, x.1.owed 0xAB)) =
      [([7, 7, 7, 7], [7, 7, 7, 7]), ([7, 7, 7, 7], []), ([9, 9, 9, 9], [])] ∧
    ¬ ∀ x ∈ s.replies, x.2 = x.1.owed 0xAB := by
  obtain ⟨s, hr, hreplies⟩ : ∃ s, run (step 0xAB) init threeVisits = some s ∧
      s.replies.map (fun x => (x.2, x.1.owed 0xAB)) =
        [([7, 7, 7, 7], [7, 7, 7, 7]), ([7, 7, 7, 7], []), ([9, 9, 9, 9], [])] := by
    decide +kernel
  refine ⟨s, hr, hreplies, fun hall => ?_⟩
  have hsecond : ([7, 7, 7, 7], []) ∈ s.replies.map fun x => (x.2, x.1.owed 0xAB) := by
    simp [hreplies]
  obtain ⟨x, hx, heq⟩ := List.mem_map.mp hsecond
  have hsame := hall x hx
  rw [(Prod.mk.inj heq).1, (Prod.mk.inj heq).2] at hsame
  exact absurd hsame (by decide)

end WorkerProcess

end ModemFhss.Capture
