import ModemFhss.Daemon.Stream

/-!
# Blocks of any size

A client may send anything, and the first two bytes of whatever it sends are taken for the size of
a block. A size of zero, one or two is not refused: the block is cut off, and its type byte is read
from where there is none. `Sized` says of a stream that no block is that short, and `run_sized`
that exactly then every call of `data_receive` returns, having handed on blocks of three bytes or
more. What is short is a matter of the stream alone, not of how it is cut (`meets_sizedCall`).
-/

namespace ModemFhss.Daemon

open Machine

/-- The blocks that are complete have at least three bytes, by their own headers. -/
inductive Sized : Block → Prop
  /-- No block is complete. -/
  | rest {buf : Block} (h : 2 ≤ buf.length → buf.length < Worker.header buf) : Sized buf
  /-- The first block is, and it is long enough. -/
  | block {buf : Block} (hlong : 3 ≤ Worker.header buf) (hle : Worker.header buf ≤ buf.length)
      (hrest : Sized (buf.drop (Worker.header buf))) : Sized buf

/-- The arguments of a call of `data_receive`, with the results of its `recv` calls. -/
structure Call (κ : Type) where
  conf : Block → Block
  tcp : κ
  chunks : List Block
  closed : Bool

namespace Worker

variable {κ : Type} {w w' : Worker κ} {conf : Block → Block} {tcp : κ} {c : Call κ}
  {calls : List (Call κ)} {buf more : Block} {n : Nat}

/-- A call that returns. -/
def receive (w : Worker κ) (c : Call κ) : Option (Worker κ) :=
  (w.dataReceive c.conf c.tcp c.chunks c.closed).toOption

/-- What is in the buffer once the call has read everything is sized. -/
def SizedCall (w : Worker κ) (c : Call κ) : Prop :=
  c.closed = false → Sized (w.blockFromClient ++ c.chunks.flatten)

/-- The cached size belongs to the buffer, which has no short block in it; the blocks handed on have
three bytes. -/
structure Keeps (w : Worker κ) : Prop where
  holds : w.Holds w.blockFromClient
  sized : Sized w.blockFromClient
  long : ∀ x ∈ w.processed, 3 ≤ x.2.length

theorem sized_of_short (h : ¬ 2 ≤ buf.length) : Sized buf := .rest fun hlen => absurd hlen h

theorem keeps_init : (init : Worker κ).Keeps :=
  ⟨holds_init, sized_of_short (by simp [init]), by simp [init]⟩

/-! ## The loop over the blocks -/

/-- On a sized buffer the loop returns. -/
theorem blockLoop_sized (h : Sized w.blockFromClient) (hlen : 2 ≤ w.blockFromClient.length)
    (hsize : w.clientBlockSize = header w.blockFromClient) (hfuel : w.blockFromClient.length < n)
    (hlog : ∀ x ∈ w.processed, 3 ≤ x.2.length) :
    ∃ w', w.blockLoop conf tcp n = .ok w' ∧ w'.Keeps := by
  induction n generalizing w with
  | zero => exact absurd hfuel (Nat.not_lt_zero _)
  | succ n ih =>
    unfold blockLoop
    rw [hsize]
    cases h with
    | rest hnone =>
      have hlt := hnone hlen
      rw [if_neg (Nat.not_le_of_lt hlt)]
      refine ⟨w, rfl, ⟨rfl, ?_⟩, .rest hnone, hlog⟩
      rw [if_pos hlen, hsize]
    | block hlong hle hrest =>
      have htake : (w.blockFromClient.take (header w.blockFromClient)).length =
          header w.blockFromClient := by
        rw [List.length_take, Nat.min_eq_left hle]
      obtain ⟨v, hv⟩ : ∃ v, w.dataProcess conf tcp
          (w.blockFromClient.take (header w.blockFromClient)) = .ok v :=
        dataProcess_ok (by rw [htake]; exact hlong)
      have hdone := processed_of_dataProcess hv
      have hlog' : ∀ x ∈ v.processed, 3 ≤ x.2.length := by
        intro x hx
        rw [hdone.log] at hx
        rcases List.mem_append.mp hx with hx | hx
        · exact hlog x hx
        · rw [List.mem_singleton.mp hx]
          exact hdone.long
      rw [if_pos hle, hv]
      dsimp only
      rw [hdone.buffer, hdone.size, hsize]
      split
      · next hmore =>
        refine ih (w := { v with
            blockFromClient := w.blockFromClient.drop (header w.blockFromClient)
            clientBlockSize := header (w.blockFromClient.drop (header w.blockFromClient)) })
          hrest hmore rfl ?_ hlog'
        show (w.blockFromClient.drop _).length < n
        rw [List.length_drop]
        omega
      · next hmore =>
        exact ⟨_, rfl, ⟨rfl, (if_neg hmore).symm⟩, sized_of_short hmore, hlog'⟩

/-- What a pass of a loop that returns has done: nothing, if the block is not complete; or it has
cut a block off, and the loop goes on unless what is left is too short for a header. -/
theorem blockLoop_cases (hsize : w.clientBlockSize = header w.blockFromClient)
    (h : w.blockLoop conf tcp (n + 1) = .ok w') :
    w.blockFromClient.length < header w.blockFromClient ∧ w' = w ∨
      3 ≤ header w.blockFromClient ∧ header w.blockFromClient ≤ w.blockFromClient.length ∧
        ((∃ v : Worker κ,
            v.blockFromClient = w.blockFromClient.drop (header w.blockFromClient) ∧
              v.clientBlockSize = header v.blockFromClient ∧ v.blockLoop conf tcp n = .ok w') ∨
          ¬ 2 ≤ (w.blockFromClient.drop (header w.blockFromClient)).length ∧
            w'.blockFromClient = w.blockFromClient.drop (header w.blockFromClient)) := by
  unfold blockLoop at h
  split at h
  · next hle =>
    split at h
    · cases h
    · next v hv =>
      have hdone := processed_of_dataProcess hv
      have hlong := hdone.long
      rw [List.length_take, Nat.min_eq_left hle, hsize] at hlong
      rw [hsize] at hle
      dsimp only at h
      rw [hdone.buffer, hdone.size, hsize] at h
      refine .inr ⟨hlong, hle, ?_⟩
      split at h
      · exact .inl ⟨_, rfl, rfl, h⟩
      · next hmore =>
        cases h
        exact .inr ⟨hmore, rfl⟩
  · next hlt =>
    rw [hsize] at hlt
    cases h
    exact .inl ⟨Nat.lt_of_not_le hlt, rfl⟩

/-- A loop that returns has found a sized buffer. -/
theorem sized_of_blockLoop (hsize : w.clientBlockSize = header w.blockFromClient)
    (h : w.blockLoop conf tcp n = .ok w') : Sized w.blockFromClient := by
  induction n generalizing w with
  | zero => cases h
  | succ n ih =>
    rcases blockLoop_cases hsize h with ⟨hlt, -⟩ | ⟨hlong, hle, ⟨v, hbuf, hv, hloop⟩ | ⟨hmore, -⟩⟩
    · exact .rest fun _ => hlt
    · exact .block hlong hle (hbuf ▸ ih hv hloop)
    · exact .block hlong hle (sized_of_short hmore)

/-! ## One call -/

/-- The size that the call starts its loop with is that of the buffer it has filled. -/
theorem Holds.header_of_known (h : w.Holds buf) (hknown : w.clientBlockSize ≠ 0) (more : Block) :
    2 ≤ buf.length ∧ w.clientBlockSize = header (buf ++ more) := by
  have hsize := h.size
  by_cases hlen : 2 ≤ buf.length
  · rw [if_pos hlen] at hsize
    exact ⟨hlen, hsize.trans (header_append hlen more).symm⟩
  · rw [if_neg hlen] at hsize
    exact absurd hsize hknown

theorem Keeps.receive (h : w.Keeps) (hsized : w.SizedCall c) :
    ∃ w', w.receive c = some w' ∧ w'.Keeps := by
  suffices hok : ∃ w', w.dataReceive c.conf c.tcp c.chunks c.closed = .ok w' ∧ w'.Keeps by
    obtain ⟨w', hw', hkeeps⟩ := hok
    exact ⟨w', by rw [Worker.receive, hw']; rfl, hkeeps⟩
  unfold dataReceive
  rw [foldl_append_flatten]
  dsimp only
  cases hclosed : c.closed with
  | true =>
    rw [if_pos rfl]
    exact ⟨_, rfl, ⟨rfl, rfl⟩, sized_of_short (by simp), h.long⟩
  | false =>
    have hbuf := hsized hclosed
    rw [if_neg Bool.false_ne_true]
    split
    · next hzero =>
      split
      · next hlen => exact blockLoop_sized hbuf hlen rfl (Nat.lt_succ_self _) h.long
      · next hlen =>
        exact ⟨_, rfl, ⟨rfl, hzero.trans (if_neg hlen).symm⟩, sized_of_short hlen, h.long⟩
    · next hknown =>
      obtain ⟨hlen, hsize⟩ := h.holds.header_of_known hknown c.chunks.flatten
      refine blockLoop_sized hbuf ?_ hsize (Nat.lt_succ_self _) h.long
      show 2 ≤ (w.blockFromClient ++ _).length
      rw [List.length_append]
      omega

theorem dataReceive_of_receive (hopen : c.closed = false) (hr : w.receive c = some w') :
    w.dataReceive c.conf c.tcp c.chunks false = .ok w' := by
  unfold Worker.receive at hr
  rw [hopen] at hr
  cases hd : w.dataReceive c.conf c.tcp c.chunks false with
  | error fault =>
    rw [hd] at hr
    cases hr
  | ok v =>
    rw [hd] at hr
    cases hr
    rfl

/-- A call that returns has run its loop on the buffer it has filled, or left it there. -/
theorem Keeps.blockLoop_of_receive (h : w.Keeps) (hopen : c.closed = false)
    (hr : w.receive c = some w') :
    (∃ (v : Worker κ) (n : Nat), v.blockFromClient = w.blockFromClient ++ c.chunks.flatten ∧
        v.clientBlockSize = header v.blockFromClient ∧ v.blockLoop c.conf c.tcp n = .ok w') ∨
      ¬ 2 ≤ (w.blockFromClient ++ c.chunks.flatten).length ∧
        w'.blockFromClient = w.blockFromClient ++ c.chunks.flatten := by
  have hok := dataReceive_of_receive hopen hr
  unfold dataReceive at hok
  rw [foldl_append_flatten] at hok
  dsimp only at hok
  rw [if_neg Bool.false_ne_true] at hok
  split at hok
  · split at hok
    · exact .inl ⟨_, _, rfl, rfl, hok⟩
    · next hlen =>
      cases hok
      exact .inr ⟨hlen, rfl⟩
  · next hknown =>
    exact .inl ⟨_, _, rfl, (h.holds.header_of_known hknown c.chunks.flatten).2, hok⟩

theorem Keeps.sizedCall_of_receive (h : w.Keeps) (hr : w.receive c = some w') :
    w.SizedCall c := by
  intro hopen
  rcases h.blockLoop_of_receive hopen hr with ⟨v, n, hbuf, hsize, hloop⟩ | ⟨hlen, -⟩
  · exact hbuf ▸ sized_of_blockLoop hsize hloop
  · exact sized_of_short hlen

/-! ## The stream of one client

Between two calls that do not close, the buffer is the end of the stream so far. -/

/-- A complete first block that is long enough can be cut off. -/
theorem sized_append_iff (hlong : 3 ≤ header buf) (hle : header buf ≤ buf.length) :
    Sized (buf ++ more) ↔ Sized (buf.drop (header buf) ++ more) := by
  have hheader : header (buf ++ more) = header buf := header_append (by omega) more
  have hdrop : (buf ++ more).drop (header (buf ++ more)) = buf.drop (header buf) ++ more := by
    rw [hheader, List.drop_append_of_le_length hle]
  have hcomplete : header (buf ++ more) ≤ (buf ++ more).length := by
    rw [hheader, List.length_append]
    omega
  constructor
  · intro h
    cases h with
    | rest hnone => exact absurd (hnone (by omega)) (Nat.not_lt_of_le hcomplete)
    | block _ _ hrest => rwa [hdrop] at hrest
  · intro h
    exact .block (by rw [hheader]; exact hlong) hcomplete (by rw [hdrop]; exact h)

theorem sized_of_append (h : Sized (buf ++ more)) : Sized buf := by
  obtain ⟨whole, hwhole⟩ : ∃ whole, whole = buf ++ more := ⟨_, rfl⟩
  rw [← hwhole] at h
  induction h generalizing buf with
  | rest hnone =>
    subst hwhole
    refine .rest fun hlen => ?_
    rw [header_append hlen, List.length_append] at hnone
    omega
  | block hlong hle _ ih =>
    subst hwhole
    by_cases hlen : 2 ≤ buf.length ∧ header buf ≤ buf.length
    · rw [header_append hlen.1] at hlong ih
      exact .block hlong hlen.2 (ih (List.drop_append_of_le_length hlen.2))
    · exact .rest fun hge => Nat.lt_of_not_le fun hle => hlen ⟨hge, hle⟩

/-- The loop only cuts blocks off. -/
theorem blockLoop_append (hsize : w.clientBlockSize = header w.blockFromClient)
    (h : w.blockLoop conf tcp n = .ok w') :
    Sized (w.blockFromClient ++ more) ↔ Sized (w'.blockFromClient ++ more) := by
  induction n generalizing w with
  | zero => cases h
  | succ n ih =>
    rcases blockLoop_cases hsize h with ⟨-, rfl⟩ | ⟨hlong, hle, ⟨v, hbuf, hv, hloop⟩ | ⟨-, hbuf⟩⟩
    · rfl
    · rw [sized_append_iff hlong hle, ← hbuf]
      exact ih hv hloop
    · rw [sized_append_iff hlong hle, hbuf]

/-- A call that does not close only cuts blocks off. -/
theorem Keeps.receive_append (h : w.Keeps) (hopen : c.closed = false)
    (hr : w.receive c = some w') :
    Sized (w.blockFromClient ++ c.chunks.flatten ++ more) ↔ Sized (w'.blockFromClient ++ more) := by
  rcases h.blockLoop_of_receive hopen hr with ⟨v, n, hbuf, hsize, hloop⟩ | ⟨-, hbuf⟩
  · rw [← hbuf]
    exact blockLoop_append hsize hloop
  · rw [hbuf]

/-- **Only the stream counts**, not how it is cut into calls. -/
theorem Keeps.meets_sizedCall (h : w.Keeps) (hopen : ∀ c ∈ calls, c.closed = false) :
    Meets Worker.receive SizedCall w calls ↔
      Sized (w.blockFromClient ++ calls.flatMap fun c => c.chunks.flatten) := by
  induction calls generalizing w with
  | nil => simpa using h.sized
  | cons c calls ih =>
    have hc := hopen c List.mem_cons_self
    have hrest : ∀ d ∈ calls, d.closed = false := fun d hd => hopen d (List.mem_cons_of_mem c hd)
    rw [meets_cons, List.flatMap_cons, ← List.append_assoc]
    constructor
    · rintro ⟨hsized, hmeets⟩
      obtain ⟨w', hw', hkeeps⟩ := h.receive hsized
      rw [h.receive_append hc hw', ← ih hkeeps hrest]
      exact hmeets w' hw'
    · intro hall
      have hsized : w.SizedCall c := fun _ => sized_of_append hall
      refine ⟨hsized, fun w' hw' => ?_⟩
      obtain ⟨v, hv, hkeeps⟩ := h.receive hsized
      cases hv.symm.trans hw'
      rw [ih hkeeps hrest, ← h.receive_append hc hw']
      exact hall

/-! ## Whole runs -/

/-- **When every call returns**, and hands on no block without a type byte: if and only if every
complete block that comes into the buffer has a header of three or more. -/
theorem run_sized (calls : List (Call κ)) :
    Meets receive SizedCall (init : Worker κ) calls ↔
      ∀ calls', calls' <+: calls → ∃ w, run receive (init : Worker κ) calls' = some w ∧
        ∀ x ∈ w.processed, 3 ≤ x.2.length :=
  meets_iff_forall_prefix (I := Keeps) (fun _ _ => Keeps.receive) (fun _ h => h.long)
    (fun _ _ _ h hnot hr => absurd (h.sizedCall_of_receive hr) hnot) keeps_init

/-- A header of zero, one or two: the type byte is read from behind the block. -/
theorem shortHeader_undefined :
    (init : Worker Unit).dataReceive id () [[0, 0]] false = .error .undefined ∧
      (init : Worker Unit).dataReceive id () [[0, 1]] false = .error .undefined ∧
        (init : Worker Unit).dataReceive id () [[0, 2]] false = .error .undefined :=
  ⟨rfl, rfl, rfl⟩

end Worker

end ModemFhss.Daemon
