import ModemFhss.Daemon.Modem

/-!
# Reply frames

What the worker sends in answer to a request is a frame like the blocks it receives: its header is
its size. Two things produce frames: `data_answer` computes the header of a text in 16 bits, and a
block from the modem is sent as it came (`run_ready`: it is well formed when it is kept). A text
longer than 65532 bytes gets a wrong header, and only the answer to a configuration request can be
that long (`run_replies`).
-/

namespace ModemFhss.Daemon

open ByteField Machine

/-- The longest text whose frame has a 16-bit size. -/
def maxMessage : Nat := 65532

namespace ModemWorker

variable {κ : Type} {w w' : ModemWorker κ} {e : Event κ} {es : List (Event κ)} {sys : System}
  {tcp : κ} {b : Block}

theorem Ready.step (h : Ready w.blockToClient) (hs : step w e = some w') :
    Ready w'.blockToClient := by
  rcases step_cases hs with ⟨sys, tcp, chunks, closed, worker, rfl, hworker, -, rfl⟩ |
    ⟨result, rfl, -, hwrite⟩ | ⟨now, buf, rfl, -, rfl⟩
  · rcases Worker.dataReceive_blockToClient hworker with heq | hempty
    · exact heq ▸ h
    · exact .inl hempty
  · exact writeModem_blockToClient hwrite ▸ h
  · rcases @listenModem_cases _ w now buf with heq | ⟨heq, hwf⟩
    · exact heq ▸ h
    · exact heq ▸ .inr hwf

/-- **What is kept for the client is well formed**, in every state. -/
theorem run_ready (hr : run step (init : ModemWorker κ) es = some w) : Ready w.blockToClient :=
  run_invariant (I := fun w => Ready w.blockToClient) (fun _ _ _ => Ready.step) (.inl rfl) hr

/-! ## One frame for each request -/

theorem be16At_be16 {n : Nat} (post : Block) : be16At (be16 n ++ post) 0 = n % 65536 := by
  show 256 * (n / 256 % 256) + n % 256 = n % 65536
  omega

/-- A text answer is well formed if its size fits in the header. -/
theorem wellFormed_answer {message : Block} :
    WellFormed (be16 (message.length + 3) ++ [DataType.serverMessage.toByte] ++ message) ↔
      message.length ≤ maxMessage := by
  have hlength : (be16 (message.length + 3) ++ [DataType.serverMessage.toByte] ++ message).length =
      message.length + 3 := by
    simp only [List.length_append, List.length_singleton]
    show 2 + 1 + message.length = message.length + 3
    omega
  have hheader : Worker.header
      (be16 (message.length + 3) ++ [DataType.serverMessage.toByte] ++ message) =
      (message.length + 3) % 65536 := by
    rw [List.append_assoc]
    exact be16At_be16 _
  unfold maxMessage
  constructor
  · intro h
    have hsize := h.size
    rw [hheader, hlength] at hsize
    omega
  · intro h
    refine ⟨?_, ?_⟩
    · rw [hheader, hlength]
      exact Nat.mod_eq_of_lt (by omega)
    · rw [hlength]
      omega

end ModemWorker

namespace Worker

variable {κ : Type} {w : Worker κ} {conf : Block → Block} {tcp : κ} {b : Block} {type : UInt8}

/-- One frame is sent, and `good` says when it is well formed. -/
def SendsFrame (w w' : Worker κ) (tcp : κ) (good : Prop) : Prop :=
  ∃ frame, w'.sent = w.sent ++ [(tcp, frame)] ∧ (WellFormed frame ↔ good)

theorem sendsFrame_text {s : String} {good : Prop} (v : Worker κ) (hv : v.sent = w.sent)
    (hs : s.length ≤ maxMessage) (hgood : good) :
    w.SendsFrame (v.dataAnswer tcp (ascii s)) tcp good := by
  refine ⟨_, congrArg (· ++ _) hv, iff_of_true (ModemWorker.wellFormed_answer.mpr ?_) hgood⟩
  rw [ModemConf.length_ascii]
  exact hs

theorem length_unknown (type : UInt8) :
    ("unknown block type: 0x" ++ Hex.text type.toNat).length ≤ maxMessage := by
  have hdigits : (Hex.digits type.toNat).length ≤ 2 :=
    (Nat.length_toDigits_le_iff (by decide) (by decide)).mpr type.toNat_lt
  have htext : (Hex.text type.toNat).length ≤ 2 := by
    unfold Hex.text
    rw [String.length_ofList]
    exact hdigits
  rw [String.length_append]
  exact Nat.le_trans (Nat.add_le_add_left htext _) (by decide)

/-- Every answer is one frame, and only that of a configuration request can be too long. -/
theorem sendsFrame_dispatch (h : ModemWorker.Ready w.blockToClient) :
    w.SendsFrame (w.dispatch conf tcp type b) tcp
      (type = DataType.config.toByte → (conf (b.drop 3)).length ≤ maxMessage) := by
  unfold dispatch
  split
  · next hconfig =>
    refine ⟨_, rfl, ModemWorker.wellFormed_answer.trans ?_⟩
    exact ⟨fun hle _ => hle, fun hle => hle hconfig⟩
  · next hconfig =>
    split
    · split
      · exact sendsFrame_text _ rfl (by decide) fun heq => absurd heq hconfig
      · exact sendsFrame_text _ rfl (by decide) fun heq => absurd heq hconfig
    · split
      · split
        · next hlength =>
          have hwf : WellFormed w.blockToClient :=
            h.resolve_left fun hempty => by simp [hempty] at hlength
          exact ⟨_, rfl, iff_of_true hwf fun heq => absurd heq hconfig⟩
        · exact sendsFrame_text _ rfl (by decide) fun heq => absurd heq hconfig
      · exact sendsFrame_text _ rfl (length_unknown type) fun heq => absurd heq hconfig

end Worker

namespace ModemWorker

variable {κ : Type} {w w' : ModemWorker κ} {es : List (Event κ)} {sys : System} {tcp : κ}
  {b : Block}

/-- The answer to `b` is one well-formed frame. -/
def RepliesOnce (w : ModemWorker κ) (sys : System) (tcp : κ) (b : Block) : Prop :=
  ∃ w' frame, w.request sys tcp b = some w' ∧ w'.sent = w.sent ++ [(tcp, frame)] ∧ WellFormed frame

theorem repliesOnce_iff (h : Ready w.blockToClient) (hb : 3 ≤ b.length) :
    RepliesOnce w sys tcp b ↔ (b[2]? = some DataType.config.toByte →
      ModemConf.Short maxMessage (ModemConf.runConf sys (b.drop 3))) := by
  have htype : b[2]? = some b[2] := List.getElem?_eq_getElem (by omega)
  obtain ⟨frame, hsent, hwf⟩ := @Worker.sendsFrame_dispatch κ
    { w.toWorker with processed := w.processed ++ [(tcp, b)] } (conf sys) tcp b b[2] h
  have hrequest : ∀ w', w.request sys tcp b = some w' ↔ Returns sys b ∧ w' = { w with
      toWorker := { w.toWorker with processed := w.processed ++ [(tcp, b)] }.dispatch
        (conf sys) tcp b[2] b } := by
    intro w'
    unfold request Worker.dataProcess
    simp only [htype]
    by_cases hreturns : Returns sys b
    · simp [hreturns, eq_comm]
    · simp [hreturns]
  constructor
  · rintro ⟨w', frame', hw', hsent', hwf'⟩ hconfig
    obtain ⟨hreturns, rfl⟩ := (hrequest w').mp hw'
    obtain ⟨text, htext⟩ := Option.isSome_iff_exists.mp (hreturns hconfig)
    cases (List.append_cancel_left (hsent.symm.trans hsent'))
    refine ⟨text, htext, ?_⟩
    have hle := hwf.mp hwf' (Option.some.inj (htype.symm.trans hconfig))
    unfold conf at hle
    rw [htext] at hle
    exact hle
  · intro hshort
    have hreturns : Returns sys b := by
      intro hconfig
      obtain ⟨text, htext, -⟩ := hshort hconfig
      rw [htext]
      rfl
    refine ⟨_, frame, (hrequest _).mpr ⟨hreturns, rfl⟩, hsent, hwf.mpr fun hconfig => ?_⟩
    obtain ⟨text, htext, hle⟩ := hshort (htype.trans (congrArg some hconfig))
    unfold conf
    rw [htext]
    exact hle

/-- **When a request is answered by one well-formed frame.** Always, unless it is a configuration
request: then the text it leads to, with the client's own words in it, has to fit in a frame. -/
theorem run_replies (hr : run step (init : ModemWorker κ) es = some w) (hb : 3 ≤ b.length) :
    RepliesOnce w sys tcp b ↔ (b[2]? = some DataType.config.toByte →
      ModemConf.Fits sys maxMessage ((b.drop 3).splitOn ModemConf.space)) := by
  rw [repliesOnce_iff (run_ready hr) hb, ModemConf.short_runConf (by decide)]

/-- A short request. -/
theorem run_replies_bare :
    RepliesOnce (init : ModemWorker Unit) System.bare () ([0, 8, 0] ++ ascii "get b") := by
  refine (@run_replies _ _ [] _ _ _ rfl (by decide)).mpr fun _ => ?_
  have hwords : (([0, 8, 0] ++ ascii "get b").drop 3).splitOn ModemConf.space =
      [ascii "get", ascii "b"] := by decide
  rw [hwords]
  refine ⟨fun _ _ h => ?_, fun _ h => ?_, fun _ h => ?_⟩
  · exact absurd (congrArg List.length h) (by simp)
  · rw [← (List.cons.inj (List.cons.inj h).2).1]
    exact (by decide : (ascii "b").length + 34 ≤ maxMessage)
  · exact absurd (List.cons.inj h).1 (by decide)

theorem fits_bare {room : Nat} {name : Block}
    (h : ModemConf.Fits System.bare room [ascii "get", name]) : name.length + 34 ≤ room :=
  h.get name rfl

/-- A request for a register whose name fills the block. -/
def longRequest : Block :=
  be16 65535 ++ [DataType.config.toByte] ++
    (ascii "get" ++ ModemConf.space :: List.replicate 65528 97)

/-- The name comes back in the answer, which has 65562 bytes of text. -/
theorem longRequest_unframed :
    WellFormed longRequest ∧
      ¬ RepliesOnce (init : ModemWorker Unit) System.bare () longRequest := by
  have hlength : longRequest.length = 65535 := by
    have hframe : (be16 65535 ++ [DataType.config.toByte]).length = 3 := rfl
    have hget : (ascii "get").length = 3 := rfl
    unfold longRequest
    rw [List.length_append, hframe, List.length_append, hget, List.length_cons,
      List.length_replicate]
  have hwords : (longRequest.drop 3).splitOn ModemConf.space =
      [ascii "get", List.replicate 65528 97] := by
    show (ascii "get" ++ ModemConf.space :: List.replicate 65528 97).splitOn ModemConf.space = _
    rw [List.splitOn_append_cons_self_of_not_mem (by decide), List.splitOn_eq_singleton]
    intro hmem
    exact absurd (List.eq_of_mem_replicate hmem) (by decide)
  refine ⟨⟨?_, by omega⟩, ?_⟩
  · rw [hlength]
    exact be16At_be16 _
  · rw [repliesOnce_iff (.inl rfl) (by omega), ModemConf.short_runConf (by decide), hwords]
    intro h
    have hfits := fits_bare (h rfl)
    rw [List.length_replicate] at hfits
    exact absurd hfits (by decide)

end ModemWorker

end ModemFhss.Daemon
