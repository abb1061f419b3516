import ModemFhss.Library.Machine
import ModemFhss.Daemon.Worker

/-!
# One client's stream

A client that keeps to the format sends blocks whose header is their own size (`WellFormed`), in a
stream that reaches the worker in pieces of any size. Between two readiness events the worker holds
exactly what has arrived of the block that is not complete yet (`Holds`), and the cached size is
that block's header as soon as it has arrived. Each event then hands on the blocks it completes
(`dataReceive_stream`), so cutting the stream differently changes nothing (`run_framing`).
-/

namespace ModemFhss.Daemon

open ByteField Framing Machine

/-- A block whose header is its own size, with room for a type byte. -/
structure WellFormed (b : Block) : Prop where
  size : Worker.header b = b.length
  long : 3 ≤ b.length

instance (b : Block) : Decidable (WellFormed b) :=
  decidable_of_iff (Worker.header b = b.length ∧ 3 ≤ b.length)
    ⟨fun h => ⟨h.1, h.2⟩, fun h => ⟨h.size, h.long⟩⟩

namespace Worker

variable {κ : Type} {w w' : Worker κ} {conf : Block → Block} {tcp : κ} {b buf : Block}
  {bs : List Block} {chunks : List Block} {n m : Nat}

/-- Between two events: `buf` in the buffer, and its header, if it is there, in the cached size. -/
structure Holds (w : Worker κ) (buf : Block) : Prop where
  buffer : w.blockFromClient = buf
  size : w.clientBlockSize = if 2 ≤ buf.length then header buf else 0

theorem holds_init : (init : Worker κ).Holds [] := ⟨rfl, rfl⟩

theorem header_append (h : 2 ≤ b.length) (post : Block) : header (b ++ post) = header b :=
  be16At_append_left (by omega) post

theorem header_take (h : 2 ≤ m) (hm : m ≤ b.length) : header (b.take m) = header b := by
  conv_rhs => rw [← List.take_append_drop m b]
  exact (header_append (by rw [List.length_take]; omega) _).symm

/-- The header of what has arrived of a stream is the size of its first block. -/
theorem header_stream (hb : WellFormed b) (h : 2 ≤ m) (hm : m ≤ (b :: bs).flatten.length) :
    header ((b :: bs).flatten.take m) = b.length := by
  rw [header_take h hm, List.flatten_cons, header_append (Nat.le_of_succ_le hb.long), hb.size]

theorem short_of_wellFormed (hwf : ∀ b ∈ bs, WellFormed b) (hm : m < 2) :
    ∀ b ∈ bs, m < b.length := by
  intro b hb
  have := (hwf b hb).long
  omega

/-- **The loop hands on every complete block**, in order, and keeps the rest. -/
theorem blockLoop_stream (hwf : ∀ b ∈ bs, WellFormed b) (hm : m ≤ bs.flatten.length)
    (hbuf : w.blockFromClient = bs.flatten.take m) (hlen : 2 ≤ m)
    (hsize : w.clientBlockSize = header w.blockFromClient) (hfuel : m < n) :
    ∃ w', w.blockLoop conf tcp n = .ok w' ∧ w'.Holds (rest bs m) ∧
      w'.processed = w.processed ++ (whole bs m).map (tcp, ·) := by
  induction bs generalizing w m n with
  | nil => exact absurd hm (by simp; omega)
  | cons b bs ih =>
    obtain ⟨n, rfl⟩ : ∃ k, n = k + 1 := ⟨n - 1, by omega⟩
    have hb : WellFormed b := hwf b List.mem_cons_self
    have hwf' : ∀ c ∈ bs, WellFormed c := fun c hc => hwf c (List.mem_cons_of_mem b hc)
    have hbsize : w.clientBlockSize = b.length := by rw [hsize, hbuf, header_stream hb hlen hm]
    have hlength : w.blockFromClient.length = m := by
      rw [hbuf, List.length_take, Nat.min_eq_left hm]
    rw [List.flatten_cons] at hbuf hm
    rw [List.length_append] at hm
    unfold blockLoop
    rw [hlength, hbsize]
    rcases Nat.lt_or_ge m b.length with hlt | hle
    · -- the first block is not complete: it stays
      rw [if_neg (Nat.not_le_of_lt hlt), whole_cons_of_lt hlt, rest_cons_of_lt hlt]
      rw [List.take_append_of_le_length (Nat.le_of_lt hlt)] at hbuf
      refine ⟨w, rfl, ⟨hbuf, ?_⟩, (List.append_nil _).symm⟩
      rw [hsize, hbuf, if_pos (by rw [List.length_take]; omega)]
    · -- it is, and is handed on: the loop goes on with what is left of the stream
      rw [if_pos hle, whole_cons_of_le hle, rest_cons_of_le hle]
      rw [List.take_append, List.take_of_length_le hle] at hbuf
      have hfirst : w.blockFromClient.take b.length = b := by rw [hbuf, List.take_left]
      obtain ⟨v, hv⟩ : ∃ v, w.dataProcess conf tcp b = .ok v := dataProcess_ok hb.long
      have hdone := processed_of_dataProcess hv
      have hleft : v.blockFromClient.drop v.clientBlockSize = bs.flatten.take (m - b.length) := by
        rw [hdone.buffer, hdone.size, hbsize, hbuf, List.drop_left]
      have hleftlen : (bs.flatten.take (m - b.length)).length = m - b.length := by
        rw [List.length_take]
        omega
      rw [hfirst, hv]
      dsimp only
      rw [hleft, hleftlen]
      by_cases hmore : 2 ≤ m - b.length
      · rw [if_pos hmore]
        obtain ⟨w', hw', hholds, hlog⟩ := ih (w := { v with
            blockFromClient := bs.flatten.take (m - b.length)
            clientBlockSize := header (bs.flatten.take (m - b.length)) })
          hwf' (by omega) rfl hmore rfl (show m - b.length < n by have := hb.long; omega)
        refine ⟨w', hw', hholds, ?_⟩
        rw [hlog]
        show v.processed ++ _ = _
        rw [hdone.log, List.append_assoc]
        rfl
      · -- less than a header is left, and so no block
        have hshort := short_of_wellFormed hwf' (Nat.lt_of_not_le hmore)
        rw [if_neg hmore, whole_of_short hshort, rest_of_short hshort]
        refine ⟨_, rfl, ⟨rfl, ?_⟩, hdone.log⟩
        rw [hleftlen, if_neg hmore]

theorem foldl_append_flatten (buf : Block) (chunks : List Block) :
    chunks.foldl (· ++ ·) buf = buf ++ chunks.flatten := by
  induction chunks generalizing buf with
  | nil => simp
  | cons c chunks ih => rw [List.foldl_cons, ih, List.flatten_cons, List.append_assoc]

/-- **One readiness event** of a client whose stream goes on in `chunks`. -/
theorem dataReceive_stream (hwf : ∀ b ∈ bs, WellFormed b) (h : w.Holds (rest bs n))
    (hnext : bs.flatten.take n ++ chunks.flatten = bs.flatten.take (n + chunks.flatten.length))
    (hn : n + chunks.flatten.length ≤ bs.flatten.length) :
    ∃ w', w.dataReceive conf tcp chunks false = .ok w' ∧
      w'.Holds (rest bs (n + chunks.flatten.length)) ∧
      w'.processed = w.processed ++
        (whole (pending bs n) ((rest bs n).length + chunks.flatten.length)).map (tcp, ·) := by
  have hle : n ≤ bs.flatten.length := Nat.le_trans (Nat.le_add_right ..) hn
  have hwf' : ∀ c ∈ pending bs n, WellFormed c := fun c hc => hwf c (mem_of_mem_pending hc)
  have hm := add_le_length_pending hn
  rw [rest_add hle]
  -- from here on only the pending blocks matter, and how much of them is in the buffer
  have hbuf := rest_append hle hnext
  generalize pending bs n = ps at *
  generalize hr : rest bs n = r at *
  generalize hcs : chunks.flatten = cs at *
  generalize hmdef : r.length + cs.length = m at *
  have hlength : (r ++ cs).length = m := by rw [List.length_append, hmdef]
  unfold dataReceive
  rw [foldl_append_flatten, h.buffer, hcs]
  dsimp only
  rw [if_neg Bool.false_ne_true]
  split
  · next hzero =>
    rw [hlength]
    by_cases hlen : 2 ≤ m
    · rw [if_pos hlen]
      exact blockLoop_stream hwf' hm hbuf hlen rfl (show m < (r ++ cs).length + 1 by omega)
    · have hshort := short_of_wellFormed hwf' (Nat.lt_of_not_le hlen)
      rw [if_neg hlen, whole_of_short hshort, rest_of_short hshort]
      refine ⟨_, rfl, ⟨hbuf, ?_⟩, (List.append_nil _).symm⟩
      rw [← hbuf, hlength, if_neg hlen]
      exact hzero
  · next hknown =>
    -- the size was read before, from a header that is still the first thing in the buffer
    have hsize : w.clientBlockSize = if 2 ≤ r.length then header r else 0 := h.size
    have hheader : 2 ≤ r.length := by
      by_contra hnot
      rw [if_neg hnot] at hsize
      exact hknown hsize
    rw [if_pos hheader] at hsize
    refine blockLoop_stream hwf' hm hbuf (by omega) ?_ (show m < (r ++ cs).length + 1 by omega)
    show w.clientBlockSize = header (r ++ cs)
    rw [header_append hheader, hsize]

/-- A readiness event without bytes changes nothing. -/
theorem dataReceive_quiet (hwf : ∀ b ∈ bs, WellFormed b) (h : w.Holds (rest bs n))
    (hn : n ≤ bs.flatten.length) (hquiet : chunks.flatten = []) :
    ∃ w', w.dataReceive conf tcp chunks false = .ok w' ∧ w'.Holds (rest bs n) ∧
      w'.processed = w.processed := by
  obtain ⟨w', hw', hholds, hlog⟩ : ∃ w', w.dataReceive conf tcp chunks false = .ok w' ∧ _ :=
    dataReceive_stream hwf h (by simp [hquiet]) (by simpa [hquiet] using hn)
  rw [hquiet, List.length_nil, Nat.add_zero] at hholds hlog
  have hnone : whole bs n ++ whole (pending bs n) (rest bs n).length = whole bs n ++ [] := by
    rw [List.append_nil]
    exact (whole_add (m := 0) hn).symm
  rw [List.append_cancel_left hnone, List.map_nil, List.append_nil] at hlog
  exact ⟨w', hw', hholds, hlog⟩

end Worker

/-! ## Whole runs with one client -/

inductive ClientEvent where
  /-- A readiness event of the client, whose `recv` calls end with `-1`. -/
  | readable (chunks : List Block) (conf : Block → Block)
  /-- The modem's side of the worker moves on: `write_modem` and `listen_modem`. -/
  | modem (blockToModem blockToClient : Block)

/-- The bytes that arrive in an event. -/
def ClientEvent.bytes : ClientEvent → Block
  | .readable chunks _ => chunks.flatten
  | .modem .. => []

namespace Worker

variable {κ : Type} {w w' : Worker κ} {tcp : κ} {bs : List Block} {n : Nat} {e : ClientEvent}
  {es : List ClientEvent}

def clientStep (tcp : κ) (w : Worker κ) : ClientEvent → Option (Worker κ)
  | .readable chunks conf => (w.dataReceive conf tcp chunks false).toOption
  | .modem blockToModem blockToClient => some { w with blockToModem, blockToClient }

/-- The worker has handed on what is whole in the first `n` bytes of the client's stream `bs`, and
holds the rest of them. -/
structure Reads (w : Worker κ) (tcp : κ) (bs : List Block) (n : Nat) : Prop where
  arrived : n ≤ bs.flatten.length
  holds : w.Holds (rest bs n)
  log : w.processed = (whole bs n).map (tcp, ·)

theorem reads_init (hwf : ∀ b ∈ bs, WellFormed b) : (init : Worker κ).Reads tcp bs 0 := by
  have hshort := short_of_wellFormed hwf (Nat.zero_lt_two)
  refine ⟨Nat.zero_le _, ?_, ?_⟩
  · rw [rest_of_short hshort, List.take_zero]
    exact holds_init
  · rw [whole_of_short hshort]
    rfl

/-- The bytes of an event are the next bytes of the stream. -/
def Continues (bs : List Block) (n : Nat) (bytes : Block) : Prop :=
  bs.flatten.take n ++ bytes <+: bs.flatten

theorem Continues.le {bytes : Block} (h : Continues bs n bytes) (hn : n ≤ bs.flatten.length) :
    n + bytes.length ≤ bs.flatten.length := by
  have := h.length_le
  rw [List.length_append, List.length_take, Nat.min_eq_left hn] at this
  exact this

theorem Continues.eq_take {bytes : Block} (h : Continues bs n bytes)
    (hn : n ≤ bs.flatten.length) :
    bs.flatten.take n ++ bytes = bs.flatten.take (n + bytes.length) := by
  rw [List.prefix_iff_eq_take.mp h, List.length_append, List.length_take, Nat.min_eq_left hn]

theorem Reads.step (hwf : ∀ b ∈ bs, WellFormed b) (h : w.Reads tcp bs n)
    (hnext : Continues bs n e.bytes) : ∃ w', w.clientStep tcp e = some w' ∧
      w'.Reads tcp bs (n + e.bytes.length) := by
  cases e with
  | modem m c => exact ⟨_, rfl, h.arrived, ⟨h.holds.buffer, h.holds.size⟩, h.log⟩
  | readable chunks conf =>
    have hle := hnext.le h.arrived
    obtain ⟨w', hw', hholds, hlog⟩ : ∃ w', w.dataReceive conf tcp chunks false = .ok w' ∧ _ :=
      dataReceive_stream hwf h.holds (hnext.eq_take h.arrived) hle
    refine ⟨w', ?_, hle, hholds, ?_⟩
    · show (w.dataReceive conf tcp chunks false).toOption = some w'
      rw [hw']
      rfl
    · rw [hlog, h.log, ← List.map_append, ← whole_add h.arrived]
      rfl

theorem Reads.run (hwf : ∀ b ∈ bs, WellFormed b) (h : w.Reads tcp bs n)
    (hnext : Continues bs n (es.flatMap ClientEvent.bytes)) :
    ∃ w', Machine.run (clientStep tcp) w es = some w' ∧
      w'.Reads tcp bs (n + (es.flatMap ClientEvent.bytes).length) := by
  induction es generalizing w n with
  | nil => exact ⟨w, rfl, h⟩
  | cons e es ih =>
    rw [List.flatMap_cons] at hnext ⊢
    have hfirst : Continues bs n e.bytes := by
      refine List.IsPrefix.trans ?_ hnext
      rw [← List.append_assoc]
      exact List.prefix_append ..
    obtain ⟨v, hv, hreads⟩ := h.step hwf hfirst
    have hrest : Continues bs (n + e.bytes.length) (es.flatMap ClientEvent.bytes) := by
      unfold Continues
      rw [← hfirst.eq_take h.arrived, List.append_assoc]
      exact hnext
    obtain ⟨w', hw', hreads'⟩ := ih hreads hrest
    refine ⟨w', by rw [run_cons hv, hw'], ?_⟩
    rw [List.length_append, ← Nat.add_assoc]
    exact hreads'

/-- **Framing does not depend on chunking.** Whatever the events bring of a client's stream, and
however it is cut: the blocks handed on are those wholly contained in the bytes received so far, and
the buffer holds the bytes after them. -/
theorem run_framing (hwf : ∀ b ∈ bs, WellFormed b)
    (hstream : es.flatMap ClientEvent.bytes <+: bs.flatten) :
    ∃ w, Machine.run (clientStep tcp) (init : Worker κ) es = some w ∧
      w.processed = (whole bs (es.flatMap ClientEvent.bytes).length).map (tcp, ·) ∧
      w.blockFromClient = (es.flatMap ClientEvent.bytes).drop
        (whole bs (es.flatMap ClientEvent.bytes).length).flatten.length := by
  have hinit : (init : Worker κ).Reads tcp bs 0 := reads_init hwf
  obtain ⟨w, hw, hreads⟩ := hinit.run hwf (show Continues bs 0 _ from hstream)
  rw [Nat.zero_add] at hreads
  refine ⟨w, hw, hreads.log, ?_⟩
  rw [hreads.holds.buffer]
  generalize es.flatMap ClientEvent.bytes = bytes at *
  have hsplit := flatten_whole_append_rest bs bytes.length
  rw [← List.prefix_iff_eq_take.mp hstream] at hsplit
  calc rest bs bytes.length
      = ((whole bs bytes.length).flatten ++ rest bs bytes.length).drop
          (whole bs bytes.length).flatten.length := List.drop_left.symm
    _ = bytes.drop (whole bs bytes.length).flatten.length := by rw [hsplit]

/-- Two blocks in three events: a cut inside the first header, and one inside the second block. -/
theorem run_framing_cut :
    ∃ w, Machine.run (clientStep ()) (init : Worker Unit)
        [.readable [[0], [3]] id, .modem [1] [], .readable [[2, 0, 4], [9]] id] = some w ∧
      w.processed = [((), [0, 3, 2])] ∧ w.blockFromClient = [0, 4, 9] :=
  @run_framing Unit () [[0, 3, 2], [0, 4, 9, 9]] _ (by decide) (by decide)

/-! ## The end of the stream

The client closes its side when it has sent everything. The worker learns of it in some event, with
or without the last bytes of the stream. -/

/-- The blocks handed on after the events `es` of a client and one more, which brings `last` and
reports the end of the stream. -/
def closedAfter (tcp : κ) (conf : Block → Block) (es : List ClientEvent) (last : List Block) :
    Option (List (κ × Block)) :=
  match Machine.run (clientStep tcp) init es with
  | none => none
  | some w => ((w.dataReceive conf tcp last true).toOption).map processed

/-- **Blocks sent before a close**: all of them are handed on, in order, if and only if the event
that reports the end of the stream brings none of its bytes. -/
theorem run_closed {conf : Block → Block} {last : List Block} (hwf : ∀ b ∈ bs, WellFormed b)
    (hstream : es.flatMap ClientEvent.bytes ++ last.flatten = bs.flatten) :
    ∃ handed, closedAfter tcp conf es last = some handed ∧
      (handed = bs.map (tcp, ·) ↔ last.flatten = []) := by
  have hinit : (init : Worker κ).Reads tcp bs 0 := reads_init hwf
  have hnext : Continues bs 0 (es.flatMap ClientEvent.bytes) := ⟨last.flatten, hstream⟩
  obtain ⟨w, hw, hreads⟩ := hinit.run hwf hnext
  rw [Nat.zero_add] at hreads
  refine ⟨w.processed, by unfold closedAfter; rw [hw]; rfl, ?_⟩
  have hlength := congrArg List.length hstream
  rw [List.length_append] at hlength
  rw [hreads.log, List.map_inj_right fun _ _ h => (Prod.mk.inj h).2, whole_eq_self hreads.arrived,
    ← List.length_eq_zero_iff]
  omega

/-- The end of the stream in an event of its own. -/
theorem run_closed_later :
    ∃ handed, closedAfter () id [.readable [[0, 3], [2]] id] [] = some handed ∧
      (handed = [[0, 3, 2]].map ((), ·) ↔ ([] : List Block).flatten = []) :=
  run_closed (by decide) rfl

/-- The end of the stream in the event of the last bytes: the block is not handed on. -/
theorem closedAfter_lost :
    closedAfter () id [.readable [[0, 3, 2]] id] [] = some [((), [0, 3, 2])] ∧
      closedAfter () id [] [[0, 3, 2]] = some [] := by
  decide

end Worker

end ModemFhss.Daemon
