import PbdZmq.Models.Zmtp.Codec

/-!
# The encoder of libzmq

`encode` fills a buffer with what is left of the message in progress, and hands out a large
piece in place. The engine loads the next message whenever there is room in its batch.
-/

namespace PbdZmq.Zmtp

/-- The piece of a message that is being written. -/
inductive Piece
  | header
  | body
  deriving DecidableEq, Repr

/-- The header comes before the body. -/
def Piece.rank : Piece → Nat
  | header => 1
  | body => 0

/-- `encoder_base_t`: `in_progress` and what is left at `write_pos`. `new_msg_flag` is set
with the body. -/
inductive Encoder
  | idle
  | busy (in_progress : Msg) (piece : Piece) (write : Bytes)
  deriving DecidableEq, Repr

/-- Bytes that are still to be handed out. -/
def Encoder.pending : Encoder → Bytes
  | idle => []
  | busy m .header write => write ++ m.body
  | busy _ .body write => write

/-- `load_msg`, which asserts that no message is in progress. -/
def Encoder.load_msg (header : Msg → Bytes) (m : Msg) : Encoder → Option Encoder
  | idle => some (busy m .header (header m))
  | busy _ _ _ => none

/-- The state machine runs when there is nothing left to write. -/
def next_step (m : Msg) (piece : Piece) (write : Bytes) : Piece × Bytes :=
  if write = [] then (.body, m.body) else (piece, write)

/-- The loop of `encode`, into a buffer of the encoder's own or one of the caller. -/
def fill (own : Bool) (buffersize : Nat) (m : Msg) (piece : Piece) (write : Bytes) (pos : Nat) :
    Bytes × Encoder :=
  if pos < buffersize then
    if write = [] ∧ piece = .body then ([], .idle)
    else
      let p := next_step m piece write
      if pos = 0 ∧ own ∧ buffersize ≤ p.2.length then (p.2, .busy m p.1 [])
      else
        let to_copy := min p.2.length (buffersize - pos)
        let rest := fill own buffersize m p.1 (p.2.drop to_copy) (pos + to_copy)
        (p.2.take to_copy ++ rest.1, rest.2)
  else ([], .busy m piece write)
termination_by 2 * (buffersize - pos) + piece.rank
decreasing_by
  rename_i hroom hgo _
  have hrank : (next_step m piece write).1.rank ≤ 1 := by
    cases (next_step m piece write).1 <;> decide
  by_cases hlen : (next_step m piece write).2.length = 0
  · have hwrite : write = [] := by
      by_contra hne
      rw [next_step, if_neg hne] at hlen
      exact hne (List.length_eq_zero_iff.mp hlen)
    have hpiece : piece = .header := by
      cases piece with
      | header => rfl
      | body => exact absurd ⟨hwrite, rfl⟩ hgo
    rw [hlen, Nat.zero_min, Nat.add_zero, next_step, if_pos hwrite, hpiece]
    exact Nat.lt_succ_self _
  · omega

/-- `encode`. -/
def Encoder.encode (own : Bool) (buffersize : Nat) : Encoder → Bytes × Encoder
  | idle => ([], idle)
  | busy m piece write => fill own buffersize m piece write 0

/-- The loop of `out_event` that fills the batch; none if an assertion fails. -/
def refill (header : Msg → Bytes) (out_batch_size : Nat) :
    Bytes → Bool → Encoder → List Msg → Option (Bytes × Encoder × List Msg)
  | out, _, e, [] => some (out, e, [])
  | out, own, e, m :: queue =>
    if out.length < out_batch_size then
      (e.load_msg header m).bind fun loaded =>
        let r := loaded.encode own (out_batch_size - out.length)
        if r.1 = [] then none else refill header out_batch_size (out ++ r.1) false r.2 queue
    else some (out, e, m :: queue)

/-- The next batch of `out_event`. -/
def nextBatch (header : Msg → Bytes) (out_batch_size : Nat) (e : Encoder) (queue : List Msg) :
    Option (Bytes × Encoder × List Msg) :=
  let r := e.encode true out_batch_size
  refill header out_batch_size r.1 (e = .idle) r.2 queue

section

variable {own : Bool} {buffersize : Nat} {m : Msg} {piece : Piece} {write : Bytes} {pos : Nat}

/-- The state machine neither adds nor drops bytes. -/
theorem pending_next_step (h : ¬ (write = [] ∧ piece = .body)) :
    (Encoder.busy m (next_step m piece write).1 (next_step m piece write).2).pending =
      (Encoder.busy m piece write).pending := by
  rw [next_step]
  split
  · rename_i hwrite
    cases piece with
    | header => simp [Encoder.pending, hwrite]
    | body => exact absurd ⟨hwrite, rfl⟩ h
  · rfl

/-- Writing takes bytes off the front. -/
theorem pending_drop (m : Msg) (piece : Piece) (write : Bytes) (n : Nat) :
    write.take n ++ (Encoder.busy m piece (write.drop n)).pending =
      (Encoder.busy m piece write).pending := by
  cases piece <;> simp [Encoder.pending, ← List.append_assoc]

/-- What is handed out and what is left are what was to be handed out. -/
theorem fill_pending : (fill own buffersize m piece write pos).1 ++
    (fill own buffersize m piece write pos).2.pending = (Encoder.busy m piece write).pending := by
  fun_induction fill own buffersize m piece write pos with
  | case1 piece write pos hroom hdone => simp [Encoder.pending, hdone]
  | case2 piece write pos hroom hgo p hall =>
    have hnext := pending_next_step (m := m) hgo
    rw [← hnext]
    have hdrop := pending_drop m p.1 p.2 p.2.length
    rwa [List.take_length, List.drop_length] at hdrop
  | case3 piece write pos hroom hgo p hpart to_copy rest ih =>
    rw [List.append_assoc, ih, pending_drop, pending_next_step hgo]
  | case4 piece write pos hfull => rfl

/-- The encoder stops within a message only if the buffer is full. -/
theorem fill_idle_of_lt
    (h : pos + (fill own buffersize m piece write pos).1.length < buffersize) :
    (fill own buffersize m piece write pos).2 = .idle := by
  fun_induction fill own buffersize m piece write pos with
  | case1 piece write pos hroom hdone => rfl
  | case2 piece write pos hroom hgo p hall =>
    have hlen : p.2.length < buffersize := Nat.lt_of_le_of_lt (Nat.le_add_left _ _) h
    exact absurd hall.2.2 (Nat.not_le_of_lt hlen)
  | case3 piece write pos hroom hgo p hpart to_copy rest ih =>
    refine ih ?_
    have hcopy : (p.2.take to_copy).length = to_copy := by
      rw [List.length_take]
      exact Nat.min_eq_left (Nat.min_le_left _ _)
    rw [List.length_append, hcopy] at h
    rw [Nat.add_assoc]
    exact h
  | case4 piece write pos hfull =>
    rw [List.length_nil] at h
    omega

/-- A buffer of the caller is never overrun. -/
theorem length_fill_le : (fill false buffersize m piece write pos).1.length ≤ buffersize - pos := by
  generalize hown : false = own
  fun_induction fill own buffersize m piece write pos with
  | case1 piece write pos hroom hdone => exact Nat.zero_le _
  | case2 piece write pos hroom hgo p hall => simp [← hown] at hall
  | case3 piece write pos hroom hgo p hpart to_copy rest ih =>
    have hcopy : to_copy ≤ buffersize - pos := Nat.min_le_right _ _
    have htake : (p.2.take to_copy).length ≤ to_copy := List.length_take_le _ _
    have hrest : rest.1.length ≤ buffersize - (pos + to_copy) := ih
    rw [List.length_append]
    omega
  | case4 piece write pos hfull => exact Nat.zero_le _

/-- If there is room, something is written of what is there. -/
theorem fill_ne_nil (hroom : pos < buffersize) (hwrite : write ≠ []) :
    (fill own buffersize m piece write pos).1 ≠ [] := by
  have hpos := List.length_pos_of_ne_nil hwrite
  rw [fill, if_pos hroom, if_neg (fun h => hwrite h.1)]
  simp only [next_step, if_neg hwrite]
  split
  · exact hwrite
  · simp only [ne_eq, List.append_eq_nil_iff, List.take_eq_nil_iff, not_and_or]
    left
    simp only [not_or]
    exact ⟨by omega, hwrite⟩

end

/-- What is handed out and what is left are what was to be handed out. -/
theorem encode_pending (own : Bool) (n : Nat) (e : Encoder) :
    (e.encode own n).1 ++ (e.encode own n).2.pending = e.pending := by
  cases e with
  | idle => rfl
  | busy m piece write => exact fill_pending

/-- The encoder stops within a message only if the buffer is full. -/
theorem encode_idle_of_lt {own : Bool} {n : Nat} {e : Encoder}
    (h : (e.encode own n).1.length < n) : (e.encode own n).2 = .idle := by
  cases e with
  | idle => rfl
  | busy m piece write => exact fill_idle_of_lt (by rwa [Nat.zero_add])

/-- One call of `encode`: it hands out the first bytes of what is to be sent, no more than the
caller's buffer holds, and all of them if there is room. -/
theorem encode_spec (own : Bool) (n : Nat) (e : Encoder) :
    (e.encode own n).1 ++ (e.encode own n).2.pending = e.pending ∧
    (own = false → (e.encode own n).1.length ≤ n) ∧
    ((e.encode own n).1.length < n → (e.encode own n).2 = .idle) := by
  refine ⟨encode_pending own n e, ?_, encode_idle_of_lt⟩
  rintro rfl
  cases e with
  | idle => exact Nat.zero_le n
  | busy m piece write => exact length_fill_le

section

variable {header : Msg → Bytes} {out_batch_size : Nat}

/-- The batch takes messages off the queue until it is full or the queue is empty. Its
assertions hold, and no byte is lost or added. -/
theorem refill_spec (hheader : ∀ m, header m ≠ []) (out : Bytes) (own : Bool) (e : Encoder)
    (queue : List Msg) (h : out.length < out_batch_size → e = .idle) :
    ∃ out' e' queue', refill header out_batch_size out own e queue = some (out', e', queue') ∧
      out' ++ e'.pending ++ queue'.flatMap (fun m => header m ++ m.body) =
        out ++ e.pending ++ queue.flatMap (fun m => header m ++ m.body) ∧
      queue' <:+ queue := by
  induction queue generalizing out own e with
  | nil => exact ⟨out, e, [], rfl, rfl, List.suffix_rfl⟩
  | cons m queue ih =>
    by_cases hroom : out.length < out_batch_size
    · obtain rfl := h hroom
      have hpending := encode_pending own (out_batch_size - out.length) (.busy m .header (header m))
      have hne : ((Encoder.busy m .header (header m)).encode own
          (out_batch_size - out.length)).1 ≠ [] := fill_ne_nil (by omega) (hheader m)
      have hidle := @encode_idle_of_lt own (out_batch_size - out.length)
        (.busy m .header (header m))
      simp only [refill, if_pos hroom, Encoder.load_msg, Option.bind_some, if_neg hne]
      generalize (Encoder.busy m .header (header m)).encode own (out_batch_size - out.length) = r
        at hpending hidle
      obtain ⟨out', e', queue', hrefill, hbytes, hsuffix⟩ := ih (out ++ r.1) false r.2
        fun hless => hidle (by
          rw [List.length_append] at hless
          omega)
      refine ⟨out', e', queue', hrefill, ?_, hsuffix.trans (List.suffix_cons _ _)⟩
      rw [hbytes, List.flatMap_cons, List.append_assoc out, hpending]
      simp [Encoder.pending]
    · exact ⟨out, e, m :: queue, by rw [refill, if_neg hroom], rfl, List.suffix_rfl⟩

/-- A new batch takes bytes off the front of the stream. -/
theorem nextBatch_spec (hheader : ∀ m, header m ≠ []) (out_batch_size : Nat) (e : Encoder)
    (queue : List Msg) :
    ∃ out e' queue', nextBatch header out_batch_size e queue = some (out, e', queue') ∧
      out ++ e'.pending ++ queue'.flatMap (fun m => header m ++ m.body) =
        e.pending ++ queue.flatMap (fun m => header m ++ m.body) ∧
      queue' <:+ queue := by
  obtain ⟨out, e', queue', hrefill, hbytes, hsuffix⟩ := refill_spec hheader
    (e.encode true out_batch_size).1 (e = .idle) (e.encode true out_batch_size).2 queue
    encode_idle_of_lt
  exact ⟨out, e', queue', hrefill, by rw [hbytes, encode_pending], hsuffix⟩

end

end PbdZmq.Zmtp
