import PbdZmq.Models.Transfer.Process

/-!
# `recv_file` against an arbitrary peer

The receiving loop as a function of what `zmq_recv` delivers and of what the output
stream does with the bytes. The peer need not be `send_file`: the messages have any
sizes. The requests and acknowledgements of the loop are sent with their results ignored,
so they stand in the process of the receiver alone, which ends as this function does.
-/

namespace PbdZmq.Transfer

/-- What a flush does: a number of buffered bytes reach the file, and the others are
dropped if it fails. -/
structure Flush where
  bytes : Nat
  fails : Bool
  deriving DecidableEq, Repr

/-- A `FILE` opened for writing. -/
structure OutFile where
  /-- The content of the file. -/
  reached : Bytes
  /-- Bytes accepted and not flushed yet. -/
  buffer : Bytes
  /-- History: every byte that `fwrite` accepted. -/
  written : Bytes
  deriving DecidableEq, Repr

/-- `fopen` for writing truncates the file. -/
def OutFile.fopen : OutFile := ⟨[], [], []⟩

/-- A flush of the stream. -/
def OutFile.flush (f : OutFile) (fl : Flush) : OutFile :=
  { f with
    reached := f.reached ++ f.buffer.take fl.bytes
    buffer := if fl.fails then [] else f.buffer.drop fl.bytes }

/-- The stream takes bytes into its buffer, which may be flushed. -/
def OutFile.put (f : OutFile) (data : Bytes) (fl : Flush) : OutFile :=
  { f with buffer := f.buffer ++ data, written := f.written ++ data }.flush fl

/-- `fwrite(data, 1, size, f)` on a stream. -/
def OutFile.fwrite (f : OutFile) (data : Bytes) (fault : Option Nat) (fl : Flush) :
    Nat × OutFile :=
  let size := Transfer.fwrite data fault
  (size, f.put (data.take size) fl)

/-- `fclose` flushes the buffer. A failure is reported in its result, with the content
that the file is left with. -/
def OutFile.fclose (f : OutFile) (fault : Option Nat) : Int × Bytes :=
  match fault with
  | none => (0, f.reached ++ f.buffer)
  | some k => (-1, f.reached ++ f.buffer.take k)

/-- What the surroundings do in one round of the loop. -/
structure Delivery where
  /-- The message that `zmq_recv` delivers, if it does not fail. -/
  message : Option Bytes
  /-- How many bytes `fwrite` accepts before the device fails. -/
  fault : Option Nat
  /-- What the stream flushes in `fwrite`. -/
  flush : Flush
  /-- The request or acknowledgement of this round is accepted. -/
  acked : Bool
  deriving DecidableEq, Repr

/-- How a function of C ends. -/
inductive Outcome
  | returned
  /-- An R error. -/
  | raised
  /-- `zmq_recv` waits for a message. -/
  | waiting
  deriving DecidableEq, Repr

/-- The end of `recv_file`. -/
structure Ending where
  outcome : Outcome
  file : OutFile
  /-- What has not been consumed. -/
  rest : List Delivery
  deriving DecidableEq, Repr

/-- `recv_file` from the top of its loop. `zmq_recv` returns the full size of a message
of which the buffer takes no more than `BUFLEN` bytes. -/
def recv_file (f : OutFile) : List Delivery → Ending
  | [] => ⟨.waiting, f, []⟩
  | d :: ds =>
    match d.message with
    | none => ⟨.raised, f, ds⟩
    | some m =>
      let expected_size := m.length
      let size := if BUFLEN < expected_size then BUFLEN else expected_size
      let (size, f) := f.fwrite (m.take size) d.fault d.flush
      if size < expected_size then ⟨.raised, f, ds⟩
      else if size = BUFLEN then recv_file f ds
      else ⟨.returned, f, ds⟩

/-- The messages of a stream that is written in full and closed by a short message. -/
def wholeStream : List Delivery → Option (List Bytes)
  | [] => none
  | d :: ds =>
    match d.message with
    | none => none
    | some m =>
      if m.length ≤ BUFLEN ∧ Transfer.fwrite m d.fault = m.length then
        if m.length < BUFLEN then some [m] else (wholeStream ds).map (m :: ·)
      else none

theorem fwrite_le (data : Bytes) (fault : Option Nat) : fwrite data fault ≤ data.length := by
  cases fault with
  | none => exact Nat.le_refl _
  | some k => exact Nat.min_le_right _ _

@[simp] theorem OutFile.written_put (f : OutFile) (data : Bytes) (fl : Flush) :
    (f.put data fl).written = f.written ++ data := rfl

/-- The round delivers a message that the buffer takes whole, and all of it is written. -/
def Delivery.Taken (d : Delivery) (m : Bytes) : Prop :=
  d.message = some m ∧ m.length ≤ BUFLEN ∧ Transfer.fwrite m d.fault = m.length

/-- A loop over the messages stops at one that is not taken or that is short, and goes on
behind a full chunk. -/
@[elab_as_elim]
theorem deliveries_induction {motive : List Delivery → Prop} (nil : motive [])
    (stop : ∀ d ds, (∀ m, ¬ d.Taken m) → motive (d :: ds))
    (last : ∀ d m ds, d.Taken m → m.length < BUFLEN → motive (d :: ds))
    (chunk : ∀ d m ds, d.Taken m → m.length = BUFLEN → motive ds → motive (d :: ds))
    (ds : List Delivery) : motive ds := by
  induction ds with
  | nil => exact nil
  | cons d ds ih =>
    by_cases htaken : ∃ m, d.Taken m
    · obtain ⟨m, hm⟩ := htaken
      rcases Nat.lt_or_eq_of_le hm.2.1 with hlt | hfull
      · exact last d m ds hm hlt
      · exact chunk d m ds hm hfull ih
    · exact stop d ds (not_exists.mp htaken)

/-- The loop writes a message that is taken, and goes on if it is a full chunk. -/
theorem recv_file_of_taken {d : Delivery} {m : Bytes} (h : d.Taken m) (f : OutFile)
    (ds : List Delivery) : recv_file f (d :: ds) =
      if m.length = BUFLEN then recv_file (f.put m d.flush) ds
      else ⟨.returned, f.put m d.flush, ds⟩ := by
  obtain ⟨hd, hle, hall⟩ := h
  simp only [recv_file, hd, if_neg (Nat.not_lt.mpr hle), OutFile.fwrite, List.take_length, hall,
    lt_irrefl, if_false]

/-- Any other message is not written in full. -/
theorem fwrite_lt_of_not_taken {d : Delivery} {m : Bytes} (hd : d.message = some m)
    (h : ∀ m, ¬ d.Taken m) : Transfer.fwrite (m.take BUFLEN) d.fault < m.length := by
  have hle := fwrite_le (m.take BUFLEN) d.fault
  rw [List.length_take] at hle
  by_contra hge
  have htake : m.take BUFLEN = m := List.take_of_length_le (by omega)
  rw [htake] at hge hle
  exact h m ⟨hd, by omega, by omega⟩

/-- The loop writes what the buffer holds of a message. -/
theorem take_size (m : Bytes) :
    m.take (if BUFLEN < m.length then BUFLEN else m.length) = m.take BUFLEN := by
  split
  · rfl
  · rw [List.take_length, List.take_of_length_le (by omega)]

/-- A round whose message is not taken fails the checks of every loop over the messages. -/
theorem Delivery.cases_of_not_taken {d : Delivery} (h : ∀ m, ¬ d.Taken m) :
    d.message = none ∨ ∃ m, d.message = some m ∧
      ¬ (m.length ≤ BUFLEN ∧ Transfer.fwrite m d.fault = m.length) := by
  cases hd : d.message with
  | none => exact .inl rfl
  | some m => exact .inr ⟨m, rfl, fun htaken => h m ⟨hd, htaken⟩⟩

/-- Any other round ends the loop in an error. -/
theorem recv_file_of_not_taken {d : Delivery} (h : ∀ m, ¬ d.Taken m) (f : OutFile)
    (ds : List Delivery) : (recv_file f (d :: ds)).outcome = .raised := by
  cases hd : d.message with
  | none => simp only [recv_file, hd]
  | some m =>
    have hlt := fwrite_lt_of_not_taken hd h
    simp only [recv_file, hd, OutFile.fwrite, take_size, if_pos hlt]

theorem wholeStream_of_taken {d : Delivery} {m : Bytes} (h : d.Taken m) (ds : List Delivery) :
    wholeStream (d :: ds) =
      if m.length = BUFLEN then (wholeStream ds).map (m :: ·) else some [m] := by
  obtain ⟨hd, hle, hall⟩ := h
  simp only [wholeStream, hd, hle, hall, and_self, if_true]
  by_cases hfull : m.length = BUFLEN
  · rw [if_neg (by omega), if_pos hfull]
  · rw [if_pos (by omega), if_neg hfull]

theorem wholeStream_of_not_taken {d : Delivery} (h : ∀ m, ¬ d.Taken m) (ds : List Delivery) :
    wholeStream (d :: ds) = none := by
  rcases Delivery.cases_of_not_taken h with hd | ⟨m, hd, hnot⟩
  · simp only [wholeStream, hd]
  · simp only [wholeStream, hd, if_neg hnot]

/-- A whole stream starts with a full chunk before a whole stream, or with a short message. -/
theorem wholeStream_cons {d : Delivery} {ds : List Delivery} {ms : List Bytes}
    (h : wholeStream (d :: ds) = some ms) : ∃ m, d.Taken m ∧
      ((m.length = BUFLEN ∧ ∃ rest, wholeStream ds = some rest ∧ ms = m :: rest) ∨
        m.length < BUFLEN ∧ ms = [m]) := by
  by_cases htaken : ∃ m, d.Taken m
  · obtain ⟨m, hm⟩ := htaken
    have hle := hm.2.1
    rw [wholeStream_of_taken hm] at h
    refine ⟨m, hm, ?_⟩
    by_cases hfull : m.length = BUFLEN
    · rw [if_pos hfull, Option.map_eq_some_iff] at h
      obtain ⟨rest, hrest, heq⟩ := h
      exact .inl ⟨hfull, rest, hrest, heq.symm⟩
    · rw [if_neg hfull, Option.some.injEq] at h
      exact .inr ⟨by omega, h.symm⟩
  · rw [wholeStream_of_not_taken (not_exists.mp htaken)] at h
    contradiction

/-- The loop returns exactly on a whole stream, whose messages it has written. -/
theorem recv_file_wholeStream (f : OutFile) (ds : List Delivery) :
    match wholeStream ds with
    | some ms => (recv_file f ds).outcome = .returned ∧
        (recv_file f ds).file.written = f.written ++ ms.flatten
    | none => (recv_file f ds).outcome ≠ .returned := by
  induction ds using deliveries_induction generalizing f with
  | nil => simp [wholeStream, recv_file]
  | stop d ds hnot =>
    rw [wholeStream_of_not_taken hnot, recv_file_of_not_taken hnot]
    simp
  | last d m ds hm hlt =>
    rw [wholeStream_of_taken hm, recv_file_of_taken hm, if_neg (Nat.ne_of_lt hlt),
      if_neg (Nat.ne_of_lt hlt)]
    simp
  | chunk d m ds hm hfull ih =>
    have hrest := ih (f.put m d.flush)
    rw [wholeStream_of_taken hm, recv_file_of_taken hm, if_pos hfull, if_pos hfull]
    cases hs : wholeStream ds with
    | none => simpa [hs] using hrest
    | some ms => simpa [hs] using hrest

/-- The message is shorter than the buffer. -/
def Delivery.Short (d : Delivery) : Prop := ∃ m, d.message = some m ∧ m.length < BUFLEN

/-- The message is longer than the buffer. -/
def Delivery.Long (d : Delivery) : Prop := ∃ m, d.message = some m ∧ BUFLEN < m.length

/-- A message is delivered, and the `fwrite` of what the buffer holds of it is not short. -/
def Delivery.Written (d : Delivery) : Prop :=
  ∃ m, d.message = some m ∧ Transfer.fwrite (m.take BUFLEN) d.fault = (m.take BUFLEN).length

/-- A message is taken if it is not long and written. -/
theorem Delivery.exists_taken_iff {d : Delivery} : (∃ m, d.Taken m) ↔ ¬ d.Long ∧ d.Written := by
  constructor
  · rintro ⟨m, hm, hle, hall⟩
    refine ⟨?_, m, hm, by rwa [List.take_of_length_le hle]⟩
    rintro ⟨m', hm', hlong⟩
    obtain rfl : m = m' := by simpa [hm] using hm'
    omega
  · rintro ⟨hlong, m, hm, hall⟩
    have hle : m.length ≤ BUFLEN := by
      by_contra hgt
      exact hlong ⟨m, hm, by omega⟩
    rw [List.take_of_length_le hle] at hall
    exact ⟨m, hm, hle, hall⟩

theorem Delivery.Taken.length_lt_iff {d : Delivery} {m : Bytes} (h : d.Taken m) :
    m.length < BUFLEN ↔ d.Short := by
  constructor
  · intro hlt
    exact ⟨m, h.1, hlt⟩
  · rintro ⟨m', hm', hlt⟩
    obtain rfl : m = m' := by simpa [h.1] using hm'
    exact hlt

/-- The loop goes on behind the rounds after which it waits. -/
theorem recv_file_append {f : OutFile} {ds : List Delivery}
    (h : (recv_file f ds).outcome = .waiting) (after : List Delivery) :
    recv_file f (ds ++ after) = recv_file (recv_file f ds).file after := by
  induction ds using deliveries_induction generalizing f with
  | nil => rfl
  | stop d ds hnot =>
    rw [recv_file_of_not_taken hnot] at h
    contradiction
  | last d m ds hm hlt =>
    rw [recv_file_of_taken hm, if_neg (Nat.ne_of_lt hlt)] at h
    contradiction
  | chunk d m ds hm hfull ih =>
    rw [recv_file_of_taken hm, if_pos hfull] at h
    rw [List.cons_append, recv_file_of_taken hm, recv_file_of_taken hm, if_pos hfull,
      if_pos hfull]
    exact ih h

/-- What has been consumed and written when the loop returns. -/
theorem recv_file_consumed {f : OutFile} {ds : List Delivery}
    (h : (recv_file f ds).outcome = .returned) :
    ∃ before last, ds = before ++ last :: (recv_file f ds).rest ∧ last.Short ∧
      (∀ d ∈ before, ¬ d.Short) ∧ (∀ d ∈ before ++ [last], ∃ m, d.Taken m) ∧
      (recv_file f ds).file.written =
        f.written ++ ((before ++ [last]).filterMap Delivery.message).flatten := by
  induction ds using deliveries_induction generalizing f with
  | nil => contradiction
  | stop d ds hnot =>
    rw [recv_file_of_not_taken hnot] at h
    contradiction
  | last d m ds hm hlt =>
    rw [recv_file_of_taken hm, if_neg (Nat.ne_of_lt hlt)]
    refine ⟨[], d, rfl, hm.length_lt_iff.mp hlt, by simp, by simpa using ⟨m, hm⟩, ?_⟩
    simp [hm.1]
  | chunk d m ds hm hfull ih =>
    rw [recv_file_of_taken hm, if_pos hfull] at h ⊢
    obtain ⟨before, last, hds, hshort, hchunks, hall, hout⟩ := ih h
    refine ⟨d :: before, last, by rw [List.cons_append, ← hds], hshort, ?_, ?_, ?_⟩
    · refine List.forall_mem_cons.mpr ⟨?_, hchunks⟩
      rw [← hm.length_lt_iff]
      omega
    · exact List.forall_mem_cons.mpr ⟨⟨m, hm⟩, hall⟩
    · simp [hout, hm.1]

/-- A stream that is taken up to a short message is whole. -/
theorem returned_of_short {before : List Delivery} {last : Delivery} (after : List Delivery)
    (f : OutFile) (hlast : last.Short) (htaken : ∀ d ∈ before ++ [last], ∃ m, d.Taken m) :
    (recv_file f (before ++ last :: after)).outcome = .returned := by
  induction before generalizing f with
  | nil =>
    obtain ⟨m, hm⟩ := htaken last (by simp)
    have hlt := hm.length_lt_iff.mpr hlast
    rw [List.nil_append, recv_file_of_taken hm, if_neg (Nat.ne_of_lt hlt)]
  | cons d before ih =>
    obtain ⟨m, hm⟩ := htaken d (by simp)
    rw [List.cons_append, recv_file_of_taken hm]
    by_cases hfull : m.length = BUFLEN
    · rw [if_pos hfull]
      apply ih
      intro e he
      exact htaken e (List.mem_cons_of_mem d he)
    · rw [if_neg hfull]

/-- The loop returns exactly when a short message comes before any long one and everything
up to it is written. It has then consumed the messages up to the first short one and
written their concatenation. A long message that it comes to ends it in an error. -/
theorem recv_file_grammar (f : OutFile) (ds : List Delivery) :
    ((recv_file f ds).outcome = .returned ↔
      ∃ before last after, ds = before ++ last :: after ∧ last.Short ∧
        (∀ d ∈ before, ¬ d.Long) ∧ ∀ d ∈ before ++ [last], d.Written) ∧
    ((recv_file f ds).outcome = .returned →
      ∃ before last, ds = before ++ last :: (recv_file f ds).rest ∧ last.Short ∧
        (∀ d ∈ before, ¬ d.Short) ∧ (recv_file f ds).file.written =
          f.written ++ ((before ++ [last]).filterMap Delivery.message).flatten) ∧
    ∀ before d after, ds = before ++ d :: after → (recv_file f before).outcome = .waiting →
      d.Long → (recv_file f ds).outcome = .raised := by
  refine ⟨⟨?_, ?_⟩, ?_, ?_⟩
  · intro h
    obtain ⟨before, last, hds, hshort, -, htaken, -⟩ := recv_file_consumed h
    refine ⟨before, last, _, hds, hshort, ?_, ?_⟩
    · intro d hd
      exact (Delivery.exists_taken_iff.mp (htaken d (List.mem_append_left _ hd))).1
    · intro d hd
      exact (Delivery.exists_taken_iff.mp (htaken d hd)).2
  · rintro ⟨before, last, after, rfl, hshort, hlong, hwritten⟩
    apply returned_of_short after f hshort
    intro d hd
    refine Delivery.exists_taken_iff.mpr ⟨?_, hwritten d hd⟩
    rcases List.mem_append.mp hd with hbefore | hlast
    · exact hlong d hbefore
    · obtain rfl := List.mem_singleton.mp hlast
      obtain ⟨m, hm, hlt⟩ := hshort
      rintro ⟨m', hm', hgt⟩
      obtain rfl : m = m' := by simpa [hm] using hm'
      omega
  · intro h
    obtain ⟨before, last, hds, hshort, hchunks, -, hout⟩ := recv_file_consumed h
    exact ⟨before, last, hds, hshort, hchunks, hout⟩
  · rintro before d after rfl hreached hlong
    rw [recv_file_append hreached]
    apply recv_file_of_not_taken
    intro m hm
    exact (Delivery.exists_taken_iff.mp ⟨m, hm⟩).1 hlong

variable {ε : Type}

/-- The replies that the process of the receiver gets in one round of the loop. -/
def Delivery.replies (t : SocketType) (d : Delivery) : List (Reply Bytes) :=
  let ack : Reply Bytes := if d.acked then .sent else .failed
  let received : Reply Bytes :=
    match d.message with
    | some m => .received m
    | none => .failed
  match t with
  | .req => [ack, received, .io d.fault]
  | .rep => [received, .io d.fault, ack]
  | .push | .pull => [received, .io d.fault]

/-- The process of the receiver after some replies. -/
def Receiver.feed (ser : Serializer ε) (r : Receiver ε) (as : List (Reply Bytes)) : Receiver ε :=
  as.foldl (Receiver.resume ser) r

theorem Receiver.feed_append (ser : Serializer ε) (r : Receiver ε) (as bs : List (Reply Bytes)) :
    r.feed ser (as ++ bs) = (r.feed ser as).feed ser bs :=
  List.foldl_append

/-- A process that has ended stays as it is. -/
theorem Receiver.feed_of_ended {r : Receiver ε} (h : r.pc = .raised ∨ r.pc = .finished)
    (ser : Serializer ε) (as : List (Reply Bytes)) : r.feed ser as = r := by
  induction as with
  | nil => rfl
  | cons a as ih =>
    have hstay : r.resume ser a = r := by
      rcases h with hpc | hpc <;> simp only [resume, hpc]
    rw [feed, List.foldl_cons, hstay]
    exact ih

/-- The process after a round whose message is taken. -/
theorem Receiver.feed_of_taken {d : Delivery} {m : Bytes} (h : d.Taken m) (ser : Serializer ε)
    (r : Receiver ε) : r.loopTop.feed ser (d.replies r.type) =
      { r with
        buf := m ++ r.buf.drop m.length
        got := r.got ++ [m]
        out := r.out ++ m }.loopTest m.length := by
  obtain ⟨hd, hle, hall⟩ := h
  have htake : m.take BUFLEN = m := List.take_of_length_le hle
  cases ht : r.type <;>
    simp [feed, Delivery.replies, hd, loopTop, ht, resume, htake, Nat.min_eq_left hle, hall,
      loopTest, callNext, call]

/-- The process after any other round. -/
theorem Receiver.feed_of_not_taken {d : Delivery} (h : ∀ m, ¬ d.Taken m) (ser : Serializer ε)
    (r : Receiver ε) : (r.loopTop.feed ser (d.replies r.type)).pc = .raised := by
  cases hd : d.message with
  | none =>
    cases ht : r.type <;> simp [feed, Delivery.replies, hd, loopTop, ht, resume]
  | some m =>
    have hlt := fwrite_lt_of_not_taken hd h
    have hbuf : (m.take BUFLEN ++ r.buf.drop (min BUFLEN m.length)).take (min m.length BUFLEN) =
        m.take BUFLEN := by
      rw [Nat.min_comm m.length, ← List.length_take]
      exact List.take_left
    cases ht : r.type <;>
      simp [feed, Delivery.replies, hd, loopTop, ht, resume, hbuf, hlt]

/-- In its last call, the process of the receiver ends as `recv_file` does and has written
the same bytes. -/
theorem Receiver.feed_recv_file (ser : Serializer ε) (f : OutFile) {r : Receiver ε}
    (hleft : r.left = 0) (hout : f.written = r.out) (ds : List Delivery) :
    match (recv_file f ds).outcome with
    | .returned => (r.loopTop.feed ser (ds.flatMap (Delivery.replies r.type))).pc = .finished ∧
        (r.loopTop.feed ser (ds.flatMap (Delivery.replies r.type))).outs =
          r.outs ++ [(recv_file f ds).file.written]
    | .raised => (r.loopTop.feed ser (ds.flatMap (Delivery.replies r.type))).pc = .raised
    | .waiting => (r.loopTop.feed ser (ds.flatMap (Delivery.replies r.type))).pc = r.loopTop.pc ∧
        (r.loopTop.feed ser (ds.flatMap (Delivery.replies r.type))).out =
          (recv_file f ds).file.written := by
  induction ds using deliveries_induction generalizing f r with
  | nil => exact ⟨rfl, hout.symm⟩
  | stop d ds hnot =>
    rw [List.flatMap_cons, feed_append, recv_file_of_not_taken hnot,
      feed_of_ended (.inl (feed_of_not_taken hnot ser r))]
    exact feed_of_not_taken hnot ser r
  | last d m ds hm hlt =>
    rw [List.flatMap_cons, feed_append, feed_of_taken hm, recv_file_of_taken hm, loopTest,
      if_neg (Nat.ne_of_lt hlt), if_neg (Nat.ne_of_lt hlt),
      feed_of_ended (by simp [callNext, hleft])]
    simp [callNext, hleft, hout]
  | chunk d m ds hm hfull ih =>
    rw [List.flatMap_cons, feed_append, feed_of_taken hm, recv_file_of_taken hm, loopTest,
      if_pos hfull, if_pos hfull]
    exact ih (f.put m d.flush) hleft (by rw [OutFile.written_put, hout])

end PbdZmq.Transfer
