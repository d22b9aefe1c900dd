import PbdZmq.Core.Lifetime
import PbdZmq.Models.Transfer.Announced

/-!
# The buffer and the `FILE` of a transfer

`R_zmq_send_file` and `R_zmq_recv_file` hold a buffer and a `FILE` over their loops, whose
error branches release both before they raise an R error. Between `fopen` and the loop
stands `REAL`, which raises its error without that.
-/

namespace PbdZmq.Transfer

variable {ε : Type}

/-- What `R_zmq_send_file` and `R_zmq_recv_file` hold. -/
inductive Resource
  /-- The block of `BUFLEN` bytes. -/
  | buf
  | file
  deriving DecidableEq, Repr

/-- `malloc` and `fopen`. -/
def acquired (r : Resource) : Use Resource := ⟨.acquire, r⟩

/-- A call that reads or writes the resource. -/
def accessed (r : Resource) : Use Resource := ⟨.access, r⟩

/-- `free(buf)` and `fclose(f->file)`, as they stand in every branch that releases. -/
def released : List (Use Resource) := [⟨.release, .buf⟩, ⟨.release, .file⟩]

/-- How a function of C ends, and what it did until then. -/
structure Traced where
  outcome : Outcome
  uses : List (Use Resource)
  deriving DecidableEq, Repr

/-- What stands before the rest of a function. -/
def Traced.after (us : List (Use Resource)) (t : Traced) : Traced := ⟨t.outcome, us ++ t.uses⟩

/-- The surroundings in one round of `send_file`. -/
structure Round where
  /-- How many bytes are read before the device fails. -/
  fault : Option Nat
  /-- `zmq_send` accepts the chunk. -/
  accepted : Bool
  deriving DecidableEq, Repr

/-- `send_file` from the top of its loop. -/
def send_file (t : SocketType) (f : InFile) : List Round → Traced
  | [] => ⟨.waiting, []⟩
  | r :: rs =>
    let request := if t = .rep then [accessed .buf] else []
    let (chunk, f) := fread f BUFLEN r.fault
    let feof := if chunk.length < BUFLEN then [accessed .file] else []
    let read := request ++ [accessed .buf, accessed .file] ++ feof
    if chunk.length < BUFLEN ∧ f.eof = false then ⟨.raised, read ++ released⟩
    else
      let sent := read ++ [accessed .buf]
      if r.accepted then
        let acknowledged := sent ++ if t = .req then [accessed .buf] else []
        if chunk.length = BUFLEN then (send_file t f rs).after acknowledged
        else ⟨.returned, acknowledged⟩
      else ⟨.raised, sent ++ released⟩

/-- `recv_file` from the top of its loop. -/
def recvFileUses (t : SocketType) (f : OutFile) : List Delivery → Traced
  | [] => ⟨.waiting, []⟩
  | d :: ds =>
    let request := if t = .req then [accessed .buf] else []
    let received := request ++ [accessed .buf]
    match d.message with
    | none => ⟨.raised, received ++ released⟩
    | some m =>
      let expected_size := m.length
      let size := if BUFLEN < expected_size then BUFLEN else expected_size
      let (size, f) := f.fwrite (m.take size) d.fault d.flush
      let written := received ++ [accessed .buf, accessed .file]
      if size < expected_size then ⟨.raised, written ++ released⟩
      else
        let acknowledged := written ++ if t = .rep then [accessed .buf] else []
        if size = BUFLEN then (recvFileUses t f ds).after acknowledged
        else ⟨.returned, acknowledged⟩

/-- The frame of both functions: `malloc`, `fopen`, `REAL` of the size, the loop, and the
release at the end. -/
def framed (allocated opened : Bool) (filesize : RObj ε) (loop : Traced) : Traced :=
  if allocated then
    if opened then
      match filesize with
      | .real _ =>
        match loop.outcome with
        | .returned =>
          ⟨.returned, [acquired .buf, acquired .file] ++ loop.uses ++ released⟩
        | .raised | .waiting => loop.after [acquired .buf, acquired .file]
      | .null | .raw _ | .other _ => ⟨.raised, [acquired .buf, acquired .file]⟩
    else ⟨.raised, [acquired .buf, ⟨.release, .buf⟩]⟩
  else ⟨.raised, []⟩

/-- `R_zmq_send_file`. -/
def R_zmq_send_file (t : SocketType) (allocated opened : Bool) (filesize : RObj ε)
    (content : Bytes) (rs : List Round) : Traced :=
  framed allocated opened filesize (send_file t ⟨content, false⟩ rs)

/-- `R_zmq_recv_file` with what it does to its buffer and its `FILE`. -/
def recvFileTraced (t : SocketType) (allocated opened : Bool) (filesize : RObj ε)
    (ds : List Delivery) : Traced :=
  framed allocated opened filesize (recvFileUses t .fopen ds)

/-- Neither resource is misused, and both are released when control returns to R. -/
def Traced.Released (t : Traced) : Prop :=
  (∀ r, stage r .absent t.uses ≠ none) ∧
    (t.outcome ≠ .waiting → ∀ r, Disciplined r t.uses)

/-- A loop releases both resources if it raises an error, and holds them otherwise. -/
def Traced.Holds (t : Traced) : Prop :=
  ∀ r, stage r .held t.uses =
    some (match t.outcome with
      | .raised => .released
      | .returned | .waiting => .held)

/-- A trace of accesses only. -/
def Accesses (us : List (Use Resource)) : Prop := ∀ u ∈ us, u.kind = .access

theorem Accesses.append {us vs : List (Use Resource)} (hu : Accesses us) (hv : Accesses vs) :
    Accesses (us ++ vs) := by
  intro u hmem
  rcases List.mem_append.mp hmem with h | h
  · exact hu u h
  · exact hv u h

theorem accesses_ite {c : Prop} [Decidable c] (r : Resource) :
    Accesses (if c then [accessed r] else []) := by
  intro u hu
  split at hu
  · rw [List.mem_singleton.mp hu]
    rfl
  · contradiction

theorem accesses_buf : Accesses [accessed .buf] := by
  rintro u hu
  rw [List.mem_singleton.mp hu]
  rfl

theorem accesses_both : Accesses [accessed .buf, accessed .file] := by
  rintro u hu
  rcases List.mem_cons.mp hu with rfl | hu
  · rfl
  · rw [List.mem_singleton.mp hu]
    rfl

theorem Traced.Holds.after {t : Traced} (h : t.Holds) {us : List (Use Resource)}
    (hus : Accesses us) : (t.after us).Holds := by
  intro r
  rw [Traced.after, stage_append, stage_access hus, Option.bind_some]
  exact h r

theorem Traced.holds_returned {us : List (Use Resource)} (h : Accesses us) :
    Traced.Holds ⟨.returned, us⟩ := fun _ => stage_access h

theorem Traced.holds_raised {us : List (Use Resource)} (h : Accesses us) :
    Traced.Holds ⟨.raised, us ++ released⟩ := by
  intro r
  rw [stage_append, stage_access h, Option.bind_some]
  cases r <;> rfl

/-- The sending loop releases both resources if it raises an error, and only then. -/
theorem send_file_holds (t : SocketType) (f : InFile) (rs : List Round) :
    (send_file t f rs).Holds := by
  induction rs generalizing f with
  | nil => exact fun _ => rfl
  | cons r rs ih =>
    unfold send_file
    have hread := ((accesses_ite (c := t = .rep) .buf).append accesses_both).append
      (accesses_ite (c := (fread f BUFLEN r.fault).1.length < BUFLEN) .file)
    have hsent := hread.append accesses_buf
    have hacked := hsent.append (accesses_ite (c := t = .req) .buf)
    simp only
    split
    · exact Traced.holds_raised hread
    · split
      · split
        · exact (ih _).after hacked
        · exact Traced.holds_returned hacked
      · exact Traced.holds_raised hsent

/-- So does the receiving loop. -/
theorem recvFileUses_holds (t : SocketType) (f : OutFile) (ds : List Delivery) :
    (recvFileUses t f ds).Holds := by
  induction ds generalizing f with
  | nil => exact fun _ => rfl
  | cons d ds ih =>
    unfold recvFileUses
    have hreceived := (accesses_ite (c := t = .req) .buf).append accesses_buf
    have hwritten := hreceived.append accesses_both
    have hacked := hwritten.append (accesses_ite (c := t = .rep) .buf)
    cases d.message with
    | none => exact Traced.holds_raised hreceived
    | some m =>
      generalize hsize : (if BUFLEN < m.length then BUFLEN else m.length) = size
      simp only [hsize]
      split
      · exact Traced.holds_raised hwritten
      · split
        · exact (ih _).after hacked
        · exact Traced.holds_returned hacked

/-- The receiving loop ends as `recv_file` does. -/
theorem outcome_recvFileUses (t : SocketType) (f : OutFile) (ds : List Delivery) :
    (recvFileUses t f ds).outcome = (recv_file f ds).outcome := by
  induction ds generalizing f with
  | nil => rfl
  | cons d ds ih =>
    unfold recvFileUses recv_file
    cases d.message with
    | none => rfl
    | some m =>
      generalize hsize : (if BUFLEN < m.length then BUFLEN else m.length) = size
      simp only [hsize]
      split
      · rfl
      · split
        · exact ih _
        · rfl

/-- The replies that the process of the sender gets in one round of the loop, with an
acknowledgement or a request of the peer. -/
def Round.replies (t : SocketType) (r : Round) (peer : Reply Bytes) : List (Reply Bytes) :=
  let answer : Reply Bytes := if r.accepted then .sent else .failed
  match t with
  | .req => [.io r.fault, answer, peer]
  | .rep => [peer, .io r.fault, answer]
  | .push | .pull => [.io r.fault, answer]

/-- The process of the sender after some replies. -/
def Sender.feed (ser : Serializer ε) (s : Sender) (as : List (Reply Bytes)) : Sender :=
  as.foldl (Sender.resume ser) s

theorem Sender.feed_append (ser : Serializer ε) (s : Sender) (as bs : List (Reply Bytes)) :
    s.feed ser (as ++ bs) = (s.feed ser as).feed ser bs :=
  List.foldl_append

/-- A process that has ended stays as it is. -/
theorem Sender.feed_of_ended {s : Sender} (h : s.pc = .raised ∨ s.pc = .finished)
    (ser : Serializer ε) (as : List (Reply Bytes)) : s.feed ser as = s := by
  induction as with
  | nil => rfl
  | cons a as ih =>
    have hstay : s.resume ser a = s := by
      rcases h with hpc | hpc <;> simp only [resume, hpc]
    rw [feed, List.foldl_cons, hstay]
    exact ih

/-- What a state looks like from outside of its history. -/
theorem Sender.loopTest_pc (s : Sender) (pc : SendPc) (size : Nat) :
    { s with pc := pc }.loopTest size = s.loopTest size := by
  unfold loopTest loopTop callNext
  by_cases hfull : size = BUFLEN
  · rw [if_pos hfull, if_pos hfull]
  · rw [if_neg hfull, if_neg hfull]
    cases s.later <;> rfl

/-- The process of the sender after one round. -/
theorem Sender.feed_round (ser : Serializer ε) (s : Sender) (r : Round) (peer : Reply Bytes) :
    if ((Transfer.fread s.stream BUFLEN r.fault).1.length < BUFLEN ∧
        (Transfer.fread s.stream BUFLEN r.fault).2.eof = false) ∨ r.accepted = false then
      (s.loopTop.feed ser (r.replies s.type peer)).pc = .raised
    else ∃ sent acks, s.loopTop.feed ser (r.replies s.type peer) =
      { s with
        stream := (Transfer.fread s.stream BUFLEN r.fault).2
        sent := sent
        acks := acks }.loopTest (Transfer.fread s.stream BUFLEN r.fault).1.length := by
  generalize hread : Transfer.fread s.stream BUFLEN r.fault = result
  obtain ⟨chunk, f⟩ := result
  simp only
  by_cases hshort : chunk.length < BUFLEN ∧ f.eof = false
  · rw [if_pos (.inl hshort)]
    cases ht : s.type <;> simp [feed, Round.replies, loopTop, ht, resume, hread, hshort]
  · cases ha : r.accepted with
    | false =>
      rw [if_pos (.inr rfl)]
      cases ht : s.type <;> simp [feed, Round.replies, loopTop, ht, resume, hread, hshort, ha]
    | true =>
      rw [if_neg (by simpa using hshort)]
      cases ht : s.type with
      | push | pull | rep =>
        refine ⟨s.sent ++ [chunk], s.acks, ?_⟩
        rw [← Sender.loopTest_pc _ (.loopSend chunk)]
        simp [feed, Round.replies, loopTop, ht, resume, hread, hshort, ha]
      | req =>
        cases peer with
        | received m =>
          refine ⟨s.sent ++ [chunk], s.acks + 1, ?_⟩
          rw [← Sender.loopTest_pc _ (.loopAck chunk.length)]
          simp [feed, Round.replies, loopTop, ht, resume, hread, hshort, ha]
        | sent | failed | io =>
          refine ⟨s.sent ++ [chunk], s.acks, ?_⟩
          rw [← Sender.loopTest_pc _ (.loopAck chunk.length)]
          simp [feed, Round.replies, loopTop, ht, resume, hread, hshort, ha]

/-- In its last call, the process of the sender ends as `send_file` does. -/
theorem Sender.feed_send_file (ser : Serializer ε) {s : Sender} (hlater : s.later = [])
    (rs : List (Round × Reply Bytes)) :
    (s.loopTop.feed ser (rs.flatMap fun r => r.1.replies s.type r.2)).pc =
      match (send_file s.type s.stream (rs.map Prod.fst)).outcome with
      | .returned => .finished
      | .raised => .raised
      | .waiting => s.loopTop.pc := by
  induction rs generalizing s with
  | nil => rfl
  | cons r rs ih =>
    have hround := s.feed_round ser r.1 r.2
    rw [List.flatMap_cons, feed_append, List.map_cons, send_file]
    generalize Transfer.fread s.stream BUFLEN r.1.fault = result at hround
    obtain ⟨chunk, f⟩ := result
    simp only at hround ⊢
    by_cases hshort : chunk.length < BUFLEN ∧ f.eof = false
    · rw [if_pos (.inl hshort)] at hround
      rw [feed_of_ended (.inl hround), if_pos hshort]
      exact hround
    · cases ha : r.1.accepted with
      | false =>
        rw [if_pos (.inr ha)] at hround
        rw [feed_of_ended (.inl hround), if_neg hshort, if_neg (by simp)]
        exact hround
      | true =>
        rw [if_neg (by simp [hshort, ha])] at hround
        obtain ⟨sent, acks, hround⟩ := hround
        rw [hround, if_neg hshort, if_pos rfl, loopTest]
        by_cases hfull : chunk.length = BUFLEN
        · rw [if_pos hfull, if_pos hfull]
          exact ih (s := { s with stream := f, sent := sent, acks := acks }) hlater
        · rw [if_neg hfull, if_neg hfull, feed_of_ended (by simp [callNext, hlater])]
          simp [callNext, hlater]

/-- An empty file is sent with one empty chunk. -/
theorem Sender.feed_send_file_empty :
    ((Sender.idle .binary .push []).loopTop.feed Serializer.basic
      ((⟨none, true⟩ : Round).replies .push .sent)).pc = .finished :=
  Sender.feed_send_file (s := .idle .binary .push []) Serializer.basic rfl [(⟨none, true⟩, .sent)]

/-- `R_zmq_recv_file` ends as before, if its progress display is started. -/
theorem outcome_recvFileTraced (t : SocketType) {fuel : Nat} {verbose : Int} {beyond : RDouble}
    {allocated opened : Bool} {filesize : RObj ε} {ds : List Delivery} {closing : Option Nat}
    {r : RecvResult}
    (h : R_zmq_recv_file fuel verbose beyond filesize (allocated && opened) ds closing = some r) :
    (recvFileTraced t allocated opened filesize ds).outcome = r.outcome := by
  have hloop := outcome_recvFileUses t .fopen ds
  unfold recvFileTraced framed
  by_cases henters : (allocated && opened) = true ∧ ∃ xs, filesize = .real xs
  · obtain ⟨hboth, xs, rfl⟩ := henters
    rw [hboth] at h
    obtain rfl := R_zmq_recv_file_real h
    obtain ⟨rfl, rfl⟩ := Bool.and_eq_true_iff.mp hboth
    rw [(recvAndClose_spec ds closing).1, ← hloop]
    cases ho : (recvFileUses t .fopen ds).outcome <;> simp [Traced.after, ho]
  · rw [R_zmq_recv_file_stop henters, Option.some.injEq] at h
    rw [← h]
    cases allocated with
    | false => rfl
    | true =>
      cases opened with
      | false => rfl
      | true =>
        cases filesize with
        | null | raw | other => rfl
        | real xs => exact absurd ⟨rfl, xs, rfl⟩ henters

/-- What is disciplined is not misused. -/
theorem Traced.released_of_disciplined {t : Traced} (h : ∀ r, Disciplined r t.uses) :
    t.Released := by
  refine ⟨?_, fun _ => h⟩
  intro r
  rcases h r with hr | hr
  · rw [hr]
    simp
  · rw [hr]
    simp

/-- The loop begins with both resources held. -/
theorem stage_acquired (r : Resource) (us : List (Use Resource)) :
    stage r .absent ([acquired .buf, acquired .file] ++ us) = stage r .held us := by
  cases r <;> rfl

/-- Around a loop that releases on its errors, the frame does so unless `REAL` raises one. -/
theorem framed_released_iff {loop : Traced} (h : loop.Holds) (allocated opened : Bool)
    (filesize : RObj ε) : (framed allocated opened filesize loop).Released ↔
      (allocated = true → opened = true → ∃ xs, filesize = .real xs) := by
  cases allocated with
  | false => exact iff_of_true (Traced.released_of_disciplined fun r => .inl rfl) (by simp)
  | true =>
    cases opened with
    | false =>
      have hfreed : ∀ r, Disciplined r [acquired .buf, ⟨.release, .buf⟩] := by
        intro r
        cases r <;> decide
      exact iff_of_true (Traced.released_of_disciplined hfreed) (by simp)
    | true =>
      cases filesize with
      | null | raw | other =>
        refine iff_of_false ?_ (by simp)
        rintro ⟨-, hall⟩
        have hheld : ¬ Disciplined Resource.file [acquired .buf, acquired .file] := by decide
        exact hheld (hall (by simp [framed]) .file)
      | real xs =>
        refine iff_of_true ?_ (fun _ _ => ⟨xs, rfl⟩)
        unfold framed
        cases ho : loop.outcome with
        | returned =>
          simp only [if_true]
          apply Traced.released_of_disciplined
          intro r
          right
          rw [List.append_assoc, stage_acquired, stage_append, h r, ho, Option.bind_some]
          cases r <;> rfl
        | raised =>
          simp only [if_true]
          apply Traced.released_of_disciplined
          intro r
          right
          rw [Traced.after, stage_acquired, h r, ho]
        | waiting =>
          simp only [if_true]
          refine ⟨?_, fun hwait => absurd ho hwait⟩
          intro r
          rw [Traced.after, stage_acquired, h r]
          simp

/-- The buffer and the `FILE` are released on every path exactly if the size is a double
vector, or there is no `FILE`. -/
theorem buffers_released_iff (t : SocketType) (allocated opened : Bool) (filesize : RObj ε) :
    (∀ content rs, (R_zmq_send_file t allocated opened filesize content rs).Released ↔
      (allocated = true → opened = true → ∃ xs, filesize = .real xs)) ∧
    ∀ ds, (recvFileTraced t allocated opened filesize ds).Released ↔
      (allocated = true → opened = true → ∃ xs, filesize = .real xs) :=
  ⟨fun content rs => framed_released_iff (send_file_holds t ⟨content, false⟩ rs) _ _ _,
    fun ds => framed_released_iff (recvFileUses_holds t .fopen ds) _ _ _⟩

/-- A peer announces the size `NULL`. -/
theorem unreleased_buffer : ¬ ∀ (t : SocketType) (allocated opened : Bool)
    (filesize : RObj Empty) (ds : List Delivery),
    (recvFileTraced t allocated opened filesize ds).Released := by
  intro hall
  have hnull := (framed_released_iff (recvFileUses_holds .pull .fopen []) true true _).mp
    (hall .pull true true .null [])
  obtain ⟨xs, hxs⟩ := hnull rfl rfl
  contradiction

end PbdZmq.Transfer
