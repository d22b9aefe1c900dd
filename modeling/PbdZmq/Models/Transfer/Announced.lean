import Mathlib.Algebra.GroupWithZero.Nat
import PbdZmq.Models.Transfer.Incoming
import PbdZmq.Models.Transfer.Progress

/-!
# The announced size

The header announces the size of the file, and `zmq.recvfile` hands it to
`R_zmq_recv_file`, where only the progress display reads it. The display decides whether
the loop is reached at all: an infinite size is scaled forever. A name read outside of
`memnames` is taken to be printed like any other. How many bytes the loop writes is decided
by the chunks alone.
-/

namespace PbdZmq.Transfer

variable {ε : Type}

/-- What decides a call of `zmq.recvfile`. -/
structure RecvCall (ε : Type) where
  /-- `attr(socket, "type")`. -/
  type : SocketType
  verbose : Int
  /-- `filesize <- receive.socket(socket)`, if it raises no error. -/
  filesize : Option (RObj ε)
  /-- What the memory holds behind a vector without elements. -/
  beyond : RDouble
  /-- `malloc` and `fopen` succeed. -/
  opened : Bool
  /-- The rounds of the loop. -/
  deliveries : List Delivery
  /-- After how many of the buffered bytes `fclose` fails. -/
  closing : Option Nat
  deriving DecidableEq, Repr

/-- The end of a call. -/
structure RecvResult where
  outcome : Outcome
  /-- The bytes that `fwrite` accepted. -/
  written : Bytes
  /-- What the file holds afterwards. -/
  content : Bytes
  deriving DecidableEq, Repr

/-- A call that ends in an error before it writes anything. -/
def RecvResult.stop : RecvResult := ⟨.raised, [], []⟩

/-- `REAL(x)[0]`, which reads past a vector without elements. -/
def REAL (beyond : RDouble) (xs : List RDouble) : RDouble := xs.headD beyond

/-- What `R_zmq_recv_file` does from its loop on. `recv_file` closes the file before it raises
an error, and the result of `fclose` is ignored in either place. -/
def recvAndClose (ds : List Delivery) (closing : Option Nat) : RecvResult :=
  let e := recv_file .fopen ds
  match e.outcome with
  | .returned => ⟨.returned, e.file.written, (e.file.fclose closing).2⟩
  | .raised => ⟨.raised, e.file.written, (e.file.fclose closing).2⟩
  | .waiting => ⟨.waiting, e.file.written, e.file.reached⟩

/-- `R_zmq_recv_file`, if the loop of `progress_init` ends within `fuel` tests. -/
def R_zmq_recv_file (fuel : Nat) (verbose : Int) (beyond : RDouble) (filesize : RObj ε)
    (opened : Bool) (ds : List Delivery) (closing : Option Nat) : Option RecvResult :=
  if opened then
    match filesize with
    | .real xs =>
      (progress_init fuel verbose (REAL beyond xs)).map fun _ => recvAndClose ds closing
    | .null | .raw _ | .other _ => some .stop
  else some .stop

/-- `zmq.recvfile`, if the loop of `progress_init` ends within `fuel` tests. -/
def zmqRecvfile (fuel : Nat) (c : RecvCall ε) : Option RecvResult :=
  match c.type, c.filesize with
  | .push, _ => some .stop
  | .pull, some filesize | .req, some filesize | .rep, some filesize =>
    R_zmq_recv_file fuel c.verbose c.beyond filesize c.opened c.deliveries c.closing
  | .pull, none | .req, none | .rep, none => some .stop

/-- The announced size, `REAL(filesize_)[0]`. -/
def RecvCall.announced (c : RecvCall ε) : Option RDouble :=
  match c.filesize with
  | some (.real xs) => some (REAL c.beyond xs)
  | _ => none

/-- A normal return has written as many bytes as were announced. -/
def RecvCall.HonoursSize (c : RecvCall ε) : Prop :=
  ∀ fuel r, zmqRecvfile fuel c = some r → r.outcome = .returned →
    c.announced = some (.finite r.written.length)

/-- The call comes to `recv_file`. -/
def RecvCall.Enters (c : RecvCall ε) : Prop :=
  c.type ≠ .push ∧ c.opened = true ∧ ∃ xs, c.filesize = some (.real xs)

/-- The loop ends as `recv_file` does, and closes the file on a return. -/
theorem recvAndClose_spec (ds : List Delivery) (closing : Option Nat) :
    (recvAndClose ds closing).outcome = (recv_file .fopen ds).outcome ∧
      (recvAndClose ds closing).written = (recv_file .fopen ds).file.written ∧
      ((recv_file .fopen ds).outcome = .returned → (recvAndClose ds closing).content =
        ((recv_file .fopen ds).file.fclose closing).2) := by
  cases ho : (recv_file .fopen ds).outcome <;> simp [recvAndClose, ho]

/-- With the file open and a double header, `R_zmq_recv_file` comes to its loop if the
progress display is started. -/
theorem R_zmq_recv_file_real {fuel : Nat} {verbose : Int} {beyond : RDouble} {xs : List RDouble}
    {ds : List Delivery} {closing : Option Nat} {r : RecvResult}
    (h : R_zmq_recv_file fuel verbose beyond (.real xs : RObj ε) true ds closing = some r) :
    r = recvAndClose ds closing := by
  obtain ⟨_, _, rfl⟩ := Option.map_eq_some_iff.mp h
  rfl

/-- Otherwise it ends in an error. -/
theorem R_zmq_recv_file_stop {filesize : RObj ε} {opened : Bool}
    (h : ¬ (opened = true ∧ ∃ xs, filesize = .real xs)) (fuel : Nat) (verbose : Int)
    (beyond : RDouble) (ds : List Delivery) (closing : Option Nat) :
    R_zmq_recv_file fuel verbose beyond filesize opened ds closing = some .stop := by
  cases opened with
  | false => rfl
  | true =>
    cases filesize with
    | real xs => exact absurd ⟨rfl, xs, rfl⟩ h
    | null | raw | other => rfl

/-- A call that comes to `recv_file` waits for the progress display only. -/
theorem zmqRecvfile_of_enters {c : RecvCall ε} (h : c.Enters) (fuel : Nat) :
    ∃ size, c.announced = some size ∧ zmqRecvfile fuel c =
      (progress_init fuel c.verbose size).map fun _ => recvAndClose c.deliveries c.closing := by
  obtain ⟨ht, hopened, xs, hxs⟩ := h
  refine ⟨REAL c.beyond xs, by rw [RecvCall.announced, hxs], ?_⟩
  cases hc : c.type with
  | push => exact absurd hc ht
  | pull | req | rep => simp only [zmqRecvfile, hc, hxs, hopened, R_zmq_recv_file, if_true]

/-- Any other call ends in an error. -/
theorem zmqRecvfile_of_not_enters {c : RecvCall ε} (h : ¬ c.Enters) (fuel : Nat) :
    zmqRecvfile fuel c = some .stop := by
  cases ht : c.type with
  | push => simp only [zmqRecvfile, ht]
  | pull | req | rep =>
    cases hv : c.filesize with
    | none => simp only [zmqRecvfile, ht, hv]
    | some v =>
      have hstop : ¬ (c.opened = true ∧ ∃ xs, v = .real xs) := by
        rintro ⟨hopened, xs, rfl⟩
        exact h ⟨by simp [ht], hopened, xs, hv⟩
      simp only [zmqRecvfile, ht, hv, R_zmq_recv_file_stop hstop]

/-- A call that has a result and has come to `recv_file` ends as that does. -/
theorem zmqRecvfile_entered {fuel : Nat} {c : RecvCall ε} {r : RecvResult} (h : c.Enters)
    (hr : zmqRecvfile fuel c = some r) : r.outcome = (recv_file .fopen c.deliveries).outcome ∧
      r.written = (recv_file .fopen c.deliveries).file.written := by
  obtain ⟨size, _, heq⟩ := zmqRecvfile_of_enters h fuel
  rw [heq] at hr
  obtain ⟨_, _, rfl⟩ := Option.map_eq_some_iff.mp hr
  obtain ⟨houtcome, hwritten, -⟩ := recvAndClose_spec c.deliveries c.closing
  exact ⟨houtcome, hwritten⟩

/-- A call returns normally only out of `recv_file`. -/
theorem enters_of_returned {fuel : Nat} {c : RecvCall ε} {r : RecvResult}
    (hr : zmqRecvfile fuel c = some r) (h : r.outcome = .returned) : c.Enters := by
  by_contra hnot
  rw [zmqRecvfile_of_not_enters hnot, Option.some.injEq] at hr
  rw [← hr] at h
  contradiction

/-- The replies that the process of the receiver gets in a call up to its loop. -/
def entryReplies (t : SocketType) (header ack : Reply Bytes) (opened : Bool) :
    List (Reply Bytes) :=
  let fopen : Reply Bytes := .io (if opened then none else some 0)
  match t with
  | .req => [ack, header, fopen]
  | .rep => [header, ack, fopen]
  | .push | .pull => [header, fopen]

/-- The process of the receiver enters the loop or ends in an error. -/
theorem Receiver.feed_entry (ser : Serializer ε) (memory : Bytes) {header : Reply Bytes}
    (ack : Reply Bytes) {c : RecvCall ε} (hheader : receiveSocket ser header = c.filesize) :
    (∀ xs, c.Enters → c.filesize = some (.real xs) → (Receiver.start c.type 1 memory).feed ser
      (entryReplies c.type header ack c.opened) =
        { (Receiver.idle c.type 0 memory : Receiver ε) with filesize := .real xs }.loopTop) ∧
    (¬ c.Enters → ((Receiver.start c.type 1 memory).feed ser
      (entryReplies c.type header ack c.opened)).pc = .raised) := by
  constructor
  · rintro xs ⟨ht, hopened, -⟩ hxs
    rw [hxs] at hheader
    cases hc : c.type with
    | push => exact absurd hc ht
    | pull | req | rep =>
      simp [start, idle, callNext, call, entryReplies, feed, resume, hheader, hopened, loopTop]
  · intro hnot
    cases hc : c.type with
    | push => simp [start, idle, callNext, call, entryReplies, feed, resume]
    | pull | req | rep =>
      cases hv : c.filesize with
      | none => simp [start, idle, callNext, call, entryReplies, feed, resume, hheader, hv]
      | some v =>
        cases ho : c.opened with
        | false => simp [start, idle, callNext, call, entryReplies, feed, resume, hheader, hv]
        | true =>
          cases v with
          | real xs => exact absurd ⟨by simp [hc], ho, xs, hv⟩ hnot
          | null | raw | other =>
            simp [start, idle, callNext, call, entryReplies, feed, resume, hheader, hv]

/-- The process of the receiver ends as the call does and has written the same bytes. -/
theorem Receiver.feed_zmqRecvfile (ser : Serializer ε) (memory : Bytes) {header : Reply Bytes}
    (ack : Reply Bytes) {fuel : Nat} {c : RecvCall ε} {result : RecvResult}
    (hheader : receiveSocket ser header = c.filesize) (hr : zmqRecvfile fuel c = some result) :
    let r := (Receiver.start c.type 1 memory).feed ser
      (entryReplies c.type header ack c.opened ++ c.deliveries.flatMap (Delivery.replies c.type))
    (result.outcome = .returned → r.pc = .finished ∧ r.outs = [result.written]) ∧
    (result.outcome = .raised → r.pc = .raised) := by
  obtain ⟨henter, hraise⟩ := feed_entry ser memory ack hheader
  simp only [feed_append]
  by_cases henters : c.Enters
  · obtain ⟨xs, hxs⟩ := henters.2.2
    obtain ⟨houtcome, hwritten⟩ := zmqRecvfile_entered henters hr
    have hloop := feed_recv_file ser .fopen
      (r := { (Receiver.idle c.type 0 memory : Receiver ε) with filesize := .real xs })
      rfl rfl c.deliveries
    rw [henter xs henters hxs, houtcome, hwritten]
    constructor
    · intro hreturned
      rw [hreturned] at hloop
      exact hloop
    · intro hraised
      rw [hraised] at hloop
      exact hloop
  · rw [zmqRecvfile_of_not_enters henters, Option.some.injEq] at hr
    rw [← hr, feed_of_ended (.inl (hraise henters))]
    exact ⟨fun h => absurd h (by simp [RecvResult.stop]), fun _ => hraise henters⟩

/-- The announced size is honoured exactly if the messages of a whole stream add up to it,
unless the progress display is never started. -/
theorem honoursSize_iff (c : RecvCall ε) : c.HonoursSize ↔ (c.Enters →
    c.verbose = 0 ∨ c.announced ≠ some (.infinite false) →
    ∀ ms, wholeStream c.deliveries = some ms → c.announced = some (.finite ms.flatten.length)) := by
  have hstream := recv_file_wholeStream .fopen c.deliveries
  constructor
  · intro hsize henters hstarts ms hms
    obtain ⟨size, hannounced, -⟩ := zmqRecvfile_of_enters henters 0
    obtain ⟨fuel, shown, hshown⟩ :
        ∃ fuel shown, progress_init fuel c.verbose size = some shown := by
      rcases hstarts with hverbose | hfinite
      · exact ⟨0, _, if_pos hverbose⟩
      · exact progress_init_isSome c.verbose fun hsize => hfinite (hsize ▸ hannounced)
    obtain ⟨size', hannounced', hresult⟩ := zmqRecvfile_of_enters henters fuel
    obtain rfl : size = size' := Option.some.inj (hannounced.symm.trans hannounced')
    rw [hshown, Option.map_some] at hresult
    obtain ⟨houtcome, hwritten⟩ := zmqRecvfile_entered henters hresult
    rw [hms] at hstream
    have htotal := hsize fuel _ hresult (houtcome.trans hstream.1)
    rwa [hwritten, hstream.2] at htotal
  · intro hall fuel r hr hreturned
    have henters := enters_of_returned hr hreturned
    obtain ⟨houtcome, hwritten⟩ := zmqRecvfile_entered henters hr
    have hstarts : c.verbose = 0 ∨ c.announced ≠ some (.infinite false) := by
      by_cases hverbose : c.verbose = 0
      · exact .inl hverbose
      · obtain ⟨size, hannounced, hresult⟩ := zmqRecvfile_of_enters henters fuel
        refine .inr fun hinfinite => ?_
        obtain rfl : size = .infinite false := Option.some.inj (hannounced.symm.trans hinfinite)
        rw [progress_init_infinite hverbose, Option.map_none, hr] at hresult
        contradiction
    rw [houtcome] at hreturned
    cases hms : wholeStream c.deliveries with
    | none =>
      rw [hms] at hstream
      exact absurd hreturned hstream
    | some ms =>
      rw [hms] at hstream
      rw [hwritten, hstream.2]
      exact hall henters hstarts ms hms

/-- A normal return has written the messages up to the first short one, whatever the header
held. -/
theorem written_total {fuel : Nat} {c : RecvCall ε} {r : RecvResult}
    (hr : zmqRecvfile fuel c = some r) (h : r.outcome = .returned) :
    ∃ before last rest, c.deliveries = before ++ last :: rest ∧ last.Short ∧
      (∀ d ∈ before, ¬ d.Short) ∧ r.written.length =
        (((before ++ [last]).filterMap Delivery.message).map List.length).sum := by
  obtain ⟨houtcome, hwritten⟩ := zmqRecvfile_entered (enters_of_returned hr h) hr
  rw [houtcome] at h
  obtain ⟨before, last, hds, hshort, hchunks, -, hout⟩ := recv_file_consumed h
  refine ⟨before, last, _, hds, hshort, hchunks, ?_⟩
  rw [hwritten, hout, List.length_append, List.length_flatten]
  exact Nat.zero_add _

/-- The last chunk is written, and five bytes had been announced. -/
def shrunkFile : RecvCall Empty where
  type := .pull
  verbose := 0
  filesize := some (.real [.finite 5])
  beyond := .nan
  opened := true
  deliveries := [⟨some [1, 2], none, ⟨2, false⟩, false⟩]
  closing := none

/-- The process has written two bytes. -/
theorem Receiver.feed_zmqRecvfile_shrunk :
    let r := (Receiver.start .pull 1 []).feed Serializer.basic
      (entryReplies .pull (.received (Serializer.basic.serialize (.real [.finite 5]))) .sent true ++
        shrunkFile.deliveries.flatMap (Delivery.replies .pull))
    r.pc = .finished ∧ r.outs = [[1, 2]] :=
  (Receiver.feed_zmqRecvfile (c := shrunkFile) Serializer.basic [] .sent
    (show receiveSocket Serializer.basic
      (.received (Serializer.basic.serialize (.real [.finite 5]))) = shrunkFile.filesize from
        Serializer.basic.unserialize_serialize (.real [.finite 5]))
    (show zmqRecvfile 0 shrunkFile = some _ from rfl)).1 rfl

/-- Two bytes are written where five were announced. -/
theorem written_total_shrunk :
    ∃ r, zmqRecvfile 0 shrunkFile = some r ∧ r.outcome = .returned ∧ r.written.length = 2 ∧
      ∃ before last rest, shrunkFile.deliveries = before ++ last :: rest ∧ last.Short ∧
        (∀ d ∈ before, ¬ d.Short) ∧ r.written.length =
          (((before ++ [last]).filterMap Delivery.message).map List.length).sum :=
  ⟨_, rfl, rfl, rfl, written_total (show zmqRecvfile 0 shrunkFile = some _ from rfl) rfl⟩

/-- A shorter file than announced is accepted. -/
theorem unannounced_size : ¬ ∀ c : RecvCall Empty, c.HonoursSize := by
  intro hall
  have hsize := hall shrunkFile 0 _ rfl rfl
  have hlength : (recvAndClose shrunkFile.deliveries shrunkFile.closing).written.length = 2 := rfl
  rw [hlength] at hsize
  simp [RecvCall.announced, shrunkFile, REAL] at hsize

end PbdZmq.Transfer
