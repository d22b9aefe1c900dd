import PbdZmq.Models.Transfer.Receiving

/-!
# The forward stream along a run

The messages in flight, followed by the frames that the sender has ahead, are the
frames that the receiver expects. One step of either process keeps this, under
every failure except that of a header call, whose loss the receiver could not
notice. A call of the C functions makes no header call at all.
-/

namespace PbdZmq.Transfer

variable {ε : Type}

@[simp] theorem Sender.type_callNext (s : Sender) : s.callNext.type = s.type := by
  unfold callNext
  cases s.later <;> rfl

@[simp] theorem Sender.type_loopTest (s : Sender) (size : Nat) :
    (s.loopTest size).type = s.type := by
  unfold loopTest loopTop
  split <;> simp

/-- The C variable `type` never changes. -/
@[simp] theorem Sender.type_resume (ser : Serializer ε) (s : Sender) (r : Reply Bytes) :
    (s.resume ser r).type = s.type := by
  unfold resume
  cases s.pc with
  | recvRequest | recvReply => cases receiveSocket ser r <;> rfl
  | sendHeader | loopRecv | finished | raised | stopped => rfl
  | opening =>
    simp only
    split <;> rfl
  | fread =>
    simp only
    split
    · split <;> rfl
    · rfl
  | loopSend chunk =>
    cases r with
    | sent =>
      simp only
      split <;> simp
    | received | failed | io => rfl
  | loopAck size => cases r <;> simp

@[simp] theorem Sender.mode_callNext (s : Sender) : s.callNext.mode = s.mode := by
  unfold callNext
  cases s.later <;> rfl

@[simp] theorem Sender.mode_loopTest (s : Sender) (size : Nat) :
    (s.loopTest size).mode = s.mode := by
  unfold loopTest loopTop
  split <;> simp

/-- Neither does the mode of the streams change. -/
@[simp] theorem Sender.mode_resume (ser : Serializer ε) (s : Sender) (r : Reply Bytes) :
    (s.resume ser r).mode = s.mode := by
  unfold resume
  cases s.pc with
  | recvRequest | recvReply => cases receiveSocket ser r <;> rfl
  | sendHeader | loopRecv | finished | raised | stopped => rfl
  | opening =>
    simp only
    split <;> rfl
  | fread =>
    simp only
    split
    · split <;> rfl
    · rfl
  | loopSend chunk =>
    cases r with
    | sent =>
      simp only
      split <;> simp
    | received | failed | io => rfl
  | loopAck size => cases r <;> simp

@[simp] theorem Receiver.type_callNext (r : Receiver ε) : r.callNext.type = r.type := by
  unfold callNext
  cases r.left <;> rfl

@[simp] theorem Receiver.type_loopTest (r : Receiver ε) (size : Nat) :
    (r.loopTest size).type = r.type := by
  unfold loopTest loopTop
  split <;> simp

/-- The C variable `type` never changes. -/
@[simp] theorem Receiver.type_resume (ser : Serializer ε) (r : Receiver ε) (a : Reply Bytes) :
    (r.resume ser a).type = r.type := by
  unfold resume
  cases r.pc with
  | sendRequest | sendReply | loopSend | finished | raised | stopped => rfl
  | recvHeader => cases receiveSocket ser a <;> rfl
  | opening =>
    simp only
    split <;> rfl
  | loopRecv => cases a <;> rfl
  | fwrite expected_size =>
    cases a with
    | io fault =>
      simp only
      split
      · rfl
      · split <;> simp
    | sent | received | failed => rfl
  | loopAck size => simp

/-- A process that makes a call is alive. -/
theorem Sender.alive_of_need (ser : Serializer ε) {s : Sender} (h : s.need ser ≠ .halted) :
    s.Alive := by
  constructor <;> intro hpc <;> simp [need, hpc] at h

/-- A process that makes a call is alive. -/
theorem Receiver.alive_of_need (ser : Serializer ε) {r : Receiver ε}
    (h : r.need ser ≠ .halted) :
    r.Alive := by
  constructor <;> intro hpc <;> simp [need, hpc] at h

/-- The invariant of the forward stream. -/
structure Forward (ser : Serializer ε) (mode : StreamMode) (files : List Bytes)
    (c : Config ε) : Prop where
  sender_mode : c.left.mode = mode
  sender_type : c.left.type ≠ .pull
  receiver_type : c.right.type ≠ .push
  reading : c.left.Reading
  logged : c.left.Logged files
  /-- Frames in flight and frames ahead are what the receiver expects. -/
  stream : ∃ frames future, c.fwd = frames.map (Frame.wire ser) ∧
    (c.left.Alive → future = c.left.ahead) ∧
    (c.right.Alive → c.right.Expects mode files (frames ++ future))

/-- No header call fails in this step. -/
def HeaderSafe (ser : Serializer ε) (c : Config ε) (a : Action) : Prop :=
  match a.side with
  | .left => c.left.pc = .sendHeader →
      a.choice ≠ .fail ∧ ¬ c.leftEnd.OutOfTurn turns (senderProcess ser)
  | .right => c.right.pc = .recvHeader →
      a.choice ≠ .fail ∧ ¬ c.rightEnd.OutOfTurn turns (receiverProcess ser)

theorem Sender.need_sendHeader {ser : Serializer ε} {s : Sender} (h : s.pc = .sendHeader) :
    s.need ser = .send (header ser s.infile) := by
  simp only [need, h]

theorem Receiver.need_recvHeader {ser : Serializer ε} {r : Receiver ε} (h : r.pc = .recvHeader) :
    r.need ser = .recv := by
  simp only [need, h]

/-- A sent message moves the first frame ahead into flight. -/
theorem Forward.left_sent {ser : Serializer ε} {mode : StreamMode} {files : List Bytes}
    {c : Config ε} (h : Forward ser mode files c) {m : Bytes} (hn : c.left.need ser = .send m)
    (sock : Sock) :
    Forward ser mode files
      { c with left := c.left.resume ser .sent, leftSock := sock, fwd := c.fwd ++ [m] } := by
  obtain ⟨frames, future, hfwd, hfuture, hexp⟩ := h.stream
  obtain ⟨frame, hw, hahead⟩ := Sender.ahead_sent h.sender_type hn
  have hf := hfuture (Sender.alive_of_need ser (by simp [hn]))
  refine ⟨by simpa using h.sender_mode, by simpa using h.sender_type, h.receiver_type,
    Sender.reading_resume .sent h.reading, Sender.logged_resume .sent h.reading h.logged,
    frames ++ [frame], _, ?_, fun _ => rfl, fun ha => ?_⟩
  · simp [hfwd, hw]
  · have hx := hexp ha
    rw [hf, hahead] at hx
    simpa using hx

/-- A received message is the first frame expected. -/
theorem Forward.right_received {ser : Serializer ε} {mode : StreamMode} {files : List Bytes}
    {c : Config ε} (h : Forward ser mode files c) {m : Bytes} {rest : List Bytes}
    (hn : c.right.need ser = .recv) (hin : c.fwd = m :: rest) (sock : Sock) :
    Forward ser mode files
      { c with right := c.right.resume ser (.received m), rightSock := sock, fwd := rest } := by
  obtain ⟨frames, future, hfwd, hfuture, hexp⟩ := h.stream
  have hx := hexp (Receiver.alive_of_need ser (by simp [hn]))
  rw [hin] at hfwd
  obtain ⟨frame, frames, rfl, rfl, rfl⟩ := List.map_eq_cons_iff.mp hfwd.symm
  exact ⟨h.sender_mode, h.sender_type, by simpa using h.receiver_type, h.reading, h.logged, frames,
    future, rfl, hfuture, fun _ => Receiver.expects_received hn hx⟩

/-- A reply to the sender that sends nothing keeps the invariant. -/
theorem Forward.left_quiet {ser : Serializer ε} {mode : StreamMode} {files : List Bytes}
    {c : Config ε} (h : Forward ser mode files c) {r : Reply Bytes} (hn : c.left.need ser ≠ .halted)
    (hr : r ≠ .sent) (hpc : c.left.pc ≠ .sendHeader) (sock : Sock) (bwd : List Bytes) :
    Forward ser mode files
      { c with left := c.left.resume ser r, leftSock := sock, bwd := bwd } := by
  obtain ⟨frames, future, hfwd, hfuture, hexp⟩ := h.stream
  refine ⟨by simpa using h.sender_mode, by simpa using h.sender_type, h.receiver_type,
    Sender.reading_resume r h.reading, Sender.logged_resume r h.reading h.logged, frames, future,
    hfwd, fun ha => ?_, hexp⟩
  rw [Sender.ahead_resume h.sender_type h.reading hr hpc ha]
  exact hfuture (Sender.alive_of_need ser hn)

/-- A reply to the receiver that delivers nothing keeps the invariant. -/
theorem Forward.right_quiet {ser : Serializer ε} {mode : StreamMode} {files : List Bytes}
    {c : Config ε} (h : Forward ser mode files c) {r : Reply Bytes}
    (hn : c.right.need ser ≠ .halted) (hr : ∀ m, r ≠ .received m)
    (hpc : c.right.pc ≠ .recvHeader) (sock : Sock) (bwd : List Bytes) :
    Forward ser mode files
      { c with right := c.right.resume ser r, rightSock := sock, bwd := bwd } := by
  obtain ⟨frames, future, hfwd, hfuture, hexp⟩ := h.stream
  refine ⟨h.sender_mode, h.sender_type, by simpa using h.receiver_type, h.reading, h.logged, frames,
    future, hfwd, hfuture, fun ha => ?_⟩
  exact Receiver.expects_resume h.receiver_type hpc hr (hexp (Receiver.alive_of_need ser hn)) ha

/-- A stopped sender keeps the frames it will never send in the expectation. -/
theorem Forward.left_stop {ser : Serializer ε} {mode : StreamMode} {files : List Bytes}
    {c : Config ε} (h : Forward ser mode files c) (hn : c.left.need ser ≠ .halted) :
    Forward ser mode files { c with left := { c.left with pc := .stopped } } := by
  obtain ⟨frames, future, hfwd, hfuture, hexp⟩ := h.stream
  refine ⟨h.sender_mode, h.sender_type, h.receiver_type, trivial, ?_, frames, future, hfwd,
    fun ha => absurd rfl ha.2, hexp⟩
  have hpc : c.left.pc ≠ .finished := by
    intro hpc
    simp [Sender.need, hpc] at hn
  exact h.logged.keep hpc (by simp) ⟨rfl, rfl, rfl, rfl, rfl⟩ fun ha => absurd rfl ha.2

/-- A stopped receiver expects nothing any more. -/
theorem Forward.right_stop {ser : Serializer ε} {mode : StreamMode} {files : List Bytes}
    {c : Config ε} (h : Forward ser mode files c) :
    Forward ser mode files { c with right := { c.right with pc := .stopped } } := by
  obtain ⟨frames, future, hfwd, hfuture, _⟩ := h.stream
  exact ⟨h.sender_mode, h.sender_type, h.receiver_type, h.reading, h.logged, frames, future, hfwd,
    hfuture, fun ha => absurd rfl ha.2⟩

/-- One step keeps the forward stream. -/
theorem Forward.step {cap : Nat} {ser : Serializer ε} {mode : StreamMode} {files : List Bytes}
    {c d : Config ε} {a : Action} (h : Forward ser mode files c) (hsafe : HeaderSafe ser c a)
    (hs : Transfer.step cap ser c a = some d) : Forward ser mode files d := by
  rcases Duplex.step_cases hs with ⟨e, hside, hm, rfl⟩ | ⟨e, hside, hm, rfl⟩
  · simp only [HeaderSafe, hside] at hsafe
    rcases hm.outgoing with ⟨m, hn, _, rfl⟩ | ⟨r, sock, inbox, hr, hn, hfail, rfl⟩ | ⟨hn, rfl⟩
    · exact h.left_sent hn _
    · refine h.left_quiet hn hr (fun hpc => ?_) sock inbox
      rcases hfail _ (Sender.need_sendHeader hpc) with ho | hf
      · exact (hsafe hpc).2 ho
      · exact (hsafe hpc).1 hf
    · exact h.left_stop hn
  · simp only [HeaderSafe, hside] at hsafe
    rcases hm.incoming with ⟨m, rest, hn, _, hin, rfl⟩ | ⟨r, sock, outbox, hr, hn, hfail, rfl⟩ |
      ⟨hn, rfl⟩
    · exact h.right_received hn hin _
    · refine h.right_quiet hn hr (fun hpc => ?_) sock outbox
      rcases hfail (Receiver.need_recvHeader hpc) with ho | hf
      · exact (hsafe hpc).2 ho
      · exact (hsafe hpc).1 hf
    · exact h.right_stop

theorem Pairing.senderType_ne (p : Pairing) : p.senderType ≠ .pull := by
  cases p <;> decide

theorem Pairing.receiverType_ne (p : Pairing) : p.receiverType ≠ .push := by
  cases p <;> decide

/-- A fresh sender has recorded nothing. -/
theorem Sender.logged_start (mode : StreamMode) (t : SocketType) (files : List Bytes) :
    (Sender.start mode t files).Logged files := by
  cases files with
  | nil => exact fun h => absurd rfl h
  | cons f fs => exact logged_call [] rfl rfl

/-- Fresh sockets start with the whole stream ahead. -/
theorem Forward.start (ser : Serializer ε) (mode : StreamMode) (p : Pairing) (files : List Bytes)
    (memory : Bytes) : Forward ser mode files (Config.start mode p files memory) := by
  refine ⟨Sender.mode_callNext _,
    by simpa [Config.start, Sender.start, Sender.idle] using p.senderType_ne,
    by simpa [Config.start, Receiver.start, Receiver.idle] using p.receiverType_ne,
    Sender.reading_callNext _, Sender.logged_start _ _ _, [], _, rfl, fun _ => rfl, fun _ => ?_⟩
  rw [List.nil_append]
  have hs : (Sender.start mode p.senderType files).ahead = streamFrames mode files :=
    Sender.ahead_callNext (s := .idle mode p.senderType files) p.senderType_ne
  show Receiver.Expects mode files _ (Sender.start mode p.senderType files).ahead
  rw [hs]
  exact Receiver.expects_callNext p.receiverType_ne rfl rfl rfl

/-- At the entry of the C functions the chunks of the file are ahead. -/
theorem Forward.startC (ser : Serializer ε) (mode : StreamMode) (p : Pairing)
    (file memory : Bytes) : Forward ser mode [file] (Config.startC mode p file memory) := by
  refine ⟨rfl, p.senderType_ne, p.receiverType_ne, trivial, fun _ => ⟨[], rfl, rfl, _, rfl,
    fun _ => rfl⟩, [], _, rfl, fun _ => rfl, fun _ => ?_⟩
  refine ⟨rfl, [.finite file.length], mode.input file, [], rfl, ⟨rfl, rfl, rfl⟩, ?_⟩
  rfl

end PbdZmq.Transfer
