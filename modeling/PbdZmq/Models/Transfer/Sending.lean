import PbdZmq.Core.Blocks
import PbdZmq.Models.Transfer.Process

/-!
# What the sender still has to send

On the wire a header and a chunk are both plain messages. Here they are tagged:
at every control point the sender has a definite list of frames ahead. A send
that the socket accepts takes the first of them, and every other reply leaves
them alone or ends the process. The chunks of a call that were sent and those
still pending always make up its file.
-/

namespace PbdZmq.Transfer

variable {ε : Type}

/-- A message by its role in the protocol. -/
inductive Frame
  | header (file : Bytes)
  | chunk (bytes : Bytes)
  deriving DecidableEq, Repr

/-- The message that carries a frame. -/
def Frame.wire (ser : Serializer ε) : Frame → Bytes
  | .header file => Transfer.header ser file
  | .chunk bytes => bytes

/-- The chunks after one of `size` bytes, with `rest` still unread. -/
def moreBlocks (size : Nat) (rest : Bytes) : List Bytes :=
  if size = BUFLEN then blocks BUFLEN rest else []

/-- The chunks in which reading delivers a file. -/
def StreamMode.chunks (mode : StreamMode) (file : Bytes) : List Bytes :=
  blocks BUFLEN (mode.input file)

/-- The chunk frames of a file. -/
def chunkFrames (file : Bytes) : List Frame := (blocks BUFLEN file).map .chunk

/-- The chunk frames after a chunk of `size` bytes. -/
def moreFrames (size : Nat) (rest : Bytes) : List Frame := (moreBlocks size rest).map .chunk

/-- All frames of a sequence of transfers: the headers of the files and the chunks that
reading delivers. -/
def streamFrames (mode : StreamMode) (files : List Bytes) : List Frame :=
  files.flatMap fun file => .header file :: chunkFrames (mode.input file)

@[simp] theorem streamFrames_nil (mode : StreamMode) : streamFrames mode [] = [] := rfl

@[simp] theorem streamFrames_cons (mode : StreamMode) (f : Bytes) (fs : List Bytes) :
    streamFrames mode (f :: fs) =
      .header f :: (chunkFrames (mode.input f) ++ streamFrames mode fs) := rfl

/-- The first chunk of a file and the chunks that follow it. -/
theorem blocks_BUFLEN (file : Bytes) :
    blocks BUFLEN file = file.take BUFLEN ::
      moreBlocks (file.take BUFLEN).length (file.drop BUFLEN) := by
  rw [blocks_eq BUFLEN_pos]
  rfl

theorem chunkFrames_eq (file : Bytes) :
    chunkFrames file = .chunk (file.take BUFLEN) ::
      moreFrames (file.take BUFLEN).length (file.drop BUFLEN) := by
  rw [chunkFrames, blocks_BUFLEN]
  rfl

/-- After a short chunk nothing is left to read. -/
theorem drop_eq_nil_of_short {file : Bytes} (h : (file.take BUFLEN).length ≠ BUFLEN) :
    file.drop BUFLEN = [] := by
  rw [List.length_take] at h
  exact List.drop_eq_nil_of_le (by omega)

/-- A process that an R error ended or that was stopped takes no further part. -/
def Sender.Alive (s : Sender) : Prop := s.pc ≠ .raised ∧ s.pc ≠ .stopped

/-- The chunks of the current call that the sender has yet to send. -/
def Sender.pending (s : Sender) : List Bytes :=
  match s.pc with
  | .recvRequest | .sendHeader | .recvReply | .opening => s.mode.chunks s.infile
  | .loopRecv | .fread => blocks BUFLEN s.stream.rest
  | .loopSend chunk => chunk :: moreBlocks chunk.length s.stream.rest
  | .loopAck size => moreBlocks size s.stream.rest
  | .finished | .raised | .stopped => []

/-- The header of the current call, as long as it is not sent. -/
def Sender.headerAhead (s : Sender) : List Frame :=
  match s.pc with
  | .recvRequest | .sendHeader => [.header s.infile]
  | _ => []

/-- The frames that the sender has yet to send. -/
def Sender.ahead (s : Sender) : List Frame :=
  match s.pc with
  | .raised | .stopped => []
  | _ => s.headerAhead ++ s.pending.map .chunk ++ streamFrames s.mode s.later

/-- The stream is at end of file only after a short chunk. -/
def Sender.Reading (s : Sender) : Prop :=
  match s.pc with
  | .loopRecv | .fread => s.stream.eof = false
  | .loopSend chunk => chunk.length = BUFLEN → s.stream.eof = false
  | .loopAck size => size = BUFLEN → s.stream.eof = false
  | _ => True

/-- A read that `send_file` accepts took a whole block or the end of the file. -/
theorem fread_accepted {f : InFile} {n : Nat} {fault : Option Nat} (he : f.eof = false)
    (h : ¬((fread f n fault).1.length < n ∧ (fread f n fault).2.eof = false)) :
    fread f n fault = (f.rest.take n, ⟨f.rest.drop n, decide (f.rest.length < n)⟩) := by
  cases fault with
  | none => simp [fread, he]
  | some k =>
    simp only [fread] at h ⊢
    split
    · rename_i hk
      rw [if_pos hk] at h
      exact absurd ⟨by rw [List.length_take]; omega, he⟩ h
    · simp [he]

@[simp] theorem Sender.later_call (s : Sender) (f : Bytes) : (s.call f).later = s.later := rfl

/-- The next call has the whole stream of the remaining files ahead. -/
theorem Sender.ahead_callNext {s : Sender} (ht : s.type ≠ .pull) :
    s.callNext.ahead = streamFrames s.mode s.later := by
  unfold callNext
  cases hl : s.later with
  | nil => simp [ahead, headerAhead, pending]
  | cons f fs =>
    cases hs : s.type with
    | pull => exact absurd hs ht
    | push | req | rep => simp [call, ahead, headerAhead, pending, chunkFrames, StreamMode.chunks]

theorem Sender.ahead_loopTop (s : Sender) :
    s.loopTop.ahead = chunkFrames s.stream.rest ++ streamFrames s.mode s.later := by
  unfold loopTop
  split <;> rfl

/-- The loop test goes on to the next chunk or to the next file. -/
theorem Sender.ahead_loopTest {s : Sender} (ht : s.type ≠ .pull) (size : Nat) :
    (s.loopTest size).ahead = moreFrames size s.stream.rest ++ streamFrames s.mode s.later := by
  by_cases h : size = BUFLEN
  · rw [loopTest, if_pos h, ahead_loopTop, moreFrames, moreBlocks, if_pos h]
    rfl
  · rw [loopTest, if_neg h, ahead_callNext (by exact ht), moreFrames, moreBlocks, if_neg h]
    rfl

/-- An accepted send puts the first frame ahead on the wire. -/
theorem Sender.ahead_sent {ser : Serializer ε} {s : Sender} {m : Bytes} (ht : s.type ≠ .pull)
    (hn : s.need ser = .send m) :
    ∃ frame, frame.wire ser = m ∧ s.ahead = frame :: (s.resume ser .sent).ahead := by
  unfold need at hn
  cases hpc : s.pc <;> simp only [hpc, Need.send.injEq, reduceCtorEq] at hn
  case sendHeader =>
    refine ⟨.header s.infile, hn, ?_⟩
    by_cases hq : s.type = .req <;>
      simp [resume, hpc, hq, ahead, headerAhead, pending]
  case loopSend chunk =>
    refine ⟨.chunk chunk, hn, ?_⟩
    by_cases hq : s.type = .req
    · simp [resume, hpc, hq, ahead, headerAhead, pending]
    · have hl := ahead_loopTest (s := { s with sent := s.sent ++ [chunk] }) ht chunk.length
      simp only [hpc] at hl
      simp only [resume, hpc, hq, if_false, hl]
      simp [ahead, headerAhead, pending, hpc, moreFrames]

/-- Every other reply leaves the frames ahead alone, or ends the process. -/
theorem Sender.ahead_resume {ser : Serializer ε} {s : Sender} {r : Reply Bytes}
    (ht : s.type ≠ .pull) (hread : s.Reading) (hr : r ≠ .sent) (hh : s.pc ≠ .sendHeader)
    (ha : (s.resume ser r).Alive) : (s.resume ser r).ahead = s.ahead := by
  unfold resume at ha ⊢
  cases hpc : s.pc with
  | recvRequest | recvReply =>
    simp only [hpc] at ha ⊢
    cases hu : receiveSocket ser r with
    | none => simp [hu, Alive] at ha
    | some v => simp [ahead, headerAhead, pending, hpc]
  | sendHeader => exact absurd hpc hh
  | opening =>
    simp only [hpc] at ha ⊢
    split at ha
    · rw [ahead_loopTop]
      simp [ahead, headerAhead, pending, hpc, chunkFrames, StreamMode.chunks]
    · exact absurd rfl ha.1
  | loopRecv => simp [ahead, headerAhead, pending, hpc]
  | fread =>
    simp only [hpc] at ha ⊢
    split at ha
    · rename_i fault
      have he : s.stream.eof = false := by simpa only [Reading, hpc] using hread
      by_cases hs : (Transfer.fread s.stream BUFLEN fault).1.length < BUFLEN ∧
          (Transfer.fread s.stream BUFLEN fault).2.eof = false
      · simp only [hs, and_self, if_true] at ha
        exact absurd rfl ha.1
      · simp only [hs, if_false]
        simp [fread_accepted he hs, ahead, headerAhead, pending, hpc, blocks_BUFLEN s.stream.rest]
    · exact absurd rfl ha.1
  | loopSend chunk =>
    simp only [hpc] at ha ⊢
    cases r with
    | sent => exact absurd rfl hr
    | received | failed | io => exact absurd rfl ha.1
  | loopAck size =>
    cases r with
    | received m =>
      have hl := ahead_loopTest (s := { s with acks := s.acks + 1 }) ht size
      simp only [hpc] at hl
      simp only [hl]
      simp [ahead, headerAhead, pending, hpc, moreFrames]
    | sent | failed | io =>
      simp only [ahead_loopTest ht]
      simp [ahead, headerAhead, pending, hpc, moreFrames]
  | finished | raised | stopped => rfl

/-- A call starts before its stream is opened. -/
theorem Sender.reading_callNext (s : Sender) : s.callNext.Reading := by
  unfold callNext
  cases s.later with
  | nil => trivial
  | cons f fs =>
    unfold call Reading
    cases s.type <;> trivial

theorem Sender.reading_loopTest {s : Sender} {size : Nat}
    (h : size = BUFLEN → s.stream.eof = false) : (s.loopTest size).Reading := by
  by_cases hs : size = BUFLEN
  · rw [loopTest, if_pos hs]
    unfold loopTop Reading
    split <;> simp_all
  · rw [loopTest, if_neg hs]
    exact reading_callNext _

/-- The end-of-file flag is never stale. -/
theorem Sender.reading_resume {ser : Serializer ε} {s : Sender} (r : Reply Bytes)
    (h : s.Reading) : (s.resume ser r).Reading := by
  unfold resume
  cases hpc : s.pc with
  | recvRequest | recvReply => cases receiveSocket ser r <;> trivial
  | sendHeader =>
    unfold Reading
    by_cases hq : s.type = .req <;> simp [hq]
  | opening =>
    simp only
    split
    · unfold loopTop Reading
      split <;> simp_all
    · trivial
  | loopRecv => simpa only [Reading, hpc] using h
  | fread =>
    simp only
    split
    · rename_i fault
      split
      · trivial
      · rename_i hs
        have he : s.stream.eof = false := by simpa only [Reading, hpc] using h
        rw [fread_accepted he hs]
        simp only [Reading, List.length_take, decide_eq_false_iff_not]
        omega
    · trivial
  | loopSend chunk =>
    have he : chunk.length = BUFLEN → s.stream.eof = false := by simpa only [Reading, hpc] using h
    cases r with
    | sent =>
      simp only
      split
      · exact he
      · exact reading_loopTest he
    | received | failed | io => trivial
  | loopAck size =>
    have he : size = BUFLEN → s.stream.eof = false := by simpa only [Reading, hpc] using h
    cases r with
    | received m => exact reading_loopTest he
    | sent | failed | io => exact reading_loopTest he
  | finished | raised | stopped => simp [Reading, hpc]

/-- The chunks of the current call that were sent and those still pending make up
its file, and every finished call has sent all chunks of its own. -/
def Sender.Logged (files : List Bytes) (s : Sender) : Prop :=
  files ≠ [] → ∃ done, files = done ++ s.infile :: s.later ∧
    s.log = (if s.pc = .finished then done ++ [s.infile] else done).map s.mode.chunks ∧
    ∃ rest, s.sent ++ rest = s.mode.chunks s.infile ∧ (s.Alive → rest = s.pending)

/-- A call that follows finished calls has sent nothing yet. -/
theorem Sender.logged_call (done : List Bytes) {files : List Bytes} {s : Sender} {f : Bytes}
    (hf : files = done ++ f :: s.later) (hl : s.log = done.map s.mode.chunks) :
    (s.call f).Logged files := by
  intro _
  refine ⟨done, hf, ?_, s.mode.chunks f, rfl, ?_⟩
  · cases hs : s.type <;> simp [call, hs, hl]
  · intro ha
    cases hs : s.type with
    | pull => simp [call, hs, Alive] at ha
    | push | req | rep => simp [call, hs, pending]

theorem Sender.pending_loopTop (s : Sender) :
    s.loopTop.pending = blocks BUFLEN s.stream.rest := by
  by_cases h : s.type = .rep <;> simp [loopTop, pending, h]

/-- A step inside a call that sends nothing keeps its record. -/
theorem Sender.Logged.keep {files : List Bytes} {s t : Sender} (h : s.Logged files)
    (hs : s.pc ≠ .finished) (ht : t.pc ≠ .finished)
    (he : t.mode = s.mode ∧ t.infile = s.infile ∧ t.later = s.later ∧ t.log = s.log ∧
      t.sent = s.sent)
    (hp : t.Alive → s.Alive ∧ t.pending = s.pending) : t.Logged files := by
  intro hne
  obtain ⟨hmode, hi, hlater, hlog, hsent⟩ := he
  obtain ⟨done, hf, hl, rest, hr, hrest⟩ := h hne
  rw [if_neg hs] at hl
  refine ⟨done, by rw [hi, hlater]; exact hf, by rw [if_neg ht, hlog, hmode]; exact hl, rest,
    by rw [hsent, hi, hmode]; exact hr, fun ha => ?_⟩
  rw [(hp ha).2]
  exact hrest (hp ha).1

/-- The loop test either goes on in the same file or closes its record. -/
theorem Sender.logged_loopTest {files done : List Bytes} {s : Sender} {size : Nat}
    (hf : files = done ++ s.infile :: s.later) (hl : s.log = done.map s.mode.chunks)
    (hsent : s.sent ++ moreBlocks size s.stream.rest = s.mode.chunks s.infile) :
    (s.loopTest size).Logged files := by
  by_cases hs : size = BUFLEN
  · rw [loopTest, if_pos hs]
    intro _
    rw [moreBlocks, if_pos hs] at hsent
    refine ⟨done, hf, ?_, _, hsent, fun _ => ?_⟩
    · unfold loopTop
      split <;> simp [hl]
    · rw [pending_loopTop]
  · rw [moreBlocks, if_neg hs, List.append_nil] at hsent
    rw [loopTest, if_neg hs, callNext]
    cases hlater : s.later with
    | nil =>
      intro _
      refine ⟨done, by simpa only [hlater] using hf, ?_, [], ?_, fun _ => rfl⟩
      · simp [hl, hsent]
      · rw [List.append_nil]
        exact hsent
    | cons f fs =>
      apply logged_call (done ++ [s.infile])
      · simp [hf, hlater]
      · simp [hl, hsent]

/-- Every reply keeps the record of sent chunks. -/
theorem Sender.logged_resume {ser : Serializer ε} {files : List Bytes} {s : Sender}
    (r : Reply Bytes) (hread : s.Reading) (h : s.Logged files) :
    (s.resume ser r).Logged files := by
  have hpend (size : Nat) (hpc : s.pc = .loopAck size) (hne : files ≠ []) :
      ∃ done, files = done ++ s.infile :: s.later ∧ s.log = done.map s.mode.chunks ∧
        s.sent ++ moreBlocks size s.stream.rest = s.mode.chunks s.infile := by
    obtain ⟨done, hf, hl, rest, hr, hrest⟩ := h hne
    rw [hrest (by simp [Alive, hpc])] at hr
    exact ⟨done, hf, by simpa [hpc] using hl, by simpa only [pending, hpc] using hr⟩
  unfold resume
  cases hpc : s.pc with
  | recvRequest | recvReply =>
    cases receiveSocket ser r <;>
      exact h.keep (by simp [hpc]) (by simp) ⟨rfl, rfl, rfl, rfl, rfl⟩
        (by simp [Alive, hpc, pending])
  | sendHeader =>
    by_cases hq : s.type = .req <;>
      exact h.keep (by simp [hpc]) (by simp [hq]) ⟨rfl, rfl, rfl, rfl, rfl⟩
        (by simp [Alive, hpc, hq, pending])
  | opening =>
    simp only
    split
    · refine h.keep (by simp [hpc]) ?_ ⟨rfl, rfl, rfl, rfl, rfl⟩ fun _ => ⟨by simp [Alive, hpc], ?_⟩
      · unfold loopTop
        split <;> simp
      · rw [pending_loopTop]
        simp only [pending, hpc, StreamMode.chunks]
    · exact h.keep (by simp [hpc]) (by simp) ⟨rfl, rfl, rfl, rfl, rfl⟩ (by simp [Alive])
  | loopRecv =>
    exact h.keep (by simp [hpc]) (by simp) ⟨rfl, rfl, rfl, rfl, rfl⟩ (by simp [Alive, hpc, pending])
  | fread =>
    simp only
    split
    · rename_i fault
      split
      · exact h.keep (by simp [hpc]) (by simp) ⟨rfl, rfl, rfl, rfl, rfl⟩ (by simp [Alive])
      · rename_i hs
        have he : s.stream.eof = false := by simpa only [Reading, hpc] using hread
        rw [fread_accepted he hs]
        exact h.keep (by simp [hpc]) (by simp) ⟨rfl, rfl, rfl, rfl, rfl⟩ fun _ =>
          ⟨by simp [Alive, hpc], by simp only [pending, hpc, ← blocks_BUFLEN]⟩
    · exact h.keep (by simp [hpc]) (by simp) ⟨rfl, rfl, rfl, rfl, rfl⟩ (by simp [Alive])
  | loopSend chunk =>
    cases r with
    | sent =>
      intro hne
      obtain ⟨done, hf, hl, rest, hr, hrest⟩ := h hne
      rw [hrest (by simp [Alive, hpc])] at hr
      have hl' : s.log = done.map s.mode.chunks := by simpa [hpc] using hl
      have hr' : (s.sent ++ [chunk]) ++ moreBlocks chunk.length s.stream.rest =
          s.mode.chunks s.infile := by simpa [pending, hpc] using hr
      simp only
      split
      · exact ⟨done, hf, by simp [hl'], _, hr', fun _ => rfl⟩
      · exact logged_loopTest hf hl' hr' hne
    | received | failed | io =>
      exact h.keep (by simp [hpc]) (by simp) ⟨rfl, rfl, rfl, rfl, rfl⟩ (by simp [Alive])
  | loopAck size =>
    intro hne
    obtain ⟨done, hf, hl, hr⟩ := hpend size hpc hne
    cases r with
    | received m => exact logged_loopTest hf hl hr hne
    | sent | failed | io => exact logged_loopTest hf hl hr hne
  | finished | raised | stopped => simpa only [← hpc] using h

end PbdZmq.Transfer
