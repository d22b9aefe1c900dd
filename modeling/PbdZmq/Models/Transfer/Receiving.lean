import PbdZmq.Models.Transfer.Sending

/-!
# What the receiver still expects

The receiver knows neither the files nor their lengths. A list of frames is what
it expects if receiving exactly these frames leaves it with exactly what reading
the files delivers as output. A received frame is taken from the front, every other reply leaves the
expectation alone, and a receiver that has finished expects nothing.
-/

namespace PbdZmq.Transfer

variable {ε : Type}

/-- A process that an R error ended or that was stopped takes no further part. -/
def Receiver.Alive (r : Receiver ε) : Prop := r.pc ≠ .raised ∧ r.pc ≠ .stopped

/-- In the current call `rest` is still missing and comes in the chunks `more`;
the files `later` come in the calls after it. -/
structure Receiver.Lacks (mode : StreamMode) (files : List Bytes) (r : Receiver ε) (rest : Bytes)
    (later more : List Bytes) : Prop where
  /-- Output so far, the current file and the later files. -/
  files_eq : files.map mode.input = r.outs ++ (r.out ++ rest) :: later.map mode.input
  /-- One call for each later file. -/
  left_eq : later.length = r.left
  /-- The chunks of the current file are those received and those to come. -/
  chunks_eq : r.got ++ more = blocks BUFLEN (r.out ++ rest)

/-- What is missing does not depend on the control point. -/
theorem Receiver.Lacks.atPc {mode : StreamMode} {files : List Bytes} {r : Receiver ε} {rest : Bytes}
    {later more : List Bytes} (h : r.Lacks mode files rest later more) (pc : RecvPc) :
    ({ r with pc := pc }).Lacks mode files rest later more :=
  ⟨h.files_eq, h.left_eq, h.chunks_eq⟩

/-- The frames whose receipt leaves the receiver with what reading `files` delivers. -/
def Receiver.Expects (mode : StreamMode) (files : List Bytes) (r : Receiver ε)
    (ahead : List Frame) : Prop :=
  r.log = r.outs.map (blocks BUFLEN) ∧
  match r.pc with
  | .sendRequest | .recvHeader => ∃ f rest later,
    r.Lacks mode files rest later (blocks BUFLEN rest) ∧
      ahead = .header f :: (chunkFrames rest ++ streamFrames mode later)
  | .sendReply | .opening => ∃ xs rest later, r.filesize = .real xs ∧
      r.Lacks mode files rest later (blocks BUFLEN rest) ∧
      ahead = chunkFrames rest ++ streamFrames mode later
  | .loopSend | .loopRecv => ∃ rest later, r.Lacks mode files rest later (blocks BUFLEN rest) ∧
      ahead = chunkFrames rest ++ streamFrames mode later
  | .fwrite expected_size => ∃ rest later, (r.buf.take expected_size).length = expected_size ∧
      expected_size ≤ BUFLEN ∧ (expected_size ≠ BUFLEN → rest = []) ∧
      r.Lacks mode files (r.buf.take expected_size ++ rest) later (moreBlocks expected_size rest) ∧
      ahead = moreFrames expected_size rest ++ streamFrames mode later
  | .loopAck size => ∃ rest later, (size ≠ BUFLEN → rest = []) ∧
      r.Lacks mode files rest later (moreBlocks size rest) ∧
      ahead = moreFrames size rest ++ streamFrames mode later
  | .finished => r.outs = files.map mode.input ∧ ahead = []
  | .raised | .stopped => False

/-- The next call expects the whole stream of the remaining files. -/
theorem Receiver.expects_callNext {mode : StreamMode} {files later : List Bytes} {r : Receiver ε}
    (ht : r.type ≠ .push) (hlog : r.log = r.outs.map (blocks BUFLEN))
    (hf : files.map mode.input = r.outs ++ later.map mode.input) (hl : later.length = r.left) :
    r.callNext.Expects mode files (streamFrames mode later) := by
  unfold callNext
  cases later with
  | nil =>
    rw [← hl]
    exact ⟨hlog, by simp [hf]⟩
  | cons f fs =>
    rw [← hl]
    refine ⟨hlog, ?_⟩
    have hlacks : ({ r with left := fs.length }.call).Lacks mode files (mode.input f) fs
        (blocks BUFLEN (mode.input f)) := ⟨hf, rfl, rfl⟩
    cases hs : r.type with
    | push => exact absurd hs ht
    | pull | req | rep =>
      simp only [call, hs] at hlacks ⊢
      exact ⟨f, mode.input f, fs, hlacks, rfl⟩

/-- Inside the loop the chunks of the missing rest are expected. -/
theorem Receiver.expects_loopTop {mode : StreamMode} {files later : List Bytes} {r : Receiver ε}
    {rest : Bytes} (hlog : r.log = r.outs.map (blocks BUFLEN))
    (h : r.Lacks mode files rest later (blocks BUFLEN rest)) :
    r.loopTop.Expects mode files (chunkFrames rest ++ streamFrames mode later) := by
  unfold loopTop
  by_cases hq : r.type = .req
  · rw [if_pos hq]
    exact ⟨hlog, rest, later, h.atPc _, rfl⟩
  · rw [if_neg hq]
    exact ⟨hlog, rest, later, h.atPc _, rfl⟩

/-- The loop test goes on in the same file or closes it. -/
theorem Receiver.expects_loopTest {mode : StreamMode} {files later : List Bytes} {r : Receiver ε}
    {rest : Bytes} {size : Nat} (ht : r.type ≠ .push) (hlog : r.log = r.outs.map (blocks BUFLEN))
    (hshort : size ≠ BUFLEN → rest = [])
    (h : r.Lacks mode files rest later (moreBlocks size rest)) :
    (r.loopTest size).Expects mode files (moreFrames size rest ++ streamFrames mode later) := by
  by_cases hs : size = BUFLEN
  · rw [moreBlocks, if_pos hs] at h
    rw [loopTest, if_pos hs, moreFrames, moreBlocks, if_pos hs]
    exact expects_loopTop hlog h
  · have hr := hshort hs
    subst hr
    have hfiles := h.files_eq
    have hchunks := h.chunks_eq
    rw [moreBlocks, if_neg hs, List.append_nil, List.append_nil] at hchunks
    rw [List.append_nil] at hfiles
    rw [loopTest, if_neg hs, moreFrames, moreBlocks, if_neg hs]
    apply expects_callNext (by exact ht)
    · simp [hlog, hchunks]
    · simp [hfiles]
    · exact h.left_eq

/-- A receiver at a receive expects at least one frame, and receiving the first
of them leaves it expecting the others. -/
theorem Receiver.expects_received {ser : Serializer ε} {mode : StreamMode} {files : List Bytes}
    {r : Receiver ε} {frame : Frame} {ahead : List Frame} (hn : r.need ser = .recv)
    (h : r.Expects mode files (frame :: ahead)) :
    (r.resume ser (.received (frame.wire ser))).Expects mode files ahead := by
  obtain ⟨hlog, h⟩ := h
  unfold need at hn
  cases hpc : r.pc <;> simp only [hpc, reduceCtorEq] at hn h
  case recvHeader =>
    obtain ⟨f, rest, later, hl, ha⟩ := h
    obtain ⟨rfl, rfl⟩ := List.cons.inj ha
    have hv : receiveSocket ser (.received ((Frame.header f).wire ser)) =
        some (.real [.finite f.length]) := ser.unserialize_serialize _
    refine ⟨?_, ?_⟩
    · simp only [resume, hpc, hv, hlog]
    · by_cases hq : r.type = .rep
      · simp only [resume, hpc, hv, hq, if_true]
        exact ⟨_, rest, later, rfl, ⟨hl.files_eq, hl.left_eq, hl.chunks_eq⟩, rfl⟩
      · simp only [resume, hpc, hv, hq, if_false]
        exact ⟨_, rest, later, rfl, ⟨hl.files_eq, hl.left_eq, hl.chunks_eq⟩, rfl⟩
  case loopRecv =>
    obtain ⟨rest, later, hl, ha⟩ := h
    rw [chunkFrames_eq, List.cons_append] at ha
    obtain ⟨rfl, rfl⟩ := List.cons.inj ha
    have hchunks := hl.chunks_eq
    rw [blocks_BUFLEN rest] at hchunks
    have htake : (rest.take BUFLEN).take BUFLEN = rest.take BUFLEN := by
      rw [List.take_take, Nat.min_self]
    have hbuf : (rest.take BUFLEN ++ r.buf.drop (rest.take BUFLEN).length).take
        (rest.take BUFLEN).length = rest.take BUFLEN := List.take_left
    refine ⟨by simpa only [resume, hpc] using hlog, ?_⟩
    simp only [resume, hpc, Frame.wire, htake]
    refine ⟨rest.drop BUFLEN, later, ?_, List.length_take_le _ _, drop_eq_nil_of_short, ?_, rfl⟩
    · rw [hbuf]
    · constructor
      · simpa only [hbuf, List.take_append_drop] using hl.files_eq
      · exact hl.left_eq
      · simpa only [hbuf, List.take_append_drop, List.append_assoc, List.singleton_append]
          using hchunks

/-- Every reply but a message leaves the expectation alone, or ends the process. -/
theorem Receiver.expects_resume {ser : Serializer ε} {mode : StreamMode} {files : List Bytes}
    {r : Receiver ε} {ahead : List Frame} {a : Reply Bytes} (ht : r.type ≠ .push)
    (hh : r.pc ≠ .recvHeader)
    (hm : ∀ m, a ≠ .received m) (h : r.Expects mode files ahead) (ha : (r.resume ser a).Alive) :
    (r.resume ser a).Expects mode files ahead := by
  obtain ⟨hlog, h⟩ := h
  unfold resume at ha ⊢
  cases hpc : r.pc <;> simp only [hpc] at h ha ⊢
  case sendRequest =>
    obtain ⟨f, rest, later, hl, rfl⟩ := h
    exact ⟨hlog, f, rest, later, hl.atPc _, rfl⟩
  case recvHeader => exact absurd hpc hh
  case sendReply =>
    obtain ⟨xs, rest, later, hx, hl, rfl⟩ := h
    exact ⟨hlog, xs, rest, later, hx, hl.atPc _, rfl⟩
  case opening =>
    obtain ⟨xs, rest, later, hx, hl, rfl⟩ := h
    split at ha
    · exact expects_loopTop hlog hl
    · exact absurd rfl ha.1
  case loopSend =>
    obtain ⟨rest, later, hl, rfl⟩ := h
    exact ⟨hlog, rest, later, hl.atPc _, rfl⟩
  case loopRecv =>
    cases a with
    | received m => exact absurd rfl (hm m)
    | sent | failed | io => exact absurd rfl ha.1
  case fwrite expected_size =>
    obtain ⟨rest, later, hsize, hle, hshort, hl, rfl⟩ := h
    cases a with
    | io fault =>
      simp only [Nat.min_eq_left hle] at ha ⊢
      have hdata : fwrite (r.buf.take expected_size) fault ≤ expected_size := by
        cases fault with
        | none => exact Nat.le_of_eq hsize
        | some k => exact (Nat.min_le_right _ _).trans (Nat.le_of_eq hsize)
      split at ha
      · exact absurd rfl ha.1
      · rename_i hfull
        have he : fwrite (r.buf.take expected_size) fault = expected_size := by omega
        have hall : (r.buf.take expected_size).take expected_size = r.buf.take expected_size := by
          rw [List.take_take, Nat.min_self]
        rw [if_neg hfull, he, hall]
        have hl' : ({ r with out := r.out ++ r.buf.take expected_size }).Lacks mode files rest later
            (moreBlocks expected_size rest) :=
          ⟨by simpa only [List.append_assoc] using hl.files_eq, hl.left_eq,
            by simpa only [List.append_assoc] using hl.chunks_eq⟩
        by_cases hq : r.type = .rep
        · rw [if_pos hq]
          exact ⟨hlog, rest, later, hshort, hl'.atPc _, rfl⟩
        · rw [if_neg hq]
          exact expects_loopTest ht hlog hshort (hl'.atPc _)
    | sent | received | failed => exact absurd rfl ha.1
  case loopAck size =>
    obtain ⟨rest, later, hshort, hl, rfl⟩ := h
    exact expects_loopTest ht hlog hshort hl
  case finished => exact ⟨hlog, by simpa only [hpc] using h⟩

end PbdZmq.Transfer
