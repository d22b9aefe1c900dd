import PbdZmq.Models.Transfer.Stream

/-!
# Transfers under failures

The runs start at the entry of `R_zmq_send_file` and `R_zmq_recv_file` and are
otherwise unrestricted: every read, write and socket call may fail, and either
process may stop. A receiver that returns normally has everything that reading the
file delivers, which is the file itself unless a text stream of Windows reads it. A
sender that returns normally proves nothing about the receiver, because the result
of its last acknowledgement is ignored; when that one call succeeds, the file has
been written.
-/

namespace PbdZmq.Transfer

variable {ε : Type}

/-- Every step is allowed. -/
def Unguarded (_ : Config ε) (_ : Action) : Prop := True

/-- The sender is in its last call and past the header. -/
def Sender.InC (s : Sender) : Prop :=
  s.later = [] ∧ s.pc ≠ .recvRequest ∧ s.pc ≠ .sendHeader ∧ s.pc ≠ .recvReply

/-- The receiver is in its last call and past the header. -/
def Receiver.InC (r : Receiver ε) : Prop :=
  r.left = 0 ∧ r.pc ≠ .sendRequest ∧ r.pc ≠ .recvHeader ∧ r.pc ≠ .sendReply

theorem Sender.inC_loopTest {s : Sender} (h : s.later = []) (size : Nat) :
    (s.loopTest size).InC := by
  by_cases hs : size = BUFLEN
  · rw [loopTest, if_pos hs, loopTop]
    by_cases hq : s.type = .rep <;> simp [InC, h, hq]
  · simp [loopTest, if_neg hs, callNext, h, InC]

/-- The C code of the sender makes no header call. -/
theorem Sender.inC_resume {ser : Serializer ε} {s : Sender} (r : Reply Bytes) (h : s.InC) :
    (s.resume ser r).InC := by
  obtain ⟨hl, h1, h2, h3⟩ := h
  unfold resume
  cases hpc : s.pc with
  | recvRequest => exact absurd hpc h1
  | sendHeader => exact absurd hpc h2
  | recvReply => exact absurd hpc h3
  | opening =>
    simp only
    split
    · unfold loopTop
      by_cases hq : s.type = .rep <;> simp [InC, hl, hq]
    · simp [InC, hl]
  | loopRecv => simp [InC, hl]
  | fread =>
    simp only
    split
    · split <;> simp [InC, hl]
    · simp [InC, hl]
  | loopSend chunk =>
    cases r with
    | sent =>
      simp only
      split
      · simp [InC, hl]
      · exact inC_loopTest (by exact hl) _
    | received | failed | io => simp [InC, hl]
  | loopAck size =>
    cases r with
    | received m => exact inC_loopTest (by exact hl) size
    | sent | failed | io => exact inC_loopTest (by exact hl) size
  | finished | raised | stopped => simp [InC, hl, hpc]

theorem Receiver.inC_loopTest {r : Receiver ε} (h : r.left = 0) (size : Nat) :
    (r.loopTest size).InC := by
  by_cases hs : size = BUFLEN
  · rw [loopTest, if_pos hs, loopTop]
    by_cases hq : r.type = .req <;> simp [InC, h, hq]
  · simp [loopTest, if_neg hs, callNext, h, InC]

/-- The C code of the receiver makes no header call. -/
theorem Receiver.inC_resume {ser : Serializer ε} {r : Receiver ε} (a : Reply Bytes)
    (h : r.InC) : (r.resume ser a).InC := by
  obtain ⟨hl, h1, h2, h3⟩ := h
  unfold resume
  cases hpc : r.pc with
  | sendRequest => exact absurd hpc h1
  | recvHeader => exact absurd hpc h2
  | sendReply => exact absurd hpc h3
  | opening =>
    simp only
    split
    · unfold loopTop
      by_cases hq : r.type = .req <;> simp [InC, hl, hq]
    · simp [InC, hl]
  | loopSend => simp [InC, hl]
  | loopRecv => cases a <;> simp [InC, hl]
  | fwrite expected_size =>
    cases a with
    | io fault =>
      simp only
      split
      · simp [InC, hl]
      · split
        · simp [InC, hl]
        · exact inC_loopTest (by exact hl) _
    | sent | received | failed => simp [InC, hl]
  | loopAck size => exact inC_loopTest (by exact hl) size
  | finished | raised | stopped => simp [InC, hl, hpc]

/-- An accepted send of the C code is recorded. -/
theorem Sender.sent_resume_sent {ser : Serializer ε} {s : Sender} {m : Bytes} (h : s.InC)
    (hn : s.need ser = .send m) : (s.resume ser .sent).sent = s.sent ++ [m] := by
  unfold need at hn
  cases hpc : s.pc <;> simp only [hpc, Need.send.injEq, reduceCtorEq] at hn
  case sendHeader => exact absurd hpc h.2.2.1
  case loopSend chunk =>
    subst hn
    simp only [resume, hpc]
    split
    · rfl
    · by_cases hs : chunk.length = BUFLEN <;> simp [loopTest, hs, loopTop, callNext, h.1]

/-- No other reply is recorded as a sent chunk. -/
theorem Sender.sent_resume {ser : Serializer ε} {s : Sender} {r : Reply Bytes} (h : s.InC)
    (hr : r ≠ .sent) : (s.resume ser r).sent = s.sent := by
  unfold resume
  cases hpc : s.pc with
  | recvRequest | recvReply => cases receiveSocket ser r <;> rfl
  | sendHeader | loopRecv | finished | raised | stopped => rfl
  | opening =>
    simp only
    split <;> rfl
  | fread =>
    simp only
    split
    · split <;> rfl
    · rfl
  | loopSend chunk =>
    cases r with
    | sent => exact absurd rfl hr
    | received | failed | io => rfl
  | loopAck size =>
    by_cases hs : size = BUFLEN <;> cases r <;> simp [loopTest, hs, loopTop, callNext, h.1]

/-- A message that the C code receives is recorded. -/
theorem Receiver.got_resume_received {ser : Serializer ε} {r : Receiver ε} {m : Bytes}
    (h : r.InC) (hn : r.need ser = .recv) :
    (r.resume ser (.received m)).got = r.got ++ [m] := by
  unfold need at hn
  cases hpc : r.pc <;> simp only [hpc, reduceCtorEq] at hn
  case recvHeader => exact absurd hpc h.2.2.1
  case loopRecv => simp only [resume, hpc]

/-- No other reply is recorded as a received chunk. -/
theorem Receiver.got_resume {ser : Serializer ε} {r : Receiver ε} {a : Reply Bytes} (h : r.InC)
    (ha : ∀ m, a ≠ .received m) : (r.resume ser a).got = r.got := by
  unfold resume
  cases hpc : r.pc with
  | sendRequest | sendReply | loopSend | finished | raised | stopped => rfl
  | recvHeader => cases receiveSocket ser a <;> rfl
  | opening =>
    simp only
    split <;> rfl
  | loopRecv =>
    cases a with
    | received m => exact absurd rfl (ha m)
    | sent | failed | io => rfl
  | fwrite expected_size =>
    cases a with
    | io fault =>
      simp only
      split
      · rfl
      · split
        · rfl
        · unfold loopTest
          split <;> simp [loopTop, callNext, h.1]
    | sent | received | failed => rfl
  | loopAck size =>
    by_cases hs : size = BUFLEN <;> simp [loopTest, hs, loopTop, callNext, h.1]

/-- Both processes run the C functions for one file. -/
structure InC (ser : Serializer ε) (mode : StreamMode) (file : Bytes) (c : Config ε) : Prop where
  forward : Forward ser mode [file] c
  sender : c.left.InC
  receiver : c.right.InC
  /-- The chunks received and those in flight are the chunks sent. -/
  wire : c.right.got ++ c.fwd = c.left.sent

theorem InC.headerSafe {ser : Serializer ε} {mode : StreamMode} {file : Bytes} {c : Config ε}
    (h : InC ser mode file c) (a : Action) : HeaderSafe ser c a := by
  unfold HeaderSafe
  cases a.side with
  | left => exact fun hpc => absurd hpc h.sender.2.2.1
  | right => exact fun hpc => absurd hpc h.receiver.2.2.1

theorem InC.start (ser : Serializer ε) (mode : StreamMode) (p : Pairing) (file memory : Bytes) :
    InC ser mode file (Config.startC mode p file memory) := by
  refine ⟨.startC ser mode p file memory, ⟨rfl, ?_, ?_, ?_⟩, ⟨rfl, ?_, ?_, ?_⟩, rfl⟩ <;> rintro ⟨⟩

/-- Any step of the C functions keeps the invariant, whatever fails in it. -/
theorem InC.step {cap : Nat} {ser : Serializer ε} {mode : StreamMode} {file : Bytes}
    {c d : Config ε} {a : Action} (h : InC ser mode file c)
    (hs : Transfer.step cap ser c a = some d) : InC ser mode file d := by
  have hforward := h.forward.step (h.headerSafe a) hs
  rcases Duplex.step_cases hs with ⟨e, _, hm, rfl⟩ | ⟨e, _, hm, rfl⟩
  · rcases hm.outgoing with ⟨m, hn, _, rfl⟩ | ⟨r, sock, inbox, hr, _, _, rfl⟩ | ⟨_, rfl⟩
    · refine ⟨hforward, Sender.inC_resume .sent h.sender, h.receiver, ?_⟩
      have hsent := Sender.sent_resume_sent h.sender hn
      calc c.right.got ++ (c.fwd ++ [m]) = c.left.sent ++ [m] := by
            rw [← List.append_assoc, h.wire]
        _ = (c.left.resume ser .sent).sent := hsent.symm
    · exact ⟨hforward, Sender.inC_resume r h.sender, h.receiver,
        h.wire.trans (Sender.sent_resume h.sender hr).symm⟩
    · refine ⟨hforward, ⟨h.sender.1, ?_, ?_, ?_⟩, h.receiver, h.wire⟩ <;> rintro ⟨⟩
  · rcases hm.incoming with ⟨m, rest, hn, _, hin, rfl⟩ | ⟨r, sock, outbox, hr, _, _, rfl⟩ |
      ⟨_, rfl⟩
    · refine ⟨hforward, h.sender, Receiver.inC_resume (.received m) h.receiver, ?_⟩
      have hgot := Receiver.got_resume_received (m := m) h.receiver hn
      have hfwd : c.fwd = m :: rest := hin
      have hwire := h.wire
      rw [hfwd] at hwire
      calc (c.right.resume ser (.received m)).got ++ rest = c.right.got ++ m :: rest := by
            rw [hgot, List.append_assoc, List.singleton_append]
        _ = c.left.sent := hwire
    · refine ⟨hforward, h.sender, Receiver.inC_resume r h.receiver, ?_⟩
      have hgot : (c.right.resume ser r).got = c.right.got := Receiver.got_resume h.receiver hr
      calc (c.right.resume ser r).got ++ c.fwd = c.right.got ++ c.fwd := by rw [hgot]
        _ = c.left.sent := h.wire
    · refine ⟨hforward, h.sender, ⟨h.receiver.1, ?_, ?_, ?_⟩, h.wire⟩ <;> rintro ⟨⟩

/-- The sent chunks begin the chunks of the file, and are all of them once the
sender has returned. -/
theorem InC.sent_chunks {ser : Serializer ε} {mode : StreamMode} {file : Bytes} {c : Config ε}
    (h : InC ser mode file c) : ∃ rest, c.left.sent ++ rest = mode.chunks file ∧
      (c.left.Alive → rest = c.left.pending) := by
  obtain ⟨done, hf, _, rest, hsent, hrest⟩ := h.forward.logged (by rintro ⟨⟩)
  rw [h.forward.sender_mode] at hsent
  rw [h.sender.1] at hf
  cases done with
  | nil =>
    have hi : file = c.left.infile := by simpa using hf
    exact ⟨rest, hi ▸ hsent, hrest⟩
  | cons f done =>
    have := congrArg List.length hf
    simp at this

theorem InC.reach {cap : Nat} {ser : Serializer ε} {mode : StreamMode} {p : Pairing}
    {file memory : Bytes} {guard : Config ε → Action → Prop} {c : Config ε}
    (h : Reach (Fires (Transfer.step cap ser)) guard (Config.startC mode p file memory) c) :
    InC ser mode file c :=
  h.invariant (InC.start ser mode p file memory) fun _ _ _ hi _ hs => hi.step hs

/-- Under every interleaving and every failure, a receiver that returns normally has
handed to `fwrite` exactly what reading the file delivers, and a short chunk goes on the
wire only at the true end of that. With a binary stream it is the file. -/
theorem received_whole_file {platform : Platform} {forcebin : Bool} {cap : Nat}
    {ser : Serializer ε} {p : Pairing} {file memory : Bytes} {c : Config ε}
    (h : Reach (Fires (step cap ser)) Unguarded
      (Config.startC (fopen platform forcebin) p file memory) c) :
    (c.right.pc = .finished → c.right.outs = [(fopen platform forcebin).input file]) ∧
    (∀ before chunk after, c.left.sent = before ++ chunk :: after → chunk.length < BUFLEN →
      after = [] ∧ before.flatten ++ chunk = (fopen platform forcebin).input file) ∧
    (platform = .posix ∨ forcebin = true → (fopen platform forcebin).input file = file) := by
  have hi := InC.reach h
  refine ⟨fun hpc => ?_, fun before chunk after hsent hshort => ?_, fun hbinary => ?_⟩
  · obtain ⟨frames, future, _, _, hexp⟩ := hi.forward.stream
    have hx := (hexp ⟨by simp [hpc], by simp [hpc]⟩).2
    rw [hpc] at hx
    exact hx.1
  · obtain ⟨rest, hchunks, _⟩ := hi.sent_chunks
    rw [StreamMode.chunks] at hchunks
    have hsplit : blocks BUFLEN ((fopen platform forcebin).input file) =
        before ++ chunk :: (after ++ rest) := by
      rw [← hchunks, hsent, List.append_assoc, List.cons_append]
    have hend := (blocks_short_last BUFLEN_pos hsplit).2.mp hshort
    obtain ⟨rfl, rfl⟩ := List.append_eq_nil_iff.mp hend
    refine ⟨rfl, ?_⟩
    calc before.flatten ++ chunk = (before ++ [chunk]).flatten := by simp
      _ = (fopen platform forcebin).input file := by
        rw [← flatten_blocks BUFLEN ((fopen platform forcebin).input file), hsplit,
          List.append_nil]
  · rw [fopen_eq_binary hbinary]
    rfl

/-- A run of the REQ and REP processes to the end, with a short file and a failing
reply to its only acknowledgement. -/
theorem received_whole_file_run :
    ∃ c, Reach (Fires (step 1 Serializer.basic)) Unguarded
        (Config.startC (fopen .posix false) .reqRep [7, 8] [0]) c ∧
      c.right.pc = .finished ∧ c.right.outs = [[7, 8]] := by
  obtain ⟨c, hc, hp⟩ := exists_reach_of_exec (step 1 Serializer.basic) (fun _ _ => true)
    (Config.startC (fopen .posix false) .reqRep [7, 8] [0])
    [⟨.left, .proceed⟩, ⟨.right, .proceed⟩, ⟨.left, .proceed⟩, ⟨.left, .proceed⟩,
      ⟨.right, .proceed⟩, ⟨.right, .proceed⟩, ⟨.left, .fail⟩, ⟨.right, .proceed⟩]
    (fun c => c.right.pc = .finished) (by decide)
  have hr : Reach _ Unguarded _ c := hc.mono fun _ _ _ => trivial
  have hpc : c.right.pc = .finished := by simpa using hp
  obtain ⟨hall, -, hbinary⟩ := received_whole_file hr
  exact ⟨c, hr, hpc, by rw [hall hpc, hbinary (Or.inl rfl)]⟩

/-- A text stream of Windows ends at the byte 26: the receiver returns normally with one of
three bytes. -/
theorem received_part_of_text :
    ¬ ∀ (platform : Platform) (forcebin : Bool) (cap : Nat) (ser : Serializer Empty) (p : Pairing)
      (file memory : Bytes) (c : Config Empty),
      Reach (Fires (step cap ser)) Unguarded
        (Config.startC (fopen platform forcebin) p file memory) c →
      c.right.pc = .finished → c.right.outs = [file] := by
  intro hall
  obtain ⟨c, hc, hp⟩ := exists_reach_of_exec (step 1 Serializer.basic) (fun _ _ => true)
    (Config.startC (fopen .windows false) .pushPull [97, 26, 98] [])
    [⟨.left, .proceed⟩, ⟨.right, .proceed⟩, ⟨.left, .proceed⟩, ⟨.left, .proceed⟩,
      ⟨.right, .proceed⟩, ⟨.right, .proceed⟩]
    (fun c => c.right.pc = .finished ∧ c.right.outs = [[97]]) (by decide)
  have hr : Reach _ Unguarded _ c := hc.mono fun _ _ _ => trivial
  obtain ⟨hpc, houts⟩ : c.right.pc = .finished ∧ c.right.outs = [[97]] := by simpa using hp
  have hfile := hall .windows false 1 Serializer.basic .pushPull [97, 26, 98] [] c hr hpc
  rw [houts] at hfile
  contradiction

end PbdZmq.Transfer
