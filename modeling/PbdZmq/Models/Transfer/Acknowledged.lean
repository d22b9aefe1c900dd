import PbdZmq.Models.Transfer.Faults

/-!
# Acknowledged transfer

Between a REQ sender and a REP receiver one token is shared by both sockets and
both queues. A sender that holds the token again after its last chunk has every
acknowledgement, and the receiver gave the token away only after writing what it
had received. The sender reaches its normal return without the token in one way
only: the receive of the acknowledgement of its short chunk fails, and the loop
ends without looking at the result. The streams are binary, and the REQ is one
without `ZMQ_REQ_RELAXED`, which would let it send again.
-/

namespace PbdZmq.Transfer

variable {ε : Type}

/-- The receive of the last acknowledgement, the one of a short chunk, does not fail. -/
def LastAckDelivered (c : Config ε) (a : Action) : Prop :=
  a = ⟨.left, .fail⟩ → ∀ size, c.left.pc = .loopAck size → size = BUFLEN

/-- A REQ sender counts acknowledgements in step with its socket. -/
structure Sender.Paced (s : Sender) (k : Sock) : Prop where
  type : s.type = .req
  sock : k.type = .req
  /-- The handshake at the top of the loop is for a REP only. -/
  no_loopRecv : s.pc ≠ .loopRecv
  /-- All chunks but one without the token are acknowledged. -/
  count : s.sent.length + (turns.maySend k).toNat = s.acks + 1
  waiting : ∀ size, s.pc = .loopAck size → turns.maySend k = false
  returned : s.pc = .finished → turns.maySend k = true

/-- A step that neither sends nor receives nor returns keeps the count. -/
theorem Sender.Paced.quiet {s t : Sender} {k : Sock} (h : s.Paced k)
    (he : t.type = s.type ∧ t.sent = s.sent ∧ t.acks = s.acks)
    (h1 : t.pc ≠ .loopRecv) (h2 : ∀ size, t.pc ≠ .loopAck size) (h3 : t.pc ≠ .finished) :
    t.Paced k := by
  obtain ⟨htype, hsent, hacks⟩ := he
  refine ⟨htype.trans h.type, h.sock, h1, ?_, fun size hpc => absurd hpc (h2 size),
    fun hpc => absurd hpc h3⟩
  rw [hsent, hacks]
  exact h.count

/-- A local operation leads to the loop, to a send or to an error. -/
theorem Sender.Paced.io {ser : Serializer ε} {s : Sender} {k : Sock} (h : s.Paced k)
    (hn : s.need ser = .io) (fault : Option Nat) : (s.resume ser (.io fault)).Paced k := by
  unfold need at hn
  cases hpc : s.pc <;> simp only [hpc, reduceCtorEq] at hn
  case opening =>
    cases fault with
    | none => apply h.quiet <;> simp [resume, hpc, loopTop, h.type]
    | some n => apply h.quiet <;> simp [resume, hpc]
  case fread =>
    by_cases hs : (Transfer.fread s.stream BUFLEN fault).1.length < BUFLEN ∧
        (Transfer.fread s.stream BUFLEN fault).2.eof = false
    · apply h.quiet <;> simp [resume, hpc, hs]
    · apply h.quiet <;> simp [resume, hpc, hs]

/-- An accepted send gives the token away. -/
theorem Sender.Paced.sent {ser : Serializer ε} {s : Sender} {k : Sock} {m : Bytes}
    (h : s.Paced k) (hc : s.InC) (hn : s.need ser = .send m) (ht : turns.maySend k = true) :
    (s.resume ser .sent).Paced (turns.sent k) := by
  have hfalse : turns.maySend (turns.sent k) = false := (turns_alternates.sent k (Or.inl h.sock)).2
  have hsock : (turns.sent k).type = .req := by simp [turns, h.sock]
  have hcount := h.count
  rw [ht, Bool.toNat_true] at hcount
  unfold need at hn
  cases hpc : s.pc <;> simp only [hpc, Need.send.injEq, reduceCtorEq] at hn
  case sendHeader => exact absurd hpc hc.2.2.1
  case loopSend chunk =>
    simp only [resume, hpc, h.type, if_true]
    refine ⟨rfl, hsock, by simp, ?_, fun _ _ => hfalse, by simp⟩
    rw [hfalse, Bool.toNat_false, List.length_append, List.length_singleton]
    omega

/-- A received acknowledgement brings the token back. -/
theorem Sender.Paced.received {ser : Serializer ε} {s : Sender} {k : Sock} (m : Bytes)
    (h : s.Paced k) (hc : s.InC) (hn : s.need ser = .recv) :
    (s.resume ser (.received m)).Paced (turns.received k) := by
  have htrue : turns.maySend (turns.received k) = true :=
    (turns_alternates.received k (Or.inl h.sock)).2
  have hsock : (turns.received k).type = .req := by simp [turns, h.sock]
  unfold need at hn
  cases hpc : s.pc <;> simp only [hpc, reduceCtorEq] at hn
  case recvRequest => exact absurd hpc hc.2.1
  case recvReply => exact absurd hpc hc.2.2.2
  case loopRecv => exact absurd hpc h.no_loopRecv
  case loopAck size =>
    have hcount := h.count
    rw [h.waiting size hpc, Bool.toNat_false] at hcount
    have hpaced : ∀ t : Sender, t.type = .req → t.sent = s.sent → t.acks = s.acks + 1 →
        t.pc ≠ .loopRecv → (∀ n, t.pc ≠ .loopAck n) → t.Paced (turns.received k) := by
      intro t htype hsent hacks h1 h2
      refine ⟨htype, hsock, h1, ?_, fun n hn => absurd hn (h2 n), fun _ => htrue⟩
      rw [hsent, hacks, htrue, Bool.toNat_true]
      omega
    by_cases hs : size = BUFLEN
    · apply hpaced <;> simp [resume, hpc, loopTest, hs, loopTop, h.type]
    · apply hpaced <;> simp [resume, hpc, loopTest, hs, callNext, hc.1, h.type]

/-- A refused or failed call ends the sender or, at an acknowledgement that is not
the last, goes on without the token. -/
theorem Sender.Paced.failed {ser : Serializer ε} {s : Sender} {k : Sock} (h : s.Paced k)
    (hc : s.InC) (hn : s.need ser = .recv ∨ ∃ m, s.need ser = .send m)
    (hlast : ∀ size, s.pc = .loopAck size → size = BUFLEN) :
    (s.resume ser .failed).Paced k := by
  unfold need at hn
  cases hpc : s.pc <;> simp only [hpc, reduceCtorEq, exists_false, or_self, false_or] at hn
  case recvRequest => exact absurd hpc hc.2.1
  case sendHeader => exact absurd hpc hc.2.2.1
  case recvReply => exact absurd hpc hc.2.2.2
  case loopRecv => exact absurd hpc h.no_loopRecv
  case loopSend chunk => apply h.quiet <;> simp [resume, hpc]
  case loopAck size =>
    have hs := hlast size hpc
    apply h.quiet <;> simp [resume, hpc, loopTest, hs, loopTop, h.type]

/-- Every move of the sender keeps its pace. -/
theorem Sender.Paced.moved {cap : Nat} {ser : Serializer ε} {e e' : Endpoint Sender Sock Bytes}
    {ch : Choice} (h : e.proc.Paced e.sock) (hc : e.proc.InC)
    (hlast : ch = .fail → ∀ size, e.proc.pc = .loopAck size → size = BUFLEN)
    (hm : Endpoint.Moved cap turns (senderProcess ser) e ch e') : e'.proc.Paced e'.sock := by
  cases hm with
  | send hn ht _ => exact h.sent hc hn ht
  | recv hn _ _ => exact h.received _ hc hn
  | refuse ho =>
    rcases ho with ⟨m, hn, _⟩ | ⟨hn, hr⟩
    · refine h.failed hc (Or.inr ⟨m, hn⟩) fun size hpc => ?_
      have hneed : e.proc.need ser = .send m := hn
      simp [need, hpc] at hneed
    · refine h.failed hc (Or.inl hn) fun size hpc => ?_
      have hturn := turns_alternates.mayRecv e.sock (Or.inl h.sock)
      rw [h.waiting size hpc, hr] at hturn
      simp at hturn
  | io hn => exact h.io hn none
  | fail hn => exact h.failed hc hn (hlast rfl)
  | fault hn => exact h.io hn _
  | stop _ => exact h.quiet ⟨rfl, rfl, rfl⟩ (by rintro ⟨⟩) (by rintro _ ⟨⟩) (by rintro ⟨⟩)

/-- A REP receiver gives the token away only when it has written all it received. -/
structure Receiver.Paced (r : Receiver ε) (k : Sock) : Prop where
  type : r.type = .rep
  sock : k.type = .rep
  /-- The handshake at the top of the loop is for a REQ only. -/
  no_loopSend : r.pc ≠ .loopSend
  writing : ∀ n, r.pc = .fwrite n → turns.maySend k = true
  settled : turns.maySend k = false → r.out = r.got.flatten

/-- A step outside of the write keeps what is settled. -/
theorem Receiver.Paced.quiet {r t : Receiver ε} {k : Sock} (h : r.Paced k)
    (he : t.type = r.type ∧ t.out = r.out ∧ t.got = r.got)
    (h1 : t.pc ≠ .loopSend) (h2 : ∀ n, t.pc ≠ .fwrite n) : t.Paced k := by
  obtain ⟨htype, hout, hgot⟩ := he
  refine ⟨htype.trans h.type, h.sock, h1, fun n hpc => absurd hpc (h2 n), fun hf => ?_⟩
  rw [hout, hgot]
  exact h.settled hf

/-- Before it acknowledges, the receiver has written all it received. -/
theorem Receiver.out_eq_of_loopAck {mode : StreamMode} {files : List Bytes} {r : Receiver ε}
    {ahead : List Frame} {size : Nat} (h : r.Expects mode files ahead)
    (hpc : r.pc = .loopAck size) :
    r.out = r.got.flatten := by
  obtain ⟨_, h⟩ := h
  simp only [hpc] at h
  obtain ⟨rest, later, hshort, hl, _⟩ := h
  have hrest : (moreBlocks size rest).flatten = rest := by
    by_cases hs : size = BUFLEN
    · rw [moreBlocks, if_pos hs, flatten_blocks]
    · rw [moreBlocks, if_neg hs, hshort hs]
      rfl
  have hflat := congrArg List.flatten hl.chunks_eq
  rw [List.flatten_append, hrest, flatten_blocks] at hflat
  exact (List.append_cancel_right hflat).symm

/-- The loop test writes nothing. -/
theorem Receiver.Paced.loopTest {r : Receiver ε} {k : Sock} (h : r.Paced k) (hc : r.left = 0)
    (size : Nat) : (r.loopTest size).Paced k := by
  by_cases hs : size = BUFLEN
  · apply h.quiet <;> simp [Receiver.loopTest, hs, loopTop, h.type]
  · apply h.quiet <;> simp [Receiver.loopTest, hs, callNext, hc]

/-- A local operation opens the output or writes while the token is held. -/
theorem Receiver.Paced.io {ser : Serializer ε} {r : Receiver ε} {k : Sock} (h : r.Paced k)
    (hn : r.need ser = .io) (fault : Option Nat) : (r.resume ser (.io fault)).Paced k := by
  unfold need at hn
  cases hpc : r.pc <;> simp only [hpc, reduceCtorEq] at hn
  case opening =>
    cases fault with
    | none =>
      cases hx : r.filesize <;> apply h.quiet <;> simp [resume, hpc, hx, loopTop, h.type]
    | some n => apply h.quiet <;> simp [resume, hpc]
  case fwrite n =>
    have hheld := h.writing n hpc
    simp only [resume, hpc, h.type, if_true]
    split
    · exact ⟨rfl, h.sock, by simp, by simp, fun hf => by simp [hheld] at hf⟩
    · exact ⟨rfl, h.sock, by simp, by simp, fun hf => by simp [hheld] at hf⟩

/-- A received chunk comes with the token. -/
theorem Receiver.Paced.received {ser : Serializer ε} {r : Receiver ε} {k : Sock} (m : Bytes)
    (h : r.Paced k) (hc : r.InC) (hn : r.need ser = .recv) :
    (r.resume ser (.received m)).Paced (turns.received k) := by
  have htrue : turns.maySend (turns.received k) = true :=
    (turns_alternates.received k (Or.inr h.sock)).2
  have hsock : (turns.received k).type = .rep := by simp [turns, h.sock]
  unfold need at hn
  cases hpc : r.pc <;> simp only [hpc, reduceCtorEq] at hn
  case recvHeader => exact absurd hpc hc.2.2.1
  case loopRecv =>
    simp only [resume, hpc]
    exact ⟨h.type, hsock, by simp, fun _ _ => htrue, fun hf => by simp [htrue] at hf⟩

/-- A refused or failed call writes nothing, whether or not its result is looked at. -/
theorem Receiver.Paced.failed {ser : Serializer ε} {r : Receiver ε} {k : Sock} (h : r.Paced k)
    (hc : r.InC) (hn : r.need ser = .recv ∨ ∃ m, r.need ser = .send m) :
    (r.resume ser .failed).Paced k := by
  unfold need at hn
  cases hpc : r.pc <;> simp only [hpc, reduceCtorEq, exists_false, or_self, false_or] at hn
  case sendRequest => exact absurd hpc hc.2.1
  case recvHeader => exact absurd hpc hc.2.2.1
  case sendReply => exact absurd hpc hc.2.2.2
  case loopSend => exact absurd hpc h.no_loopSend
  case loopRecv => apply h.quiet <;> simp [resume, hpc]
  case loopAck size =>
    simp only [resume, hpc]
    exact h.loopTest hc.1 size

/-- An accepted acknowledgement gives the token away after the write. -/
theorem Receiver.Paced.sent {ser : Serializer ε} {mode : StreamMode} {files : List Bytes}
    {r : Receiver ε} {k : Sock} {m : Bytes} {ahead : List Frame} (h : r.Paced k) (hc : r.InC)
    (hx : r.Expects mode files ahead) (hn : r.need ser = .send m) :
    (r.resume ser .sent).Paced (turns.sent k) := by
  have hsock : (turns.sent k).type = .rep := by simp [turns, h.sock]
  unfold need at hn
  cases hpc : r.pc <;> simp only [hpc, reduceCtorEq] at hn
  case sendRequest => exact absurd hpc hc.2.1
  case sendReply => exact absurd hpc hc.2.2.2
  case loopSend => exact absurd hpc h.no_loopSend
  case loopAck size =>
    have hout := out_eq_of_loopAck hx hpc
    have hpaced : r.Paced (turns.sent k) :=
      ⟨h.type, hsock, h.no_loopSend, fun n hn => by simp [hpc] at hn, fun _ => hout⟩
    simp only [resume, hpc]
    exact hpaced.loopTest hc.1 size

/-- Every move of the receiver keeps its pace. -/
theorem Receiver.Paced.moved {cap : Nat} {ser : Serializer ε} {mode : StreamMode}
    {files : List Bytes} {e e' : Endpoint (Receiver ε) Sock Bytes} {ch : Choice}
    (h : e.proc.Paced e.sock) (hc : e.proc.InC)
    (hx : e.proc.Alive → ∃ ahead, e.proc.Expects mode files ahead)
    (hm : Endpoint.Moved cap turns (receiverProcess ser) e ch e') : e'.proc.Paced e'.sock := by
  cases hm with
  | @send m hn _ _ =>
    have hneed : e.proc.need ser = .send m := hn
    obtain ⟨ahead, hexp⟩ := hx (alive_of_need ser (by simp [hneed]))
    exact h.sent hc hexp hneed
  | recv hn _ _ => exact h.received _ hc hn
  | refuse ho =>
    rcases ho with ⟨m, hn, _⟩ | ⟨hn, _⟩
    · exact h.failed hc (Or.inr ⟨m, hn⟩)
    · exact h.failed hc (Or.inl hn)
  | io hn => exact h.io hn none
  | fail hn => exact h.failed hc hn
  | fault hn => exact h.io hn _
  | stop _ => exact h.quiet ⟨rfl, rfl, rfl⟩ (by rintro ⟨⟩) (by rintro _ ⟨⟩)

/-- The invariant of a REQ sender and a REP receiver in the C functions. -/
structure Acked (ser : Serializer ε) (file : Bytes) (c : Config ε) : Prop where
  inC : InC ser .binary file c
  sender : c.left.Paced c.leftSock
  receiver : c.right.Paced c.rightSock
  tokens : c.tokens turns = 1

theorem Acked.start (ser : Serializer ε) (file memory : Bytes) :
    Acked ser file (Config.startC .binary .reqRep file memory) := by
  refine ⟨InC.start ser .binary .reqRep file memory, ⟨rfl, rfl, by rintro ⟨⟩, rfl, ?_, ?_⟩,
    ⟨rfl, rfl, by rintro ⟨⟩, ?_, fun _ => rfl⟩, rfl⟩
  · rintro _ ⟨⟩
  · rintro ⟨⟩
  · rintro _ ⟨⟩

/-- Any step keeps the invariant unless the last acknowledgement fails in it. -/
theorem Acked.step {cap : Nat} {ser : Serializer ε} {file : Bytes} {c d : Config ε} {a : Action}
    (h : Acked ser file c) (hlast : LastAckDelivered c a)
    (hs : Transfer.step cap ser c a = some d) : Acked ser file d := by
  have hinC := h.inC.step hs
  obtain ⟨_, _, htokens⟩ := Duplex.tokens_step turns_alternates hs (Or.inl h.sender.sock)
    (Or.inr h.receiver.sock)
  rw [h.tokens] at htokens
  rcases Duplex.step_cases hs with ⟨e, hside, hm, rfl⟩ | ⟨e, _, hm, rfl⟩
  · refine ⟨hinC, h.sender.moved h.inC.sender (fun hch => hlast ?_) hm, h.receiver, htokens⟩
    rcases a with ⟨side, choice⟩
    simp only at hside hch
    rw [hside, hch]
  · obtain ⟨frames, future, _, _, hexp⟩ := h.inC.forward.stream
    exact ⟨hinC, h.sender, h.receiver.moved h.inC.receiver (fun ha => ⟨_, hexp ha⟩) hm, htokens⟩

/-- In every run in which the last acknowledgement does not fail, a sender that
returns normally has the acknowledgement of every chunk, and the receiver has
written the whole file. -/
theorem acknowledged_return {cap : Nat} {ser : Serializer ε} {file memory : Bytes} {c : Config ε}
    (h : Reach (Fires (step cap ser)) LastAckDelivered
      (Config.startC .binary .reqRep file memory) c)
    (hpc : c.left.pc = .finished) :
    c.left.acks = c.left.sent.length ∧ c.left.sent = blocks BUFLEN file ∧
      c.right.out = file := by
  have hi : Acked ser file c := h.invariant (Acked.start ser file memory)
    fun _ _ _ hi hg hs => hi.step hg hs
  have htoken := hi.sender.returned hpc
  have hcount := hi.sender.count
  rw [htoken, Bool.toNat_true] at hcount
  have htokens := hi.tokens
  rw [Duplex.tokens, htoken, Bool.toNat_true] at htokens
  have hfwd : c.fwd = [] := List.length_eq_zero_iff.mp (by omega)
  have hgiven : turns.maySend c.rightSock = false := by
    cases hr : turns.maySend c.rightSock with
    | false => rfl
    | true => simp [hr] at htokens; omega
  obtain ⟨rest, hchunks, hrest⟩ := hi.inC.sent_chunks
  have hpending : rest = [] := by
    rw [hrest ⟨by simp [hpc], by simp [hpc]⟩, Sender.pending, hpc]
  have hblocks : c.left.sent = blocks BUFLEN file := by
    rw [hpending, List.append_nil] at hchunks
    exact hchunks
  refine ⟨by omega, hblocks, ?_⟩
  have hwire := hi.inC.wire
  rw [hfwd, List.append_nil] at hwire
  calc c.right.out = c.right.got.flatten := hi.receiver.settled hgiven
    _ = file := by rw [hwire, hblocks, flatten_blocks]

/-- A short file whose acknowledgement arrives. -/
theorem acknowledged_return_run :
    ∃ c, Reach (Fires (step 1 Serializer.basic)) LastAckDelivered
        (Config.startC .binary .reqRep [7, 8] [0]) c ∧
      c.left.pc = .finished ∧ c.right.out = [7, 8] := by
  obtain ⟨c, hc, hp⟩ := exists_reach_of_exec (step 1 Serializer.basic)
    (fun _ a => a.choice = .proceed) (Config.startC .binary .reqRep [7, 8] [0])
    [⟨.left, .proceed⟩, ⟨.right, .proceed⟩, ⟨.left, .proceed⟩, ⟨.left, .proceed⟩,
      ⟨.right, .proceed⟩, ⟨.right, .proceed⟩, ⟨.right, .proceed⟩, ⟨.left, .proceed⟩]
    (fun c => c.left.pc = .finished) (by decide)
  have hr : Reach (Fires (step 1 Serializer.basic)) LastAckDelivered
      (Config.startC .binary .reqRep [7, 8] [0]) c := by
    refine hc.mono fun s a hch ha => ?_
    simp [ha] at hch
  have hpc : c.left.pc = .finished := by simpa using hp
  exact ⟨c, hr, hpc, (acknowledged_return hr hpc).2.2⟩

/-- The sender returns normally after the receive of its only acknowledgement has
failed, while the receiver has written nothing. -/
theorem unacknowledged_return :
    ¬ ∀ (cap : Nat) (ser : Serializer Empty) (file memory : Bytes) (c : Config Empty),
      Reach (Fires (step cap ser)) Unguarded (Config.startC .binary .reqRep file memory) c →
      c.left.pc = .finished → c.left.acks = c.left.sent.length ∧ c.right.out = file := by
  intro hall
  obtain ⟨c, hc, hp⟩ := exists_reach_of_exec (step 1 Serializer.basic) (fun _ _ => true)
    (Config.startC .binary .reqRep [7] [])
    [⟨.left, .proceed⟩, ⟨.left, .proceed⟩, ⟨.left, .proceed⟩, ⟨.left, .fail⟩]
    (fun c => c.left.pc = .finished ∧ c.left.sent = [[7]] ∧ c.left.acks = 0 ∧ c.right.out = [])
    (by decide)
  have hr : Reach _ Unguarded _ c := hc.mono fun _ _ _ => trivial
  obtain ⟨hpc, _, _, hout⟩ : c.left.pc = .finished ∧ c.left.sent = [[7]] ∧ c.left.acks = 0 ∧
    c.right.out = [] := by simpa using hp
  have hfile := (hall 1 Serializer.basic [7] [] c hr hpc).2
  rw [hout] at hfile
  contradiction

end PbdZmq.Transfer
