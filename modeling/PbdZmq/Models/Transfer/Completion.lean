import PbdZmq.Models.Transfer.Faultless

/-!
# Transfers without failures end

Between two of its sends a sender makes few calls, and so does a receiver between two of its
receives. With every operation there is less to do, so that a run in which nothing fails is
no longer than the number of frames allows, and it stops nowhere but at its end.
-/

namespace PbdZmq.Transfer

variable {ε : Type}

/-- More than the calls of the sender up to its next send. -/
def SendPc.rank : SendPc → Nat
  | .recvReply | .loopAck _ => 4
  | .opening => 3
  | .loopRecv => 2
  | .recvRequest | .fread => 1
  | .sendHeader | .loopSend _ | .finished | .raised | .stopped => 0

/-- More than the calls of the receiver up to its next receive. -/
def RecvPc.rank : RecvPc → Nat
  | .sendReply | .fwrite _ => 3
  | .opening | .loopAck _ => 2
  | .sendRequest | .loopSend => 1
  | .recvHeader | .loopRecv | .finished | .raised | .stopped => 0

/-- What is left to do: ten operations for each frame to be sent, and five for each one in
flight. -/
def weight (c : Config ε) : Nat :=
  10 * c.left.ahead.length + 5 * c.fwd.length + c.left.pc.rank + c.right.pc.rank

theorem SendPc.rank_le (pc : SendPc) : pc.rank ≤ 4 := by
  cases pc <;> simp [rank]

theorem RecvPc.rank_le (pc : RecvPc) : pc.rank ≤ 3 := by
  cases pc <;> simp [rank]

theorem Sender.rank_callNext (s : Sender) : s.callNext.pc.rank ≤ 1 := by
  unfold callNext
  cases s.later with
  | nil => exact Nat.zero_le 1
  | cons file later => cases s.type <;> simp [call, SendPc.rank]

theorem Sender.rank_loopTop (s : Sender) : s.loopTop.pc.rank ≤ 2 := by
  unfold loopTop
  split <;> simp [SendPc.rank]

theorem Sender.rank_loopTest (s : Sender) (size : Nat) : (s.loopTest size).pc.rank ≤ 2 := by
  unfold loopTest
  split
  · exact rank_loopTop s
  · exact (rank_callNext _).trans (by decide)

/-- A receive of the sender. -/
theorem Sender.rank_received {ser : Serializer ε} {s : Sender} (hn : s.need ser = .recv)
    (m : Bytes) : (s.resume ser (.received m)).pc.rank < s.pc.rank := by
  unfold need at hn
  unfold resume
  cases hpc : s.pc <;> simp only [hpc, reduceCtorEq] at hn ⊢
  case recvRequest | recvReply => cases receiveSocket ser (.received m) <;> simp [SendPc.rank]
  case loopRecv => simp [SendPc.rank]
  case loopAck size => exact (rank_loopTest _ size).trans_lt (by simp [SendPc.rank])

/-- A local operation of the sender. -/
theorem Sender.rank_io {ser : Serializer ε} {s : Sender} (hn : s.need ser = .io) :
    (s.resume ser (.io none)).pc.rank < s.pc.rank := by
  unfold need at hn
  unfold resume
  cases hpc : s.pc <;> simp only [hpc, reduceCtorEq] at hn ⊢
  case opening => exact (rank_loopTop _).trans_lt (by decide)
  case fread => split <;> exact Nat.one_pos

theorem Receiver.rank_callNext (r : Receiver ε) : r.callNext.pc.rank ≤ 1 := by
  unfold callNext
  cases r.left with
  | zero => exact Nat.zero_le 1
  | succ n => cases r.type <;> simp [call, RecvPc.rank]

theorem Receiver.rank_loopTop (r : Receiver ε) : r.loopTop.pc.rank ≤ 1 := by
  unfold loopTop
  split <;> simp [RecvPc.rank]

theorem Receiver.rank_loopTest (r : Receiver ε) (size : Nat) : (r.loopTest size).pc.rank ≤ 1 := by
  unfold loopTest
  split
  · exact rank_loopTop r
  · exact rank_callNext _

/-- A send of the receiver. -/
theorem Receiver.rank_sent {ser : Serializer ε} {r : Receiver ε} {m : Bytes}
    (hn : r.need ser = .send m) : (r.resume ser .sent).pc.rank < r.pc.rank := by
  unfold need at hn
  unfold resume
  cases hpc : r.pc <;> simp only [hpc, reduceCtorEq] at hn ⊢
  case sendRequest | sendReply | loopSend => simp [RecvPc.rank]
  case loopAck size => exact (rank_loopTest r size).trans_lt (by simp [RecvPc.rank])

/-- A local operation of the receiver. -/
theorem Receiver.rank_io {ser : Serializer ε} {r : Receiver ε} (hn : r.need ser = .io) :
    (r.resume ser (.io none)).pc.rank < r.pc.rank := by
  unfold need at hn
  unfold resume
  cases hpc : r.pc <;> simp only [hpc, reduceCtorEq] at hn ⊢
  case opening =>
    cases r.filesize with
    | real xs => exact (rank_loopTop r).trans_lt (by decide)
    | null | raw | other => simp [RecvPc.rank]
  case fwrite size =>
    split
    · simp [RecvPc.rank]
    · split
      · exact Nat.lt_succ_self 2
      · exact (rank_loopTest _ _).trans_lt (by simp [RecvPc.rank])

/-- With every operation there is less to do. -/
theorem Faultless.weight_lt {ser : Serializer ε} {mode : StreamMode} {p : Pairing}
    {files : List Bytes} {frames : List Frame} {kinds : List Kind} {cap : Nat} {c d : Config ε}
    {a : Action} (h : Faultless ser mode p files frames kinds c) (hg : NoFailure c a)
    (hs : Transfer.step cap ser c a = some d) : weight d < weight c := by
  rcases Duplex.step_cases hs with ⟨e, _, hm, rfl⟩ | ⟨e, _, hm, rfl⟩
  · rw [show a.choice = .proceed from hg] at hm
    cases hm with
    | send hn _ _ =>
      obtain ⟨frame, -, hahead⟩ := h.left_sent hn
      have hrank := (c.left.resume ser .sent).pc.rank_le
      simp only [weight, Duplex.setLeft, Duplex.leftEnd, senderProcess, hahead,
        List.length_append, List.length_cons, List.length_nil]
      omega
    | @recv m rest hn _ hin =>
      obtain ⟨-, -, hahead⟩ := h.left_received hn hin
      have hrank : (c.left.resume ser (.received m)).pc.rank < c.left.pc.rank :=
        Sender.rank_received hn m
      simp only [weight, Duplex.setLeft, Duplex.leftEnd, senderProcess, hahead]
      omega
    | refuse ho => exact absurd ho (Sender.InTurn.inTurn (e := c.leftEnd) h.left_turn)
    | io hn =>
      have hahead := (h.left_io hn).2
      have hrank : (c.left.resume ser (.io none)).pc.rank < c.left.pc.rank := Sender.rank_io hn
      simp only [weight, Duplex.setLeft, Duplex.leftEnd, senderProcess, hahead]
      omega
  · rw [show a.choice = .proceed from hg] at hm
    cases hm with
    | send hn _ _ =>
      have hrank : (c.right.resume ser .sent).pc.rank < c.right.pc.rank := Receiver.rank_sent hn
      simp only [weight, Duplex.setRight, Duplex.rightEnd, receiverProcess]
      omega
    | @recv m rest hn _ hin =>
      have hrank := (c.right.resume ser (.received m)).pc.rank_le
      have hfwd : c.fwd = m :: rest := hin
      simp only [weight, Duplex.setRight, Duplex.rightEnd, receiverProcess, hfwd,
        List.length_cons]
      omega
    | refuse ho => exact absurd ho (Receiver.InTurn.inTurn (e := c.rightEnd) h.right_turn)
    | io hn =>
      have hrank : (c.right.resume ser (.io none)).pc.rank < c.right.pc.rank :=
        Receiver.rank_io hn
      simp only [weight, Duplex.setRight, Duplex.rightEnd, receiverProcess]
      omega

/-- The guard of an executed run without failures. -/
theorem noFailure_of_guard {c : Config ε} {a : Action}
    (h : decide (a.choice = .proceed) = true) : NoFailure c a :=
  (of_decide_eq_true h : a.choice = .proceed)

/-- One frame for each header and one for each chunk. -/
theorem length_streamFrames (mode : StreamMode) (files : List Bytes) :
    (streamFrames mode files).length = files.length + (files.flatMap mode.chunks).length := by
  induction files with
  | nil => rfl
  | cons file files ih =>
    rw [streamFrames_cons, List.length_cons, List.length_append, chunkFrames, List.length_map,
      ih, List.flatMap_cons, List.length_append, List.length_cons, StreamMode.chunks]
    omega

/-- All that there is to do at the start. -/
theorem weight_start (mode : StreamMode) (p : Pairing) (files : List Bytes) (memory : Bytes) :
    weight (Config.start mode p files memory : Config ε) ≤
      10 * (files.length + (files.flatMap mode.chunks).length) + 2 := by
  have hahead : (Sender.start mode p.senderType files).ahead = streamFrames mode files :=
    Sender.ahead_callNext (s := .idle mode p.senderType files) p.senderType_ne
  have hlength := length_streamFrames mode files
  have hleft := Sender.rank_callNext (.idle mode p.senderType files)
  have hright := Receiver.rank_callNext
    (.idle p.receiverType files.length memory : Receiver ε)
  rw [← hlength, ← hahead]
  show 10 * (Sender.start mode p.senderType files).ahead.length + 5 * 0 +
    (Sender.start mode p.senderType files).pc.rank +
    (Receiver.start p.receiverType files.length memory : Receiver ε).pc.rank ≤ _
  rw [Sender.start, Receiver.start]
  omega

/-- Where no process can go on in a run without failures, both have returned from all their
calls. -/
theorem finished_of_stuck {mode : StreamMode} {cap : Nat} {ser : Serializer ε} {p : Pairing}
    {files : List Bytes} {memory : Bytes} {labels : List Action} {c : Config ε} (hcap : 0 < cap)
    (hrun : exec (step cap ser) (fun _ a => a.choice = .proceed)
      (Config.start mode p files memory) labels = some c)
    (hstuck : ∀ side, step cap ser c ⟨side, .proceed⟩ = none) :
    c.left.pc = .finished ∧ c.right.pc = .finished ∧ c.right.outs = files.map mode.input := by
  obtain ⟨frames, kinds, hc⟩ := Reach.invariant
    (I := fun c => ∃ frames kinds, Faultless ser mode p files frames kinds c)
    ⟨[], [], Faultless.start ser mode p files memory⟩
    (fun s a t ⟨frames, kinds, hs⟩ ha hstep => hs.step (noFailure_of_guard ha) hstep)
    (reach_of_exec .init hrun)
  rcases hc.progress hcap with ⟨hleft, hright⟩ | ⟨side, d, hd⟩
  · exact ⟨hleft, hright, (Receiver.expects_of_finished hc.expects hright).1⟩
  · rw [hstuck side] at hd
    contradiction

/-- Runs without failures, of any number of files over any of the pairings. A run has at most
ten operations for each header and chunk, and where no process can go on, both have returned
from all their calls. -/
theorem transfers_complete {mode : StreamMode} {cap : Nat} {ser : Serializer ε} {p : Pairing}
    {files : List Bytes} {memory : Bytes} {labels : List Action} {c : Config ε} (hcap : 0 < cap)
    (hrun : exec (step cap ser) (fun _ a => a.choice = .proceed)
      (Config.start mode p files memory) labels = some c) :
    labels.length ≤ 10 * (files.length + (files.flatMap mode.chunks).length) + 2 ∧
    ((∀ side, step cap ser c ⟨side, .proceed⟩ = none) →
      c.left.pc = .finished ∧ c.right.pc = .finished ∧ c.right.outs = files.map mode.input) := by
  refine ⟨?_, finished_of_stuck hcap hrun⟩
  have hlength := length_le_of_exec_of_invariant weight
    (I := fun c => ∃ frames kinds, Faultless ser mode p files frames kinds c)
    (fun s a t ⟨frames, kinds, hs⟩ ha hstep =>
      ⟨hs.step (noFailure_of_guard ha) hstep, hs.weight_lt (noFailure_of_guard ha) hstep⟩)
    ⟨[], [], Faultless.start ser mode p files memory⟩ hrun
  have hweight := weight_start (ε := ε) mode p files memory
  omega

/-- A file and an empty one, over a PUSH and a PULL with room for one message. -/
theorem transfers_complete_run : ∃ c : Config Empty,
    (∀ side, step 1 Serializer.basic c ⟨side, .proceed⟩ = none) ∧
      c.left.pc = .finished ∧ c.right.pc = .finished ∧ c.right.outs = [[7, 8], []] := by
  obtain ⟨c, hc, hp⟩ := (Option.any_eq_true _ _).mp (show (exec (step 1 Serializer.basic)
    (fun _ a => a.choice = .proceed)
    (Config.start .binary .pushPull [[7, 8], []] [] : Config Empty)
    (([.left, .right, .right, .left, .left, .left, .right, .right, .left, .right, .right, .left,
      .left, .left, .right, .right] : List Side).map (⟨·, .proceed⟩))).any (fun c =>
        (step 1 Serializer.basic c ⟨.left, .proceed⟩).isNone &&
          (step 1 Serializer.basic c ⟨.right, .proceed⟩).isNone) = true by decide)
  rw [Bool.and_eq_true, Option.isNone_iff_eq_none, Option.isNone_iff_eq_none] at hp
  have hstuck : ∀ side, step 1 Serializer.basic c ⟨side, .proceed⟩ = none := by
    rintro (_ | _)
    · exact hp.1
    · exact hp.2
  obtain ⟨-, hend⟩ := transfers_complete (by decide) hc
  exact ⟨c, hstuck, hend hstuck⟩

/-- `zmq.senddir` and `zmq.recvdir` open their archives with `forcebin = TRUE`, so that these
arrive as they are between any two systems. -/
theorem archives_transferred {source target : Platform} {cap : Nat} {ser : Serializer ε}
    {p : Pairing} {archives : List Bytes} {memory : Bytes} {labels : List Action} {c : Config ε}
    (hcap : 0 < cap)
    (hrun : exec (step cap ser) (fun _ a => a.choice = .proceed)
      (Config.start (fopen source true) p archives memory) labels = some c)
    (hstuck : ∀ side, step cap ser c ⟨side, .proceed⟩ = none) :
    c.right.files (fopen target true) = archives := by
  obtain ⟨-, -, houts⟩ := finished_of_stuck hcap hrun hstuck
  rw [Receiver.files, houts, fopen_eq_binary (.inr rfl), fopen_eq_binary (.inr rfl),
    List.map_map]
  exact List.map_id archives

/-- An archive with a line feed goes from Windows to Windows. -/
theorem archives_transferred_run : ∃ c : Config Empty,
    c.left.pc = .finished ∧ c.right.files (fopen .windows true) = [[80, 10, 26]] := by
  obtain ⟨c, hc, hp⟩ := (Option.any_eq_true _ _).mp (show (exec (step 1 Serializer.basic)
    (fun _ a => a.choice = .proceed)
    (Config.start (fopen .windows true) .pushPull [[80, 10, 26]] [] : Config Empty)
    (([.left, .right, .right, .left, .left, .left, .right, .right] : List Side).map
      (⟨·, .proceed⟩))).any (fun c => c.left.pc = .finished &&
        (step 1 Serializer.basic c ⟨.left, .proceed⟩).isNone &&
          (step 1 Serializer.basic c ⟨.right, .proceed⟩).isNone) = true by decide)
  rw [Bool.and_eq_true, Bool.and_eq_true, Option.isNone_iff_eq_none,
    Option.isNone_iff_eq_none] at hp
  refine ⟨c, of_decide_eq_true hp.1.1, archives_transferred (by decide) hc ?_⟩
  rintro (_ | _)
  · exact hp.1.2
  · exact hp.2

end PbdZmq.Transfer
