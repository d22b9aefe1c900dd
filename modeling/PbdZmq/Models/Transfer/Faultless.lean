import Mathlib.Data.List.Forall2
import PbdZmq.Models.Transfer.Turn

/-!
# Whole transfers without failures

Any number of files goes over one pair of sockets. Along every interleaving the
replies that a REQ awaits are exactly the ones in flight, owed by the REP, or due
for the messages in flight. No call is therefore out of turn, the processes never
wait for each other at once, and each file ends on both sides with the same chunk.
-/

namespace PbdZmq.Transfer

variable {ε : Type}

/-- No call fails and no process stops. -/
def NoFailure (_ : Config ε) (a : Action) : Prop := a.choice = .proceed

/-- The accounts of both sides agree on the messages in flight. -/
def Pairing.Handshake (p : Pairing) (s : Sender) (r : Receiver ε) (frames : List Frame)
    (kinds : List Kind) : Prop :=
  match p with
  | .pushPull => kinds = []
  | .reqRep => s.awaits = kinds ++ r.owes ++ frames.map Frame.kind
  | .repReq => r.awaits = frames.map Frame.kind ++ s.owes ++ kinds

/-- A sender that has finished has no file left. -/
def Sender.Done (s : Sender) : Prop := s.pc = .finished → s.later = []

theorem Sender.done_callNext (s : Sender) : s.callNext.Done := by
  unfold callNext Done
  cases hl : s.later with
  | nil => simp
  | cons f fs => cases s.type <;> simp [call]

theorem Sender.done_loopTest (s : Sender) (size : Nat) : (s.loopTest size).Done := by
  by_cases hs : size = BUFLEN
  · rw [loopTest, if_pos hs]
    unfold loopTop Done
    split <;> rintro ⟨⟩
  · rw [loopTest, if_neg hs]
    exact done_callNext _

/-- The sender finishes only in place of a next call. -/
theorem Sender.done_resume {ser : Serializer ε} {s : Sender} (r : Reply Bytes) (h : s.Done) :
    (s.resume ser r).Done := by
  unfold resume
  cases hpc : s.pc with
  | recvRequest | recvReply => cases receiveSocket ser r <;> rintro ⟨⟩
  | sendHeader => by_cases hq : s.type = .req <;> simp [hq, Done]
  | opening =>
    simp only
    split
    · unfold loopTop Done
      split <;> rintro ⟨⟩
    · rintro ⟨⟩
  | loopRecv => rintro ⟨⟩
  | fread =>
    simp only
    split
    · split <;> rintro ⟨⟩
    · rintro ⟨⟩
  | loopSend chunk =>
    cases r with
    | sent =>
      simp only
      split
      · rintro ⟨⟩
      · exact done_loopTest _ _
    | received | failed | io => rintro ⟨⟩
  | loopAck size => cases r <;> exact done_loopTest _ _
  | finished | raised | stopped => exact h

/-- The invariant of faultless runs, with the messages in flight by their roles. -/
structure Faultless (ser : Serializer ε) (mode : StreamMode) (p : Pairing) (files : List Bytes)
    (frames : List Frame) (kinds : List Kind) (c : Config ε) : Prop where
  left_mode : c.left.mode = mode
  left_type : c.left.type = p.senderType
  right_type : c.right.type = p.receiverType
  left_turn : c.left.InTurn c.leftSock
  right_turn : c.right.InTurn c.rightSock
  reading : c.left.Reading
  logged : c.left.Logged files
  done : c.left.Done
  fwd : c.fwd = frames.map (Frame.wire ser)
  bwd : List.Forall₂ (Kind.Carries ser) kinds c.bwd
  expects : c.right.Expects mode files (frames ++ c.left.ahead)
  handshake : p.Handshake c.left c.right frames kinds

/-- A receiver at a receive expects at least one frame. -/
theorem Receiver.expects_of_recv {ser : Serializer ε} {mode : StreamMode} {files : List Bytes}
    {r : Receiver ε} {ahead : List Frame} (h : r.Expects mode files ahead)
    (hn : r.need ser = .recv) :
    ∃ frame rest, ahead = frame :: rest := by
  obtain ⟨_, h⟩ := h
  unfold need at hn
  cases hpc : r.pc <;> simp only [hpc, reduceCtorEq] at hn h
  case recvHeader =>
    obtain ⟨f, rest, later, _, rfl⟩ := h
    exact ⟨_, _, rfl⟩
  case loopRecv =>
    obtain ⟨rest, later, _, rfl⟩ := h
    rw [chunkFrames_eq]
    exact ⟨_, _, rfl⟩

/-- A finished receiver expects nothing. -/
theorem Receiver.expects_of_finished {mode : StreamMode} {files : List Bytes} {r : Receiver ε}
    {ahead : List Frame} (h : r.Expects mode files ahead) (hpc : r.pc = .finished) :
    r.outs = files.map mode.input ∧ ahead = [] := by
  obtain ⟨_, h⟩ := h
  simpa only [hpc] using h

/-- A REQ receiver awaits one reply at most. -/
theorem Receiver.length_awaits (r : Receiver ε) : r.awaits.length ≤ 1 := by
  unfold awaits
  split
  · split <;> simp
  · simp

/-- The output of the finished calls is a part of the files. -/
theorem Receiver.outs_prefix {mode : StreamMode} {files : List Bytes} {r : Receiver ε}
    {ahead : List Frame} (h : r.Expects mode files ahead) : r.outs <+: files.map mode.input := by
  obtain ⟨_, h⟩ := h
  cases hpc : r.pc <;> simp only [hpc] at h
  case sendRequest | recvHeader =>
    obtain ⟨_, rest, later, hl, _⟩ := h
    exact ⟨_, hl.files_eq.symm⟩
  case sendReply | opening =>
    obtain ⟨_, rest, later, _, hl, _⟩ := h
    exact ⟨_, hl.files_eq.symm⟩
  case loopSend | loopRecv =>
    obtain ⟨rest, later, hl, _⟩ := h
    exact ⟨_, hl.files_eq.symm⟩
  case fwrite =>
    obtain ⟨rest, later, _, _, _, hl, _⟩ := h
    exact ⟨_, hl.files_eq.symm⟩
  case loopAck =>
    obtain ⟨rest, later, _, hl, _⟩ := h
    exact ⟨_, hl.files_eq.symm⟩
  case finished => exact ⟨[], by rw [h.1, List.append_nil]⟩

theorem Faultless.start (ser : Serializer ε) (mode : StreamMode) (p : Pairing)
    (files : List Bytes) (memory : Bytes) :
    Faultless ser mode p files [] [] (Config.start mode p files memory) := by
  have hleft : (Sender.start mode p.senderType files).type = p.senderType :=
    Sender.type_callNext (.idle mode p.senderType files)
  have hright : (Receiver.start p.receiverType files.length memory : Receiver ε).type =
      p.receiverType := Receiver.type_callNext (.idle p.receiverType files.length memory)
  have hs : (Sender.start mode p.senderType files).Fresh := Sender.fresh_callNext p.senderType_ne
  have hr : (Receiver.start p.receiverType files.length memory : Receiver ε).Fresh :=
    Receiver.fresh_callNext p.receiverType_ne
  have hahead : (Sender.start mode p.senderType files).ahead = streamFrames mode files :=
    Sender.ahead_callNext (s := .idle mode p.senderType files) p.senderType_ne
  refine ⟨Sender.mode_callNext _, hleft, hright, ?_, ?_, Sender.reading_callNext _,
    Sender.logged_start _ _ _, Sender.done_callNext _, rfl, .nil, ?_, ?_⟩
  · exact hs.inTurn (hleft.trans_ne p.senderType_ne) hleft.symm rfl
  · exact hr.inTurn (hright.trans_ne p.receiverType_ne) hright.symm rfl
  · show Receiver.Expects mode files _ (Sender.start mode p.senderType files).ahead
    rw [hahead]
    exact Receiver.expects_callNext p.receiverType_ne rfl rfl rfl
  · cases p with
    | pushPull => rfl
    | reqRep =>
      show Sender.awaits (Sender.start _ _ files) = [] ++ Receiver.owes (Receiver.start _ _ _) ++ []
      rw [hs.awaits, hr.owes]
      rfl
    | repReq =>
      show Receiver.awaits (Receiver.start _ _ _) = [] ++ Sender.owes (Sender.start _ _ files) ++ []
      rw [hr.awaits, hs.owes]
      rfl

section

variable {ser : Serializer ε} {mode : StreamMode} {p : Pairing} {files : List Bytes}
    {frames : List Frame}
  {kinds : List Kind} {c : Config ε}

/-- The sender puts its first frame in flight. -/
theorem Faultless.left_sent {m : Bytes} (h : Faultless ser mode p files frames kinds c)
    (hn : c.left.need ser = .send m) :
    ∃ frame, Faultless ser mode p files (frames ++ [frame]) kinds { c with
      left := c.left.resume ser .sent
      leftSock := turns.sent c.leftSock
      fwd := c.fwd ++ [m] } ∧ c.left.ahead = frame :: (c.left.resume ser .sent).ahead := by
  obtain ⟨hturn, frame, hw, hahead, hawaits, howes, hreq, hrep⟩ := h.left_turn.sent hn
  have hx := h.expects
  rw [hahead] at hx
  refine ⟨frame, ⟨by simpa using h.left_mode, by simpa using h.left_type, h.right_type, hturn,
    h.right_turn, Sender.reading_resume .sent h.reading,
    Sender.logged_resume .sent h.reading h.logged,
    Sender.done_resume .sent h.done, by simp [h.fwd, hw], h.bwd, by simpa using hx, ?_⟩, hahead⟩
  have hand := h.handshake
  have htype := h.left_type
  cases p with
  | pushPull => exact hand
  | reqRep =>
    simp only [Pairing.Handshake, hawaits] at hand ⊢
    obtain ⟨rfl, howed, hframes⟩ : kinds = [] ∧ c.right.owes = [] ∧ frames = [] := by
      simpa using hand.symm
    rw [hreq htype, howed, hframes]
    rfl
  | repReq =>
    simp only [Pairing.Handshake] at hand ⊢
    rw [hand, hrep htype, howes]
    simp

/-- The sender takes a reply or a request. -/
theorem Faultless.left_received {m : Bytes} {rest : List Bytes}
    (h : Faultless ser mode p files frames kinds c) (hn : c.left.need ser = .recv)
    (hin : c.bwd = m :: rest) :
    ∃ kinds', Faultless ser mode p files frames kinds' { c with
      left := c.left.resume ser (.received m)
      leftSock := turns.received c.leftSock
      bwd := rest } ∧ (c.left.resume ser (.received m)).ahead = c.left.ahead := by
  have hbwd := h.bwd
  rw [hin] at hbwd
  obtain ⟨kind, kinds', hm, hrest, rfl⟩ := List.forall₂_cons_right_iff.mp hbwd
  have hand := h.handshake
  have htype := h.left_type
  have hwhole : (c.left.resume ser (.received m)).InTurn (turns.received c.leftSock) ∧
      (c.left.resume ser (.received m)).ahead = c.left.ahead ∧
      p.Handshake (c.left.resume ser (.received m)) c.right frames kinds' := by
    cases p with
    | pushPull => simp [Pairing.Handshake] at hand
    | reqRep =>
      obtain ⟨kind', hawaits, hnext⟩ := h.left_turn.received_reply h.reading htype hn
      simp only [Pairing.Handshake, hawaits, List.cons_append, List.cons.injEq] at hand
      obtain ⟨rfl, hand⟩ := hand
      obtain ⟨hturn, hahead, hnone⟩ := hnext m hm
      exact ⟨hturn, hahead, hnone.trans hand⟩
    | repReq =>
      obtain ⟨frame, later, hfirst, howes, hnext⟩ := h.left_turn.received_request h.reading htype hn
      simp only [Pairing.Handshake, howes, List.append_nil] at hand
      have hlen := c.right.length_awaits
      rw [hand, List.length_append, List.length_cons, List.length_map] at hlen
      have hframes : frames = [] := List.length_eq_zero_iff.mp (by omega)
      have hkinds : kinds' = [] := List.length_eq_zero_iff.mp (by omega)
      subst hframes hkinds
      have hx := h.expects
      rw [hfirst] at hx
      have hkind : kind = frame.kind := Receiver.kind_eq_of_awaits hx hand
      obtain ⟨hturn, hahead, howes'⟩ := hnext m (hkind ▸ hm)
      refine ⟨hturn, hahead, ?_⟩
      simp only [Pairing.Handshake, howes', ← hkind]
      exact hand
  obtain ⟨hturn, hahead, hand'⟩ := hwhole
  have hx := h.expects
  rw [← hahead] at hx
  exact ⟨kinds', ⟨by simpa using h.left_mode, by simpa using htype, h.right_type, hturn,
    h.right_turn, Sender.reading_resume _ h.reading, Sender.logged_resume _ h.reading h.logged,
    Sender.done_resume _ h.done, h.fwd, hrest, hx, hand'⟩, hahead⟩

/-- A local operation of the sender leaves the messages in flight alone. -/
theorem Faultless.left_io (h : Faultless ser mode p files frames kinds c)
    (hn : c.left.need ser = .io) :
    Faultless ser mode p files frames kinds { c with left := c.left.resume ser (.io none) } ∧
      (c.left.resume ser (.io none)).ahead = c.left.ahead := by
  obtain ⟨hturn, hahead, hawaits, howes⟩ := h.left_turn.io h.reading hn
  have hx := h.expects
  rw [← hahead] at hx
  refine ⟨⟨by simpa using h.left_mode, by simpa using h.left_type, h.right_type, hturn,
    h.right_turn, Sender.reading_resume _ h.reading, Sender.logged_resume _ h.reading h.logged,
    Sender.done_resume _ h.done, h.fwd, h.bwd, hx, ?_⟩, hahead⟩
  have hand := h.handshake
  cases p with
  | pushPull => exact hand
  | reqRep => exact hawaits.trans hand
  | repReq =>
    simp only [Pairing.Handshake, howes]
    exact hand

/-- The receiver takes the first frame in flight. -/
theorem Faultless.right_received {m : Bytes} {rest : List Bytes}
    (h : Faultless ser mode p files frames kinds c) (hn : c.right.need ser = .recv)
    (hin : c.fwd = m :: rest) :
    ∃ frames', Faultless ser mode p files frames' kinds { c with
      right := c.right.resume ser (.received m)
      rightSock := turns.received c.rightSock
      fwd := rest } := by
  have hfwd := h.fwd
  rw [hin] at hfwd
  obtain ⟨frame, frames', rfl, rfl, hrest⟩ := List.map_eq_cons_iff.mp hfwd.symm
  obtain ⟨hturn, hawaits, howes, hreq, hrep⟩ := h.right_turn.received hn h.expects
  refine ⟨frames', h.left_mode, h.left_type, by simpa using h.right_type, h.left_turn, hturn,
    h.reading, h.logged, h.done, hrest.symm, h.bwd, Receiver.expects_received hn h.expects, ?_⟩
  have hand := h.handshake
  have htype := h.right_type
  cases p with
  | pushPull => exact hand
  | reqRep =>
    simp only [Pairing.Handshake, howes] at hand ⊢
    rw [hand, hrep htype]
    simp
  | repReq =>
    simp only [Pairing.Handshake, hreq htype, List.map_cons, List.cons_append, List.cons.injEq,
      true_and] at hand ⊢
    exact hawaits.trans hand

/-- The receiver puts a reply or a request in flight. -/
theorem Faultless.right_sent {m : Bytes} (h : Faultless ser mode p files frames kinds c)
    (hn : c.right.need ser = .send m) :
    ∃ kind, Faultless ser mode p files frames (kinds ++ [kind]) { c with
      right := c.right.resume ser .sent
      rightSock := turns.sent c.rightSock
      bwd := c.bwd ++ [m] } := by
  obtain ⟨hturn, hawaits, howes, kind, hm, hrep, hreq, hpull⟩ := h.right_turn.sent hn
  have hpc : c.right.pc ≠ .recvHeader := by
    intro hpc
    simp [Receiver.need, hpc] at hn
  refine ⟨kind, h.left_mode, h.left_type, by simpa using h.right_type, h.left_turn, hturn,
    h.reading, h.logged, h.done, h.fwd, List.rel_append h.bwd (.cons hm .nil),
    Receiver.expects_resume h.right_turn.type hpc (by simp) h.expects hturn.alive, ?_⟩
  have hand := h.handshake
  have htype := h.right_type
  cases p with
  | pushPull => exact absurd htype hpull
  | reqRep =>
    simp only [Pairing.Handshake, howes] at hand ⊢
    rw [hand, hrep htype]
    simp
  | repReq =>
    simp only [Pairing.Handshake, hawaits] at hand ⊢
    obtain ⟨rfl, howed, hkinds⟩ : frames = [] ∧ c.left.owes = [] ∧ kinds = [] := by
      simpa using hand.symm
    rw [hreq htype, howed, hkinds]
    rfl

/-- A local operation of the receiver leaves the messages in flight alone. -/
theorem Faultless.right_io (h : Faultless ser mode p files frames kinds c)
    (hn : c.right.need ser = .io) :
    Faultless ser mode p files frames kinds { c with right := c.right.resume ser (.io none) } := by
  obtain ⟨hturn, hawaits, howes⟩ := h.right_turn.io h.expects hn
  have hpc : c.right.pc ≠ .recvHeader := by
    intro hpc
    simp [Receiver.need, hpc] at hn
  refine ⟨h.left_mode, h.left_type, by simpa using h.right_type, h.left_turn, hturn, h.reading,
    h.logged, h.done, h.fwd, h.bwd,
    Receiver.expects_resume h.right_turn.type hpc (by simp) h.expects hturn.alive, ?_⟩
  have hand := h.handshake
  cases p with
  | pushPull => exact hand
  | reqRep =>
    simp only [Pairing.Handshake, howes]
    exact hand
  | repReq => exact hawaits.trans hand

/-- Every faultless step keeps the invariant. -/
theorem Faultless.step {cap : Nat} {d : Config ε} {a : Action}
    (h : Faultless ser mode p files frames kinds c) (hg : NoFailure c a)
    (hs : Transfer.step cap ser c a = some d) :
    ∃ frames' kinds', Faultless ser mode p files frames' kinds' d := by
  rcases Duplex.step_cases hs with ⟨e, _, hm, rfl⟩ | ⟨e, _, hm, rfl⟩
  · rw [show a.choice = .proceed from hg] at hm
    cases hm with
    | send hn _ _ =>
      obtain ⟨frame, hnext, -⟩ := h.left_sent hn
      exact ⟨_, _, hnext⟩
    | recv hn _ hin =>
      obtain ⟨kinds', hnext, -⟩ := h.left_received hn hin
      exact ⟨_, _, hnext⟩
    | refuse ho => exact absurd ho (Sender.InTurn.inTurn (e := c.leftEnd) h.left_turn)
    | io hn => exact ⟨_, _, (h.left_io hn).1⟩
  · rw [show a.choice = .proceed from hg] at hm
    cases hm with
    | send hn _ _ =>
      obtain ⟨kind, hnext⟩ := h.right_sent hn
      exact ⟨_, _, hnext⟩
    | recv hn _ hin =>
      obtain ⟨frames', hnext⟩ := h.right_received hn hin
      exact ⟨_, _, hnext⟩
    | refuse ho => exact absurd ho (Receiver.InTurn.inTurn (e := c.rightEnd) h.right_turn)
    | io hn => exact ⟨_, _, h.right_io hn⟩

/-- A sender in turn that halts has finished. -/
theorem Sender.InTurn.finished {s : Sender} {k : Sock} (h : s.InTurn k)
    (hn : s.need ser = .halted) : s.pc = .finished := by
  have ha := h.alive
  unfold need at hn
  cases hpc : s.pc <;> simp only [hpc, reduceCtorEq] at hn
  case finished => rfl
  case raised => exact absurd hpc ha.1
  case stopped => exact absurd hpc ha.2

/-- A receiver in turn that halts has finished. -/
theorem Receiver.InTurn.finished {r : Receiver ε} {k : Sock} (h : r.InTurn k)
    (hn : r.need ser = .halted) : r.pc = .finished := by
  have ha := h.alive
  unfold need at hn
  cases hpc : r.pc <;> simp only [hpc, reduceCtorEq] at hn
  case finished => rfl
  case raised => exact absurd hpc ha.1
  case stopped => exact absurd hpc ha.2

/-- Everything that is in flight when both processes have returned: nothing. -/
theorem Faultless.settled (h : Faultless ser mode p files frames kinds c)
    (hl : c.left.pc = .finished) (hr : c.right.pc = .finished) :
    c.right.outs = files.map mode.input ∧ c.fwd = [] ∧ c.bwd = [] ∧ c.leftSock = .new p.senderType ∧
      c.rightSock = .new p.receiverType := by
  obtain ⟨houts, hahead⟩ := Receiver.expects_of_finished h.expects hr
  obtain ⟨hframes, _⟩ := List.append_eq_nil_iff.mp hahead
  have hkinds : kinds = [] := by
    have hand := h.handshake
    cases p with
    | pushPull => exact hand
    | reqRep =>
      have hnone : c.left.awaits = [] := by simp only [Sender.awaits, hl]
      exact (List.append_eq_nil_iff.mp (List.append_eq_nil_iff.mp (hand.symm.trans hnone)).1).1
    | repReq =>
      have hnone : c.right.awaits = [] := by simp only [Receiver.awaits, hr, ite_self]
      exact (List.append_eq_nil_iff.mp (hand.symm.trans hnone)).2
  have hbwd := h.bwd
  rw [hkinds] at hbwd
  refine ⟨houts, by rw [h.fwd, hframes]; rfl, List.forall₂_nil_left_iff.mp hbwd, ?_, ?_⟩
  · have htype := h.left_turn.sock
    have hflag := h.left_turn.flag
    rw [h.left_type] at htype
    rw [hl] at hflag
    cases hk : c.leftSock
    simp_all [SendPc.turn, Sock.new]
  · have htype := h.right_turn.sock
    have hflag := h.right_turn.flag
    rw [h.right_type] at htype
    rw [hr] at hflag
    cases hk : c.rightSock
    simp_all [RecvPc.turn, Sock.new]

/-- What a waiting sender says about the messages in flight. -/
theorem Faultless.left_waits {cap : Nat} (hcap : 0 < cap)
    (h : Faultless ser mode p files frames kinds c)
    (hw : c.leftEnd.move cap turns (senderProcess ser) .proceed = none) :
    (c.left.pc = .finished ∧ c.left.ahead = [] ∧ c.left.awaits = [] ∧ c.left.owes = []) ∨
      (frames ≠ [] ∧ c.left.awaits = [] ∧ (c.left.type = .rep → ∃ kind, c.left.owes = [kind])) ∨
      (kinds = [] ∧ c.left.type ≠ .push ∧ (c.left.type = .req → ∃ kind, c.left.awaits = [kind]) ∧
        (c.left.type = .rep → c.left.owes = [] ∧ c.left.ahead ≠ [])) := by
  rcases Endpoint.waits_of_stuck hw with hn | ⟨m, hn, _, hroom⟩ | ⟨hn, hturn, hin⟩
  · have hneed : c.left.need ser = .halted := hn
    have hpc := h.left_turn.finished hneed
    have hahead : c.left.ahead = [] := by
      simp [Sender.ahead, Sender.headerAhead, Sender.pending, hpc, h.done hpc]
    exact Or.inl ⟨hpc, hahead, by simp only [Sender.awaits, hpc],
      by simp only [Sender.owes, hpc, ite_self]⟩
  · have hneed : c.left.need ser = .send m := hn
    obtain ⟨_, frame, _, _, hawaits, _, _, hrep⟩ := h.left_turn.sent hneed
    refine Or.inr (Or.inl ⟨?_, hawaits, fun hp => ⟨_, hrep hp⟩⟩)
    rintro rfl
    have hfwd : c.fwd = [] := h.fwd
    have hlen : cap ≤ c.fwd.length := hroom
    rw [hfwd, List.length_nil] at hlen
    omega
  · have hneed : c.left.need ser = .recv := hn
    have hbwd := h.bwd
    have hempty : c.bwd = [] := hin
    rw [hempty] at hbwd
    refine Or.inr (Or.inr ⟨List.forall₂_nil_right_iff.mp hbwd, ?_, ?_, ?_⟩)
    · intro hpush
      have hsock : c.leftSock.type = .push := h.left_turn.sock.trans hpush
      have hmay : turns.mayRecv c.leftSock = true := hturn
      simp [turns, hsock] at hmay
    · intro hq
      obtain ⟨kind, hkind, _⟩ := h.left_turn.received_reply h.reading hq hneed
      exact ⟨kind, hkind⟩
    · intro hp
      obtain ⟨frame, rest, hahead, howes, _⟩ := h.left_turn.received_request h.reading hp hneed
      exact ⟨howes, by simp [hahead]⟩

/-- What a waiting receiver says about the messages in flight. -/
theorem Faultless.right_waits {cap : Nat} (hcap : 0 < cap)
    (h : Faultless ser mode p files frames kinds c)
    (hw : c.rightEnd.move cap turns (receiverProcess ser) .proceed = none) :
    (c.right.pc = .finished ∧ frames = [] ∧ c.left.ahead = [] ∧ c.right.awaits = [] ∧
        c.right.owes = []) ∨
      (kinds ≠ [] ∧ c.right.type ≠ .pull ∧ c.right.awaits = []) ∨
      (frames = [] ∧ c.left.ahead ≠ [] ∧ c.right.owes = [] ∧
        (c.right.type = .req → ∃ kind, c.right.awaits = [kind])) := by
  rcases Endpoint.waits_of_stuck hw with hn | ⟨m, hn, _, hroom⟩ | ⟨hn, _, hin⟩
  · have hneed : c.right.need ser = .halted := hn
    have hpc := h.right_turn.finished hneed
    obtain ⟨_, hahead⟩ := Receiver.expects_of_finished h.expects hpc
    obtain ⟨hframes, hahead⟩ := List.append_eq_nil_iff.mp hahead
    exact Or.inl ⟨hpc, hframes, hahead, by simp only [Receiver.awaits, hpc, ite_self],
      by simp only [Receiver.owes, hpc, ite_self]⟩
  · have hneed : c.right.need ser = .send m := hn
    obtain ⟨_, hawaits, _, kind, _, _, _, hpull⟩ := h.right_turn.sent hneed
    refine Or.inr (Or.inl ⟨?_, hpull, hawaits⟩)
    rintro rfl
    have hbwd : c.bwd = [] := List.forall₂_nil_left_iff.mp h.bwd
    have hlen : cap ≤ c.bwd.length := hroom
    rw [hbwd, List.length_nil] at hlen
    omega
  · have hneed : c.right.need ser = .recv := hn
    have hfwd : c.fwd = [] := hin
    have hframes : frames = [] := by
      have hmap := h.fwd
      rw [hfwd] at hmap
      exact List.map_eq_nil_iff.mp hmap.symm
    have hx := h.expects
    rw [hframes, List.nil_append] at hx
    obtain ⟨frame, rest, hahead⟩ := Receiver.expects_of_recv hx hneed
    rw [hahead] at hx
    obtain ⟨_, _, howes, hreq, _⟩ := h.right_turn.received hneed hx
    exact Or.inr (Or.inr ⟨hframes, by simp [hahead], howes, fun hq => ⟨_, hreq hq⟩⟩)

/-- With one message of room in each direction some process can proceed. -/
theorem Faultless.progress {cap : Nat} (hcap : 0 < cap)
    (h : Faultless ser mode p files frames kinds c) :
    (c.left.pc = .finished ∧ c.right.pc = .finished) ∨
      ∃ side d, Transfer.step cap ser c ⟨side, .proceed⟩ = some d := by
  by_contra hno
  obtain ⟨hopen, hstuck⟩ := not_or.mp hno
  have hnone : ∀ side, c.step cap turns (senderProcess ser) (receiverProcess ser)
      ⟨side, .proceed⟩ = none := by
    intro side
    cases hs : c.step cap turns (senderProcess ser) (receiverProcess ser) ⟨side, .proceed⟩ with
    | none => rfl
    | some d => exact absurd ⟨side, d, hs⟩ hstuck
  obtain ⟨hleft, hright⟩ := Duplex.stuck_sides hnone
  have hand := h.handshake
  have htl := h.left_type
  have htr := h.right_type
  rcases h.left_waits hcap hleft with ⟨hl, hahead, hawaits, howes⟩ | ⟨hframes, hawaits, hrep⟩ |
    ⟨hkinds, hpush, hreq, hrep⟩
  · rcases h.right_waits hcap hright with ⟨hr, _⟩ | ⟨hkinds, hpull, hnone⟩ | ⟨_, hmore, _⟩
    · exact hopen ⟨hl, hr⟩
    · cases p with
      | pushPull => exact hkinds hand
      | reqRep => simp_all [Pairing.Handshake]
      | repReq => simp_all [Pairing.Handshake]
    · exact hmore hahead
  · rcases h.right_waits hcap hright with ⟨_, hempty, _⟩ | ⟨hkinds, hpull, hnone⟩ | ⟨hempty, _⟩
    · exact hframes hempty
    · cases p with
      | pushPull => exact hkinds hand
      | reqRep => simp_all [Pairing.Handshake]
      | repReq => simp_all [Pairing.Handshake]
    · exact hframes hempty
  · rcases h.right_waits hcap hright with ⟨_, hempty, hdone, hnone, howed⟩ | ⟨hback, _⟩ |
      ⟨hempty, _, howed, hasked⟩
    · cases p with
      | pushPull => exact hpush htl
      | reqRep =>
        obtain ⟨kind, hkind⟩ := hreq htl
        simp [Pairing.Handshake, hkind, hkinds, howed, hempty] at hand
      | repReq => exact (hrep htl).2 hdone
    · exact hback hkinds
    · cases p with
      | pushPull => exact hpush htl
      | reqRep =>
        obtain ⟨kind, hkind⟩ := hreq htl
        simp [Pairing.Handshake, hkind, hkinds, howed, hempty] at hand
      | repReq =>
        obtain ⟨kind, hkind⟩ := hasked htr
        simp [Pairing.Handshake, hkind, hkinds, (hrep htl).1, hempty] at hand

end

/-- An element of a prefix is the element of the whole list. -/
private theorem getElem?_of_prefix {α : Type} {xs ys : List α} {k : Nat} {x : α} (h : xs <+: ys)
    (hk : xs[k]? = some x) : ys[k]? = some x := by
  obtain ⟨tail, rfl⟩ := h
  obtain ⟨hlt, _⟩ := List.getElem?_eq_some_iff.mp hk
  rw [List.getElem?_append_left hlt, hk]

/-- The chunks that the sender has recorded for its calls are those of the files. -/
theorem Sender.log_prefix {files : List Bytes} {s : Sender} (h : s.Logged files)
    (hne : files ≠ []) : s.log <+: files.map s.mode.chunks := by
  obtain ⟨done, hf, hlog, _⟩ := h hne
  by_cases hpc : s.pc = .finished
  · rw [if_pos hpc] at hlog
    exact ⟨s.later.map s.mode.chunks, by simp [hlog, hf]⟩
  · rw [if_neg hpc] at hlog
    exact ⟨(s.infile :: s.later).map s.mode.chunks, by simp [hlog, hf]⟩

/-- The chunks that the receiver has recorded for its calls are those of the files. -/
theorem Receiver.log_prefix {mode : StreamMode} {files : List Bytes} {r : Receiver ε}
    {ahead : List Frame} (h : r.Expects mode files ahead) :
    r.log <+: files.map mode.chunks := by
  obtain ⟨later, hfiles⟩ := outs_prefix h
  refine ⟨later.map (blocks BUFLEN), ?_⟩
  rw [h.1, ← List.map_append, hfiles, List.map_map]
  rfl

/-- Calls that have returned on both sides have left their loops on the same chunk. -/
theorem Faultless.log_eq {ser : Serializer ε} {mode : StreamMode} {p : Pairing}
    {files : List Bytes} {frames : List Frame} {kinds : List Kind} {c : Config ε}
    (h : Faultless ser mode p files frames kinds c) {k : Nat} {sent got : List Bytes}
    (hs : c.left.log[k]? = some sent) (hr : c.right.log[k]? = some got) : sent = got := by
  have hgot := getElem?_of_prefix (Receiver.log_prefix h.expects) hr
  have hne : files ≠ [] := by
    rintro rfl
    simp at hgot
  have hlog := Sender.log_prefix h.logged hne
  rw [h.left_mode] at hlog
  have hsent := getElem?_of_prefix hlog hs
  exact Option.some.inj (hsent.symm.trans hgot)

/-- The k-th output is what writing gives of what reading delivers of the k-th file. -/
theorem Faultless.files_getElem? {ser : Serializer ε} {mode : StreamMode} {p : Pairing}
    {files : List Bytes} {frames : List Frame} {kinds : List Kind} {c : Config ε}
    (h : Faultless ser mode p files frames kinds c) {writing : StreamMode} {k : Nat} {out : Bytes}
    (hk : (c.right.files writing)[k]? = some out) :
    ∃ file, files[k]? = some file ∧ out = writing.output (mode.input file) := by
  rw [Receiver.files, List.getElem?_map] at hk
  obtain ⟨data, hdata, rfl⟩ := Option.map_eq_some_iff.mp hk
  have hin := getElem?_of_prefix (Receiver.outs_prefix h.expects) hdata
  rw [List.getElem?_map] at hin
  obtain ⟨file, hfile, rfl⟩ := Option.map_eq_some_iff.mp hin
  exact ⟨file, hfile, rfl⟩

/-- Along every faultless run of any number of transfers over one pair of sockets: no
call is out of turn, the run goes on until both processes have returned, the k-th
calls of both sides end on the same chunk, the k-th output is the k-th file as the two
streams take it, byte for byte where both are binary, and in the end all files are there,
nothing is in flight and both sockets are as they started. -/
theorem files_transferred {source target : Platform} {sendbin recvbin : Bool} {cap : Nat}
    {ser : Serializer ε} {p : Pairing} {files : List Bytes} {memory : Bytes} {c : Config ε}
    (hcap : 0 < cap)
    (h : Reach (Fires (step cap ser)) NoFailure
      (Config.start (fopen source sendbin) p files memory) c) :
    (¬ c.leftEnd.OutOfTurn turns (senderProcess ser) ∧
      ¬ c.rightEnd.OutOfTurn turns (receiverProcess ser)) ∧
    ((c.left.pc = .finished ∧ c.right.pc = .finished) ∨
      ∃ side d, step cap ser c ⟨side, .proceed⟩ = some d) ∧
    (∀ (k : Nat) (sent got : List Bytes),
      c.left.log[k]? = some sent → c.right.log[k]? = some got → sent = got) ∧
    (∀ (k : Nat) (out : Bytes), (c.right.files (fopen target recvbin))[k]? = some out →
      ∃ file, files[k]? = some file ∧
        out = (fopen target recvbin).output ((fopen source sendbin).input file) ∧
        ((source = .posix ∨ sendbin = true) → (target = .posix ∨ recvbin = true) →
          out = file)) ∧
    (c.left.pc = .finished → c.right.pc = .finished →
      c.right.files (fopen target recvbin) = files.map (fun file =>
          (fopen target recvbin).output ((fopen source sendbin).input file)) ∧
        c.fwd = [] ∧ c.bwd = [] ∧ c.leftSock = .new p.senderType ∧
        c.rightSock = .new p.receiverType) := by
  obtain ⟨frames, kinds, hi⟩ : ∃ frames kinds,
      Faultless ser (fopen source sendbin) p files frames kinds c := by
    apply h.invariant (I := fun c => ∃ frames kinds,
      Faultless ser (fopen source sendbin) p files frames kinds c)
    · exact ⟨[], [], Faultless.start ser _ p files memory⟩
    · rintro s a t ⟨frames, kinds, hi⟩ hg hs
      exact hi.step hg hs
  refine ⟨⟨?_, ?_⟩, hi.progress hcap, ?_, ?_, ?_⟩
  · exact Sender.InTurn.inTurn (e := c.leftEnd) hi.left_turn
  · exact Receiver.InTurn.inTurn (e := c.rightEnd) hi.right_turn
  · intro k sent got hs hr
    exact hi.log_eq hs hr
  · intro k out hk
    obtain ⟨file, hfile, rfl⟩ := hi.files_getElem? hk
    refine ⟨file, hfile, rfl, fun hsource htarget => ?_⟩
    rw [fopen_eq_binary hsource, fopen_eq_binary htarget]
    rfl
  · intro hl hr
    obtain ⟨houts, hrest⟩ := hi.settled hl hr
    exact ⟨by rw [Receiver.files, houts, List.map_map]; rfl, hrest⟩

/-- Two files, one of them empty, over a REP and a REQ with room for one message. -/
theorem files_transferred_run :
    ∃ c, Reach (Fires (step 1 Serializer.basic)) NoFailure
        (Config.start (fopen .posix false) .repReq [[7, 8], []] [0]) c ∧
      c.left.pc = .finished ∧ c.right.pc = .finished ∧
      c.right.files (fopen .posix false) = [[7, 8], []] := by
  obtain ⟨c, hc, hp⟩ := exists_reach_of_exec (step 1 Serializer.basic)
    (fun _ a => a.choice = .proceed) (Config.start (fopen .posix false) .repReq [[7, 8], []] [0])
    (([.right, .left, .left, .right, .left, .right, .right, .left, .left, .left, .right, .right,
      .right, .left, .left, .right, .left, .right, .right, .left, .left, .left, .right,
      .right] : List Side).map (⟨·, .proceed⟩))
    (fun c => c.left.pc = .finished ∧ c.right.pc = .finished) (by decide)
  have hr : Reach (Fires (step 1 Serializer.basic)) NoFailure
      (Config.start (fopen .posix false) .repReq [[7, 8], []] [0]) c := by
    apply hc.mono
    intro s a ha
    simpa [NoFailure] using ha
  obtain ⟨hl, hright⟩ : c.left.pc = .finished ∧ c.right.pc = .finished := by simpa using hp
  obtain ⟨_, _, _, _, hend⟩ := files_transferred (by decide) hr
  exact ⟨c, hr, hl, hright, (hend hl hright).1⟩

/-- Between two Windows systems, with the default mode, a line feed arrives as two bytes. -/
theorem line_feed_doubled :
    ¬ ∀ (source target : Platform) (sendbin recvbin : Bool) (cap : Nat) (ser : Serializer Empty)
      (p : Pairing) (files : List Bytes) (memory : Bytes) (c : Config Empty), 0 < cap →
      Reach (Fires (step cap ser)) NoFailure
        (Config.start (fopen source sendbin) p files memory) c →
      ∀ (k : Nat) (out : Bytes), (c.right.files (fopen target recvbin))[k]? = some out →
        files[k]? = some out := by
  intro hall
  obtain ⟨c, hc, hp⟩ := exists_reach_of_exec (step 1 Serializer.basic)
    (fun _ a => a.choice = .proceed) (Config.start (fopen .windows false) .pushPull [[10]] [])
    [⟨.left, .proceed⟩, ⟨.right, .proceed⟩, ⟨.right, .proceed⟩, ⟨.left, .proceed⟩,
      ⟨.left, .proceed⟩, ⟨.left, .proceed⟩, ⟨.right, .proceed⟩, ⟨.right, .proceed⟩]
    (fun c => c.right.files (fopen .windows false) = [[13, 10]]) (by decide)
  have hr : Reach (Fires (step 1 Serializer.basic)) NoFailure
      (Config.start (fopen .windows false) .pushPull [[10]] []) c := by
    apply hc.mono
    intro s a ha
    simpa [NoFailure] using ha
  have hfiles : c.right.files (fopen .windows false) = [[13, 10]] := by simpa using hp
  have hfile := hall .windows .windows false false 1 Serializer.basic .pushPull [[10]] [] c
    (by decide) hr 0 [13, 10] (by rw [hfiles]; rfl)
  contradiction

end PbdZmq.Transfer
