import PbdZmq.Models.Transfer.Stream

/-!
# Whose turn it is at each control point

A table gives the socket flag that each control point assumes; a control point
without an entry is one that this socket type never comes to without a failure. A
process that is in turn has no call refused, and every faultless reply leaves it
in turn. A REQ awaits a reply to each of its messages and a REP owes one, of the
kind that the message was of: a header exchange or a chunk exchange.
-/

namespace PbdZmq.Transfer

variable {ε : Type}

/-- The two kinds of exchange. -/
inductive Kind
  | header
  | chunk
  deriving DecidableEq, Repr

/-- The exchange that a frame belongs to. -/
def Frame.kind : Frame → Kind
  | .header _ => .header
  | .chunk _ => .chunk

/-- A message against the stream: `serialize(NULL)` with a header, any byte with a chunk. -/
def Kind.Carries (ser : Serializer ε) : Kind → Bytes → Prop
  | .header, m => m = ser.serialize .null
  | .chunk, _ => True

/-- The socket flag that the sender assumes. -/
def SendPc.turn (t : SocketType) : SendPc → Option Bool
  | .recvRequest | .loopRecv => if t = .rep then some false else none
  | .sendHeader | .fread | .loopSend _ => some (t = .rep)
  | .recvReply | .loopAck _ => if t = .req then some true else none
  | .opening | .finished => some false
  | .raised | .stopped => none

/-- The socket flag that the receiver assumes. -/
def RecvPc.turn (t : SocketType) : RecvPc → Option Bool
  | .sendRequest | .loopSend => if t = .req then some false else none
  | .recvHeader | .loopRecv => some (t = .req)
  | .sendReply | .loopAck _ => if t = .rep then some true else none
  | .fwrite _ => some (t = .rep)
  | .opening | .finished => some false
  | .raised | .stopped => none

/-- The sender and its socket agree on the turn. -/
structure Sender.InTurn (s : Sender) (k : Sock) : Prop where
  type : s.type ≠ .pull
  sock : k.type = s.type
  flag : s.pc.turn s.type = some k.flag

/-- The receiver and its socket agree on the turn. -/
structure Receiver.InTurn (r : Receiver ε) (k : Sock) : Prop where
  type : r.type ≠ .push
  sock : k.type = r.type
  flag : r.pc.turn r.type = some k.flag

/-- What a REQ sender awaits. -/
def Sender.awaits (s : Sender) : List Kind :=
  match s.pc with
  | .recvReply => [.header]
  | .loopAck _ => [.chunk]
  | _ => []

/-- What a REP sender owes. -/
def Sender.owes (s : Sender) : List Kind :=
  if s.type = .rep then
    match s.pc with
    | .sendHeader => [.header]
    | .fread | .loopSend _ => [.chunk]
    | _ => []
  else []

/-- What a REQ receiver awaits. -/
def Receiver.awaits (r : Receiver ε) : List Kind :=
  if r.type = .req then
    match r.pc with
    | .recvHeader => [.header]
    | .loopRecv => [.chunk]
    | _ => []
  else []

/-- What a REP receiver owes. -/
def Receiver.owes (r : Receiver ε) : List Kind :=
  if r.type = .rep then
    match r.pc with
    | .sendReply => [.header]
    | .fwrite _ | .loopAck _ => [.chunk]
    | _ => []
  else []

theorem Sender.InTurn.alive {s : Sender} {k : Sock} (h : s.InTurn k) : s.Alive := by
  have hflag := h.flag
  constructor <;> intro hpc <;> simp [hpc, SendPc.turn] at hflag

theorem Receiver.InTurn.alive {r : Receiver ε} {k : Sock} (h : r.InTurn k) : r.Alive := by
  have hflag := h.flag
  constructor <;> intro hpc <;> simp [hpc, RecvPc.turn] at hflag

/-- A sender in turn is about to make a call that its socket accepts. -/
theorem Sender.InTurn.inTurn {ser : Serializer ε} {e : Endpoint Sender Sock Bytes}
    (h : e.proc.InTurn e.sock) : ¬ e.OutOfTurn turns (senderProcess ser) := by
  have hflag := h.flag
  have hsock := h.sock
  have htype := h.type
  rintro (⟨m, hn, ht⟩ | ⟨hn, ht⟩)
  · have hneed : e.proc.need ser = .send m := hn
    unfold need at hneed
    cases hpc : e.proc.pc <;> simp only [hpc, reduceCtorEq] at hneed <;>
      cases hs : e.proc.type <;> simp_all [SendPc.turn, turns]
  · have hneed : e.proc.need ser = .recv := hn
    unfold need at hneed
    cases hpc : e.proc.pc <;> simp only [hpc, reduceCtorEq] at hneed <;>
      cases hs : e.proc.type <;> simp_all [SendPc.turn, turns]

/-- A receiver in turn is about to make a call that its socket accepts. -/
theorem Receiver.InTurn.inTurn {ser : Serializer ε} {e : Endpoint (Receiver ε) Sock Bytes}
    (h : e.proc.InTurn e.sock) : ¬ e.OutOfTurn turns (receiverProcess ser) := by
  have hflag := h.flag
  have hsock := h.sock
  have htype := h.type
  rintro (⟨m, hn, ht⟩ | ⟨hn, ht⟩)
  · have hneed : e.proc.need ser = .send m := hn
    unfold need at hneed
    cases hpc : e.proc.pc <;> simp only [hpc, reduceCtorEq] at hneed <;>
      cases hs : e.proc.type <;> simp_all [RecvPc.turn, turns]
  · have hneed : e.proc.need ser = .recv := hn
    unfold need at hneed
    cases hpc : e.proc.pc <;> simp only [hpc, reduceCtorEq] at hneed <;>
      cases hs : e.proc.type <;> simp_all [RecvPc.turn, turns]

/-- A new exchange begins with the flag down and nothing awaited or owed. -/
structure Sender.Fresh (s : Sender) : Prop where
  turn : s.pc.turn s.type = some false
  awaits : s.awaits = []
  owes : s.owes = []

theorem Sender.fresh_callNext {s : Sender} (ht : s.type ≠ .pull) : s.callNext.Fresh := by
  unfold callNext
  cases s.later with
  | nil => constructor <;> simp [SendPc.turn, awaits, owes]
  | cons f fs =>
    cases hs : s.type with
    | pull => exact absurd hs ht
    | push | req | rep => constructor <;> simp [call, SendPc.turn, awaits, owes]

theorem Sender.fresh_loopTop (s : Sender) : s.loopTop.Fresh := by
  by_cases hs : s.type = .rep <;>
    constructor <;> simp [loopTop, hs, SendPc.turn, awaits, owes]

/-- The loop test ends the exchange of a chunk. -/
theorem Sender.fresh_loopTest {s : Sender} (ht : s.type ≠ .pull) (size : Nat) :
    (s.loopTest size).Fresh := by
  unfold loopTest
  split
  · exact fresh_loopTop s
  · exact fresh_callNext ht

/-- A new exchange begins with the flag down and nothing awaited or owed. -/
structure Receiver.Fresh (r : Receiver ε) : Prop where
  turn : r.pc.turn r.type = some false
  awaits : r.awaits = []
  owes : r.owes = []

theorem Receiver.fresh_callNext {r : Receiver ε} (ht : r.type ≠ .push) : r.callNext.Fresh := by
  unfold callNext
  cases r.left with
  | zero => constructor <;> simp [RecvPc.turn, awaits, owes]
  | succ n =>
    cases hr : r.type with
    | push => exact absurd hr ht
    | pull | req | rep => constructor <;> simp [call, RecvPc.turn, awaits, owes]

theorem Receiver.fresh_loopTop (r : Receiver ε) : r.loopTop.Fresh := by
  by_cases hr : r.type = .req <;>
    constructor <;> simp [loopTop, hr, RecvPc.turn, awaits, owes]

/-- The loop test ends the exchange of a chunk. -/
theorem Receiver.fresh_loopTest {r : Receiver ε} (ht : r.type ≠ .push) (size : Nat) :
    (r.loopTest size).Fresh := by
  unfold loopTest
  split
  · exact fresh_loopTop r
  · exact fresh_callNext ht

/-- A sender in a new exchange is in turn on a socket whose flag is down. -/
theorem Sender.Fresh.inTurn {s : Sender} {k : Sock} (h : s.Fresh) (ht : s.type ≠ .pull)
    (hk : k.type = s.type) (hflag : k.flag = false) : s.InTurn k :=
  ⟨ht, hk, by rw [h.turn, hflag]⟩

/-- A receiver in a new exchange is in turn on a socket whose flag is down. -/
theorem Receiver.Fresh.inTurn {r : Receiver ε} {k : Sock} (h : r.Fresh) (ht : r.type ≠ .push)
    (hk : k.type = r.type) (hflag : k.flag = false) : r.InTurn k :=
  ⟨ht, hk, by rw [h.turn, hflag]⟩

/-- A frame is sent with nothing awaited; a REQ then awaits its reply, and a REP
has paid what it owed. -/
theorem Sender.InTurn.sent {ser : Serializer ε} {s : Sender} {k : Sock} {m : Bytes}
    (h : s.InTurn k) (hn : s.need ser = .send m) :
    (s.resume ser .sent).InTurn (turns.sent k) ∧ ∃ frame, frame.wire ser = m ∧
      s.ahead = frame :: (s.resume ser .sent).ahead ∧ s.awaits = [] ∧
      (s.resume ser .sent).owes = [] ∧
      (s.type = .req → (s.resume ser .sent).awaits = [frame.kind]) ∧
      (s.type = .rep → s.owes = [frame.kind]) := by
  obtain ⟨frame, hw, hahead⟩ := ahead_sent h.type hn
  have hsock := h.sock
  have hflag := h.flag
  have hsent (hf : s.type = .rep ∨ s.type = .push) (hk : k.flag = decide (s.type = .rep)) :
      (turns.sent k).type = s.type ∧ (turns.sent k).flag = false := by
    rcases hf with hf | hf <;> simp_all [turns]
  unfold need at hn
  cases hpc : s.pc <;> simp only [hpc, Need.send.injEq, reduceCtorEq] at hn
  case sendHeader =>
    have hk : k.flag = decide (s.type = .rep) := by simpa [hpc, SendPc.turn] using hflag.symm
    have hframe : frame = .header s.infile := by
      have hhead := hahead
      simp only [ahead, headerAhead, hpc, List.cons_append] at hhead
      exact (List.cons.inj hhead).1.symm
    subst hframe
    refine ⟨?_, _, hw, hahead, by simp [awaits, hpc], ?_, ?_, ?_⟩
    · refine ⟨by simpa using h.type, ?_, ?_⟩
      · cases hs : s.type <;> simp_all [turns]
      · cases hs : s.type <;> simp_all [resume, turns, SendPc.turn]
    · by_cases hq : s.type = .req <;> simp [resume, hpc, hq, owes]
    · intro hq
      simp [resume, hpc, hq, awaits, Frame.kind]
    · intro hp
      simp [owes, hpc, hp, Frame.kind]
  case loopSend chunk =>
    have hk : k.flag = decide (s.type = .rep) := by simpa [hpc, SendPc.turn] using hflag.symm
    have hframe : frame = .chunk chunk := by
      have hhead := hahead
      simp only [ahead, headerAhead, pending, hpc, List.map_cons, List.nil_append,
        List.cons_append] at hhead
      exact (List.cons.inj hhead).1.symm
    subst hframe
    by_cases hq : s.type = .req
    · refine ⟨?_, _, hw, hahead, by simp [awaits, hpc], ?_, ?_, ?_⟩
      · refine ⟨by simpa using h.type, ?_, ?_⟩
        · simp [hq, turns, hsock]
        · simp [resume, hpc, hq, turns, hsock, SendPc.turn]
      · simp [resume, hpc, hq, owes]
      · intro _
        simp [resume, hpc, hq, awaits, Frame.kind]
      · intro hp
        simp [hq] at hp
    · have hf : s.type = .rep ∨ s.type = .push := by
        have ht := h.type
        cases hs : s.type <;> simp_all
      obtain ⟨hst, hsf⟩ := hsent hf hk
      have hfresh := fresh_loopTest (s := { s with sent := s.sent ++ [chunk] }) h.type chunk.length
      have he : s.resume ser .sent =
          ({ s with sent := s.sent ++ [chunk] } : Sender).loopTest chunk.length := by
        simp only [resume, hpc, hq, if_false]
      refine ⟨?_, _, hw, hahead, by simp [awaits, hpc], ?_, fun hq' => absurd hq' hq, ?_⟩
      · rw [he]
        exact hfresh.inTurn (by simpa using h.type) (by simpa using hst) hsf
      · rw [he]
        exact hfresh.owes
      · intro hp
        simp [owes, hpc, hp, Frame.kind]

/-- A REQ sender takes the reply it awaits and owes nothing. -/
theorem Sender.InTurn.received_reply {ser : Serializer ε} {s : Sender} {k : Sock}
    (h : s.InTurn k) (hread : s.Reading) (hq : s.type = .req) (hn : s.need ser = .recv) :
    ∃ kind, s.awaits = [kind] ∧ ∀ m, kind.Carries ser m →
      (s.resume ser (.received m)).InTurn (turns.received k) ∧
      (s.resume ser (.received m)).ahead = s.ahead ∧ (s.resume ser (.received m)).awaits = [] := by
  have hsock : (turns.received k).type = s.type := by simp [turns, h.sock, hq]
  have hdown : (turns.received k).flag = false := by simp [turns, h.sock, hq]
  have hflag := h.flag
  unfold need at hn
  cases hpc : s.pc <;> simp only [hpc, reduceCtorEq] at hn
  case recvRequest | loopRecv => simp [hpc, hq, SendPc.turn] at hflag
  case recvReply =>
    refine ⟨.header, by simp [awaits, hpc], fun m hm => ?_⟩
    have hv : receiveSocket ser (.received m) = some .null := by
      rw [hm]
      exact ser.unserialize_serialize .null
    have he : s.resume ser (.received m) = { s with pc := .opening } := by
      simp only [resume, hpc, hv]
    have hturn : (s.resume ser (.received m)).InTurn (turns.received k) := by
      rw [he]
      exact ⟨h.type, hsock, by rw [hdown]; rfl⟩
    exact ⟨hturn, ahead_resume h.type hread (by simp) (by simp [hpc]) hturn.alive, by rw [he]; rfl⟩
  case loopAck size =>
    refine ⟨.chunk, by simp [awaits, hpc], fun m _ => ?_⟩
    have he : s.resume ser (.received m) =
        ({ s with acks := s.acks + 1 } : Sender).loopTest size := by
      simp only [resume, hpc]
    have hfresh := fresh_loopTest (s := { s with acks := s.acks + 1 }) h.type size
    have hturn : (s.resume ser (.received m)).InTurn (turns.received k) := by
      rw [he]
      exact hfresh.inTurn (by simpa using h.type) (by simpa using hsock) hdown
    exact ⟨hturn, ahead_resume h.type hread (by simp) (by simp [hpc]) hturn.alive,
      by rw [he]; exact hfresh.awaits⟩

/-- A REP sender takes a request and then owes the frame that it has ahead. -/
theorem Sender.InTurn.received_request {ser : Serializer ε} {s : Sender} {k : Sock}
    (h : s.InTurn k) (hread : s.Reading) (hp : s.type = .rep) (hn : s.need ser = .recv) :
    ∃ frame rest, s.ahead = frame :: rest ∧ s.owes = [] ∧ ∀ m, frame.kind.Carries ser m →
      (s.resume ser (.received m)).InTurn (turns.received k) ∧
      (s.resume ser (.received m)).ahead = s.ahead ∧
      (s.resume ser (.received m)).owes = [frame.kind] := by
  have hsock : (turns.received k).type = s.type := by simp [turns, h.sock, hp]
  have hup : (turns.received k).flag = true := by simp [turns, h.sock, hp]
  have hflag := h.flag
  unfold need at hn
  cases hpc : s.pc <;> simp only [hpc, reduceCtorEq] at hn
  case recvReply | loopAck => simp [hpc, hp, SendPc.turn] at hflag
  case recvRequest =>
    refine ⟨.header s.infile, _, by simp only [ahead, headerAhead, hpc]; rfl,
      by simp [owes, hpc], fun m hm => ?_⟩
    have hv : receiveSocket ser (.received m) = some .null := by
      rw [show m = ser.serialize .null from hm]
      exact ser.unserialize_serialize .null
    have he : s.resume ser (.received m) = { s with pc := .sendHeader } := by
      simp only [resume, hpc, hv]
    have hturn : (s.resume ser (.received m)).InTurn (turns.received k) := by
      rw [he]
      exact ⟨h.type, hsock, by simp [hup, hp, SendPc.turn]⟩
    exact ⟨hturn, ahead_resume h.type hread (by simp) (by simp [hpc]) hturn.alive,
      by rw [he]; simp [owes, hp, Frame.kind]⟩
  case loopRecv =>
    have hahead : s.ahead = chunkFrames s.stream.rest ++ streamFrames s.mode s.later := by
      simp [ahead, headerAhead, pending, hpc, chunkFrames]
    rw [chunkFrames_eq, List.cons_append] at hahead
    refine ⟨_, _, hahead, by simp [owes, hpc], fun m _ => ?_⟩
    have he : s.resume ser (.received m) = { s with pc := .fread } := by
      simp only [resume, hpc]
    have hturn : (s.resume ser (.received m)).InTurn (turns.received k) := by
      rw [he]
      exact ⟨h.type, hsock, by simp [hup, hp, SendPc.turn]⟩
    exact ⟨hturn, ahead_resume h.type hread (by simp) (by simp [hpc]) hturn.alive,
      by rw [he]; simp [owes, hp, Frame.kind]⟩

/-- A whole read leaves the sender in turn with the same frames ahead. -/
theorem Sender.InTurn.io {ser : Serializer ε} {s : Sender} {k : Sock} (h : s.InTurn k)
    (hread : s.Reading) (hn : s.need ser = .io) :
    (s.resume ser (.io none)).InTurn k ∧ (s.resume ser (.io none)).ahead = s.ahead ∧
      (s.resume ser (.io none)).awaits = s.awaits ∧
      (s.resume ser (.io none)).owes = s.owes := by
  have hflag := h.flag
  unfold need at hn
  cases hpc : s.pc <;> simp only [hpc, reduceCtorEq] at hn
  case opening =>
    have hdown : k.flag = false := by simpa [hpc, SendPc.turn] using hflag.symm
    have hfresh := fresh_loopTop { s with stream := ⟨s.mode.input s.infile, false⟩ }
    have he : s.resume ser (.io none) =
        ({ s with stream := ⟨s.mode.input s.infile, false⟩ } : Sender).loopTop := by
      simp only [resume, hpc]
    have hturn : (s.resume ser (.io none)).InTurn k := by
      rw [he]
      exact hfresh.inTurn h.type h.sock hdown
    refine ⟨hturn, ahead_resume h.type hread (by simp) (by simp [hpc]) hturn.alive, ?_, ?_⟩
    · rw [he, hfresh.awaits]
      simp [awaits, hpc]
    · rw [he, hfresh.owes]
      simp [owes, hpc]
  case fread =>
    have hwhole : ¬((Transfer.fread s.stream BUFLEN none).1.length < BUFLEN ∧
        (Transfer.fread s.stream BUFLEN none).2.eof = false) := by
      simp only [Transfer.fread, List.length_take, Bool.or_eq_false_iff, decide_eq_false_iff_not]
      omega
    have he : s.resume ser (.io none) = { s with
        stream := (Transfer.fread s.stream BUFLEN none).2
        pc := .loopSend (Transfer.fread s.stream BUFLEN none).1 } := by
      simp only [resume, hpc, hwhole, if_false]
    have hturn : (s.resume ser (.io none)).InTurn k := by
      rw [he]
      exact ⟨h.type, h.sock, by simpa [hpc, SendPc.turn] using hflag⟩
    refine ⟨hturn, ahead_resume h.type hread (by simp) (by simp [hpc]) hturn.alive, ?_, ?_⟩
    · rw [he]
      simp [awaits, hpc]
    · rw [he]
      simp [owes, hpc]

/-- What the receiver awaits is of the kind of the first frame it expects. -/
theorem Receiver.kind_eq_of_awaits {mode : StreamMode} {files : List Bytes} {r : Receiver ε}
    {frame : Frame} {ahead : List Frame} {kind : Kind} (h : r.Expects mode files (frame :: ahead))
    (ha : r.awaits = [kind]) : kind = frame.kind := by
  obtain ⟨_, h⟩ := h
  unfold awaits at ha
  by_cases hq : r.type = .req
  · rw [if_pos hq] at ha
    cases hpc : r.pc <;> simp only [hpc, reduceCtorEq, List.cons.injEq, and_true] at h ha
    case recvHeader =>
      obtain ⟨f, rest, later, _, hframe, _⟩ := h
      rw [hframe, ← ha]
      rfl
    case loopRecv =>
      obtain ⟨rest, later, _, he⟩ := h
      rw [chunkFrames_eq, List.cons_append] at he
      rw [(List.cons.inj he).1, ← ha]
      rfl
  · simp [hq] at ha

/-- A REQ receiver takes the frame it awaits; a REP then owes a reply to it. -/
theorem Receiver.InTurn.received {ser : Serializer ε} {mode : StreamMode} {files : List Bytes}
    {r : Receiver ε} {k : Sock} {frame : Frame} {ahead : List Frame} (h : r.InTurn k)
    (hn : r.need ser = .recv) (hx : r.Expects mode files (frame :: ahead)) :
    (r.resume ser (.received (frame.wire ser))).InTurn (turns.received k) ∧
      (r.resume ser (.received (frame.wire ser))).awaits = [] ∧ r.owes = [] ∧
      (r.type = .req → r.awaits = [frame.kind]) ∧
      (r.type = .rep → (r.resume ser (.received (frame.wire ser))).owes = [frame.kind]) := by
  have hsock := h.sock
  have hflag := h.flag
  obtain ⟨_, hx⟩ := hx
  unfold need at hn
  cases hpc : r.pc <;> simp only [hpc, reduceCtorEq] at hn hx
  case recvHeader =>
    obtain ⟨f, rest, later, _, he⟩ := hx
    obtain ⟨rfl, rfl⟩ := List.cons.inj he
    have hv : receiveSocket ser (.received ((Frame.header f).wire ser)) =
        some (.real [.finite f.length]) := ser.unserialize_serialize _
    have hr : r.resume ser (.received ((Frame.header f).wire ser)) = { r with
        filesize := .real [.finite f.length]
        pc := if r.type = .rep then .sendReply else .opening } := by
      simp only [resume, hpc, hv]
    rw [hr]
    refine ⟨⟨h.type, ?_, ?_⟩, ?_, by simp [owes, hpc], ?_, ?_⟩
    · cases hs : r.type <;> simp_all [turns]
    · cases hs : r.type <;> simp_all [turns, RecvPc.turn]
    · by_cases hp : r.type = .rep <;> simp [awaits, hp]
    · intro hq
      simp [awaits, hpc, hq, Frame.kind]
    · intro hp
      simp [owes, hp, Frame.kind]
  case loopRecv =>
    obtain ⟨rest, later, _, he⟩ := hx
    rw [chunkFrames_eq, List.cons_append] at he
    obtain ⟨rfl, rfl⟩ := List.cons.inj he
    refine ⟨⟨by simpa using h.type, ?_, ?_⟩, ?_, by simp [owes, hpc], ?_, ?_⟩
    · cases hs : r.type <;> simp_all [turns]
    · cases hs : r.type <;> simp_all [resume, turns, RecvPc.turn]
    · simp [resume, hpc, awaits]
    · intro hq
      simp [awaits, hpc, hq, Frame.kind]
    · intro hp
      simp [resume, hpc, owes, hp, Frame.kind]

/-- A REP receiver pays what it owes; a REQ then awaits the frame it asked for. -/
theorem Receiver.InTurn.sent {ser : Serializer ε} {r : Receiver ε} {k : Sock} {m : Bytes}
    (h : r.InTurn k) (hn : r.need ser = .send m) :
    (r.resume ser .sent).InTurn (turns.sent k) ∧ r.awaits = [] ∧ (r.resume ser .sent).owes = [] ∧
      ∃ kind, kind.Carries ser m ∧ (r.type = .rep → r.owes = [kind]) ∧
        (r.type = .req → (r.resume ser .sent).awaits = [kind]) ∧ r.type ≠ .pull := by
  have hsock := h.sock
  have hflag := h.flag
  unfold need at hn
  cases hpc : r.pc <;> simp only [hpc, Need.send.injEq, reduceCtorEq] at hn
  case sendRequest =>
    have hq : r.type = .req := by
      by_contra hq
      simp [hpc, RecvPc.turn, hq] at hflag
    refine ⟨⟨by simpa using h.type, ?_, ?_⟩, by simp [awaits, hpc], ?_, .header, hn.symm, ?_, ?_,
      by simp [hq]⟩
    · simp [hq, turns, hsock]
    · simp [resume, hpc, hq, turns, hsock, RecvPc.turn]
    · simp [resume, hpc, owes]
    · intro hp
      simp [hq] at hp
    · intro _
      simp [resume, hpc, awaits, hq]
  case loopSend =>
    have hq : r.type = .req := by
      by_contra hq
      simp [hpc, RecvPc.turn, hq] at hflag
    refine ⟨⟨by simpa using h.type, ?_, ?_⟩, by simp [awaits, hpc], ?_, .chunk, trivial, ?_, ?_,
      by simp [hq]⟩
    · simp [hq, turns, hsock]
    · simp [resume, hpc, hq, turns, hsock, RecvPc.turn]
    · simp [resume, hpc, owes]
    · intro hp
      simp [hq] at hp
    · intro _
      simp [resume, hpc, awaits, hq]
  case sendReply =>
    have hp : r.type = .rep := by
      by_contra hp
      simp [hpc, RecvPc.turn, hp] at hflag
    refine ⟨⟨by simpa using h.type, ?_, ?_⟩, by simp [awaits, hpc], ?_, .header, hn.symm, ?_, ?_,
      by simp [hp]⟩
    · simp [hp, turns, hsock]
    · simp [resume, hpc, hp, turns, hsock, RecvPc.turn]
    · simp [resume, hpc, owes]
    · intro _
      simp [hpc, owes, hp]
    · intro hq
      simp [hp] at hq
  case loopAck size =>
    have hp : r.type = .rep := by
      by_contra hp
      simp [hpc, RecvPc.turn, hp] at hflag
    have he : r.resume ser .sent = r.loopTest size := by simp only [resume, hpc]
    have hfresh := fresh_loopTest h.type size
    refine ⟨?_, by simp [awaits, hpc], ?_, .chunk, trivial, ?_, ?_, by simp [hp]⟩
    · rw [he]
      exact hfresh.inTurn (by simpa using h.type) (by simp [hp, turns, hsock])
        (by simp [hp, turns, hsock])
    · rw [he]
      exact hfresh.owes
    · intro _
      simp [hpc, owes, hp]
    · intro hq
      simp [hp] at hq

/-- A whole write leaves the receiver in turn, awaiting and owing the same. -/
theorem Receiver.InTurn.io {ser : Serializer ε} {mode : StreamMode} {files : List Bytes}
    {r : Receiver ε} {k : Sock} {ahead : List Frame} (h : r.InTurn k)
    (hx : r.Expects mode files ahead) (hn : r.need ser = .io) :
    (r.resume ser (.io none)).InTurn k ∧ (r.resume ser (.io none)).awaits = r.awaits ∧
      (r.resume ser (.io none)).owes = r.owes := by
  have hflag := h.flag
  obtain ⟨_, hx⟩ := hx
  unfold need at hn
  cases hpc : r.pc <;> simp only [hpc, reduceCtorEq] at hn hx
  case opening =>
    obtain ⟨xs, rest, later, hsize, _⟩ := hx
    have hdown : k.flag = false := by simpa [hpc, RecvPc.turn] using hflag.symm
    have hfresh := fresh_loopTop r
    have he : r.resume ser (.io none) = r.loopTop := by simp only [resume, hpc, hsize]
    rw [he]
    refine ⟨hfresh.inTurn h.type h.sock hdown, ?_, ?_⟩
    · rw [hfresh.awaits]
      simp [awaits, hpc]
    · rw [hfresh.owes]
      simp [owes, hpc]
  case fwrite n =>
    obtain ⟨rest, later, hsize, hle, _⟩ := hx
    have hwrite : Transfer.fwrite (r.buf.take (min n BUFLEN)) none = n := by
      rw [Nat.min_eq_left hle]
      exact hsize
    by_cases hp : r.type = .rep
    · have he : r.resume ser (.io none) = { r with
          out := r.out ++ (r.buf.take (min n BUFLEN)).take n
          pc := .loopAck n } := by
        simp only [resume, hpc, hwrite, hp, Nat.lt_irrefl, if_true, if_false]
      rw [he]
      refine ⟨⟨h.type, h.sock, ?_⟩, ?_, ?_⟩
      · simpa [hpc, hp, RecvPc.turn] using hflag
      · simp [awaits, hpc]
      · simp [owes, hpc]
    · have hdown : k.flag = false := by simpa [hpc, hp, RecvPc.turn] using hflag.symm
      have he : r.resume ser (.io none) =
          ({ r with out := r.out ++ (r.buf.take (min n BUFLEN)).take n } : Receiver ε).loopTest
            n := by
        simp only [resume, hpc, hwrite, hp, Nat.lt_irrefl, if_false]
      have hfresh := fresh_loopTest
        (r := { r with out := r.out ++ (r.buf.take (min n BUFLEN)).take n }) h.type n
      rw [he]
      simp only [hpc] at hfresh ⊢
      refine ⟨hfresh.inTurn (by simpa using h.type) (by simpa using h.sock) hdown, ?_, ?_⟩
      · rw [hfresh.awaits]
        simp [awaits, hpc]
      · rw [hfresh.owes]
        simp [owes, hp]

end PbdZmq.Transfer
