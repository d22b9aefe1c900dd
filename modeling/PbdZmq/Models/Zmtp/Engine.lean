import Mathlib.Data.List.TakeWhile
import PbdZmq.Core.System
import PbdZmq.Models.Zmtp.Encoder

/-!
# Two engines and the stream between them

The sending engine takes messages from its session and writes batches to the socket, as many
bytes at a time as the socket takes. The receiving engine reads what has arrived, decodes it
and pushes the messages to its session. A session that has no room stops the input until it
has some. The stream between the sockets cuts the bytes anywhere.
-/

namespace PbdZmq.Zmtp

/-- The sending engine. -/
structure Sender where
  /-- Messages that `pull_msg` will yield. -/
  queue : List Msg
  encoder : Encoder
  /-- The bytes from `outpos`. -/
  out : Bytes
  deriving DecidableEq, Repr

/-- The receiving engine. -/
inductive Receiver (F : Codec)
  | polling (decoder : F.reader.Waiting)
  /-- `input_stopped`, with the message that the session refused and the bytes from `inpos`. -/
  | stopped (decoder : F.reader.Waiting) (msg : Msg) (inbuf : Bytes)
  | closed

/-- The engines and the bytes under way. -/
structure Conn (F : Codec) where
  sender : Sender
  net : Bytes
  receiver : Receiver F
  /-- History: what was given to the sending session. -/
  sent : List Msg
  /-- History: the bytes that were read. -/
  received : Bytes
  /-- History: what the receiving session took. -/
  delivered : List Msg

variable {F : Codec}

/-- Decode and push until the bytes or the `room` of the session end. -/
def process (F : Codec) (decoder : F.reader.Waiting) (inbuf : Bytes) (room : Nat) :
    List Msg × Receiver F :=
  match _h : F.reader.decode decoder inbuf with
  | .more decoder' => ([], .polling decoder')
  | .error => ([], .closed)
  | .message m decoder' rest =>
    if room = 0 then ([], .stopped decoder' m rest)
    else (m :: (process F decoder' rest (room - 1)).1, (process F decoder' rest (room - 1)).2)
termination_by inbuf.length
decreasing_by all_goals exact Reader.length_rest_lt ‹_›

/-- What the engines do. -/
inductive Event
  /-- The sending session has another message. -/
  | send (m : Msg)
  /-- The socket takes at most so many bytes. -/
  | out_event (bytes : Nat)
  /-- So many bytes are read, and the session has room for so many messages. -/
  | in_event (bytes room : Nat)
  | restart_input (room : Nat)
  /-- The connection is lost. -/
  | lost
  deriving DecidableEq, Repr

/-- Both engines after the handshake. -/
def Conn.start (F : Codec) : Conn F where
  sender := ⟨[], .idle, []⟩
  net := []
  receiver := .polling F.start
  sent := []
  received := []
  delivered := []

/-- `out_event` up to the write; none if an assertion fails. -/
def Sender.batch (header : Msg → Bytes) (out_batch_size : Nat) (s : Sender) : Option Sender :=
  if s.out = [] then
    (nextBatch header out_batch_size s.encoder s.queue).map fun r => ⟨r.2.2, r.2.1, r.1⟩
  else some s

/-- One event. -/
def step (F : Codec) (out_batch_size : Nat) (c : Conn F) : Event → Option (Conn F)
  | .send m =>
    some { c with
      sender := { c.sender with queue := c.sender.queue ++ [m] }
      sent := c.sent ++ [m] }
  | .out_event bytes =>
    (c.sender.batch F.header out_batch_size).map fun s =>
      { c with sender := { s with out := s.out.drop bytes }, net := c.net ++ s.out.take bytes }
  | .in_event bytes room =>
    match c.receiver with
    | .polling decoder =>
      if c.net.take bytes = [] then none
      else
        let r := process F decoder (c.net.take bytes) room
        some { c with
          net := c.net.drop bytes
          receiver := r.2
          received := c.received ++ c.net.take bytes
          delivered := c.delivered ++ r.1 }
    | .stopped _ _ _ | .closed => none
  | .restart_input room =>
    match c.receiver with
    | .stopped decoder m inbuf =>
      if room = 0 then some c
      else
        let r := process F decoder inbuf (room - 1)
        some { c with receiver := r.2, delivered := c.delivered ++ [m] ++ r.1 }
    | .polling _ | .closed => none
  | .lost => some { c with receiver := .closed }

/-- What a receiver has made of a stream: `all` of it, and what is delivered so far. -/
def Receiver.Reads (all : List Msg × Option F.reader.Waiting) (delivered : List Msg) :
    Receiver F → Prop
  | polling w => all = (delivered, some w)
  | stopped w m inbuf =>
    all = (delivered ++ m :: (F.reader.feed w inbuf).1, (F.reader.feed w inbuf).2)
  | closed => delivered <+: all.1

/-- What is delivered are the first messages of the stream. -/
theorem Receiver.Reads.isPrefix {all : List Msg × Option F.reader.Waiting}
    {delivered : List Msg} {r : Receiver F} (h : r.Reads all delivered) : delivered <+: all.1 := by
  cases r with
  | polling w => exact h ▸ List.prefix_rfl
  | stopped w m inbuf => exact h ▸ List.prefix_append _ _
  | closed => exact h

/-- Messages that were delivered before. -/
theorem Receiver.Reads.after {all : List Msg × Option F.reader.Waiting} {delivered : List Msg}
    {r : Receiver F} (h : r.Reads all delivered) (before : List Msg) :
    r.Reads (before ++ all.1, all.2) (before ++ delivered) := by
  cases r with
  | polling w =>
    obtain rfl := h
    rfl
  | stopped w m inbuf =>
    obtain rfl := h
    simp [Reads]
  | closed => exact (List.prefix_append_right_inj before).mpr h

/-- Whatever the room, the receiver stays on the stream. -/
theorem process_reads (decoder : F.reader.Waiting) (inbuf : Bytes) (room : Nat) :
    (process F decoder inbuf room).2.Reads (F.reader.feed decoder inbuf)
      (process F decoder inbuf room).1 := by
  fun_induction process F decoder inbuf room with
  | case1 decoder inbuf room w h => exact Reader.feed_of_more h
  | case2 decoder inbuf room h =>
    rw [Reader.feed_of_error h]
    exact List.prefix_rfl
  | case3 decoder inbuf m w rest h => exact Reader.feed_of_message h
  | case4 decoder inbuf room m w rest h hroom ih =>
    rw [Reader.feed_of_message h]
    exact ih.after [m]

/-- No byte is lost on the way, and the receiver is on the stream. -/
structure OnStream (c : Conn F) : Prop where
  valid : ∀ m ∈ c.sent, F.Valid m
  bytes : c.received ++ (c.net ++ (c.sender.out ++ (c.sender.encoder.pending ++
    c.sender.queue.flatMap F.frame))) = c.sent.flatMap F.frame
  reads : c.receiver.Reads (F.reader.feed F.start c.received) c.delivered

theorem OnStream.begin (F : Codec) : OnStream (.start F) where
  valid := by simp [Conn.start]
  bytes := rfl
  reads := Reader.feed_nil F.start

/-- The assertions of a batch hold, and it takes bytes off the front of what is to be sent. -/
theorem Sender.batch_spec (F : Codec) (out_batch_size : Nat) (s : Sender) :
    ∃ t, s.batch F.header out_batch_size = some t ∧
      t.out ++ (t.encoder.pending ++ t.queue.flatMap F.frame) =
        s.out ++ (s.encoder.pending ++ s.queue.flatMap F.frame) := by
  by_cases hout : s.out = []
  · obtain ⟨out, e, queue, hbatch, hbytes, -⟩ :=
      nextBatch_spec F.header_ne_nil out_batch_size s.encoder s.queue
    refine ⟨⟨queue, e, out⟩, by rw [batch, if_pos hout, hbatch]; rfl, ?_⟩
    have hframe : F.frame = fun m => F.header m ++ m.body := by
      funext m
      rw [Framing.frame, F.body_eq]
    rw [hout, hframe, ← List.append_assoc, hbytes, List.nil_append]
  · exact ⟨s, by rw [batch, if_neg hout], rfl⟩

/-- One event. -/
theorem OnStream.step {out_batch_size : Nat} {c d : Conn F} {e : Event} (h : OnStream c)
    (hvalid : ∀ m, e = .send m → F.Valid m) (hs : Zmtp.step F out_batch_size c e = some d) :
    OnStream d := by
  cases e with
  | send m =>
    obtain rfl := Option.some.inj hs
    refine ⟨?_, ?_, h.reads⟩
    · rw [List.forall_mem_append, List.forall_mem_singleton]
      exact ⟨h.valid, hvalid m rfl⟩
    · simp only [List.flatMap_append, ← h.bytes, List.append_assoc]
  | out_event bytes =>
    obtain ⟨s, hbatch, rfl⟩ := Option.map_eq_some_iff.mp hs
    obtain ⟨t, ht, hbytes⟩ := c.sender.batch_spec F out_batch_size
    obtain rfl := Option.some.inj (hbatch.symm.trans ht)
    refine ⟨h.valid, ?_, h.reads⟩
    rw [← h.bytes, ← hbytes]
    simp only [List.append_assoc, ← List.append_assoc (s.out.take bytes), List.take_append_drop]
  | in_event bytes room =>
    have hreads := h.reads
    rw [Zmtp.step] at hs
    split at hs
    · rename_i decoder hpolling
      split at hs
      · contradiction
      · obtain rfl := Option.some.inj hs
        rw [hpolling, Receiver.Reads] at hreads
        refine ⟨h.valid, ?_, ?_⟩
        · rw [← h.bytes]
          simp only [List.append_assoc, ← List.append_assoc (c.net.take bytes),
            List.take_append_drop]
        · rw [Reader.feed_append, hreads, Reader.resume]
          exact (process_reads decoder (c.net.take bytes) room).after c.delivered
    all_goals contradiction
  | restart_input room =>
    have hreads := h.reads
    rw [Zmtp.step] at hs
    split at hs
    · rename_i decoder m inbuf hstopped
      split at hs
      · exact Option.some.inj hs ▸ h
      · obtain rfl := Option.some.inj hs
        rw [hstopped, Receiver.Reads] at hreads
        refine ⟨h.valid, h.bytes, ?_⟩
        rw [hreads, List.append_cons]
        exact (process_reads decoder inbuf (room - 1)).after (c.delivered ++ [m])
    all_goals contradiction
  | lost =>
    obtain rfl := Option.some.inj hs
    exact ⟨h.valid, h.bytes, h.reads.isPrefix⟩

/-- Every run of two engines. The assertions of `out_event` hold, and the receiving session
has taken the first messages that were sent, in order and unchanged, up to one that is too
large. If nothing is under way and the connection is up, it has taken all of them. -/
theorem engine_delivers {out_batch_size : Nat} {c : Conn F}
    (h : Reach (Fires (Zmtp.step F out_batch_size)) (fun _ e => ∀ m, e = .send m → F.Valid m)
      (.start F) c) :
    (c.sender.batch F.header out_batch_size).isSome ∧
    c.delivered <+: c.sent.takeWhile F.admits ∧
    (∀ w, c.sender = ⟨[], .idle, []⟩ → c.net = [] → c.receiver = .polling w →
      c.delivered = c.sent) := by
  have hc := Reach.invariant (I := OnStream) (OnStream.begin F)
    (fun _ _ _ hc hv hs => hc.step hv hs) h
  refine ⟨?_, ?_, fun w hsender hnet hreceiver => ?_⟩
  · obtain ⟨t, ht, -⟩ := c.sender.batch_spec F out_batch_size
    rw [ht]
    rfl
  · exact hc.reads.isPrefix.trans (F.feed_prefix hc.valid ⟨_, hc.bytes⟩)
  · have hbytes := hc.bytes
    have hreads := hc.reads
    rw [hsender, hnet] at hbytes
    simp only [Encoder.pending, List.flatMap_nil, List.append_nil] at hbytes
    rw [hbytes, hreceiver, F.feed_eq hc.valid, Receiver.Reads] at hreads
    obtain ⟨hdelivered, hall⟩ := Prod.mk.inj hreads
    rw [← hdelivered, List.takeWhile_eq_self_iff]
    by_contra hnot
    rw [if_neg (by rwa [List.all_eq_true])] at hall
    contradiction

/-- One byte at a time, the message is delivered with its last byte. -/
theorem engine_delivers_run : ∃ c : Conn (v2Codec ⟨-1, fun _ => true⟩),
    c.delivered = [⟨false, false, [7]⟩] ∧
      c.delivered <+: c.sent.takeWhile (v2Codec ⟨-1, fun _ => true⟩).admits := by
  obtain ⟨c, hc, hp⟩ := exists_reach_of_exec (step (v2Codec ⟨-1, fun _ => true⟩) 8)
    (fun _ e => match e with | .send m => m.body.length < 10 | _ => true)
    (.start _) [.send ⟨false, false, [7]⟩, .out_event 2, .in_event 1 1, .out_event 1,
      .in_event 9 1] (fun c => c.delivered = [⟨false, false, [7]⟩]) (by decide +kernel)
  obtain ⟨-, hprefix, -⟩ := engine_delivers (hc.mono fun _ e he m hm => by
    subst hm
    have hlen : m.body.length < 10 := of_decide_eq_true he
    exact Nat.lt_trans hlen (by decide))
  exact ⟨c, of_decide_eq_true hp, hprefix⟩

end PbdZmq.Zmtp
