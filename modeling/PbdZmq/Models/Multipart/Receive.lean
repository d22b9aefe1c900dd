import Mathlib.Data.List.DropRight
import PbdZmq.Models.Multipart.Wire

/-!
# `zmq.recv.multipart`

The result is built by `ret[[i.part]] <- value`, and assigning `NULL` there adds nothing.
A later value pads the gap, so the result of a message is the list of its parts without
the `NULL`s at its end, while the loop itself keeps to the boundaries of the messages.
-/

namespace PbdZmq.Multipart

variable {ε : Type}

/-- `R_zmq_msg_recv` on the body of the next frame. The size of the body becomes an
`int`, and a negative length is an R error. -/
def R_zmq_msg_recv (body : Bytes) : Option Bytes :=
  if cInt body.length < 0 then none else some (body.take (cInt body.length).toNat)

/-- `zmq.msg.recv` on the body of the next frame. What it receives is a raw vector. -/
def zmqMsgRecv (ser : Serializer ε) (unserialize : Bool) (body : Bytes) : Option (RObj ε) := do
  let rmsg ← R_zmq_msg_recv body
  if unserialize then ser.unserialize rmsg else some (.raw rmsg)

/-- `while (opt.val == 1)` on the frames to be received. Without a frame the call blocks. -/
def recvWhile (ser : Serializer ε) (unserialize : Bool) (ret : List (RObj ε)) (iPart : Nat) :
    Bool → List Frame → Option (List (RObj ε) × List Frame)
  | false, queue => some (ret, queue)
  | true, [] => none
  | true, f :: queue => do
    let v ← zmqMsgRecv ser unserialize f.body
    recvWhile ser unserialize (setElement ret (iPart + 1) v) (iPart + 1) f.more queue

/-- `zmq.recv.multipart`: its result, and the frames that stay in the queue. There is no
value if the call blocks or raises an error. -/
def zmqRecvMultipart (ser : Serializer ε) (unserialize : Bool) :
    List Frame → Option (List (RObj ε) × List Frame)
  | [] => none
  | f :: queue => do
    let v ← zmqMsgRecv ser unserialize f.body
    recvWhile ser unserialize (setElement [] 1 v) 1 f.more queue

/-- Calls of `zmq.recv.multipart(socket, unserialize = TRUE)` one after another. -/
def recvCalls (ser : Serializer ε) : Nat → List Frame → Option (List (List (RObj ε)) × List Frame)
  | 0, queue => some ([], queue)
  | k + 1, queue => do
    let (ret, queue) ← zmqRecvMultipart ser true queue
    let (rets, queue) ← recvCalls ser k queue
    return (ret :: rets, queue)

/-- A message whose parts are serialized objects. Bodies above the range of `int` are
left out, which no receive call takes whole. -/
structure Message (ser : Serializer ε) where
  parts : List (RObj ε)
  parts_ne_nil : parts ≠ []
  fits : ∀ p ∈ parts, (ser.serialize p).length ≤ intMax

/-- The message on the wire. -/
def Message.frames {ser : Serializer ε} (m : Message ser) : List Frame :=
  Multipart.frames (m.parts.map ser.serialize)

/-- A part comes out as it was sent. -/
theorem zmqMsgRecv_serialize (ser : Serializer ε) {x : RObj ε}
    (h : (ser.serialize x).length ≤ intMax) :
    zmqMsgRecv ser true (ser.serialize x) = some x := by
  have hrecv : R_zmq_msg_recv (ser.serialize x) = some (ser.serialize x) := by
    rw [R_zmq_msg_recv, cInt_eq h, if_neg (by omega), Int.toNat_natCast, List.take_length]
  rw [zmqMsgRecv, hrecv]
  exact ser.unserialize_serialize x

/-- A tail of `NULL`s, by its length. -/
private theorem rtakeWhile_isNull (xs : List (RObj ε)) : xs.rtakeWhile RObj.isNull =
    List.replicate (xs.length - (xs.rdropWhile RObj.isNull).length) .null := by
  refine List.eq_replicate_iff.mpr ⟨?_, ?_⟩
  · have hall := congrArg List.length
      (List.rdropWhile_append_rtakeWhile : xs.rdropWhile RObj.isNull ++ xs.rtakeWhile _ = xs)
    rw [List.length_append] at hall
    omega
  · intro x hx
    have hnull := List.mem_rtakeWhile_imp hx
    cases x with
    | null => rfl
    | raw | real | other => contradiction

/-- One assignment of the loop: the list stays without its `NULL`s at the end. -/
theorem setElement_rdropWhile (xs : List (RObj ε)) (v : RObj ε) :
    setElement (xs.rdropWhile RObj.isNull) (xs.length + 1) v =
      (xs ++ [v]).rdropWhile RObj.isNull := by
  have hle : (xs.rdropWhile RObj.isNull).length ≤ xs.length :=
    (List.rdropWhile_prefix RObj.isNull xs).length_le
  by_cases hv : v = .null
  · subst v
    rw [setElement_null_of_le (by omega), List.rdropWhile_concat_pos _ _ _ rfl]
  · have hnot : ¬ v.isNull = true := by
      cases v with
      | null => exact absurd rfl hv
      | raw | real | other => simp [RObj.isNull]
    rw [setElement_of_le hv (by omega), List.rdropWhile_concat_neg _ _ _ hnot,
      Nat.add_sub_cancel, ← rtakeWhile_isNull, List.rdropWhile_append_rtakeWhile]

/-- The loop takes the rest of a message and stops at its last frame. The induction keeps
all values received so far. -/
theorem recvWhile_frames {ser : Serializer ε} {unserialize : Bool} {bodies : List Bytes}
    {vs : List (RObj ε)} (hne : bodies ≠ [])
    (hvs : bodies.map (zmqMsgRecv ser unserialize) = vs.map some) (xs : List (RObj ε))
    (queue : List Frame) :
    recvWhile ser unserialize (xs.rdropWhile RObj.isNull) xs.length true
        (frames bodies ++ queue) =
      some ((xs ++ vs).rdropWhile RObj.isNull, queue) := by
  induction bodies generalizing xs vs with
  | nil => exact absurd rfl hne
  | cons b bodies ih =>
    cases vs with
    | nil => simp at hvs
    | cons v vs =>
      simp only [List.map_cons, List.cons.injEq] at hvs
      obtain ⟨hv, hvs⟩ := hvs
      have hset := setElement_rdropWhile xs v
      cases bodies with
      | nil =>
        obtain rfl : vs = [] := by simpa using hvs
        simp only [frames, List.singleton_append, recvWhile, hv, hset, Option.bind_eq_bind,
          Option.bind_some]
      | cons c bodies =>
        have hrest := ih (List.cons_ne_nil c bodies) hvs (xs ++ [v])
        rw [List.length_append, List.length_singleton] at hrest
        simp only [frames, List.cons_append, recvWhile, hv, hset, Option.bind_eq_bind,
          Option.bind_some, hrest, List.append_assoc, List.nil_append]

/-- The first receive call is one more round of the loop. -/
theorem zmqRecvMultipart_eq (ser : Serializer ε) (unserialize : Bool) (queue : List Frame) :
    zmqRecvMultipart ser unserialize queue = recvWhile ser unserialize [] 0 true queue := by
  cases queue with
  | nil => rfl
  | cons f queue => rw [zmqRecvMultipart, recvWhile]

/-- One call takes exactly one message, whose values lose their `NULL`s at the end. -/
theorem zmqRecvMultipart_frames {ser : Serializer ε} {unserialize : Bool} {bodies : List Bytes}
    {vs : List (RObj ε)} (hne : bodies ≠ [])
    (hvs : bodies.map (zmqMsgRecv ser unserialize) = vs.map some) (queue : List Frame) :
    zmqRecvMultipart ser unserialize (frames bodies ++ queue) =
      some (vs.rdropWhile RObj.isNull, queue) := by
  have hloop := recvWhile_frames hne hvs [] queue
  rw [List.rdropWhile_nil, List.length_nil, List.nil_append] at hloop
  rw [zmqRecvMultipart_eq, hloop]

/-- Calls take one message each, in order. -/
theorem recvCalls_messages {ser : Serializer ε} (messages : List (Message ser)) {k : Nat}
    (h : k ≤ messages.length) :
    recvCalls ser k (messages.flatMap Message.frames) =
      some ((messages.take k).map fun m => m.parts.rdropWhile RObj.isNull,
        (messages.drop k).flatMap Message.frames) := by
  induction k generalizing messages with
  | zero => rfl
  | succ k ih =>
    cases messages with
    | nil => simp at h
    | cons m messages =>
      have hvs : (m.parts.map ser.serialize).map (zmqMsgRecv ser true) = m.parts.map some := by
        rw [List.map_map]
        apply List.map_congr_left
        intro p hp
        rw [Function.comp_apply, zmqMsgRecv_serialize ser (m.fits p hp)]
      have hne : m.parts.map ser.serialize ≠ [] := by simpa using m.parts_ne_nil
      have hone := zmqRecvMultipart_frames hne hvs (messages.flatMap Message.frames)
      have hrest := ih messages (by simpa using h)
      rw [List.flatMap_cons, recvCalls, Message.frames, hone]
      simp only [Option.bind_eq_bind, Option.bind_some, hrest, Option.pure_def,
        List.take_succ_cons, List.drop_succ_cons, List.map_cons]

/-- The calls return the first messages whole and leave the frames of the others. -/
def Lossless {ser : Serializer ε} (messages : List (Message ser)) (k : Nat) : Prop :=
  recvCalls ser k (messages.flatMap Message.frames) =
    some ((messages.take k).map Message.parts, (messages.drop k).flatMap Message.frames)

/-- Receiving is lossless exactly if no message received ends with `NULL`. -/
theorem lossless_iff {ser : Serializer ε} (messages : List (Message ser)) {k : Nat}
    (h : k ≤ messages.length) :
    Lossless messages k ↔
      ∀ m ∈ messages.take k, m.parts.getLast m.parts_ne_nil ≠ .null := by
  have hkept : ∀ m : Message ser, m.parts.rdropWhile RObj.isNull = m.parts ↔
      m.parts.getLast m.parts_ne_nil ≠ .null := by
    intro m
    rw [List.rdropWhile_eq_self_iff]
    have hnull : ∀ x : RObj ε, ¬ x.isNull = true ↔ x ≠ .null := by
      intro x
      cases x <;> simp [RObj.isNull]
    exact ⟨fun hlast => (hnull _).mp (hlast _), fun hlast _ => (hnull _).mpr hlast⟩
  rw [Lossless, recvCalls_messages messages h]
  simp only [Option.some.injEq, Prod.mk.injEq, and_true, List.map_inj_left, hkept]

/-- A message with `NULL` in the middle, and one of a single part. -/
theorem lossless_iff_inner : Lossless ([⟨[.null, .raw [7]], by decide, by decide⟩,
    ⟨[.raw []], by decide, by decide⟩] : List (Message Serializer.basic)) 2 := by
  refine (lossless_iff _ (by decide)).mpr ?_
  intro m hm
  rcases List.mem_cons.mp hm with rfl | hm
  · decide
  · obtain rfl := List.mem_singleton.mp hm
    decide

/-- A message that consists of `NULL` alone arrives as an empty list. -/
theorem lost_null : ¬ ∀ (messages : List (Message Serializer.basic)) (k : Nat),
    k ≤ messages.length → Lossless messages k := by
  intro hall
  have hlossless := hall [⟨[.null], by decide, by decide⟩] 1 (by decide)
  have hvalue := congrArg (Option.map Prod.fst) hlossless
  revert hvalue
  decide

end PbdZmq.Multipart
