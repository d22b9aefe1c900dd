import PbdZmq.Core.Silent
import PbdZmq.Models.Multipart.Wire

/-!
# `zmq.send.multipart`

The loop over `1:(length(parts) - 1)` counts down for lists of fewer than two parts, and
an R error may end the call after frames with `SNDMORE` have gone out. libzmq may also
refuse a frame, which is only printed.
-/

namespace PbdZmq.Multipart

variable {ε : Type}

/-- R errors of a call. -/
inductive SendError
  /-- `parts[[i]]` selects no element. -/
  | subscript
  /-- `LENGTH` of a vector that is too long for an `int`. -/
  | length
  /-- `RAW` of an object that is no raw vector. -/
  | notRaw
  deriving DecidableEq, Repr

/-- The frames that libzmq accepted in the call so far, and the number of its
`zmq_msg_send` calls. -/
structure Sent where
  frames : List Frame
  calls : Nat
  deriving DecidableEq, Repr

/-- The start of a call. -/
def Sent.start : Sent := ⟨[], 0⟩

/-- `zmq_msg_send`: the next call passes a frame, and libzmq accepts it or not. -/
def Sent.hand (accepts : Nat → Bool) (s : Sent) (f : Frame) : Sent :=
  ⟨if accepts s.calls then s.frames ++ [f] else s.frames, s.calls + 1⟩

/-- `R_zmq_msg_send`. -/
def R_zmq_msg_send (accepts : Nat → Bool) (rmsg : RObj ε) (sndmore : Bool) :
    EStateM SendError Sent Unit :=
  match rmsg with
  | .raw body =>
    if intMax < body.length then throw .length
    else modify fun s => s.hand accepts ⟨body, sndmore⟩
  | .null | .real _ | .other _ => throw .notRaw

/-- `zmq.msg.send`. -/
def zmqMsgSend (ser : Serializer ε) (accepts : Nat → Bool) (serialize : Bool) (rmsg : RObj ε)
    (sndmore : Bool) : EStateM SendError Sent Unit :=
  R_zmq_msg_send accepts (if serialize then .raw (ser.serialize rmsg) else rmsg) sndmore

/-- `parts[[i]]` as an argument. -/
def part (parts : List (RObj ε)) (i : Int) : EStateM SendError Sent (RObj ε) :=
  match getElement parts i with
  | some x => pure x
  | none => throw .subscript

/-- `zmq.send.multipart`. -/
def zmqSendMultipart (ser : Serializer ε) (accepts : Nat → Bool) (serialize : Bool)
    (parts : List (RObj ε)) : EStateM SendError Sent Unit := do
  forM (colon 1 (parts.length - 1)) fun i => do
    zmqMsgSend ser accepts serialize (← part parts i) true
  zmqMsgSend ser accepts serialize (← part parts parts.length) false

/-- The body of the frame for a part, if the part can be sent. -/
def payload (ser : Serializer ε) (serialize : Bool) (x : RObj ε) : Option Bytes :=
  match if serialize then .raw (ser.serialize x) else x with
  | .raw body => if intMax < body.length then none else some body
  | .null | .real _ | .other _ => none

/-- The bodies for the parts before the first one that cannot be sent. -/
def sendable (ser : Serializer ε) (serialize : Bool) : List (RObj ε) → List Bytes
  | [] => []
  | x :: xs =>
    match payload ser serialize x with
    | some body => body :: sendable ser serialize xs
    | none => []

/-- The frames that libzmq accepts of some that are passed to it. -/
def accepted (accepts : Nat → Bool) : Nat → List Frame → List Frame
  | _, [] => []
  | calls, f :: fs =>
    if accepts calls then f :: accepted accepts (calls + 1) fs else accepted accepts (calls + 1) fs

/-- Passing frames one after another. -/
theorem foldl_hand (accepts : Nat → Bool) (fs : List Frame) (s : Sent) :
    fs.foldl (Sent.hand accepts) s =
      ⟨s.frames ++ accepted accepts s.calls fs, s.calls + fs.length⟩ := by
  induction fs generalizing s with
  | nil => simp [accepted]
  | cons f fs ih =>
    rw [List.foldl_cons, ih]
    cases h : accepts s.calls with
    | true => simp [Sent.hand, accepted, h, Nat.add_comm 1, Nat.add_assoc]
    | false => simp [Sent.hand, accepted, h, Nat.add_comm 1, Nat.add_assoc]

theorem length_accepted_le (accepts : Nat → Bool) (calls : Nat) (fs : List Frame) :
    (accepted accepts calls fs).length ≤ fs.length := by
  induction fs generalizing calls with
  | nil => exact Nat.le_refl 0
  | cons f fs ih =>
    have hrest := ih (calls + 1)
    rw [accepted]
    split
    · simpa using hrest
    · exact Nat.le_succ_of_le hrest

/-- The first of some consecutive calls, and the others. -/
private theorem forall_calls {p : Nat → Prop} {calls n : Nat} :
    (∀ j < n + 1, p (calls + j)) ↔ p calls ∧ ∀ j < n, p (calls + 1 + j) := by
  rw [Nat.forall_lt_succ_left]
  simp only [Nat.add_zero, Nat.add_assoc, Nat.add_comm 1]

/-- Nothing goes out if libzmq refuses every frame. -/
theorem accepted_eq_nil (accepts : Nat → Bool) (calls : Nat) (fs : List Frame) :
    accepted accepts calls fs = [] ↔ ∀ j < fs.length, accepts (calls + j) = false := by
  induction fs generalizing calls with
  | nil => simp [accepted]
  | cons f fs ih =>
    rw [List.length_cons, forall_calls (p := (accepts · = false)), ← ih, accepted]
    cases accepts calls <;> simp

/-- Everything goes out if libzmq accepts every frame. -/
theorem accepted_eq_self (accepts : Nat → Bool) (calls : Nat) (fs : List Frame) :
    accepted accepts calls fs = fs ↔ ∀ j < fs.length, accepts (calls + j) = true := by
  induction fs generalizing calls with
  | nil => simp [accepted]
  | cons f fs ih =>
    rw [List.length_cons, forall_calls (p := (accepts · = true)), ← ih, accepted]
    cases accepts calls with
    | true => simp
    | false =>
      have hle := length_accepted_le accepts (calls + 1) fs
      simp only [Bool.false_eq_true, if_false, false_and, iff_false]
      intro heq
      rw [heq, List.length_cons] at hle
      omega

theorem run_zmqMsgSend_some {ser : Serializer ε} {serialize : Bool} {x : RObj ε} {body : Bytes}
    (h : payload ser serialize x = some body) (accepts : Nat → Bool) (sndmore : Bool)
    (s : Sent) : (zmqMsgSend ser accepts serialize x sndmore).run s =
      .ok () (s.hand accepts ⟨body, sndmore⟩) := by
  unfold payload at h
  unfold zmqMsgSend R_zmq_msg_send
  cases hobj : (if serialize then .raw (ser.serialize x) else x : RObj ε) with
  | null | real | other => simp [hobj] at h
  | raw b =>
    rw [hobj] at h
    by_cases hlong : intMax < b.length
    · simp [hlong] at h
    · obtain rfl : b = body := by simpa [hlong] using h
      simp only [hlong, if_false]
      rfl

theorem run_zmqMsgSend_none {ser : Serializer ε} {serialize : Bool} {x : RObj ε}
    (h : payload ser serialize x = none) (accepts : Nat → Bool) (sndmore : Bool) (s : Sent) :
    ∃ e, (zmqMsgSend ser accepts serialize x sndmore).run s = .error e s := by
  unfold payload at h
  unfold zmqMsgSend R_zmq_msg_send
  cases hobj : (if serialize then .raw (ser.serialize x) else x : RObj ε) with
  | null | real | other => exact ⟨_, rfl⟩
  | raw b =>
    rw [hobj] at h
    by_cases hlong : intMax < b.length
    · simp only [hlong, if_true]
      exact ⟨_, rfl⟩
    · simp [hlong] at h

/-- How a program ends that hands over some frames and returns under `P`. -/
def Hands (x : EStateM SendError Sent Unit) (accepts : Nat → Bool) (P : Prop)
    (fs : List Frame) : Prop :=
  ∀ s, (P ∧ x.run s = .ok () (fs.foldl (Sent.hand accepts) s)) ∨
    (¬ P ∧ ∃ e, x.run s = .error e (fs.foldl (Sent.hand accepts) s))

/-- The loop hands over all parts before the first one that cannot be sent, and raises an
error there. -/
theorem hands_forM (ser : Serializer ε) (accepts : Nat → Bool) (serialize : Bool)
    (xs : List (RObj ε)) :
    Hands (forM xs fun x => zmqMsgSend ser accepts serialize x true) accepts
      ((sendable ser serialize xs).length = xs.length)
      ((sendable ser serialize xs).map (⟨·, true⟩)) := by
  induction xs with
  | nil => exact fun _ => Or.inl ⟨rfl, rfl⟩
  | cons x xs ih =>
    intro s
    rw [List.forM_cons, EStateM.run_bind, sendable]
    cases hx : payload ser serialize x with
    | none =>
      obtain ⟨e, he⟩ := run_zmqMsgSend_none hx accepts true s
      rw [he]
      exact Or.inr ⟨by simp, e, rfl⟩
    | some body =>
      rw [run_zmqMsgSend_some hx accepts true s]
      simpa only [List.map_cons, List.foldl_cons, List.length_cons, Nat.add_right_cancel_iff]
        using ih (s.hand accepts ⟨body, true⟩)

/-- `parts[[i]]` at a positive index. -/
theorem part_natCast_succ (parts : List (RObj ε)) (i : Nat) : part parts (1 + i) =
    match parts[i]? with
    | some x => pure x
    | none => throw .subscript := by
  have hi : (1 + (i : Int) - 1).toNat = i := by omega
  rw [part, getElement, if_pos (by omega), hi]

/-- For at least two parts, `1:(length(parts) - 1)` runs through all but the last. -/
theorem forM_colon (f : RObj ε → EStateM SendError Sent Unit) {xs : List (RObj ε)} (x : RObj ε)
    (h : xs ≠ []) :
    (forM (colon 1 ((xs ++ [x]).length - 1)) fun i => do f (← part (xs ++ [x]) i)) =
      forM xs f := by
  have hpos : 0 < xs.length := List.length_pos_iff.mpr h
  have hcolon : colon 1 ((xs ++ [x]).length - 1) =
      (List.range xs.length).map fun i : Nat => 1 + (i : Int) := by
    have hlen : ((xs.length + 1 : Nat) - 1 - 1 + 1 : Int).toNat = xs.length := by omega
    rw [colon, List.length_append, List.length_singleton, if_pos (by omega), hlen]
  have hparts : (List.range xs.length).map (fun i => (xs ++ [x])[i]?) = xs.map some := by
    apply List.ext_getElem
    · simp
    · intro i hi _
      simp only [List.length_map, List.length_range] at hi
      simp [List.getElem?_append_left hi]
  have hpart : ∀ i : Nat, (do f (← part (xs ++ [x]) (1 + i))) =
      match (xs ++ [x])[i]? with
      | some y => f y
      | none => throw .subscript := by
    intro i
    rw [part_natCast_succ]
    cases (xs ++ [x])[i]? <;> rfl
  have hmap := List.forM_map (l := List.range xs.length) (g := fun i => (xs ++ [x])[i]?)
    (f := fun o => (match o with | some y => f y | none => throw .subscript :
      EStateM SendError Sent Unit))
  rw [hparts, List.forM_map] at hmap
  rw [hcolon, List.forM_map]
  simp only [hpart]
  exact hmap.symm

/-- All parts can be sent if all before the last and the last can. -/
theorem sendable_concat (ser : Serializer ε) (serialize : Bool) (xs : List (RObj ε))
    (x : RObj ε) : sendable ser serialize (xs ++ [x]) =
      sendable ser serialize xs ++
        if (sendable ser serialize xs).length = xs.length then (payload ser serialize x).toList
        else [] := by
  induction xs with
  | nil => cases h : payload ser serialize x <;> simp [sendable, h]
  | cons y xs ih =>
    cases h : payload ser serialize y with
    | none => simp [sendable, h]
    | some body => simp [sendable, h, ih]

theorem length_sendable_le (ser : Serializer ε) (serialize : Bool) (xs : List (RObj ε)) :
    (sendable ser serialize xs).length ≤ xs.length := by
  induction xs with
  | nil => exact Nat.le_refl 0
  | cons x xs ih =>
    cases h : payload ser serialize x with
    | none => simp [sendable, h]
    | some body => simpa [sendable, h] using ih

/-- For one part, `1:(length(parts) - 1)` is `1, 0`, and `parts[[0]]` is an error. -/
theorem hands_single (ser : Serializer ε) (accepts : Nat → Bool) (serialize : Bool)
    (x : RObj ε) :
    Hands (zmqSendMultipart ser accepts serialize [x]) accepts False
      ((sendable ser serialize [x]).map (⟨·, true⟩)) := by
  intro s
  have hsteps : (zmqSendMultipart ser accepts serialize [x]).run s =
      (zmqMsgSend ser accepts serialize x true >>= fun _ =>
        (throw .subscript : EStateM SendError Sent Unit)).run s := by
    have hcolon : colon 1 (([x] : List (RObj ε)).length - 1) = [1, 0] := rfl
    have hone : part [x] 1 = pure x := rfl
    have hzero : part [x] 0 = throw .subscript := rfl
    rw [zmqSendMultipart, hcolon, List.forM_cons, List.forM_cons, hone, hzero, pure_bind]
    simp only [EStateM.run_bind]
    cases (zmqMsgSend ser accepts serialize x true).run s <;> rfl
  rw [hsteps, EStateM.run_bind]
  cases hx : payload ser serialize x with
  | none =>
    obtain ⟨e, he⟩ := run_zmqMsgSend_none hx accepts true s
    exact Or.inr ⟨not_false, e, by simp [sendable, hx, he]⟩
  | some body =>
    rw [run_zmqMsgSend_some hx accepts true s]
    refine Or.inr ⟨not_false, .subscript, ?_⟩
    simp only [sendable, hx]
    rfl

/-- For at least two parts, the call hands over what it can. -/
theorem hands_concat (ser : Serializer ε) (accepts : Nat → Bool) (serialize : Bool)
    {init : List (RObj ε)} (last : RObj ε) (hinit : init ≠ []) :
    Hands (zmqSendMultipart ser accepts serialize (init ++ [last])) accepts
      ((sendable ser serialize (init ++ [last])).length = (init ++ [last]).length)
      (if (sendable ser serialize (init ++ [last])).length = (init ++ [last]).length then
        frames (sendable ser serialize (init ++ [last]))
      else (sendable ser serialize (init ++ [last])).map (⟨·, true⟩)) := by
  intro s
  have hlast : part (init ++ [last]) ((init ++ [last]).length : Nat) = pure last := by
    have hlen : (((init ++ [last]).length : Nat) : Int) = 1 + (init.length : Int) := by
      rw [List.length_append, List.length_singleton]
      omega
    rw [hlen, part_natCast_succ, List.getElem?_concat_length]
  have hsteps : zmqSendMultipart ser accepts serialize (init ++ [last]) =
      (do forM init fun x => zmqMsgSend ser accepts serialize x true
          zmqMsgSend ser accepts serialize last false) := by
    rw [zmqSendMultipart, forM_colon _ last hinit, hlast, pure_bind]
  rw [hsteps, EStateM.run_bind, sendable_concat, List.length_append, List.length_append,
    List.length_singleton]
  have hle := length_sendable_le ser serialize init
  rcases hands_forM ser accepts serialize init s with ⟨hall, hrun⟩ | ⟨hstop, e, hrun⟩
  · rw [hrun, if_pos hall]
    cases hbody : payload ser serialize last with
    | none =>
      obtain ⟨e, he⟩ := run_zmqMsgSend_none hbody accepts false
        (((sendable ser serialize init).map (⟨·, true⟩)).foldl (Sent.hand accepts) s)
      refine Or.inr ⟨by simp [hall], e, ?_⟩
      simp [hall, he]
    | some body =>
      refine Or.inl ⟨by simp [hall], ?_⟩
      simp only [run_zmqMsgSend_some hbody accepts, Option.toList_some,
        List.length_singleton, hall, if_true, frames_concat, List.foldl_append,
        List.foldl_cons, List.foldl_nil]
  · rw [hrun, if_neg hstop, List.length_nil]
    refine Or.inr ⟨by omega, e, ?_⟩
    rw [if_neg (by omega), List.append_nil]

/-- What a call hands over, and when it returns. -/
theorem hands_zmqSendMultipart (ser : Serializer ε) (accepts : Nat → Bool) (serialize : Bool)
    (parts : List (RObj ε)) :
    Hands (zmqSendMultipart ser accepts serialize parts) accepts
      (2 ≤ parts.length ∧ (sendable ser serialize parts).length = parts.length)
      (if 2 ≤ parts.length ∧ (sendable ser serialize parts).length = parts.length then
        frames (sendable ser serialize parts)
      else (sendable ser serialize parts).map (⟨·, true⟩)) := by
  rcases List.eq_nil_or_concat' parts with rfl | ⟨init, last, rfl⟩
  · exact fun _ => Or.inr ⟨by simp, .subscript, rfl⟩
  · by_cases hinit : init = []
    · subst init
      simpa using hands_single ser accepts serialize last
    · have hlen : 2 ≤ (init ++ [last]).length := by
        have hpos := List.length_pos_iff.mpr hinit
        rw [List.length_append, List.length_singleton]
        omega
      simpa only [hlen, true_and] using hands_concat ser accepts serialize last hinit

/-- The call returns after one message that consists of the parts, or raises an error
after no frame at all. -/
def AllOrNothing (ser : Serializer ε) (accepts : Nat → Bool) (serialize : Bool)
    (parts : List (RObj ε)) : Prop :=
  match (zmqSendMultipart ser accepts serialize parts).run .start with
  | .ok _ sent => ∃ bodies, bodies ≠ [] ∧
      parts.map (payload ser serialize) = bodies.map some ∧ sent.frames = frames bodies
  | .error _ sent => sent.frames = []

/-- All parts can be sent exactly if they have these bodies. -/
theorem map_payload_eq {ser : Serializer ε} {serialize : Bool} {xs : List (RObj ε)}
    {bodies : List Bytes} : xs.map (payload ser serialize) = bodies.map some ↔
      (sendable ser serialize xs).length = xs.length ∧ bodies = sendable ser serialize xs := by
  induction xs generalizing bodies with
  | nil => cases bodies <;> simp [sendable]
  | cons x xs ih =>
    cases hx : payload ser serialize x with
    | none => cases bodies <;> simp [sendable, hx]
    | some body =>
      cases bodies with
      | nil => simp [sendable, hx]
      | cons b bodies =>
        simp only [List.map_cons, hx, List.cons.injEq, Option.some.injEq, sendable,
          List.length_cons, Nat.add_right_cancel_iff, ih]
        constructor
        · rintro ⟨rfl, hlen, rfl⟩
          exact ⟨hlen, rfl, rfl⟩
        · rintro ⟨hlen, rfl, rfl⟩
          exact ⟨rfl, hlen, rfl⟩

/-- A call is all or nothing exactly if libzmq accepts every frame of at least two parts
that can all be sent, and otherwise refuses every frame before the first part that
cannot. -/
theorem allOrNothing_iff (ser : Serializer ε) (accepts : Nat → Bool) (serialize : Bool)
    (parts : List (RObj ε)) :
    AllOrNothing ser accepts serialize parts ↔
      if 2 ≤ parts.length ∧ (sendable ser serialize parts).length = parts.length then
        ∀ j < parts.length, accepts j = true
      else ∀ j < (sendable ser serialize parts).length, accepts j = false := by
  unfold AllOrNothing
  rcases hands_zmqSendMultipart ser accepts serialize parts .start with
    ⟨hall, hrun⟩ | ⟨hstop, e, hrun⟩
  · have hne : sendable ser serialize parts ≠ [] := by
      intro hnil
      rw [hnil, List.length_nil] at hall
      omega
    have hself := accepted_eq_self accepts 0 (frames (sendable ser serialize parts))
    simp only [Nat.zero_add, length_frames, hall.2] at hself
    rw [hrun, if_pos hall, if_pos hall, foldl_hand, ← hself]
    simp only [Sent.start, List.nil_append]
    constructor
    · rintro ⟨bodies, _, hbodies, hframes⟩
      rwa [(map_payload_eq.mp hbodies).2] at hframes
    · intro hframes
      exact ⟨_, hne, map_payload_eq.mpr ⟨hall.2, rfl⟩, hframes⟩
  · have hnil := accepted_eq_nil accepts 0
      ((sendable ser serialize parts).map (⟨·, true⟩))
    simp only [Nat.zero_add, List.length_map] at hnil
    rw [hrun, if_neg hstop, if_neg hstop, foldl_hand, ← hnil]
    simp only [Sent.start, List.nil_append]

/-- A list of one part leaves a frame behind that waits for the rest of its message. -/
theorem open_message : ¬ ∀ (accepts : Nat → Bool) (parts : List (RObj Empty)),
    AllOrNothing Serializer.basic accepts true parts := by
  intro hall
  have hone := hall (fun _ => true) [.null]
  have hframes : [(⟨Serializer.basic.serialize .null, true⟩ : Frame)] = [] := hone
  contradiction

end PbdZmq.Multipart
