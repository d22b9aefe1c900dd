import Mathlib.Data.List.TakeDrop
import PbdZmq.Models.Multipart.Receive
import PbdZmq.Models.Multipart.Send

/-!
# What a message call tells its caller

`R_zmq_msg_send` and `R_zmq_msg_recv` print about every call of libzmq that fails and go
on. Their return codes are overwritten and do not reach R: a failed receive leaves the
empty message of `zmq_msg_init`, and every send returns `NULL`. The size of a message
becomes an `int` on its way to `allocVector`.
-/

namespace PbdZmq.Message

variable {ε : Type}

/-- What a call prints, and its value in R unless it raises an error. -/
structure Called (ε : Type) where
  printed : List String
  value : Option (RObj ε)
  deriving DecidableEq, Repr

/-- The line about a call of libzmq that returned -1. -/
def notice (call : String) (C_ret : Int) : List String :=
  if C_ret = -1 then [call] else []

/-- What the calls of libzmq in `R_zmq_msg_send` return. -/
structure SendReplies where
  init : Int
  send : Int
  close : Int
  deriving DecidableEq, Repr

/-- `LENGTH` raises an error for a vector that is too long for an `int`. -/
def hasLength : RObj ε → Bool
  | .raw body => body.length ≤ intMax
  | .real xs => xs.length ≤ intMax
  | .null | .other _ => true

/-- `R_zmq_msg_send`. An unavailable socket has no replies. -/
def R_zmq_msg_send (rmsg : RObj ε) (socket : Option SendReplies) : Called ε :=
  if hasLength rmsg then
    match socket with
    | none => ⟨["R_zmq_send: C_socket is not available.\n"], some .null⟩
    | some lib =>
      let printed := notice "R_zmq_msg_init_size" lib.init
      match rmsg with
      | .raw _ =>
        ⟨printed ++ notice "R_zmq_msg_send" lib.send ++ notice "R_zmq_msg_close" lib.close,
          some .null⟩
      | .null | .real _ | .other _ => ⟨printed, none⟩
  else ⟨[], none⟩

/-- `zmq.msg.send`. -/
def zmqMsgSend (ser : Serializer ε) (serialize : Bool) (rmsg : RObj ε)
    (socket : Option SendReplies) : Called ε :=
  R_zmq_msg_send (if serialize then .raw (ser.serialize rmsg) else rmsg) socket

/-- What the calls of libzmq in `R_zmq_msg_recv` return. -/
structure RecvReplies where
  init : Int
  /-- The message that `zmq_msg_recv` delivers; nothing if it returns -1. -/
  recv : Option Bytes
  close : Int
  deriving DecidableEq, Repr

/-- The end of `R_zmq_msg_recv`: the raw vector, unless its allocation fails. -/
def allocated (rmsg : Option Bytes) (printed : List String) (close : Int) : Called ε :=
  match rmsg with
  | none => ⟨printed, none⟩
  | some body => ⟨printed ++ notice "R_zmq_msg_close" close, some (.raw body)⟩

/-- `R_zmq_msg_recv`. After a failed receive the message is the one of `zmq_msg_init`. -/
def R_zmq_msg_recv (socket : Option RecvReplies) : Called ε :=
  match socket with
  | none => ⟨["R_zmq_send: C_socket is not available.\n"], some .null⟩
  | some lib =>
    allocated (Multipart.R_zmq_msg_recv (lib.recv.getD []))
      (notice "R_zmq_msg_init" lib.init ++
        notice "R_zmq_msg_recv" (if lib.recv.isSome then 0 else -1)) lib.close

/-- `if(unserialize && is.raw(rmsg))` of `zmq.msg.recv`. -/
def unserializeRaw (ser : Serializer ε) (unserialize : Bool) : RObj ε → Option (RObj ε)
  | .raw body => if unserialize then ser.unserialize body else some (.raw body)
  | rmsg => some rmsg

/-- `zmq.msg.recv`. -/
def zmqMsgRecv (ser : Serializer ε) (unserialize : Bool) (socket : Option RecvReplies) :
    Called ε :=
  let r := R_zmq_msg_recv socket
  ⟨r.printed, r.value.bind (unserializeRaw ser unserialize)⟩

theorem value_allocated (rmsg : Option Bytes) (printed : List String) (close : Int) :
    (allocated rmsg printed close : Called ε).value = rmsg.map .raw := by
  cases rmsg <;> rfl

/-- The raw vector depends on the content of the message alone. -/
theorem value_raw (lib : RecvReplies) : (R_zmq_msg_recv (some lib) : Called ε).value =
    (Multipart.R_zmq_msg_recv (lib.recv.getD [])).map .raw := by
  rw [R_zmq_msg_recv, value_allocated]

/-- So does what `zmq.msg.recv` gives. -/
theorem value_recv (ser : Serializer ε) (unserialize : Bool) (lib : RecvReplies) :
    (zmqMsgRecv ser unserialize (some lib)).value =
      Multipart.zmqMsgRecv ser unserialize (lib.recv.getD []) := by
  rw [zmqMsgRecv, value_raw, Option.bind_map]
  rfl

theorem R_zmq_msg_recv_nil : Multipart.R_zmq_msg_recv [] = some [] := by
  have hsize : cInt ([] : Bytes).length = 0 := cInt_eq (Nat.zero_le _)
  rw [Multipart.R_zmq_msg_recv, hsize]
  rfl

/-- A failed receive gives what the empty message gives. -/
theorem value_failed (ser : Serializer ε) (unserialize : Bool) {lib : RecvReplies}
    (h : lib.recv = none) : (zmqMsgRecv ser unserialize (some lib)).value =
      if unserialize then ser.unserialize [] else some (.raw []) := by
  rw [value_recv, h, Option.getD_none, Multipart.zmqMsgRecv, R_zmq_msg_recv_nil]
  rfl

/-- A message that can be sent gives `NULL`, whatever libzmq answers. -/
theorem value_send (ser : Serializer ε) (serialize : Bool) (rmsg : RObj ε) (lib : SendReplies) :
    (zmqMsgSend ser serialize rmsg (some lib)).value =
      (Multipart.payload ser serialize rmsg).map fun _ => .null := by
  unfold zmqMsgSend R_zmq_msg_send Multipart.payload
  cases (if serialize then .raw (ser.serialize rmsg) else rmsg : RObj ε) with
  | raw body =>
    by_cases hlong : intMax < body.length
    · simp only [hasLength, hlong, Nat.not_le.mpr hlong, decide_false, if_true, Option.map_none,
        Bool.false_eq_true, if_false]
    · simp only [hasLength, hlong, Nat.not_lt.mp hlong, decide_true, if_true, Option.map_some,
        if_false]
  | real =>
    simp only [apply_ite Called.value, ite_self, Option.map_none]
  | null | other => rfl

/-- A delivered message is received whole or not at all. -/
def KeepsOrFails (ser : Serializer ε) (m : Bytes) : Prop :=
  ∀ init close,
    ((R_zmq_msg_recv (some ⟨init, some m, close⟩) : Called ε).value = none ∨
      (R_zmq_msg_recv (some ⟨init, some m, close⟩) : Called ε).value = some (.raw m)) ∧
    ((zmqMsgRecv ser false (some ⟨init, some m, close⟩)).value = none ∨
      (zmqMsgRecv ser false (some ⟨init, some m, close⟩)).value = some (.raw m))

/-- Nothing after the raw vector is made changes it. -/
theorem keepsOrFails_raw (ser : Serializer ε) (m : Bytes) : KeepsOrFails ser m ↔
    Multipart.R_zmq_msg_recv m = none ∨ Multipart.R_zmq_msg_recv m = some m := by
  have hraw : ∀ init close, (R_zmq_msg_recv (some ⟨init, some m, close⟩) : Called ε).value =
      (Multipart.R_zmq_msg_recv m).map .raw := fun init close => value_raw _
  have hplain : ∀ init close, (zmqMsgRecv ser false (some ⟨init, some m, close⟩)).value =
      (Multipart.R_zmq_msg_recv m).map .raw := by
    intro init close
    rw [zmqMsgRecv, hraw]
    cases Multipart.R_zmq_msg_recv m <;> rfl
  rw [KeepsOrFails]
  simp only [hraw, hplain, and_self, forall_const]
  cases Multipart.R_zmq_msg_recv m <;> simp

/-- The raw vector holds the message up to the value of the `int`. -/
theorem R_zmq_msg_recv_cases (m : Bytes) :
    (Multipart.R_zmq_msg_recv m = none ∨ Multipart.R_zmq_msg_recv m = some m) ↔
      m.length < 4294967296 ∨ 2147483648 ≤ m.length % 4294967296 := by
  rw [Multipart.R_zmq_msg_recv]
  rcases cInt_cases m.length with ⟨hge, hneg⟩ | ⟨hlt, hsize⟩
  · rw [if_pos hneg]
    exact iff_of_true (.inl rfl) (.inr hge)
  · rw [hsize, if_neg (by omega), Int.toNat_natCast]
    simp only [reduceCtorEq, false_or, Option.some.injEq, List.take_eq_self_iff]
    omega

/-- What is delivered is kept or refused exactly if its size is below 2^32, or the `int`
that the size becomes is negative. -/
theorem keepsOrFails_iff (ser : Serializer ε) (m : Bytes) : KeepsOrFails ser m ↔
    m.length < 4294967296 ∨ 2147483648 ≤ m.length % 4294967296 := by
  rw [keepsOrFails_raw, R_zmq_msg_recv_cases]

/-- Of a message of 2^32 bytes nothing is left. -/
theorem shortened_message : ¬ ∀ m : Bytes, KeepsOrFails Serializer.basic m := by
  intro hall
  have hkept := (keepsOrFails_raw _ _).mp (hall (List.replicate 4294967296 0))
  have hsize := (R_zmq_msg_recv_cases _).mp hkept
  rw [List.length_replicate] at hsize
  omega

/-- The two results differ, and the failing receive gives the documented value. -/
def RecvTold (ser : Serializer ε) (minusOne : RObj ε) (unserialize : Bool)
    (delivered failed : RecvReplies) : Prop :=
  (zmqMsgRecv ser unserialize (some delivered)).value ≠
      (zmqMsgRecv ser unserialize (some failed)).value ∧
    (zmqMsgRecv ser unserialize (some failed)).value = some minusOne

/-- The values of the two sends differ. -/
def SendTold (ser : Serializer ε) (serialize : Bool) (rmsg : RObj ε) (sent refused : SendReplies) :
    Prop :=
  (zmqMsgSend ser serialize rmsg (some sent)).value ≠
    (zmqMsgSend ser serialize rmsg (some refused)).value

/-- A failed receive gives no -1, which is no raw vector: it gives an empty raw vector or
an error of `unserialize`. -/
theorem not_recvTold (ser : Serializer ε) (hser : ser.unserialize [] = none) {minusOne : RObj ε}
    (hone : ∀ bytes, minusOne ≠ .raw bytes) (unserialize : Bool) (delivered : RecvReplies)
    {failed : RecvReplies} (hfailed : failed.recv = none) :
    ¬ RecvTold ser minusOne unserialize delivered failed := by
  rintro ⟨-, hvalue⟩
  rw [value_failed ser unserialize hfailed] at hvalue
  cases unserialize with
  | true =>
    rw [if_pos rfl, hser] at hvalue
    contradiction
  | false => exact hone [] (Option.some.inj hvalue).symm

/-- Every send of a message gives the same. -/
theorem not_sendTold (ser : Serializer ε) (serialize : Bool) (rmsg : RObj ε)
    (sent refused : SendReplies) : ¬ SendTold ser serialize rmsg sent refused := by
  intro hdiffer
  exact hdiffer (by rw [value_send, value_send])

/-- No failure of a message operation can be told from its success in the way that is
documented. -/
theorem never_told (ser : Serializer ε) (hser : ser.unserialize [] = none) {minusOne : RObj ε}
    (hone : ∀ bytes, minusOne ≠ .raw bytes) :
    (∀ unserialize delivered failed, delivered.recv ≠ none → failed.recv = none →
      ¬ RecvTold ser minusOne unserialize delivered failed) ∧
    ∀ serialize rmsg sent refused, sent.send ≠ -1 → refused.send = -1 →
      ¬ SendTold ser serialize rmsg sent refused := by
  constructor
  · intro unserialize delivered failed _ hfailed
    exact not_recvTold ser hser hone unserialize delivered hfailed
  · intro serialize rmsg sent refused _ _
    exact not_sendTold ser serialize rmsg sent refused

/-- The serializer of the package's own objects refuses the empty message. -/
theorem never_told_basic : ¬ RecvTold Serializer.basic (.real [.finite (-1)]) true
    ⟨0, some (Serializer.basic.serialize .null), 0⟩ ⟨0, none, 0⟩ :=
  (never_told Serializer.basic rfl (by rintro bytes ⟨⟩)).1 _ _ _ (by simp) rfl

/-- An empty message and a receive that would block give the same raw vector. -/
theorem untold_failure : ¬ ∀ (unserialize : Bool) (delivered failed : RecvReplies),
    delivered.recv ≠ none → failed.recv = none →
      RecvTold Serializer.basic (.real [.finite (-1)]) unserialize delivered failed := by
  intro hall
  obtain ⟨hdiffer, -⟩ := hall false ⟨0, some [], 0⟩ ⟨0, none, 0⟩ (by simp) rfl
  rw [value_recv, value_recv, Option.getD_some, Option.getD_none] at hdiffer
  contradiction

end PbdZmq.Message
