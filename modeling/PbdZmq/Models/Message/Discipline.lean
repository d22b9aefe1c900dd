import PbdZmq.Core.Lifetime
import PbdZmq.Models.Message.Outcome

/-!
# The `zmq_msg_t` of a message call

Both message functions keep a `zmq_msg_t` of their own. They go on after an
initialisation that failed, and an R error in `RAW` or `allocVector` leaves them without
closing it.
-/

namespace PbdZmq.Message

variable {ε : Type}

/-- The initialisation of the message, which nothing follows up if it fails. -/
def initUses (C_ret : Int) : List (Use Unit) := if C_ret = -1 then [] else [⟨.acquire, ()⟩]

/-- `LENGTH`, which raises an error for an object that is no vector and for a vector that
is too long. -/
def lengthAccepts (accepts : ε → Bool) : RObj ε → Bool
  | .other x => accepts x
  | rmsg => hasLength rmsg

/-- What `R_zmq_msg_send` does to its message. C leaves open which argument of `memcpy`
comes first, `zmq_msg_data(&msg)` or `RAW(R_rmsg)`. -/
def sendUses (accepts : ε → Bool) (rawFirst : Bool) (rmsg : RObj ε)
    (socket : Option SendReplies) : List (Use Unit) :=
  if lengthAccepts accepts rmsg then
    match socket with
    | none => []
    | some lib =>
      match rmsg with
      | .raw _ => initUses lib.init ++ [⟨.access, ()⟩, ⟨.access, ()⟩, ⟨.release, ()⟩]
      | .null | .real _ | .other _ =>
        initUses lib.init ++ if rawFirst then [] else [⟨.access, ()⟩]
  else []

/-- What `zmq.msg.send` passes to `R_zmq_msg_send`. -/
def passed (ser : Serializer ε) (serialize : Bool) (rmsg : RObj ε) : RObj ε :=
  if serialize then .raw (ser.serialize rmsg) else rmsg

/-- `allocVector(RAWSXP, C_rmsg_length)` succeeds. -/
def RecvReplies.allocates (lib : RecvReplies) (memory : Bool) : Bool :=
  memory && (Multipart.R_zmq_msg_recv (lib.recv.getD [])).isSome

/-- What `R_zmq_msg_recv` does to its message. -/
def recvUses (memory : Bool) (socket : Option RecvReplies) : List (Use Unit) :=
  match socket with
  | none => []
  | some lib =>
    initUses lib.init ++ [⟨.access, ()⟩, ⟨.access, ()⟩] ++
      if lib.allocates memory then [⟨.access, ()⟩, ⟨.release, ()⟩] else []

/-- Behind a failed initialisation the first access is a misuse. -/
theorem not_disciplined_of_init {C_ret : Int} (h : C_ret = -1) (us : List (Use Unit)) :
    ¬ Disciplined () (initUses C_ret ++ ⟨.access, ()⟩ :: us) := by
  rw [initUses, if_pos h]
  rintro (hstage | hstage) <;> contradiction

/-- Behind a successful initialisation the message is held. -/
theorem stage_initUses {C_ret : Int} (h : C_ret ≠ -1) (us : List (Use Unit)) :
    stage () .absent (initUses C_ret ++ us) = stage () .held us := by
  rw [initUses, if_neg h]
  rfl

/-- The message of a send is in order exactly if it is initialised for a raw vector, or
nothing is done to it at all. -/
theorem sendUses_disciplined (accepts : ε → Bool) (rawFirst : Bool) (rmsg : RObj ε)
    (socket : Option SendReplies) : Disciplined () (sendUses accepts rawFirst rmsg socket) ↔
      ∀ lib, lengthAccepts accepts rmsg = true → socket = some lib →
        ((∃ body, rmsg = .raw body) ∧ lib.init ≠ -1) ∨
          ((∀ body, rmsg ≠ .raw body) ∧ lib.init = -1 ∧ rawFirst = true) := by
  unfold sendUses
  by_cases hlength : lengthAccepts accepts rmsg = true
  · rw [if_pos hlength]
    cases socket with
    | none => exact iff_of_true (.inl rfl) (by simp)
    | some lib =>
      simp only [hlength, Option.some.injEq, true_implies, forall_eq']
      by_cases hinit : lib.init = -1
      · cases rmsg with
        | raw body =>
          refine iff_of_false (not_disciplined_of_init hinit _) ?_
          simp [hinit]
        | null | real | other =>
          cases rawFirst with
          | true => simp [hinit, initUses, Disciplined, stage]
          | false =>
            refine iff_of_false (not_disciplined_of_init hinit []) ?_
            simp
      · cases rmsg with
        | raw body =>
          refine iff_of_true (.inr ?_) (.inl ⟨⟨body, rfl⟩, hinit⟩)
          rw [stage_initUses hinit]
          rfl
        | null | real | other =>
          refine iff_of_false ?_ (by simp [hinit])
          rw [Disciplined, stage_initUses hinit]
          cases rawFirst <;> decide
  · rw [if_neg hlength]
    refine iff_of_true (.inl rfl) ?_
    intro lib haccepted
    exact absurd haccepted hlength

/-- The message of a receive is in order exactly if it is initialised and its bytes fit
into a vector, or nothing is done to it at all. -/
theorem recvUses_disciplined (memory : Bool) (socket : Option RecvReplies) :
    Disciplined () (recvUses memory socket) ↔
      ∀ lib, socket = some lib → lib.init ≠ -1 ∧ lib.allocates memory = true := by
  cases socket with
  | none => exact iff_of_true (.inl rfl) (by simp)
  | some lib =>
    simp only [Option.some.injEq, forall_eq', recvUses, List.append_assoc]
    by_cases hinit : lib.init = -1
    · refine iff_of_false (not_disciplined_of_init hinit _) ?_
      simp [hinit]
    · rw [Disciplined, stage_initUses hinit]
      by_cases hallocates : lib.allocates memory = true
      · rw [if_pos hallocates]
        exact iff_of_true (.inr rfl) ⟨hinit, hallocates⟩
      · rw [if_neg hallocates]
        exact iff_of_false (by decide) fun h => hallocates h.2

/-- A send whose message is initialised and that returns has closed it. -/
theorem disciplined_of_sent {rmsg : RObj ε} {lib : SendReplies} (hinit : lib.init ≠ -1)
    (h : (R_zmq_msg_send rmsg (some lib)).value ≠ none) (rawFirst : Bool) :
    Disciplined () (sendUses (fun _ => true) rawFirst rmsg (some lib)) := by
  rw [sendUses_disciplined]
  rintro lib' hlength heq
  obtain rfl := Option.some.inj heq
  cases rmsg with
  | raw body => exact .inl ⟨⟨body, rfl⟩, hinit⟩
  | null | other => exact absurd rfl h
  | real xs =>
    have hlong : hasLength (.real xs : RObj ε) = true := hlength
    rw [R_zmq_msg_send, if_pos hlong] at h
    exact absurd rfl h

/-- A receive whose message is initialised returns exactly if it has closed it. -/
theorem disciplined_iff_received {lib : RecvReplies} (hinit : lib.init ≠ -1) :
    Disciplined () (recvUses true (some lib)) ↔
      (R_zmq_msg_recv (some lib) : Called ε).value ≠ none := by
  rw [recvUses_disciplined, value_raw]
  simp only [Option.some.injEq, forall_eq', RecvReplies.allocates, Bool.true_and]
  cases Multipart.R_zmq_msg_recv (lib.recv.getD []) <;> simp [hinit]

/-- The messages of `zmq.msg.send` and `zmq.msg.recv` are in order exactly in these cases. -/
theorem disciplined_iff (ser : Serializer ε) (accepts : ε → Bool) :
    (∀ serialize rmsg socket rawFirst,
      Disciplined () (sendUses accepts rawFirst (passed ser serialize rmsg) socket) ↔
        ∀ lib, lengthAccepts accepts (passed ser serialize rmsg) = true → socket = some lib →
          ((∃ body, passed ser serialize rmsg = .raw body) ∧ lib.init ≠ -1) ∨
            ((∀ body, passed ser serialize rmsg ≠ .raw body) ∧ lib.init = -1 ∧
              rawFirst = true)) ∧
    ∀ memory socket, Disciplined () (recvUses memory socket) ↔
      ∀ lib, socket = some lib → lib.init ≠ -1 ∧ lib.allocates memory = true :=
  ⟨fun serialize rmsg socket rawFirst =>
    sendUses_disciplined accepts rawFirst (passed ser serialize rmsg) socket,
    recvUses_disciplined⟩

/-- A double vector without serialization leaves its message open. -/
theorem unclosed_message : ¬ ∀ (serialize : Bool) (rmsg : RObj Empty)
    (socket : Option SendReplies) (rawFirst : Bool), Disciplined ()
      (sendUses (fun _ => true) rawFirst (passed Serializer.basic serialize rmsg) socket) := by
  intro hall
  have hsend := hall false (.real [.finite 1]) (some ⟨0, 0, 0⟩) true
  revert hsend
  decide

end PbdZmq.Message
