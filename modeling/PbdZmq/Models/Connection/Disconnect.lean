import Mathlib.Data.Finset.Basic
import PbdZmq.Models.Options.Store

/-!
# Disconnecting from an endpoint

The package switches dynamic symbols off, so that a `.Call` reaches only what `R_init_pbdZMQ`
registers. `zmq.disconnect` asks for a routine that is not registered, though it exists.
-/

namespace PbdZmq.Connection

open Options (MC Answer)

/-- Registered routines with their number of arguments. -/
abbrev CallTable := List (String × Nat)

/-- `callMethods`. -/
def callMethods : CallTable :=
  [("R_zmq_ctx_new", 0), ("R_zmq_ctx_destroy", 1),
    ("R_zmq_socket", 2), ("R_zmq_close", 1), ("R_zmq_bind", 2), ("R_zmq_connect", 2),
    ("R_zmq_setsockopt", 4), ("R_zmq_getsockopt", 4),
    ("R_zmq_msg_init", 0), ("R_zmq_msg_close", 1), ("R_zmq_msg_send", 3), ("R_zmq_msg_recv", 2),
    ("R_zmq_send_char", 4), ("R_zmq_send_raw", 4), ("R_zmq_recv_char", 3), ("R_zmq_recv_raw", 3),
    ("R_zmq_send_file", 7), ("R_zmq_recv_file", 7),
    ("R_zmq_strerror", 1), ("R_zmq_version", 0),
    ("shellexec_wcc", 3),
    ("R_zmq_poll", 4), ("R_zmq_poll_free", 0), ("R_zmq_poll_length", 0),
    ("R_zmq_poll_get_revents", 1)]

/-- `.Call` by name, with some number of arguments, of a routine that acts on a state. -/
def dotCall {σ : Type} (table : CallTable) (name : String) (args : Nat) (routine : σ → Int × σ)
    (s : σ) : Except String Int × σ :=
  match table.lookup name with
  | none => (.error ("\"" ++ name ++ "\" not available for .Call() for package \"pbdZMQ\""), s)
  | some expected =>
    if args = expected then (.ok (routine s).1, (routine s).2)
    else (.error ("Incorrect number of arguments (" ++ toString args ++ "), expecting " ++
      toString expected ++ " for '" ++ name ++ "'"), s)

/-- libzmq, on the endpoints that a socket is connected to. -/
structure Libzmq where
  /-- `zmq_connect` accepts an endpoint. -/
  accepts : Finset String → String → Bool

/-- `zmq_connect`. -/
def Libzmq.zmq_connect (lib : Libzmq) (s : Finset String) (endpoint : String) :
    Int × Finset String :=
  if lib.accepts s endpoint then (0, insert endpoint s) else (-1, s)

/-- `zmq_disconnect`. -/
def zmq_disconnect (s : Finset String) (endpoint : String) : Int × Finset String :=
  if endpoint ∈ s then (0, s.erase endpoint) else (-1, s)

/-- A socket in R, none for a null pointer. -/
abbrev Socket := Option (Finset String)

/-- `R_zmq_connect`. -/
def R_zmq_connect (lib : Libzmq) (endpoint : String) : Socket → Int × Socket
  | none => (-1, none)
  | some s => ((lib.zmq_connect s endpoint).1, some (lib.zmq_connect s endpoint).2)

/-- `R_zmq_disconnect`. -/
def R_zmq_disconnect (endpoint : String) : Socket → Int × Socket
  | none => (-1, none)
  | some s => ((zmq_disconnect s endpoint).1, some (zmq_disconnect s endpoint).2)

/-- The end of `zmq.connect` and `zmq.disconnect`. -/
def answered (mc : MC) (message : String) : Except String Int → Answer
  | .error error => .stop error
  | .ok ret => if ret = -1 then mc.failed message else .code ret

/-- `zmq.connect`. -/
def zmqConnect (table : CallTable) (lib : Libzmq) (mc : MC) (socket : Socket) (endpoint : String) :
    Answer × Socket :=
  let ret := dotCall table "R_zmq_connect" 2 (R_zmq_connect lib endpoint) socket
  (answered mc ("zmq.connect fails, " ++ endpoint) ret.1, ret.2)

/-- `zmq.disconnect`. -/
def zmqDisconnect (table : CallTable) (mc : MC) (socket : Socket) (endpoint : String) :
    Answer × Socket :=
  let ret := dotCall table "R_zmq_disconnect" 2 (R_zmq_disconnect endpoint) socket
  (answered mc ("zmq.disconnect fails, " ++ endpoint) ret.1, ret.2)

/-- After a connect that succeeds, `zmq.disconnect` returns 0 and leaves the endpoints as they
were before. -/
def UndoesConnect (table : CallTable) (lib : Libzmq) (mc : MC) (s : Finset String)
    (endpoint : String) : Prop :=
  ∀ socket, zmqConnect table lib mc (some s) endpoint = (.code 0, socket) →
    zmqDisconnect table mc socket endpoint = (.code 0, some s)

/-- `zmq.disconnect` reports -1 as the message control asks, and leaves the endpoints alone. -/
def ReportsAbsent (table : CallTable) (mc : MC) (s : Finset String) (endpoint : String) : Prop :=
  zmqDisconnect table mc (some s) endpoint =
    (mc.failed ("zmq.disconnect fails, " ++ endpoint), some s)

/-- A registered routine is called. -/
theorem dotCall_registered {σ : Type} {table : CallTable} {name : String} {args : Nat}
    (h : table.lookup name = some args) (routine : σ → Int × σ) (s : σ) :
    dotCall table name args routine s = (.ok (routine s).1, (routine s).2) := by
  rw [dotCall, h]
  exact if_pos rfl

/-- A routine that is not registered is an R error. -/
theorem dotCall_missing {σ : Type} {table : CallTable} {name : String}
    (h : table.lookup name = none) (args : Nat) (routine : σ → Int × σ) (s : σ) :
    dotCall table name args routine s =
      (.error ("\"" ++ name ++ "\" not available for .Call() for package \"pbdZMQ\""), s) := by
  rw [dotCall, h]

/-- No message control makes a failed call return 0. -/
theorem failed_ne_zero (mc : MC) (message : String) : mc.failed message ≠ .code 0 := by
  rw [MC.failed]
  split
  · simp
  · split <;> simp

/-- A connect that succeeds adds its endpoint. -/
theorem zmqConnect_succeeded {table : CallTable} (h : table.lookup "R_zmq_connect" = some 2)
    {lib : Libzmq} {mc : MC} {s : Finset String} {endpoint : String} {socket : Socket}
    (hconnect : zmqConnect table lib mc (some s) endpoint = (.code 0, socket)) :
    socket = some (insert endpoint s) := by
  rw [zmqConnect, dotCall_registered h, R_zmq_connect, Libzmq.zmq_connect] at hconnect
  by_cases haccepts : lib.accepts s endpoint = true
  · simp only [if_pos haccepts] at hconnect
    exact (Prod.mk.inj hconnect).2.symm
  · simp only [if_neg haccepts] at hconnect
    exact absurd (Prod.mk.inj hconnect).1 (failed_ne_zero mc _)

/-- With its routine registered, `zmq.disconnect` removes an endpoint or fails as it should. -/
theorem zmqDisconnect_registered {table : CallTable}
    (h : table.lookup "R_zmq_disconnect" = some 2) (mc : MC) (s : Finset String)
    (endpoint : String) :
    zmqDisconnect table mc (some s) endpoint =
      if endpoint ∈ s then (.code 0, some (s.erase endpoint))
      else (mc.failed ("zmq.disconnect fails, " ++ endpoint), some s) := by
  rw [zmqDisconnect, dotCall_registered h, R_zmq_disconnect, zmq_disconnect]
  by_cases hmem : endpoint ∈ s
  · simp only [if_pos hmem]
    rfl
  · simp only [if_neg hmem]
    rfl

/-- With both routines registered, `zmq.disconnect` would undo `zmq.connect`. -/
theorem undoesConnect_of_registered {table : CallTable}
    (hconnect : table.lookup "R_zmq_connect" = some 2)
    (hdisconnect : table.lookup "R_zmq_disconnect" = some 2) (lib : Libzmq) (mc : MC)
    {s : Finset String} {endpoint : String} (h : endpoint ∉ s) :
    UndoesConnect table lib mc s endpoint ∧ ReportsAbsent table mc s endpoint := by
  constructor
  · intro socket hsucceeded
    obtain rfl := zmqConnect_succeeded hconnect hsucceeded
    rw [zmqDisconnect_registered hdisconnect, if_pos (Finset.mem_insert_self endpoint s),
      Finset.erase_insert h]
  · rw [ReportsAbsent, zmqDisconnect_registered hdisconnect, if_neg h]

/-- The routine of `zmq.disconnect` is not registered. -/
theorem disconnect_notRegistered : callMethods.lookup "R_zmq_disconnect" = none := by decide

/-- `zmq.disconnect` is always an R error, and changes nothing. -/
theorem zmqDisconnect_callMethods (mc : MC) (socket : Socket) (endpoint : String) :
    zmqDisconnect callMethods mc socket endpoint =
      (.stop "\"R_zmq_disconnect\" not available for .Call() for package \"pbdZMQ\"", socket) := by
  rw [zmqDisconnect, dotCall_missing disconnect_notRegistered]
  rfl

/-- A failed disconnect has another error, if any. -/
theorem failed_ne_missing (mc : MC) (endpoint : String) :
    mc.failed ("zmq.disconnect fails, " ++ endpoint) ≠
      .stop "\"R_zmq_disconnect\" not available for .Call() for package \"pbdZMQ\"" := by
  rw [MC.failed]
  split
  · intro heq
    have hchars := congrArg String.toList (Answer.stop.inj heq)
    rw [String.toList_append] at hchars
    have hfirst := congrArg List.head? hchars
    exact absurd hfirst (by simp)
  · split <;> simp

/-- Whatever is connected, `zmq.disconnect` neither reports a missing endpoint nor undoes a
connect that succeeds. -/
theorem disconnect_never (lib : Libzmq) (mc : MC) (s : Finset String) (endpoint : String) :
    ¬ReportsAbsent callMethods mc s endpoint ∧
      (lib.accepts s endpoint = true → ¬UndoesConnect callMethods lib mc s endpoint) := by
  constructor
  · intro habsent
    rw [ReportsAbsent, zmqDisconnect_callMethods] at habsent
    exact failed_ne_missing mc endpoint (Prod.mk.inj habsent).1.symm
  · intro haccepts hundoes
    have hregistered : callMethods.lookup "R_zmq_connect" = some 2 := by decide
    have hconnect : zmqConnect callMethods lib mc (some s) endpoint =
        (.code 0, some (insert endpoint s)) := by
      rw [zmqConnect, dotCall_registered hregistered, R_zmq_connect, Libzmq.zmq_connect,
        if_pos haccepts]
      rfl
    have hdisconnect := hundoes _ hconnect
    rw [zmqDisconnect_callMethods] at hdisconnect
    exact absurd (Prod.mk.inj hdisconnect).1 (by simp)

/-- A single connect is not undone. -/
theorem connected_for_good : ¬ ∀ (lib : Libzmq) (mc : MC) (s : Finset String) (endpoint : String),
    endpoint ∉ s →
    UndoesConnect callMethods lib mc s endpoint ∧ ReportsAbsent callMethods mc s endpoint := by
  intro hall
  obtain ⟨hundoes, -⟩ :=
    hall ⟨fun _ _ => true⟩ MC.default ∅ "tcp://localhost:55555" (Finset.notMem_empty _)
  have hconnect : zmqConnect callMethods ⟨fun _ _ => true⟩ MC.default (some ∅)
      "tcp://localhost:55555" = (.code 0, some {"tcp://localhost:55555"}) := by
    decide
  have hdisconnect := hundoes _ hconnect
  rw [zmqDisconnect_callMethods] at hdisconnect
  exact absurd (Prod.mk.inj hdisconnect).1 (by simp)

end PbdZmq.Connection
