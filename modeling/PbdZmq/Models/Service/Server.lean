import PbdZmq.Core.Serving
import PbdZmq.Core.Star
import PbdZmq.Models.Multipart.Receive
import PbdZmq.Models.Multipart.Send
import PbdZmq.Models.Transfer.Process

/-!
# The command server and its clients

The server evaluates the commands that it receives on a REP socket, one after another,
until it is sent `EXIT`. Any number of clients call `sendrecv` on REQ sockets of their
own. The control points are the calls that reach a socket. R's own evaluation is a
parameter, as is the workspace it works on.
-/

namespace PbdZmq.Service

open Transfer (Sock turns)

variable {ε σ : Type}

/-- What the server needs of R, over workspaces `σ`. -/
structure Interpreter (ε σ : Type) where
  /-- `cat(msg, "\n")` raises no error. -/
  prints : RObj ε → Bool
  /-- The condition `msg == "EXIT"`, unless it is an error. -/
  isExit : RObj ε → Option Bool
  /-- `eval(parse(text = msg))` and the workspace behind it, unless it is an error. -/
  eval : σ → RObj ε → Option (RObj ε × σ)
  /-- The string `"shutting down!"`. -/
  farewell : RObj ε

/-- `zmq.msg.send` of an object raises no error. -/
def Sendable (ser : Serializer ε) (x : RObj ε) : Bool := (Multipart.payload ser true x).isSome

/-- Control points of the server. -/
inductive ServerPc (ε : Type)
  /-- `zmq.msg.recv(socket)`. -/
  | recv
  /-- `zmq.msg.send(result, socket)`. -/
  | send (result : RObj ε)
  /-- `zmq.msg.send("shutting down!", socket)`. -/
  | farewell
  /-- The script has come to its end. -/
  | finished
  /-- An R error in the body of the loop ended the script. -/
  | raised
  /-- An R error of `zmq.msg.recv` ended the script. -/
  | recvRaised
  /-- The process was stopped. -/
  | stopped
  deriving DecidableEq, Repr

/-- The server. -/
structure Server (ε σ : Type) where
  pc : ServerPc ε
  workspace : σ
  deriving DecidableEq, Repr

/-- The body of the loop, from the received message to the next call. -/
def Server.handle (ser : Serializer ε) (R : Interpreter ε σ) (s : Server ε σ) (msg : RObj ε) :
    Server ε σ :=
  if R.prints msg then
    match R.isExit msg with
    | none => { s with pc := .raised }
    | some true => { s with pc := if Sendable ser R.farewell then .farewell else .raised }
    | some false =>
      match R.eval s.workspace msg with
      | none => { s with pc := .raised }
      | some (result, workspace) =>
        ⟨if Sendable ser result then .send result else .raised, workspace⟩
  else { s with pc := .raised }

/-- The call at which the server stands. -/
def Server.need (ser : Serializer ε) (R : Interpreter ε σ) (s : Server ε σ) : Need Bytes :=
  match s.pc with
  | .recv => .recv
  | .send result => .send (ser.serialize result)
  | .farewell => .send (ser.serialize R.farewell)
  | .finished | .raised | .recvRaised | .stopped => .halted

/-- `zmq.msg.recv` on the reply of the socket. A failed receive leaves an empty message. -/
def zmqMsgRecv (ser : Serializer ε) : Reply Bytes → Option (RObj ε)
  | .received m => Multipart.zmqMsgRecv ser true m
  | .sent | .failed | .io _ => Multipart.zmqMsgRecv ser true []

/-- The loop behind `zmq.msg.recv`, which may have raised an error. -/
def Server.receive (ser : Serializer ε) (R : Interpreter ε σ) (s : Server ε σ) :
    Option (RObj ε) → Server ε σ
  | some msg => s.handle ser R msg
  | none => { s with pc := .recvRaised }

/-- The server from one call to its next. -/
def Server.resume (ser : Serializer ε) (R : Interpreter ε σ) (s : Server ε σ) (r : Reply Bytes) :
    Server ε σ :=
  match s.pc with
  | .recv => s.receive ser R (zmqMsgRecv ser r)
  | .send _ => { s with pc := .recv }
  | .farewell => { s with pc := .finished }
  | .finished | .raised | .recvRaised | .stopped => s

/-- The server as a process. -/
def serverProcess (ser : Serializer ε) (R : Interpreter ε σ) : Process (Server ε σ) Bytes where
  need := Server.need ser R
  resume := Server.resume ser R
  halt s := { s with pc := .stopped }

/-- Control points of a client. -/
inductive ClientPc (ε : Type)
  /-- `zmq.msg.send(data, socket)` of `sendrecv`. -/
  | send (data : RObj ε)
  /-- `zmq.msg.recv(socket)` of `sendrecv`. -/
  | recv
  /-- Every call has ended. -/
  | finished
  /-- The process was stopped. -/
  | stopped
  deriving DecidableEq, Repr

/-- A client, at a prompt where an R error ends one call of `sendrecv` only. -/
structure Client (ε : Type) where
  pc : ClientPc ε
  /-- `data` of the calls still to come. -/
  later : List (RObj ε)
  /-- What the calls so far returned; nothing for an R error. -/
  values : List (Option (RObj ε))
  /-- History: `data` of the calls whose message the socket accepted. -/
  asked : List (RObj ε)
  deriving DecidableEq, Repr

/-- One call of `sendrecv` for each argument in turn, up to the first that reaches the
socket. -/
def Client.calls (ser : Serializer ε) (k : Client ε) : List (RObj ε) → Client ε
  | [] => { k with pc := .finished, later := [] }
  | data :: rest =>
    if Sendable ser data then { k with pc := .send data, later := rest }
    else { k with values := k.values ++ [none] }.calls ser rest

/-- The client before its first call. -/
def Client.start (ser : Serializer ε) (program : List (RObj ε)) : Client ε :=
  Client.calls ser ⟨.finished, [], [], []⟩ program

/-- The call at which a client stands. -/
def Client.need (ser : Serializer ε) (k : Client ε) : Need Bytes :=
  match k.pc with
  | .send data => .send (ser.serialize data)
  | .recv => .recv
  | .finished | .stopped => .halted

/-- A client from one call to its next. A failed send is only printed. -/
def Client.resume (ser : Serializer ε) (k : Client ε) (r : Reply Bytes) : Client ε :=
  match k.pc with
  | .send data =>
    match r with
    | .sent => { k with pc := .recv, asked := k.asked ++ [data] }
    | .received _ | .failed | .io _ => { k with pc := .recv }
  | .recv => { k with values := k.values ++ [zmqMsgRecv ser r] }.calls ser k.later
  | .finished | .stopped => k

/-- A client as a process. -/
def clientProcess (ser : Serializer ε) : Process (Client ε) Bytes where
  need := Client.need ser
  resume := Client.resume ser
  halt k := { k with pc := .stopped }

variable {ι : Type}

/-- The server, its clients, their sockets and the messages under way. -/
abbrev Config (ι ε σ : Type) := Star ι (Server ε σ) (Client ε) Sock Bytes

/-- Connected fresh sockets, the server at its first receive, and a program for each client. -/
def Config.start (ser : Serializer ε) (workspace : σ) (program : ι → List (RObj ε)) :
    Config ι ε σ where
  hub := ⟨.recv, workspace⟩
  hubSock := .new .rep
  peer := none
  spoke i := ⟨.start ser (program i), .new .req, [], []⟩

/-- One operation of the server or of a client, over queues of capacity `cap`. -/
def step [DecidableEq ι] (cap : Nat) (ser : Serializer ε) (R : Interpreter ε σ)
    (c : Config ι ε σ) (a : StarAction ι) : Option (Config ι ε σ) :=
  c.step cap turns (serverProcess ser R) (clientProcess ser) a

/-! What the server is for: an object whose state is the workspace. -/

/-- The answer to a command. -/
def Interpreter.respond (ser : Serializer ε) (R : Interpreter ε σ) (workspace : σ)
    (command : RObj ε) : Response σ (RObj ε) :=
  match R.prints command, R.isExit command, R.eval workspace command with
  | true, some true, _ => if Sendable ser R.farewell then .last R.farewell else .fail
  | true, some false, some (result, workspace') =>
    if Sendable ser result then .answer result workspace' else .fail
  | _, _, _ => .fail

/-- The body of the loop does what the object does, and a script that has ended serves nobody. -/
theorem Server.handle_cases (ser : Serializer ε) (R : Interpreter ε σ) (s : Server ε σ)
    (msg : RObj ε) :
    (∃ result workspace, R.respond ser s.workspace msg = .answer result workspace ∧
      Sendable ser result = true ∧ s.handle ser R msg = ⟨.send result, workspace⟩) ∨
    (R.respond ser s.workspace msg = .last R.farewell ∧ Sendable ser R.farewell = true ∧
      s.handle ser R msg = { s with pc := .farewell }) ∨
    (R.respond ser s.workspace msg = .fail ∧ (s.handle ser R msg).pc = .raised) := by
  unfold handle Interpreter.respond
  cases hp : R.prints msg with
  | false => exact Or.inr (Or.inr ⟨rfl, rfl⟩)
  | true =>
    cases he : R.isExit msg with
    | none => exact Or.inr (Or.inr ⟨rfl, rfl⟩)
    | some exit =>
      cases exit with
      | true =>
        cases hs : Sendable ser R.farewell with
        | true => exact Or.inr (Or.inl ⟨rfl, rfl, rfl⟩)
        | false => exact Or.inr (Or.inr ⟨rfl, rfl⟩)
      | false =>
        cases hv : R.eval s.workspace msg with
        | none => exact Or.inr (Or.inr ⟨rfl, rfl⟩)
        | some v =>
          obtain ⟨result, workspace⟩ := v
          cases hs : Sendable ser result with
          | true => exact Or.inl ⟨result, workspace, by simp [hs], hs, by simp [hs]⟩
          | false => exact Or.inr (Or.inr ⟨by simp [hs], by simp [hs]⟩)

end PbdZmq.Service
