import PbdZmq.Core.Silent

/-!
# Contexts and sockets of the transfer functions

The four transfer functions of R as programs with error exits. A program is cut at the
statements where an R error can arise, and its log holds what happens to contexts and
sockets. A function that is given no socket makes one, and a context too if it was
given none; it gives both up in its last statements. Nothing is registered to do so on
exit. Ports, addresses and flags only decide which statements fail.
-/

namespace PbdZmq.Ownership

/-- A context or a socket: one of the caller's, or one made during the call. -/
inductive Ref
  | supplied (n : Nat)
  | created (n : Nat)
  deriving DecidableEq, Repr

/-- What happens to contexts and sockets. -/
inductive Event
  | newContext (ctx : Ref)
  | newSocket (socket ctx : Ref)
  | close (socket : Ref)
  | destroy (ctx : Ref)
  deriving DecidableEq, Repr

/-- The statements that can fail. -/
inductive Step
  /-- `zmq_ctx_new` returns `NULL`. -/
  | zmqCtxNew
  /-- `R_MakeExternalPtr` on the new context. -/
  | ctxPointer
  /-- `zmq.socket` ends without a socket. -/
  | zmqSocket
  /-- `R_MakeExternalPtr` on the new socket, or setting its attribute. -/
  | socketPointer
  | address
  /-- `zmq.bind` or `zmq.connect`. -/
  | attach
  | fileInfo
  /-- The message before the header. -/
  | request
  | header
  /-- The message after the header. -/
  | reply
  /-- `R_zmq_send_file` or `R_zmq_recv_file`. -/
  | transfer
  | tempfile
  | zip
  | unzip
  /-- `R_zmq_close` raises an error after `zmq_close`. -/
  | zmqClose
  /-- A signal interrupts `zmq_ctx_destroy`, which only prints. -/
  | zmqCtxDestroy
  deriving DecidableEq, Repr

/-- What a call meets. -/
structure World where
  fails : Step → Bool
  /-- `file.info(filename)$isdir`, absent for `NA`. -/
  isdir : String → Option Bool
  /-- The name that `tempfile` makes. -/
  tempfile : String

/-- No statement of a list fails. -/
def World.succeeds (w : World) (steps : List Step) : Prop := ∀ step ∈ steps, w.fails step = false

instance (w : World) (steps : List Step) : Decidable (w.succeeds steps) :=
  inferInstanceAs (Decidable (∀ step ∈ steps, _))

/-- An R error: a `stop` of the function itself, or an error of a statement. -/
inductive RError
  | stop (message : String)
  | raised (step : Step)
  deriving DecidableEq, Repr

/-- An R program with its log. -/
abbrev RProg := EStateM RError (List Event)

/-- The log at the end of a program that starts a call. -/
def RProg.log {α : Type} (x : RProg α) : List Event := endState x []

/-- A statement that does nothing to contexts and sockets. -/
def World.check (w : World) (step : Step) : RProg Unit :=
  if w.fails step then throw (.raised step) else pure ()

/-- Append to the log. -/
def emit (e : Event) : RProg Unit := modify (· ++ [e])

/-- A name not used so far. -/
def fresh : RProg Ref := do return .created (← get).length

/-- The elements of `ZMQ.ST()` that are used here. -/
def ST.REQ : Int := 3

@[inherit_doc ST.REQ] def ST.REP : Int := 4

@[inherit_doc ST.REQ] def ST.PULL : Int := 7

@[inherit_doc ST.REQ] def ST.PUSH : Int := 8

/-- A socket in R. -/
structure Socket where
  ref : Ref
  /-- `attr(socket, "type")`. -/
  type : Option Int
  deriving DecidableEq, Repr

/-- `zmq.ctx.new`, which returns `NULL` where `zmq_ctx_new` does. -/
def World.zmqCtxNew (w : World) : RProg (Option Ref) :=
  if w.fails .zmqCtxNew then pure none
  else do
    let ctx ← fresh
    emit (.newContext ctx)
    w.check .ctxPointer
    return some ctx

/-- `zmq.socket`; neither a `NULL` context nor a `NULL` result gets past it. -/
def World.zmqSocket (w : World) (ctx : Option Ref) (type : Int) : RProg Socket :=
  match ctx with
  | none => throw (.raised .zmqSocket)
  | some c => do
    w.check .zmqSocket
    let socket ← fresh
    emit (.newSocket socket c)
    w.check .socketPointer
    return ⟨socket, some type⟩

/-- `zmq.close`. -/
def World.zmqClose (w : World) (socket : Socket) : RProg Unit := do
  emit (.close socket.ref)
  w.check .zmqClose

/-- `zmq.ctx.destroy`. -/
def World.zmqCtxDestroy (w : World) (ctx : Option Ref) : RProg Unit :=
  match ctx with
  | none => throw (.raised .zmqCtxDestroy)
  | some c => if w.fails .zmqCtxDestroy then pure () else emit (.destroy c)

/-- The variables after the opening block. -/
structure Opened where
  ctx : Option Ref
  socket : Socket
  ctxDestroy : Bool
  socketClose : Bool

/-- `if (is.null(ctx)) …`: a context, and whether to destroy it. -/
def World.openContext (w : World) (ctx : Option Ref) : RProg (Option Ref × Bool) :=
  match ctx with
  | none => do return (← w.zmqCtxNew, true)
  | some c => pure (some c, false)

/-- `if (is.null(socket)) …`, the opening block of all four functions. -/
def World.openSocket (w : World) (type : Int) (ctx : Option Ref) (socket : Option Socket) :
    RProg Opened :=
  match socket with
  | some s => pure ⟨ctx, s, false, false⟩
  | none => do
    let (ctx, ctxDestroy) ← w.openContext ctx
    let s ← w.zmqSocket ctx type
    w.check .address
    w.check .attach
    return ⟨ctx, s, ctxDestroy, true⟩

/-- The closing block of all four functions. -/
def World.closeSocket (w : World) (o : Opened) : RProg Unit := do
  if o.socketClose || o.ctxDestroy then w.zmqClose o.socket
  if o.ctxDestroy then w.zmqCtxDestroy o.ctx

/-- A function between its opening and its closing block. -/
def World.owned {α : Type} (w : World) (type : Int) (ctx : Option Ref) (socket : Option Socket)
    (body : Option Ref → Socket → RProg α) : RProg α := do
  let o ← w.openSocket type ctx socket
  let ret ← body o.ctx o.socket
  w.closeSocket o
  return ret

/-- The test of the socket type, which returns it. -/
def checkType (types : List Int) (message : String) (socket : Socket) : RProg Int :=
  match socket.type with
  | none => throw (.stop "unable to determine socket type")
  | some type => if type ∈ types then pure type else throw (.stop message)

/-- The test of the sending functions. -/
def checkSender : Socket → RProg Int :=
  checkType [ST.PUSH, ST.REQ, ST.REP] <|
    "socket type must be one of PUSH, REQ, or REP (matching PULL, REP, and REQ respectively " ++
      "in zmq.recvfile())"

/-- The test of the receiving functions. -/
def checkReceiver : Socket → RProg Int :=
  checkType [ST.PULL, ST.REP, ST.REQ] <|
    "socket type must be one of PULL, REP, or REQ (matching PUSH, REQ, and REP respectively " ++
      "in zmq.sendfile())"

/-- The test for the file. -/
def World.checkFile (w : World) (filename : String) : RProg Unit :=
  if w.isdir filename = some false then pure ()
  else throw (.stop ("File does not exist: " ++ filename))

/-- `zmq.sendfile`. -/
def World.zmqSendfile (w : World) (filename : String) (ctx : Option Ref)
    (socket : Option Socket) : RProg Int :=
  w.owned ST.PUSH ctx socket fun _ socket => do
    let type ← checkSender socket
    w.check .fileInfo
    w.checkFile filename
    if type = ST.REP then w.check .request
    w.check .header
    if type = ST.REQ then w.check .reply
    w.check .transfer
    return 0

/-- `zmq.recvfile`. -/
def World.zmqRecvfile (w : World) (ctx : Option Ref) (socket : Option Socket) : RProg Int :=
  w.owned ST.PULL ctx socket fun _ socket => do
    let type ← checkReceiver socket
    if type = ST.REQ then w.check .request
    w.check .header
    if type = ST.REP then w.check .reply
    w.check .transfer
    return 0

/-- `zmq.senddir`, with `ret` and `infile` of its result. -/
def World.zmqSenddir (w : World) (ctx : Option Ref) (socket : Option Socket) :
    RProg (Int × String) :=
  w.owned ST.PUSH ctx socket fun ctx socket => do
    let _ ← checkSender socket
    w.check .tempfile
    w.check .zip
    let ret ← w.zmqSendfile w.tempfile ctx (some socket)
    return (ret, w.tempfile)

/-- `zmq.recvdir`, with `ret` and `outfile` of its result. -/
def World.zmqRecvdir (w : World) (outfile exdir : Option String) (ctx : Option Ref)
    (socket : Option Socket) : RProg (Int × String) :=
  w.owned ST.PULL ctx socket fun ctx socket => do
    let _ ← checkReceiver socket
    if outfile = none then w.check .tempfile
    let ret ← w.zmqRecvfile ctx (some socket)
    if exdir ≠ none then w.check .unzip
    return (ret, outfile.getD w.tempfile)

/-- A call of one of the functions. -/
inductive Function
  | sendfile (filename : String)
  | recvfile
  | senddir
  | recvdir (outfile exdir : Option String)
  deriving DecidableEq, Repr

/-- A call with the context and the socket that the caller supplies. -/
structure Call where
  function : Function
  ctx : Option Nat
  /-- The socket and its attribute `type`. -/
  socket : Option (Nat × Option Int)
  deriving DecidableEq, Repr

/-- What a call does to contexts and sockets, whichever way it ends. -/
def Call.log (w : World) (call : Call) : List Event :=
  let ctx := call.ctx.map Ref.supplied
  let socket := call.socket.map fun s => ⟨.supplied s.1, s.2⟩
  match call.function with
  | .sendfile filename => (w.zmqSendfile filename ctx socket).log
  | .recvfile => (w.zmqRecvfile ctx socket).log
  | .senddir => (w.zmqSenddir ctx socket).log
  | .recvdir outfile exdir => (w.zmqRecvdir outfile exdir ctx socket).log

end PbdZmq.Ownership
