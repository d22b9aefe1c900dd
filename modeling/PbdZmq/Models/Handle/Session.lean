import PbdZmq.Core.Heap
import PbdZmq.Core.System

/-!
# Handles, finalizers and the garbage collector

An R session holds external pointers whose addresses are libzmq handles. No
function of the package clears an address, so an address is `NULL` only where
libzmq made nothing. A handle is named by the pointer object that was made for
it. The wrappers `init.context` and `init.socket` register a finalizer whose
closure keeps the variables of its frame reachable. Between the creation and the
registration the collector may run, an interrupt may break off the wrapper, and the
session may end, as it may in any other state.
-/

namespace PbdZmq.Handle

/-- What a handle is. -/
inductive Kind
  | context
  | socket
  deriving DecidableEq, Repr

/-- A finalizer registered by `reg.finalizer`, or about to be. -/
structure Finalizer where
  /-- `try.zmq.ctx.destroy` for a context, `try.zmqt.close` for a socket. -/
  kind : Kind
  /-- The external pointer to be finalized. -/
  key : Nat
  /-- The objects bound in the frame that encloses the finalizer function. -/
  captures : List Nat
  /-- The object was found unreachable, or the session ends. -/
  ready : Bool
  deriving DecidableEq, Repr

/-- Who made a call. -/
inductive Origin
  | user
  | finalizer
  deriving DecidableEq, Repr

/-- The libzmq functions that take a handle: `zmq_socket`, `zmq_close`,
`zmq_ctx_destroy`, and all others as one. -/
inductive Op
  | socket
  | close
  | destroy
  | use
  deriving DecidableEq, Repr

/-- A call that passes a handle to libzmq, and whether it succeeded. -/
structure Call where
  origin : Origin
  op : Op
  handle : Nat
  ok : Bool
  deriving DecidableEq, Repr

/-- A successful `zmq_close` or `zmq_ctx_destroy`. -/
def Call.ends (c : Call) : Bool := c.ok && (c.op == .close || c.op == .destroy)

/-- The session and the state of libzmq. -/
structure Session where
  /-- The first unused object name. -/
  next : Nat
  /-- Objects bound to variables of the user. -/
  roots : List Nat
  /-- References from one object to another. -/
  edges : List (Nat × Nat)
  /-- The frame of `init.context` or `init.socket` between creation and registration. -/
  frame : Option Finalizer
  /-- Registered finalizers, most recent first. -/
  finalizers : List Finalizer
  /-- The session is ending. -/
  exiting : Bool
  /-- `R_ExternalPtrAddr`. -/
  addr : Nat → Option Nat
  /-- Handles made by `zmq_ctx_new`. -/
  contexts : List Nat
  /-- Handles made by `zmq_socket`, each with the handle of its context. -/
  sockets : List (Nat × Nat)
  /-- The calls that passed a handle to libzmq, most recent first. -/
  calls : List Call

/-- A session in which the package has just been loaded. -/
def Session.start : Session where
  next := 0
  roots := []
  edges := []
  frame := none
  finalizers := []
  exiting := false
  addr _ := none
  contexts := []
  sockets := []
  calls := []

/-- The handle was closed or destroyed successfully. -/
def Session.Dead (s : Session) (h : Nat) : Prop := ∃ c ∈ s.calls, c.ends = true ∧ c.handle = h

instance (s : Session) (h : Nat) : Decidable (s.Dead h) :=
  inferInstanceAs (Decidable (∃ c ∈ s.calls, _))

/-- Finalizers registered or about to be, most recent first. -/
def Session.pending (s : Session) : List Finalizer := s.frame.toList ++ s.finalizers

/-- The objects as the collector sees them. -/
def Session.heap (s : Session) : Heap Nat where
  roots := s.roots ++ s.frame.toList.flatMap Finalizer.captures
  edges := s.edges
  ephemerons := s.pending.map fun f => (f.key, f.captures)

/-- The finalizer that runs next: the most recently registered one that is ready. -/
def Session.nextReady (s : Session) : Option Finalizer := s.finalizers.find? Finalizer.ready

/-- Pass a handle to libzmq. -/
def Session.log (s : Session) (c : Call) : Session := { s with calls := c :: s.calls }

/-- `R_MakeExternalPtr` on a new handle. -/
def Session.makePtr (s : Session) : Session :=
  { s with next := s.next + 1, addr := Function.update s.addr s.next (some s.next) }

/-- `R_zmq_ctx_new`. -/
def Session.zmqCtxNew (s : Session) : Session := { s.makePtr with contexts := s.next :: s.contexts }

/-- `R_zmq_socket` on a context handle, when `zmq_socket` succeeds. -/
def Session.zmqSocket (s : Session) (h : Nat) : Session :=
  { s.makePtr with
    sockets := (s.next, h) :: s.sockets
    calls := ⟨.user, .socket, h, true⟩ :: s.calls }

/-- `R_zmq_close`: only a `NULL` address is guarded. -/
def Session.zmqClose (s : Session) (o : Origin) (x : Nat) : Session :=
  match s.addr x with
  | none => s
  | some h => s.log ⟨o, .close, h, decide (h ∈ s.sockets.map Prod.fst ∧ ¬ s.Dead h)⟩

/-- `R_zmq_ctx_destroy`: only a `NULL` address is guarded. The call blocks while a
socket of the context is open, unless a signal interrupts it. -/
def Session.zmqCtxDestroy (s : Session) (o : Origin) (x : Nat) (interrupted : Bool) :
    Option Session :=
  match s.addr x with
  | none => some s
  | some h =>
    if interrupted then some (s.log ⟨o, .destroy, h, false⟩)
    else if h ∈ s.contexts ∧ ¬ s.Dead h then
      if ∃ p ∈ s.sockets, p.2 = h ∧ ¬ s.Dead p.1 then none
      else some (s.log ⟨o, .destroy, h, true⟩)
    else some (s.log ⟨o, .destroy, h, false⟩)

/-- Any other function of the package on a socket. -/
def Session.zmqUse (s : Session) (x : Nat) : Session :=
  match s.addr x with
  | none => s
  | some h => s.log ⟨.user, .use, h, true⟩

/-- What the user's code does. -/
inductive UserAct
  /-- Make an R object. -/
  | alloc
  /-- Let an object refer to another. -/
  | store (x y : Nat)
  /-- Remove a reference. -/
  | unlink (x y : Nat)
  /-- Bind an object found in another one. -/
  | load (x y : Nat)
  /-- Remove the last variable of an object. -/
  | drop (x : Nat)
  /-- `zmq.ctx.new()`. -/
  | ctxNew
  /-- `zmq.socket(x)`; libzmq may refuse. -/
  | socketNew (x : Nat) (ok : Bool)
  /-- `init.context()` up to the registration. -/
  | initContext
  /-- `init.socket(x, type)` up to the registration; libzmq may refuse. -/
  | initSocket (x : Nat) (ok : Bool)
  /-- `zmq.bind`, `zmq.connect`, send, receive and the like. -/
  | use (x : Nat)
  /-- `zmq.close(x)`. -/
  | close (x : Nat)
  /-- `zmq.ctx.destroy(x)`. -/
  | ctxDestroy (x : Nat) (interrupted : Bool)
  deriving DecidableEq, Repr

/-- What happens in a session. -/
inductive Act
  | user (u : UserAct)
  /-- `reg.finalizer` and the return of the wrapper. -/
  | register
  /-- A collection that finds these objects live. -/
  | collect (live : List Nat)
  /-- The next ready finalizer runs. -/
  | finalize (interrupted : Bool)
  /-- A wrapper is broken off before the registration. -/
  | abandon
  /-- The end of the session, by `quit` or by a signal. -/
  | exit
  deriving DecidableEq, Repr

/-- Mark the finalizers of the objects that a collection does not find live. -/
def Finalizer.mark (live : List Nat) (f : Finalizer) : Finalizer :=
  { f with ready := f.ready || decide (f.key ∉ live) }

/-- `zmq_socket` on the context pointer `x`, and what is done with a new pointer. -/
def Session.socketOf (s : Session) (x : Nat) (ok : Bool) (made : Session → Session) :
    Option Session :=
  match s.addr x with
  | none => some s
  | some h =>
    if ok then if s.Dead h then none else some (made (s.zmqSocket h))
    else some (s.log ⟨.user, .socket, h, false⟩)

/-- A step of the user's code. Objects that it works on are bound to variables. -/
def Session.user (s : Session) : UserAct → Option Session
  | .alloc => some { s with next := s.next + 1, roots := s.next :: s.roots }
  | .store x y =>
    if x ∈ s.roots ∧ y ∈ s.roots then some { s with edges := (x, y) :: s.edges } else none
  | .unlink x y =>
    if x ∈ s.roots then some { s with edges := s.edges.filter (· ≠ (x, y)) } else none
  | .load x y =>
    if x ∈ s.roots ∧ (x, y) ∈ s.edges then some { s with roots := y :: s.roots } else none
  | .drop x => some { s with roots := s.roots.filter (· ≠ x) }
  | .ctxNew => some { s.zmqCtxNew with roots := s.next :: s.roots }
  | .socketNew x ok =>
    if x ∈ s.roots then s.socketOf x ok fun t => { t with roots := s.next :: s.roots } else none
  | .initContext => some { s.zmqCtxNew with frame := some ⟨.context, s.next, [s.next], false⟩ }
  | .initSocket x ok =>
    if x ∈ s.roots then
      s.socketOf x ok fun t => { t with frame := some ⟨.socket, s.next, [x, s.next], false⟩ }
    else none
  | .use x => if x ∈ s.roots then some (s.zmqUse x) else none
  | .close x => if x ∈ s.roots then some (s.zmqClose .user x) else none
  | .ctxDestroy x interrupted =>
    if x ∈ s.roots then s.zmqCtxDestroy .user x interrupted else none

/-- Run a finalizer function on its object. -/
def Session.runFinalizer (s : Session) (f : Finalizer) (interrupted : Bool) : Option Session :=
  match f.kind with
  | .context => s.zmqCtxDestroy .finalizer f.key interrupted
  | .socket => some (s.zmqClose .finalizer f.key)

/-- The frame of the wrapper is left. -/
def Session.leave (s : Session) : Session := { s with frame := none }

/-- One step of a session. -/
def step (s : Session) : Act → Option Session
  | .user u => if s.frame = none ∧ s.exiting = false then s.user u else none
  | .register =>
    match s.frame with
    | none => none
    | some f => some { s with
        frame := none
        finalizers := f :: s.finalizers
        roots := f.key :: s.roots }
  | .collect live =>
    if s.heap.Marks live then some { s with finalizers := s.finalizers.map (Finalizer.mark live) }
    else none
  | .finalize interrupted =>
    match s.nextReady with
    | none => none
    | some f =>
      { s with finalizers := s.finalizers.eraseP Finalizer.ready }.runFinalizer f interrupted
  | .abandon =>
    match s.frame with
    | none => none
    | some _ => some s.leave
  | .exit =>
    if s.exiting = false then
      some { s.leave with
        exiting := true
        finalizers := s.finalizers.map fun f => { f with ready := true } }
    else none

end PbdZmq.Handle
