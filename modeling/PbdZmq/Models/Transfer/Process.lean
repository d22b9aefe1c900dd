import PbdZmq.Core.Duplex
import PbdZmq.R.Value

/-!
# The sending and the receiving process of a file transfer

Each process is `zmq.sendfile` or `zmq.recvfile` of R, called once per file on
the same socket, down to the statements of `send_file` and `recv_file` in C. The
control points are the calls that reach the socket or a file; everything between
two of them is one resumption. The progress display is left out, as are the buffer
and the FILE themselves. History fields record what the sockets accepted, and no
branch reads them.
-/

namespace PbdZmq.Transfer

/-- The socket types of the documented pairings. -/
inductive SocketType
  | push
  | pull
  | req
  | rep
  deriving DecidableEq, Repr

/-- A libzmq socket. The flag is `receiving_reply` of a REQ and `sending_reply` of
a REP; the one-way sockets leave it unused. -/
structure Sock where
  type : SocketType
  flag : Bool
  deriving DecidableEq, Repr

/-- A fresh socket. -/
def Sock.new (t : SocketType) : Sock := ⟨t, false⟩

/-- The state machines of `req_t` and `rep_t`, without the option `ZMQ_REQ_RELAXED`; a PUSH
only sends and a PULL only receives. -/
def turns : Discipline Sock where
  maySend s := match s.type with
    | .push => true
    | .pull => false
    | .req => !s.flag
    | .rep => s.flag
  mayRecv s := match s.type with
    | .push => false
    | .pull => true
    | .req => s.flag
    | .rep => !s.flag
  sent s := match s.type with
    | .push | .pull => s
    | .req => { s with flag := true }
    | .rep => { s with flag := false }
  received s := match s.type with
    | .push | .pull => s
    | .req => { s with flag := false }
    | .rep => { s with flag := true }

/-- REQ and REP sockets take turns. -/
theorem turns_alternates : turns.Alternates fun k => k.type = .req ∨ k.type = .rep := by
  constructor
  · rintro ⟨type, flag⟩ (rfl | rfl) <;> simp [turns]
  · rintro ⟨type, flag⟩ (rfl | rfl) <;> simp [turns]
  · rintro ⟨type, flag⟩ (rfl | rfl) <;> simp [turns]

/-- Chunk size in bytes. -/
def BUFLEN : Nat := 204800

theorem BUFLEN_pos : 0 < BUFLEN := by decide

/-- A stream opened for reading: the bytes still to be delivered and the end-of-file flag. -/
structure InFile where
  rest : Bytes
  eof : Bool
  deriving DecidableEq, Repr

/-- `fread(buf, 1, n, f)`. A device that fails after `k` bytes stops the read there,
without the end-of-file flag, unless the read was over before. -/
def fread (f : InFile) (n : Nat) (fault : Option Nat) : Bytes × InFile :=
  match fault with
  | some k =>
    if k < n ∧ k ≤ f.rest.length then (f.rest.take k, ⟨f.rest.drop k, f.eof⟩)
    else (f.rest.take n, ⟨f.rest.drop n, f.eof || decide (f.rest.length < n)⟩)
  | none => (f.rest.take n, ⟨f.rest.drop n, f.eof || decide (f.rest.length < n)⟩)

/-- The platforms, as far as their C libraries differ. -/
inductive Platform
  | posix
  | windows
  deriving DecidableEq, Repr

/-- How a stream takes the bytes of its file. -/
inductive StreamMode
  | binary
  | text
  deriving DecidableEq, Repr

/-- `fopen` with the mode "r" or "w", or with "r+b" or "w+b" under `forcebin`: only the C
library of Windows has text streams of its own. -/
def fopen (platform : Platform) (forcebin : Bool) : StreamMode :=
  if platform = .windows ∧ forcebin = false then .text else .binary

/-- What a text stream delivers: the carriage return of a line end is dropped, and the byte 26
ends the file. -/
def textInput : Bytes → Bytes
  | [] => []
  | b :: rest =>
    if b = 26 then []
    else if b = 13 ∧ rest.head? = some 10 then textInput rest
    else b :: textInput rest

/-- What a text stream writes: each line feed gets a carriage return. -/
def textOutput (data : Bytes) : Bytes := data.flatMap fun b => if b = 10 then [13, 10] else [b]

/-- The bytes that reading from a file delivers. -/
def StreamMode.input : StreamMode → Bytes → Bytes
  | .binary, file => file
  | .text, file => textInput file

/-- The bytes that writing data puts into a file. -/
def StreamMode.output : StreamMode → Bytes → Bytes
  | .binary, data => data
  | .text, data => textOutput data

/-- On a POSIX system, and everywhere under `forcebin`, streams are binary. -/
theorem fopen_eq_binary {platform : Platform} {forcebin : Bool}
    (h : platform = .posix ∨ forcebin = true) : fopen platform forcebin = .binary := by
  rcases h with rfl | rfl
  · rfl
  · simp [fopen]

/-- `fwrite(data, 1, size, f)` reports how many bytes it accepted. -/
def fwrite (data : Bytes) (fault : Option Nat) : Nat :=
  match fault with
  | some k => min k data.length
  | none => data.length

/-- `receive.socket` on the reply of the socket: a failed `zmq_msg_recv` leaves an
empty raw vector, which goes to `unserialize` like any message. -/
def receiveSocket {ε : Type} (ser : Serializer ε) : Reply Bytes → Option (RObj ε)
  | .received m => ser.unserialize m
  | .sent | .failed | .io _ => ser.unserialize []

/-- Control points of `zmq.sendfile`, `R_zmq_send_file` and `send_file`. -/
inductive SendPc
  /-- `receive.socket(socket)` of a REP before the header. -/
  | recvRequest
  /-- `send.socket(socket, filesize)`. -/
  | sendHeader
  /-- `receive.socket(socket)` of a REQ after the header. -/
  | recvReply
  /-- `malloc` and `fopen` of `R_zmq_send_file`. -/
  | opening
  /-- `zmq_recv(socket, buf, 1, flags)` of a REP at the top of the loop. -/
  | loopRecv
  /-- `fread(buf, 1, BUFLEN, f->file)`. -/
  | fread
  /-- `zmq_send(socket, buf, size, flags)`. -/
  | loopSend (chunk : Bytes)
  /-- `zmq_recv(socket, buf, 1, flags)` of a REQ at the bottom of the loop. -/
  | loopAck (size : Nat)
  /-- Every call has returned. -/
  | finished
  /-- An R error ended the process. -/
  | raised
  /-- The process was stopped. -/
  | stopped
  deriving DecidableEq, Repr

/-- The sending process. -/
structure Sender where
  /-- `attr(socket, "type")`. -/
  type : SocketType
  /-- The mode in which `fopen` opens the files. -/
  mode : StreamMode
  pc : SendPc
  /-- Content of the file named in the current call. -/
  infile : Bytes
  /-- The stream `f->file`. -/
  stream : InFile
  /-- History: chunks of the current call that `zmq_send` accepted. -/
  sent : List Bytes
  /-- History: acknowledgements received in the loop of the current call. -/
  acks : Nat
  /-- Files of the calls still to come. -/
  later : List Bytes
  /-- History: chunks of each finished call. -/
  log : List (List Bytes)
  deriving DecidableEq, Repr

/-- `zmq.sendfile` up to its first socket call, with its check of the socket type. -/
def Sender.call (s : Sender) (file : Bytes) : Sender :=
  { s with
    infile := file
    sent := []
    acks := 0
    pc := match s.type with
      | .push | .req => .sendHeader
      | .rep => .recvRequest
      | .pull => .raised }

/-- One call of `zmq.sendfile` for each file in turn. -/
def Sender.callNext (s : Sender) : Sender :=
  match s.later with
  | [] => { s with pc := .finished }
  | f :: fs => { s with later := fs }.call f

/-- The sending process before its first call. -/
def Sender.idle (mode : StreamMode) (t : SocketType) (files : List Bytes) : Sender where
  type := t
  mode := mode
  pc := .finished
  infile := []
  stream := ⟨[], false⟩
  sent := []
  acks := 0
  later := files
  log := []

/-- The sending process in its first call. -/
def Sender.start (mode : StreamMode) (t : SocketType) (files : List Bytes) : Sender :=
  (Sender.idle mode t files).callNext

/-- Top of the do-while loop of `send_file`. -/
def Sender.loopTop (s : Sender) : Sender :=
  { s with pc := if s.type = .rep then .loopRecv else .fread }

/-- The loop condition `size == BUFLEN`; otherwise `send_file` and its callers return. -/
def Sender.loopTest (s : Sender) (size : Nat) : Sender :=
  if size = BUFLEN then s.loopTop else { s with log := s.log ++ [s.sent] }.callNext

/-- The size header `as.double(fi$size)` as it goes on the wire. -/
def header {ε : Type} (ser : Serializer ε) (file : Bytes) : Bytes :=
  ser.serialize (.real [.finite file.length])

/-- The call at which the sender stands. -/
def Sender.need {ε : Type} (ser : Serializer ε) (s : Sender) : Need Bytes :=
  match s.pc with
  | .recvRequest | .recvReply | .loopRecv | .loopAck _ => .recv
  | .sendHeader => .send (header ser s.infile)
  | .opening | .fread => .io
  | .loopSend chunk => .send chunk
  | .finished | .raised | .stopped => .halted

/-- The sender from one call to its next. -/
def Sender.resume {ε : Type} (ser : Serializer ε) (s : Sender) (r : Reply Bytes) : Sender :=
  match s.pc with
  | .recvRequest =>
    match receiveSocket ser r with
    | some _ => { s with pc := .sendHeader }
    | none => { s with pc := .raised }
  | .sendHeader => { s with pc := if s.type = .req then .recvReply else .opening }
  | .recvReply =>
    match receiveSocket ser r with
    | some _ => { s with pc := .opening }
    | none => { s with pc := .raised }
  | .opening =>
    match r with
    | .io none => { s with stream := ⟨s.mode.input s.infile, false⟩ }.loopTop
    | _ => { s with pc := .raised }
  | .loopRecv => { s with pc := .fread }
  | .fread =>
    match r with
    | .io fault =>
      let (chunk, f) := Transfer.fread s.stream BUFLEN fault
      if chunk.length < BUFLEN ∧ f.eof = false then { s with stream := f, pc := .raised }
      else { s with stream := f, pc := .loopSend chunk }
    | _ => { s with pc := .raised }
  | .loopSend chunk =>
    match r with
    | .sent =>
      if s.type = .req then { s with sent := s.sent ++ [chunk], pc := .loopAck chunk.length }
      else { s with sent := s.sent ++ [chunk] }.loopTest chunk.length
    | _ => { s with pc := .raised }
  | .loopAck size =>
    match r with
    | .received _ => { s with acks := s.acks + 1 }.loopTest size
    | _ => s.loopTest size
  | .finished | .raised | .stopped => s

/-- The sender as a process. -/
def senderProcess {ε : Type} (ser : Serializer ε) : Process Sender Bytes where
  need := Sender.need ser
  resume := Sender.resume ser
  halt s := { s with pc := .stopped }

/-- Control points of `zmq.recvfile`, `R_zmq_recv_file` and `recv_file`. -/
inductive RecvPc
  /-- `send.socket(socket, NULL)` of a REQ before the header. -/
  | sendRequest
  /-- `filesize <- receive.socket(socket)`. -/
  | recvHeader
  /-- `send.socket(socket, NULL)` of a REP after the header. -/
  | sendReply
  /-- `malloc`, `fopen` and `REAL(filesize_)` of `R_zmq_recv_file`. -/
  | opening
  /-- `zmq_send(socket, buf, 1, flags)` of a REQ at the top of the loop. -/
  | loopSend
  /-- `zmq_recv(socket, buf, BUFLEN, flags)`. -/
  | loopRecv
  /-- `fwrite(buf, 1, size, f->file)` after a receive that returned `expected_size`. -/
  | fwrite (expected_size : Nat)
  /-- `zmq_send(socket, buf, 1, flags)` of a REP at the bottom of the loop. -/
  | loopAck (size : Nat)
  /-- Every call has returned. -/
  | finished
  /-- An R error ended the process. -/
  | raised
  /-- The process was stopped. -/
  | stopped
  deriving DecidableEq, Repr

/-- The receiving process. -/
structure Receiver (ε : Type) where
  /-- `attr(socket, "type")`. -/
  type : SocketType
  pc : RecvPc
  /-- The announced size, as received. -/
  filesize : RObj ε
  /-- The buffer, with whatever `malloc` left in it. -/
  buf : Bytes
  /-- Bytes of the current call that `fwrite` accepted. -/
  out : Bytes
  /-- History: chunks of the current call that `zmq_recv` delivered. -/
  got : List Bytes
  /-- Number of calls still to come. -/
  left : Nat
  /-- Bytes of the finished calls that `fwrite` accepted. -/
  outs : List Bytes
  /-- History: chunks of each finished call. -/
  log : List (List Bytes)
  deriving DecidableEq, Repr

variable {ε : Type}

/-- `zmq.recvfile` up to its first socket call, with its check of the socket type. -/
def Receiver.call (r : Receiver ε) : Receiver ε :=
  { r with
    out := []
    got := []
    pc := match r.type with
      | .pull | .rep => .recvHeader
      | .req => .sendRequest
      | .push => .raised }

/-- One call of `zmq.recvfile` for each file in turn. -/
def Receiver.callNext (r : Receiver ε) : Receiver ε :=
  match r.left with
  | 0 => { r with pc := .finished }
  | n + 1 => { r with left := n }.call

/-- The receiving process before its first call, with arbitrary memory in the buffer. -/
def Receiver.idle (t : SocketType) (count : Nat) (memory : Bytes) : Receiver ε where
  type := t
  pc := .finished
  filesize := .null
  buf := memory
  out := []
  got := []
  left := count
  outs := []
  log := []

/-- The receiving process in its first call. -/
def Receiver.start (t : SocketType) (count : Nat) (memory : Bytes) : Receiver ε :=
  (Receiver.idle t count memory).callNext

/-- Top of the do-while loop of `recv_file`. -/
def Receiver.loopTop (r : Receiver ε) : Receiver ε :=
  { r with pc := if r.type = .req then .loopSend else .loopRecv }

/-- The loop condition `size == BUFLEN`; otherwise `recv_file` and its callers return. -/
def Receiver.loopTest (r : Receiver ε) (size : Nat) : Receiver ε :=
  if size = BUFLEN then r.loopTop
  else { r with outs := r.outs ++ [r.out], log := r.log ++ [r.got] }.callNext

/-- The call at which the receiver stands. -/
def Receiver.need (ser : Serializer ε) (r : Receiver ε) : Need Bytes :=
  match r.pc with
  | .sendRequest | .sendReply => .send (ser.serialize .null)
  | .recvHeader | .loopRecv => .recv
  | .opening | .fwrite _ => .io
  | .loopSend | .loopAck _ => .send (r.buf.take 1)
  | .finished | .raised | .stopped => .halted

/-- The receiver from one call to its next. -/
def Receiver.resume (ser : Serializer ε) (r : Receiver ε) (a : Reply Bytes) : Receiver ε :=
  match r.pc with
  | .sendRequest => { r with pc := .recvHeader }
  | .recvHeader =>
    match receiveSocket ser a with
    | some v => { r with filesize := v, pc := if r.type = .rep then .sendReply else .opening }
    | none => { r with pc := .raised }
  | .sendReply => { r with pc := .opening }
  | .opening =>
    match a, r.filesize with
    | .io none, .real _ => r.loopTop
    | _, _ => { r with pc := .raised }
  | .loopSend => { r with pc := .loopRecv }
  | .loopRecv =>
    match a with
    | .received m =>
      let data := m.take BUFLEN
      { r with buf := data ++ r.buf.drop data.length, got := r.got ++ [m], pc := .fwrite m.length }
    | _ => { r with pc := .raised }
  | .fwrite expected_size =>
    match a with
    | .io fault =>
      let data := r.buf.take (min expected_size BUFLEN)
      let size := Transfer.fwrite data fault
      let r' := { r with out := r.out ++ data.take size }
      if size < expected_size then { r' with pc := .raised }
      else if r.type = .rep then { r' with pc := .loopAck size }
      else r'.loopTest size
    | _ => { r with pc := .raised }
  | .loopAck size => r.loopTest size
  | .finished | .raised | .stopped => r

/-- The receiver as a process. -/
def receiverProcess (ser : Serializer ε) : Process (Receiver ε) Bytes where
  need := Receiver.need ser
  resume := Receiver.resume ser
  halt r := { r with pc := .stopped }

/-- The documented pairings, named by the sender's socket. -/
inductive Pairing
  | pushPull
  | reqRep
  | repReq
  deriving DecidableEq, Repr

/-- The sender's socket type. -/
def Pairing.senderType : Pairing → SocketType
  | .pushPull => .push
  | .reqRep => .req
  | .repReq => .rep

/-- The receiver's socket type. -/
def Pairing.receiverType : Pairing → SocketType
  | .pushPull => .pull
  | .reqRep => .rep
  | .repReq => .req

/-- What the output files of the finished calls hold, in the mode in which `fopen` opens
them. -/
def Receiver.files (mode : StreamMode) (r : Receiver ε) : List Bytes := r.outs.map mode.output

/-- Both processes, their sockets and the messages in flight. -/
abbrev Config (ε : Type) := Duplex Sender (Receiver ε) Sock Bytes

/-- One operation of one process, over queues of capacity `cap`. -/
def step (cap : Nat) (ser : Serializer ε) (c : Config ε) (a : Action) : Option (Config ε) :=
  c.step cap turns (senderProcess ser) (receiverProcess ser) a

/-- Connected fresh sockets and one `zmq.sendfile` and one `zmq.recvfile` per file. -/
def Config.start (reading : StreamMode) (p : Pairing) (files : List Bytes) (memory : Bytes) :
    Config ε where
  left := .start reading p.senderType files
  leftSock := .new p.senderType
  right := .start p.receiverType files.length memory
  rightSock := .new p.receiverType
  fwd := []
  bwd := []

/-- The header exchange is over: both processes enter the C functions. -/
def Config.startC (reading : StreamMode) (p : Pairing) (file : Bytes) (memory : Bytes) :
    Config ε where
  left := { Sender.start reading p.senderType [file] with pc := .opening }
  leftSock := .new p.senderType
  right := { (Receiver.start p.receiverType 1 memory : Receiver ε) with
    pc := .opening, filesize := .real [.finite file.length] }
  rightSock := .new p.receiverType
  fwd := []
  bwd := []

end PbdZmq.Transfer
