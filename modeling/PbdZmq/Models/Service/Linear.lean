import Mathlib.Data.List.ReduceOption
import PbdZmq.Models.Service.Server

/-!
# What the clients of the command server see

Whatever fails and whoever stops, the clients see a server that takes one command at a
time. A log of it accounts for every command that a socket accepted and every value that
a client was given. Later states have longer logs, so that a command sent after another
was answered is also served after it.
-/

namespace PbdZmq.Service

open Transfer (Sock turns)

variable {ε σ ι : Type}

/-- A queue holds the serialized objects of a list. -/
structure Queued (ser : Serializer ε) (queue : List Bytes) (xs : List (RObj ε)) : Prop where
  eq_map : queue = xs.map ser.serialize
  sendable : ∀ x ∈ xs, Sendable ser x = true

theorem Queued.nil (ser : Serializer ε) : Queued ser [] [] := ⟨rfl, nofun⟩

/-- One more object at the end of a queue. -/
theorem Queued.concat {ser : Serializer ε} {queue : List Bytes} {xs : List (RObj ε)}
    (h : Queued ser queue xs) {x : RObj ε} (hx : Sendable ser x = true) :
    Queued ser (queue ++ [ser.serialize x]) (xs ++ [x]) := by
  refine ⟨by rw [h.eq_map, List.map_append, List.map_singleton], fun y hy => ?_⟩
  rcases List.mem_append.mp hy with hy | hy
  · exact h.sendable y hy
  · exact List.mem_singleton.mp hy ▸ hx

/-- The first message of a queue is the first object. -/
theorem Queued.uncons {ser : Serializer ε} {m : Bytes} {rest : List Bytes} {xs : List (RObj ε)}
    (h : Queued ser (m :: rest) xs) :
    ∃ x xs', xs = x :: xs' ∧ m = ser.serialize x ∧ Sendable ser x = true ∧
      Queued ser rest xs' := by
  cases xs with
  | nil => exact absurd h.eq_map (by simp)
  | cons x xs' =>
    obtain ⟨hm, hrest⟩ := List.cons.inj h.eq_map
    exact ⟨x, xs', rfl, hm, h.sendable x List.mem_cons_self,
      hrest, fun y hy => h.sendable y (List.mem_cons_of_mem x hy)⟩

/-- An object that can be sent is received as it was sent. -/
theorem zmqMsgRecv_received {ser : Serializer ε} {x : RObj ε} (h : Sendable ser x = true) :
    zmqMsgRecv ser (.received (ser.serialize x)) = some x := by
  refine Multipart.zmqMsgRecv_serialize ser (Nat.not_lt.mp fun hlong => ?_)
  simp [Sendable, Multipart.payload, hlong] at h

/-- A call that receives nothing is an error if R refuses to unserialize nothing. -/
theorem zmqMsgRecv_alone {ser : Serializer ε} (hser : ser.unserialize [] = none)
    {r : Reply Bytes} (hr : r = .failed ∨ ∃ fault, r = .io fault) : zmqMsgRecv ser r = none := by
  have hempty : Multipart.zmqMsgRecv ser true [] = none := by
    simp [Multipart.zmqMsgRecv, Multipart.R_zmq_msg_recv, hser]
  rcases hr with rfl | ⟨fault, rfl⟩ <;> exact hempty

/-- `data` of the calls that have not reached the socket. -/
def Client.remaining (k : Client ε) : List (RObj ε) :=
  match k.pc with
  | .send data => data :: k.later
  | .recv | .finished | .stopped => k.later

/-- A client sends the arguments of its calls in order, and only what can be sent. -/
structure Client.Follows (ser : Serializer ε) (program : List (RObj ε)) (k : Client ε) : Prop where
  sendable : ∀ data, k.pc = .send data → Sendable ser data = true
  sublist : (k.asked ++ k.remaining).Sublist program

/-- Calls that do not reach the socket give no value and ask nothing. -/
theorem Client.calls_spec (ser : Serializer ε) (k : Client ε) (program : List (RObj ε)) :
    (k.calls ser program).values.reduceOption = k.values.reduceOption ∧
      (k.calls ser program).asked = k.asked ∧
      (∀ data, (k.calls ser program).pc = .send data → Sendable ser data = true) ∧
      ((k.calls ser program).remaining).Sublist program := by
  induction program generalizing k with
  | nil => exact ⟨rfl, rfl, nofun, List.Sublist.refl []⟩
  | cons data rest ih =>
    rw [calls]
    split
    · rename_i hs
      exact ⟨rfl, rfl, by rintro _ ⟨⟩; exact hs, List.Sublist.refl _⟩
    · obtain ⟨hvalues, hasked, hsend, hsub⟩ := ih { k with values := k.values ++ [none] }
      refine ⟨hvalues.trans ?_, hasked, hsend, hsub.cons data⟩
      rw [List.reduceOption_append, List.reduceOption_cons_of_none, List.reduceOption_nil,
        List.append_nil]

/-- A log accounts for one client: for what its socket accepted and what it was given. The
answers that the server still owes it are apart. -/
structure Accounts (ser : Serializer ε) (program asks answers owed : List (RObj ε))
    (e : Endpoint (Client ε) Sock Bytes) : Prop where
  requests : ∃ waiting, Queued ser e.outbox waiting ∧ e.proc.asked = asks ++ waiting
  values : ∃ flying, Queued ser e.inbox flying ∧
    e.proc.values.reduceOption ++ flying ++ owed = answers
  follows : e.proc.Follows ser program

/-- A client before its first call has nothing to account for. -/
theorem Accounts.start (ser : Serializer ε) (program : List (RObj ε)) (k : Sock) :
    Accounts ser program [] [] [] ⟨.start ser program, k, [], []⟩ := by
  obtain ⟨hvalues, hasked, hsend, hsub⟩ :=
    Client.calls_spec ser ⟨.finished, [], [], []⟩ program
  refine ⟨⟨[], .nil ser, hasked⟩, ⟨[], .nil ser, ?_⟩, hsend, ?_⟩
  · rw [Client.start, hvalues]
    rfl
  · rw [Client.start, hasked]
    exact hsub

/-- The end of a call of `sendrecv`. -/
theorem Client.resume_recv (ser : Serializer ε) {k : Client ε} (h : k.pc = .recv)
    (r : Reply Bytes) :
    k.resume ser r = { k with values := k.values ++ [zmqMsgRecv ser r] }.calls ser k.later := by
  obtain ⟨pc, later, values, asked⟩ := k
  obtain rfl : pc = .recv := h
  rfl

/-- The end of a call of `sendrecv` adds its value, and the next calls begin. -/
theorem Client.Follows.returned {ser : Serializer ε} {program : List (RObj ε)} {k : Client ε}
    (h : k.Follows ser program) (hpc : k.pc = .recv) (r : Reply Bytes) :
    (k.resume ser r).Follows ser program ∧ (k.resume ser r).asked = k.asked ∧
      (k.resume ser r).values.reduceOption =
        k.values.reduceOption ++ (zmqMsgRecv ser r).toList := by
  obtain ⟨hvalues, hasked, hsend, hsub⟩ :=
    calls_spec ser { k with values := k.values ++ [zmqMsgRecv ser r] } k.later
  have hprogram := h.sublist
  simp only [remaining, hpc] at hprogram
  rw [resume_recv ser hpc]
  refine ⟨⟨hsend, ?_⟩, hasked, ?_⟩
  · rw [hasked]
    exact ((List.Sublist.refl _).append hsub).trans hprogram
  · rw [hvalues, List.reduceOption_append]
    cases zmqMsgRecv ser r <;> rfl

theorem Client.pc_of_send {ser : Serializer ε} {k : Client ε} {m : Bytes}
    (h : k.need ser = .send m) : ∃ data, k.pc = .send data ∧ m = ser.serialize data := by
  cases hpc : k.pc with
  | send data => exact ⟨data, rfl, by simpa [need, hpc] using h.symm⟩
  | recv | finished | stopped => simp [need, hpc] at h

theorem Client.pc_of_recv {ser : Serializer ε} {k : Client ε} (h : k.need ser = .recv) :
    k.pc = .recv := by
  cases hpc : k.pc with
  | recv => rfl
  | send | finished | stopped => simp [need, hpc] at h

section

variable {ser : Serializer ε} {program asks answers owed : List (RObj ε)}
  {e : Endpoint (Client ε) Sock Bytes}

/-- The socket accepts a command. -/
theorem Accounts.ask (h : Accounts ser program asks answers owed e) {m : Bytes} {k : Sock}
    (hn : e.proc.need ser = .send m) :
    Accounts ser program asks answers owed ⟨e.proc.resume ser .sent, k, e.inbox,
      e.outbox ++ [m]⟩ := by
  obtain ⟨data, hpc, rfl⟩ := Client.pc_of_send hn
  obtain ⟨waiting, hqueue, hasked⟩ := h.requests
  have hsend := h.follows.sendable data hpc
  have hsub := h.follows.sublist
  simp only [Client.remaining, hpc] at hsub
  simp only [Client.resume, hpc]
  refine ⟨⟨waiting ++ [data], hqueue.concat hsend, ?_⟩, h.values, nofun, ?_⟩
  · rw [hasked, List.append_assoc]
  · simpa only [Client.remaining, List.append_assoc, List.singleton_append] using hsub

/-- The client receives an answer. -/
theorem Accounts.collect (h : Accounts ser program asks answers owed e) {m : Bytes}
    {rest : List Bytes} {k : Sock} (hn : e.proc.need ser = .recv) (hin : e.inbox = m :: rest) :
    Accounts ser program asks answers owed ⟨e.proc.resume ser (.received m), k, rest,
      e.outbox⟩ := by
  have hpc := Client.pc_of_recv hn
  obtain ⟨flying, hqueue, hvalues⟩ := h.values
  obtain ⟨x, flying', rfl, rfl, hx, hrest⟩ := Queued.uncons (hin ▸ hqueue)
  obtain ⟨hfollows, hasked, hreturned⟩ :=
    h.follows.returned hpc (.received (ser.serialize x))
  refine ⟨?_, ⟨flying', hrest, ?_⟩, hfollows⟩
  · rw [hasked]
    exact h.requests
  · rw [hreturned, zmqMsgRecv_received hx, ← hvalues, Option.toList_some,
      List.append_assoc _ [x], List.singleton_append]

/-- A call of the client fails. -/
theorem Accounts.alone (h : Accounts ser program asks answers owed e)
    (hser : ser.unserialize [] = none) {r : Reply Bytes} (hr : r = .failed ∨ ∃ fault, r = .io fault)
    (hn : e.proc.need ser ≠ .halted) :
    Accounts ser program asks answers owed { e with proc := e.proc.resume ser r } := by
  cases hpc : e.proc.pc with
  | send data =>
    have hsub := h.follows.sublist
    simp only [Client.remaining, hpc] at hsub
    have hresume : e.proc.resume ser r = { e.proc with pc := .recv } := by
      rcases hr with rfl | ⟨fault, rfl⟩ <;> simp [Client.resume, hpc]
    rw [hresume]
    exact ⟨h.requests, h.values, nofun,
      ((List.Sublist.refl _).append (List.sublist_cons_self _ _)).trans hsub⟩
  | recv =>
    obtain ⟨hfollows, hasked, hreturned⟩ := h.follows.returned hpc r
    refine ⟨?_, ?_, hfollows⟩
    · rw [hasked]
      exact h.requests
    · rw [hreturned, zmqMsgRecv_alone hser hr, Option.toList_none, List.append_nil]
      exact h.values
  | finished | stopped => simp [Client.need, hpc] at hn

/-- The client is stopped. -/
theorem Accounts.ends (h : Accounts ser program asks answers owed e) :
    Accounts ser program asks answers owed { e with proc := { e.proc with pc := .stopped } } := by
  refine ⟨h.requests, h.values, nofun, List.Sublist.trans ?_ h.follows.sublist⟩
  refine (List.Sublist.refl _).append ?_
  cases hpc : e.proc.pc with
  | send data =>
    simp only [Client.remaining, hpc]
    exact List.sublist_cons_self _ _
  | recv | finished | stopped =>
    simp only [Client.remaining, hpc]
    exact List.Sublist.refl _

/-- The server takes a command and comes to owe its answer. -/
theorem Accounts.taken (h : Accounts ser program asks answers [] e) {m : Bytes}
    {rest : List Bytes} (hout : e.outbox = m :: rest) :
    ∃ x, zmqMsgRecv ser (.received m) = some x ∧ ∀ told : List (RObj ε),
      Accounts ser program (asks ++ [x]) (answers ++ told) told { e with outbox := rest } := by
  obtain ⟨waiting, hqueue, hasked⟩ := h.requests
  obtain ⟨flying, hflying, hvalues⟩ := h.values
  obtain ⟨x, waiting', rfl, rfl, hx, hrest⟩ := Queued.uncons (hout ▸ hqueue)
  refine ⟨x, zmqMsgRecv_received hx, fun told => ⟨⟨waiting', hrest, ?_⟩, ⟨flying, hflying, ?_⟩,
    h.follows⟩⟩
  · rw [hasked, List.append_assoc, List.singleton_append]
  · rw [← hvalues, List.append_nil]

/-- The server sends the answer that it owes. -/
theorem Accounts.answered {x : RObj ε} (h : Accounts ser program asks answers [x] e)
    (hx : Sendable ser x = true) :
    Accounts ser program asks answers []
      { e with inbox := e.inbox ++ [ser.serialize x] } := by
  obtain ⟨flying, hflying, hvalues⟩ := h.values
  refine ⟨h.requests, ⟨flying ++ [x], hflying.concat hx, ?_⟩, h.follows⟩
  rw [← hvalues, List.append_nil, List.append_assoc]

end

/-- The answer that the server is about to send. -/
def Server.holds (R : Interpreter ε σ) (s : Server ε σ) : Option (RObj ε) :=
  match s.pc with
  | .send result => some result
  | .farewell => some R.farewell
  | .recv | .finished | .raised | .recvRaised | .stopped => none

/-- The server will take another command. -/
def Server.Serving (s : Server ε σ) : Prop := s.pc = .recv ∨ ∃ result, s.pc = .send result

/-- A command has ended the loop of the server. -/
def Server.Ended (s : Server ε σ) : Prop :=
  s.pc = .farewell ∨ s.pc = .finished ∨ s.pc = .raised

theorem Server.pc_of_send {ser : Serializer ε} {R : Interpreter ε σ} {s : Server ε σ} {m : Bytes}
    (h : s.need ser R = .send m) : ∃ x, s.holds R = some x ∧ m = ser.serialize x := by
  cases hpc : s.pc with
  | send result => exact ⟨result, by simp [holds, hpc], by simpa [need, hpc] using h.symm⟩
  | farewell => exact ⟨R.farewell, by simp [holds, hpc], by simpa [need, hpc] using h.symm⟩
  | recv | finished | raised | recvRaised | stopped => simp [need, hpc] at h

theorem Server.pc_of_recv {ser : Serializer ε} {R : Interpreter ε σ} {s : Server ε σ}
    (h : s.need ser R = .recv) : s.pc = .recv := by
  cases hpc : s.pc with
  | recv => rfl
  | send | farewell | finished | raised | recvRaised | stopped => simp [need, hpc] at h

/-- The loop behind its receive. -/
theorem Server.resume_recv (ser : Serializer ε) (R : Interpreter ε σ) {s : Server ε σ}
    (h : s.pc = .recv) (r : Reply Bytes) :
    s.resume ser R r = s.receive ser R (zmqMsgRecv ser r) := by
  obtain ⟨pc, workspace⟩ := s
  obtain rfl : pc = .recv := h
  rfl

/-- The server owes the answer that it holds to the client it received from last. -/
structure Owing (ser : Serializer ε) (R : Interpreter ε σ) (c : Config ι ε σ)
    (owed : ι → List (RObj ε)) : Prop where
  sock : c.hubSock.type = .rep
  clear : c.hub.pc = .recv → turns.mayRecv c.hubSock = true → ∀ i, owed i = []
  held : ∀ x, c.hub.holds R = some x → Sendable ser x = true ∧ turns.maySend c.hubSock = true ∧
    ∃ p, c.peer = some p ∧ owed p = [x] ∧ ∀ i, i ≠ p → owed i = []

variable [DecidableEq ι]

/-- A log of the server accounts for all clients. -/
structure Accounted (ser : Serializer ε) (R : Interpreter ε σ) (workspace : σ)
    (program : ι → List (RObj ε)) (c : Config ι ε σ) (log : List (Served ι (RObj ε) (RObj ε)))
    (owed : ι → List (RObj ε)) : Prop where
  served : ∃ o, Serves (R.respond ser) workspace log o ∧
    (c.hub.Serving → o = some c.hub.workspace) ∧ (c.hub.Ended → o = none)
  clients : ∀ i, Accounts ser (program i) (requestsOf i log) (answersOf i log) (owed i) (c.spoke i)
  owing : Owing ser R c owed

section

variable {ser : Serializer ε} {R : Interpreter ε σ} {workspace : σ} {program : ι → List (RObj ε)}
  {c d : Config ι ε σ} {log : List (Served ι (RObj ε) (RObj ε))} {owed : ι → List (RObj ε)}

/-- The empty log accounts for the start. -/
theorem Accounted.start (ser : Serializer ε) (R : Interpreter ε σ) (workspace : σ)
    (program : ι → List (RObj ε)) :
    Accounted ser R workspace program (.start ser workspace program) [] fun _ => [] where
  served := ⟨_, .init, fun _ => rfl, by simp [Config.start, Server.Ended]⟩
  clients i := .start ser (program i) _
  owing := ⟨rfl, fun _ _ _ => rfl, nofun⟩

/-- A client moves. -/
theorem Accounted.setSpoke (h : Accounted ser R workspace program c log owed) {i : ι}
    {e : Endpoint (Client ε) Sock Bytes}
    (he : Accounts ser (program i) (requestsOf i log) (answersOf i log) (owed i) e) :
    Accounted ser R workspace program (c.setSpoke i e) log owed where
  served := h.served
  clients := (Function.forall_update_iff c.spoke fun j e =>
    Accounts ser (program j) (requestsOf j log) (answersOf j log) (owed j) e).mpr
      ⟨he, fun j _ => h.clients j⟩
  owing := ⟨h.owing.sock, h.owing.clear, h.owing.held⟩

/-- The hub and its socket after it has taken a message of a spoke. -/
def taken (c : Config ι ε σ) (i : ι) (rest : List Bytes) (s : Server ε σ) : Config ι ε σ :=
  ⟨s, turns.received c.hubSock, some i,
    Function.update c.spoke i { c.spoke i with outbox := rest }⟩

/-- The log grows by the command that the server takes, with the answer of the object. -/
theorem Accounted.grow (h : Accounted ser R workspace program c log owed) {i : ι} {m : Bytes}
    {rest : List Bytes} {x : RObj ε} {s : Server ε σ} (hpc : c.hub.pc = .recv)
    (ht : turns.mayRecv c.hubSock = true) (hout : (c.spoke i).outbox = m :: rest)
    (hx : zmqMsgRecv ser (.received m) = some x)
    (howing : Owing ser R (taken c i rest s)
      (Function.update (fun _ => []) i (R.respond ser c.hub.workspace x).told.toList))
    (hnext : s.Serving → (R.respond ser c.hub.workspace x).next = some s.workspace)
    (hended : s.Ended → (R.respond ser c.hub.workspace x).next = none) :
    Accounted ser R workspace program (taken c i rest s)
      (log ++ [⟨i, x, (R.respond ser c.hub.workspace x).told⟩])
      (Function.update (fun _ => []) i (R.respond ser c.hub.workspace x).told.toList) := by
  have hclear := h.owing.clear hpc ht
  obtain ⟨o, hserves, hserving, -⟩ := h.served
  obtain rfl := hserving (Or.inl hpc)
  obtain ⟨y, hy, htaken⟩ := (hclear i ▸ h.clients i).taken hout
  obtain rfl : x = y := Option.some.inj (hx.symm.trans hy)
  refine ⟨⟨_, .serve i x hserves, hnext, hended⟩, ?_, howing⟩
  refine (Function.forall_update_iff c.spoke fun j e => Accounts ser (program j)
    (requestsOf j _) (answersOf j _) (Function.update (fun _ => []) i _ j) e).mpr
      ⟨?_, fun j hj => ?_⟩
  · rw [requestsOf_concat_self, answersOf_concat_self, Function.update_self]
    exact htaken _
  · rw [requestsOf_concat_of_ne hj.symm, answersOf_concat_of_ne hj.symm,
      Function.update_of_ne hj]
    exact hclear j ▸ h.clients j

/-- A server that holds an answer for the client it has just received from. -/
theorem owing_taken (hrep : c.hubSock.type = .rep) {i : ι} {rest : List Bytes}
    {s : Server ε σ} {x : RObj ε} (hpc : s.pc ≠ .recv) (hs : Sendable ser x = true)
    (hx : s.holds R = some x) :
    Owing ser R (taken c i rest s) (Function.update (fun _ => []) i [x]) := by
  refine ⟨?_, fun hr => absurd hr hpc, fun y hy => ?_⟩
  · simp [taken, turns, hrep]
  · obtain rfl : x = y := Option.some.inj (hx.symm.trans hy)
    refine ⟨hs, by simp [taken, turns, hrep], i, rfl, Function.update_self .., ?_⟩
    exact fun j hj => Function.update_of_ne hj ..

/-- The server takes a command. -/
theorem Accounted.take (h : Accounted ser R workspace program c log owed) {i : ι} {m : Bytes}
    {rest : List Bytes} (hpc : c.hub.pc = .recv) (ht : turns.mayRecv c.hubSock = true)
    (hout : (c.spoke i).outbox = m :: rest) :
    ∃ more owed', Accounted ser R workspace program
      (taken c i rest (c.hub.resume ser R (.received m))) (log ++ more) owed' := by
  have hrep := h.owing.sock
  obtain ⟨x, hx, -⟩ := (h.owing.clear hpc ht i ▸ h.clients i).taken hout
  have hresume : c.hub.resume ser R (.received m) = c.hub.handle ser R x := by
    rw [Server.resume_recv ser R hpc, hx]
    rfl
  rw [hresume]
  refine ⟨_, _, h.grow hpc ht hout hx ?_ ?_ ?_⟩
  · rcases Server.handle_cases ser R c.hub x with ⟨result, ws, hr, hs, hh⟩ | ⟨hr, hs, hh⟩ |
      ⟨hr, hh⟩
    · rw [hr, hh]
      exact owing_taken hrep (by simp) hs rfl
    · rw [hr, hh]
      exact owing_taken hrep (by simp) hs rfl
    · refine ⟨by simp [taken, turns, hrep], fun hl => ?_, fun y hy => ?_⟩
      · simp [taken, hh] at hl
      · simp [taken, Server.holds, hh] at hy
  · intro hl
    rcases Server.handle_cases ser R c.hub x with ⟨result, ws, hr, hs, hh⟩ | ⟨hr, hs, hh⟩ |
      ⟨hr, hh⟩
    · rw [hr, hh]
      rfl
    · simp [hh, Server.Serving] at hl
    · simp [hh, Server.Serving] at hl
  · intro hl
    rcases Server.handle_cases ser R c.hub x with ⟨result, ws, hr, hs, hh⟩ | ⟨hr, hs, hh⟩ |
      ⟨hr, hh⟩
    · simp [hh, Server.Ended] at hl
    · rw [hr]
      rfl
    · rw [hr]
      rfl

/-- The server sends the answer that it owes. -/
theorem Accounted.answer (h : Accounted ser R workspace program c log owed) {i : ι} {m : Bytes}
    (hn : c.hub.need ser R = .send m) (hpeer : c.peer = some i) :
    Accounted ser R workspace program ⟨c.hub.resume ser R .sent, turns.sent c.hubSock, c.peer,
      Function.update c.spoke i { c.spoke i with inbox := (c.spoke i).inbox ++ [m] }⟩ log
      fun _ => [] := by
  obtain ⟨x, hx, rfl⟩ := Server.pc_of_send hn
  obtain ⟨hs, -, p, hp, howed, hothers⟩ := h.owing.held x hx
  obtain rfl : i = p := Option.some.inj (hpeer.symm.trans hp)
  obtain ⟨o, hserves, hserving, hended⟩ := h.served
  have hheld : ∀ y, (c.hub.resume ser R .sent).holds R ≠ some y := by
    intro y
    cases hpc : c.hub.pc <;> simp [Server.holds, hpc] at hx <;>
      simp [Server.resume, hpc, Server.holds]
  refine ⟨⟨o, hserves, fun hl => ?_, fun hl => hended ?_⟩, ?_, ?_, fun _ _ _ => rfl,
    fun y hy => absurd hy (hheld y)⟩
  · have hl' : c.hub.Serving ∧ (c.hub.resume ser R .sent).workspace = c.hub.workspace := by
      cases hpc : c.hub.pc <;> simp [Server.holds, hpc] at hx <;>
        simp [Server.resume, hpc, Server.Serving] at hl ⊢
    rw [hl'.2]
    exact hserving hl'.1
  · cases hpc : c.hub.pc <;> simp [Server.holds, hpc] at hx <;>
      simp [Server.resume, hpc, Server.Ended] at hl ⊢
  · refine (Function.forall_update_iff c.spoke fun j e => Accounts ser (program j)
      (requestsOf j log) (answersOf j log) [] e).mpr ⟨?_, fun j hj => ?_⟩
    · exact (howed ▸ h.clients i).answered hs
    · exact hothers j hj ▸ h.clients j
  · simp [turns, h.owing.sock]

/-- A call of the server fails. -/
theorem Accounted.hubAlone (h : Accounted ser R workspace program c log owed)
    (hser : ser.unserialize [] = none) {r : Reply Bytes} (hr : r = .failed ∨ ∃ fault, r = .io fault)
    (hn : c.hub.need ser R ≠ .halted) :
    Accounted ser R workspace program { c with hub := c.hub.resume ser R r } log owed := by
  obtain ⟨o, hserves, hserving, hended⟩ := h.served
  cases hpc : c.hub.pc with
  | recv =>
    have hresume : c.hub.resume ser R r = { c.hub with pc := .recvRaised } := by
      rw [Server.resume_recv ser R hpc, zmqMsgRecv_alone hser hr]
      rfl
    rw [hresume]
    exact ⟨⟨o, hserves, by simp [Server.Serving], by simp [Server.Ended]⟩, h.clients,
      h.owing.sock, by simp, by simp [Server.holds]⟩
  | send result =>
    obtain ⟨-, ht, -⟩ := h.owing.held result (by simp [Server.holds, hpc])
    have hresume : c.hub.resume ser R r = { c.hub with pc := .recv } := by
      simp [Server.resume, hpc]
    have hturn : turns.mayRecv c.hubSock = false := by
      have hrep := h.owing.sock
      simpa [turns, hrep] using ht
    rw [hresume]
    exact ⟨⟨o, hserves, fun _ => hserving (Or.inr ⟨result, hpc⟩), by simp [Server.Ended]⟩,
      h.clients, h.owing.sock, by simp [hturn], by simp [Server.holds]⟩
  | farewell =>
    have hresume : c.hub.resume ser R r = { c.hub with pc := .finished } := by
      simp [Server.resume, hpc]
    rw [hresume]
    exact ⟨⟨o, hserves, by simp [Server.Serving], fun _ => hended (Or.inl hpc)⟩, h.clients,
      h.owing.sock, by simp, by simp [Server.holds]⟩
  | finished | raised | recvRaised | stopped => simp [Server.need, hpc] at hn

/-- One step: the log grows by the command that the step serves, if any. -/
theorem Accounted.step (h : Accounted ser R workspace program c log owed)
    (hser : ser.unserialize [] = none) {cap : Nat} {a : StarAction ι}
    (hs : Service.step cap ser R c a = some d) :
    ∃ more owed', Accounted ser R workspace program d (log ++ more) owed' := by
  have keep : ∀ {d owed'}, Accounted ser R workspace program d log owed' →
      ∃ more owed', Accounted ser R workspace program d (log ++ more) owed' :=
    fun hd => ⟨[], _, (List.append_nil log).symm ▸ hd⟩
  cases Star.stepped_of_step hs with
  | ask hn _ => exact keep (h.setSpoke ((h.clients _).ask hn))
  | collect hn _ hin => exact keep (h.setSpoke ((h.clients _).collect hn hin))
  | spokeAlone hr hn _ => exact keep (h.setSpoke ((h.clients _).alone hser hr hn))
  | spokeEnds => exact keep (h.setSpoke (h.clients _).ends)
  | take hn ht hout => exact h.take (Server.pc_of_recv hn) ht hout
  | answer hn _ hpeer => exact keep (h.answer hn hpeer)
  | hubAlone hr hn _ => exact keep (h.hubAlone hser hr hn)
  | hubEnds =>
    obtain ⟨o, hserves, -⟩ := h.served
    exact keep ⟨⟨o, hserves, by simp [Server.Serving, serverProcess],
      by simp [Server.Ended, serverProcess]⟩, h.clients, h.owing.sock, by simp [serverProcess],
      by simp [Server.holds, serverProcess]⟩

/-- A run from a state with a log: later states have longer logs. -/
theorem Accounted.reach (h : Accounted ser R workspace program c log owed)
    (hser : ser.unserialize [] = none) {cap : Nat} {guard : Config ι ε σ → StarAction ι → Prop}
    (hd : Reach (Fires (Service.step cap ser R)) guard c d) :
    ∃ more owed', Accounted ser R workspace program d (log ++ more) owed' := by
  refine hd.invariant (I := fun d => ∃ more owed', Accounted ser R workspace program d
    (log ++ more) owed') ⟨[], owed, (List.append_nil log).symm ▸ h⟩ ?_
  rintro s a t ⟨more, owed', hs⟩ - hstep
  obtain ⟨more', owed'', ht⟩ := hs.step hser hstep
  exact ⟨more ++ more', owed'', List.append_assoc log more more' ▸ ht⟩

end

/-- A log of the server explains a state: the server has the workspace behind the log, or
the last command of the log has ended it; every
command that a socket accepted is in the log or waits, and every value that a client was
given is an answer in the log, in the order of its calls. A client never has more than
one message under way. -/
structure Explains (ser : Serializer ε) (R : Interpreter ε σ) (workspace : σ)
    (program : ι → List (RObj ε)) (c : Config ι ε σ) (log : List (Served ι (RObj ε) (RObj ε))) :
    Prop where
  served : ∃ o, Serves (R.respond ser) workspace log o ∧
    (c.hub.Serving → o = some c.hub.workspace) ∧ (c.hub.Ended → o = none)
  requests : ∀ i, ∃ waiting, (c.spoke i).outbox = waiting.map ser.serialize ∧
    (c.spoke i).proc.asked = requestsOf i log ++ waiting
  values : ∀ i, ∃ flying, (c.spoke i).inbox = flying.map ser.serialize ∧
    (c.spoke i).proc.values.reduceOption ++ flying <+: answersOf i log
  program : ∀ i, ((c.spoke i).proc.asked).Sublist (program i)
  single : ∀ i, (c.spoke i).outbox.length + (c.spoke i).inbox.length ≤ 1

/-- The sockets of the start take turns, and each client has the right to send. -/
theorem tokens_reach {ser : Serializer ε} {R : Interpreter ε σ} {workspace : σ}
    {program : ι → List (RObj ε)} {cap : Nat} {guard : Config ι ε σ → StarAction ι → Prop}
    {c : Config ι ε σ}
    (h : Reach (Fires (step cap ser R)) guard (.start ser workspace program) c) :
    (c.Socks fun k => k.type = .req ∨ k.type = .rep) ∧ ∀ i, c.tokens turns i = 1 := by
  refine h.invariant (I := fun c => (c.Socks fun k => k.type = .req ∨ k.type = .rep) ∧
    ∀ i, c.tokens turns i = 1) ⟨⟨Or.inr rfl, fun i => Or.inl rfl⟩, fun i => rfl⟩ ?_
  rintro s a t ⟨hA, htokens⟩ - hstep
  obtain ⟨hA', hkeep⟩ :=
    Star.tokens_step Transfer.turns_alternates (Star.stepped_of_step hstep) hA
  exact ⟨hA', fun i => (hkeep i).trans (htokens i)⟩

/-- What accounts for the clients explains the state. -/
theorem Accounted.explains {ser : Serializer ε} {R : Interpreter ε σ} {workspace : σ}
    {program : ι → List (RObj ε)} {c : Config ι ε σ} {log : List (Served ι (RObj ε) (RObj ε))}
    {owed : ι → List (RObj ε)} (h : Accounted ser R workspace program c log owed)
    (htokens : ∀ i, c.tokens turns i = 1) : Explains ser R workspace program c log where
  served := h.served
  requests i := by
    obtain ⟨waiting, hqueue, hasked⟩ := (h.clients i).requests
    exact ⟨waiting, hqueue.eq_map, hasked⟩
  values i := by
    obtain ⟨flying, hqueue, hvalues⟩ := (h.clients i).values
    exact ⟨flying, hqueue.eq_map, owed i, hvalues⟩
  program i := (List.sublist_append_left _ _).trans (h.clients i).follows.sublist
  single i := by
    have hone := htokens i
    simp only [Star.tokens, Endpoint.tokens] at hone
    omega

/-- Whatever fails and whoever stops, at any two moments of a run the clients see a server
that serves one command at a time, the log of the later moment continuing the other. -/
theorem linearizable (ser : Serializer ε) (hser : ser.unserialize [] = none)
    (R : Interpreter ε σ) (workspace : σ) (program : ι → List (RObj ε)) (cap : Nat)
    {c d : Config ι ε σ}
    (hc : Reach (Fires (step cap ser R)) (fun _ _ => True) (.start ser workspace program) c)
    (hd : Reach (Fires (step cap ser R)) (fun _ _ => True) c d) :
    ∃ log more, Explains ser R workspace program c log ∧
      Explains ser R workspace program d (log ++ more) := by
  obtain ⟨log, owed, hlog⟩ := (Accounted.start ser R workspace program).reach hser hc
  obtain ⟨more, owed', hmore⟩ := hlog.reach hser hd
  exact ⟨log, more, hlog.explains (tokens_reach hc).2,
    hmore.explains (tokens_reach (hc.trans hd)).2⟩

/-- An interpreter that gives commands back, counts them, and takes `NULL` for `EXIT`. -/
def Interpreter.counting : Interpreter Empty Nat where
  prints _ := true
  isExit msg := some (decide (msg = .null))
  eval n msg := some (msg, n + 1)
  farewell := .raw [0]

/-- Two clients are served by turns; the receive of one of them fails. -/
theorem linearizable_run : ∃ c, (c.hub.workspace = 2 ∧ c.hub.pc = .finished) ∧
    ∃ log more, Explains Serializer.basic .counting 0 (fun i : Bool => [.raw [i.toNat.toUInt8],
      .null]) c log ∧ Explains Serializer.basic .counting 0 (fun i : Bool =>
        [.raw [i.toNat.toUInt8], .null]) c (log ++ more) := by
  obtain ⟨c, hc, hp⟩ := exists_reach_of_exec (step 1 Serializer.basic .counting) (fun _ _ => true)
    (Config.start Serializer.basic 0 fun i : Bool => [.raw [i.toNat.toUInt8], .null])
    [.spoke true .proceed, .spoke false .proceed, .hub false .proceed, .hub false .proceed,
      .spoke true .fail, .hub true .proceed, .hub true .proceed, .spoke false .proceed,
      .spoke false .proceed, .hub false .proceed, .hub false .proceed]
    (fun c => c.hub.workspace = 2 ∧ c.hub.pc = .finished) (by decide)
  exact ⟨c, by simpa using hp, linearizable Serializer.basic rfl .counting 0 _ 1
    (hc.mono fun _ _ _ => trivial) .init⟩

end PbdZmq.Service
