import Mathlib.Algebra.BigOperators.Ring.Finset
import Mathlib.Algebra.Order.BigOperators.Group.Finset
import PbdZmq.Core.Family
import PbdZmq.Models.Service.Linear

/-!
# Calls without failures

If no call fails and nobody is stopped, sends and receives alternate on every socket. The
value of a call is then the answer to the command of the same call, and the only ways to
come to a rest are that all calls have been answered or that a command has ended the
server. No run goes on for ever, whether calls fail or not.
-/

namespace PbdZmq.Service

open Transfer (Sock turns)

variable {ε σ ι : Type}

/-- A client whose calls all came back with a value. -/
structure Client.InStep (program : List (RObj ε)) (e : Endpoint (Client ε) Sock Bytes) : Prop where
  type : e.sock.type = .req
  /-- Its calls come in order. -/
  order : e.proc.asked ++ e.proc.remaining = program
  /-- Every call that has ended gave a value. -/
  valued : ∀ v ∈ e.proc.values, v.isSome
  /-- A call that waits for its answer is the only one without a value. -/
  turn : (e.proc.pc = .recv ∧ e.sock.flag = true ∧
      e.proc.values.length + 1 = e.proc.asked.length) ∨
    (e.proc.pc ≠ .recv ∧ e.sock.flag = false ∧ e.proc.values.length = e.proc.asked.length)
  alive : e.proc.pc ≠ .stopped
  done : e.proc.pc = .finished → e.proc.later = []

/-- Calls whose arguments can be sent reach the socket. -/
theorem Client.calls_sendable {ser : Serializer ε} (k : Client ε) {program : List (RObj ε)}
    (h : ∀ x ∈ program, Sendable ser x = true) :
    (k.calls ser program).values = k.values ∧ (k.calls ser program).asked = k.asked ∧
      (k.calls ser program).remaining = program ∧ (k.calls ser program).pc ≠ .recv ∧
      (k.calls ser program).pc ≠ .stopped ∧
      ((k.calls ser program).pc = .finished → (k.calls ser program).later = []) := by
  cases program with
  | nil => simp [calls, remaining]
  | cons x rest =>
    rw [calls, if_pos (h x List.mem_cons_self)]
    simp [remaining]

section

variable {ser : Serializer ε} {program : List (RObj ε)} {e : Endpoint (Client ε) Sock Bytes}

theorem Client.InStep.start (h : ∀ x ∈ program, Sendable ser x = true) :
    Client.InStep program ⟨.start ser program, .new .req, [], []⟩ := by
  obtain ⟨hvalues, hasked, hremaining, hrecv, hstopped, hdone⟩ :=
    Client.calls_sendable ⟨.finished, [], [], []⟩ h
  refine ⟨rfl, ?_, ?_, Or.inr ⟨hrecv, rfl, ?_⟩, hstopped, hdone⟩
  · rw [Client.start, hasked, hremaining, List.nil_append]
  · rw [Client.start, hvalues]
    exact fun v hv => absurd hv List.not_mem_nil
  · rw [Client.start, hvalues, hasked]
    rfl

/-- The command of the next call is sent. -/
theorem Client.InStep.ask (h : Client.InStep program e) {m : Bytes}
    (hn : e.proc.need ser = .send m) :
    Client.InStep program ⟨e.proc.resume ser .sent, turns.sent e.sock, e.inbox,
      e.outbox ++ [m]⟩ := by
  obtain ⟨data, hpc, rfl⟩ := Client.pc_of_send hn
  have horder := h.order
  have hturn := h.turn
  simp only [Client.remaining, hpc] at horder
  simp only [hpc, reduceCtorEq, false_and, ne_eq, not_false_eq_true, true_and, false_or] at hturn
  simp only [Client.resume, hpc]
  refine ⟨?_, ?_, h.valued, Or.inl ⟨rfl, ?_, ?_⟩, by simp, by simp⟩
  · simp [turns, h.type]
  · simpa only [Client.remaining, List.append_assoc, List.singleton_append] using horder
  · simp [turns, h.type]
  · rw [List.length_append, List.length_singleton, hturn.2]

/-- The call that waits is answered. -/
theorem Client.InStep.collect (h : Client.InStep program e)
    (hsend : ∀ x ∈ program, Sendable ser x = true) {m : Bytes} {rest : List Bytes}
    (hn : e.proc.need ser = .recv) {x : RObj ε}
    (hx : zmqMsgRecv ser (.received m) = some x) :
    Client.InStep program ⟨e.proc.resume ser (.received m), turns.received e.sock, rest,
      e.outbox⟩ := by
  have hpc := Client.pc_of_recv hn
  have horder := h.order
  have hturn := h.turn
  simp only [Client.remaining, hpc] at horder
  simp only [hpc, true_and, ne_eq, not_true_eq_false, false_and, or_false] at hturn
  have hlater : ∀ y ∈ e.proc.later, Sendable ser y = true := fun y hy =>
    hsend y (horder ▸ List.mem_append_right _ hy)
  obtain ⟨hvalues, hasked, hremaining, hrecv, hstopped, hdone⟩ := Client.calls_sendable
    { e.proc with values := e.proc.values ++ [zmqMsgRecv ser (.received m)] } hlater
  rw [Client.resume_recv ser hpc]
  refine ⟨?_, ?_, ?_, Or.inr ⟨hrecv, ?_, ?_⟩, hstopped, hdone⟩
  · simp [turns, h.type]
  · rw [hasked, hremaining]
    exact horder
  · rw [hvalues]
    intro v hv
    rcases List.mem_append.mp hv with hv | hv
    · exact h.valued v hv
    · rw [List.mem_singleton.mp hv, hx]
      rfl
  · simp [turns, h.type]
  · rw [hvalues, hasked, List.length_append, List.length_singleton, hturn.2]

/-- A client in step never makes a call that its socket refuses, and has no other calls. -/
theorem Client.InStep.inTurn (ser : Serializer ε) (h : Client.InStep program e) :
    ¬ e.OutOfTurn turns (clientProcess ser) ∧ (clientProcess ser).need e.proc ≠ .io := by
  have htype := h.type
  constructor
  · rintro (⟨m, hn, ht⟩ | ⟨hn, ht⟩)
    · obtain ⟨data, hpc, -⟩ := Client.pc_of_send hn
      have hturn := h.turn
      simp [hpc] at hturn
      simp [turns, htype, hturn.1] at ht
    · have hpc := Client.pc_of_recv hn
      have hturn := h.turn
      simp [hpc] at hturn
      simp [turns, htype, hturn.1] at ht
  · intro hn
    cases hpc : e.proc.pc <;> simp [clientProcess, Client.need, hpc] at hn

end

/-- A server whose calls are all in turn. -/
structure Server.InStep (s : Server ε σ) (k : Sock) : Prop where
  type : k.type = .rep
  turn : (s.pc = .recv ∧ k.flag = false) ∨ ((∃ result, s.pc = .send result) ∧ k.flag = true) ∨
    (s.pc = .farewell ∧ k.flag = true) ∨ s.pc = .finished ∨ s.pc = .raised

/-- A server in step never makes a call that its socket refuses, and has no other calls. -/
theorem Server.InStep.inTurn (ser : Serializer ε) (R : Interpreter ε σ) {s : Server ε σ} {k : Sock}
    (h : s.InStep k) (inbox outbox : List Bytes) :
    ¬ (⟨s, k, inbox, outbox⟩ : Endpoint _ _ _).OutOfTurn turns (serverProcess ser R) ∧
      (serverProcess ser R).need s ≠ .io := by
  have htype := h.type
  have hturn := h.turn
  constructor
  · rintro (⟨m, hn, ht⟩ | ⟨hn, ht⟩)
    · have hflag : k.flag = true := by
        cases hpc : s.pc <;> simp [serverProcess, need, hpc] at hn <;> simpa [hpc] using hturn
      simp [turns, htype, hflag] at ht
    · have hpc : s.pc = .recv := pc_of_recv hn
      have hflag : k.flag = false := by simpa [hpc] using hturn
      simp [turns, htype, hflag] at ht
  · intro hn
    cases hpc : s.pc <;> simp [serverProcess, need, hpc] at hn

/-- The server takes a command. -/
theorem Server.InStep.take {ser : Serializer ε} {R : Interpreter ε σ} {s : Server ε σ} {k : Sock}
    (h : s.InStep k) (hpc : s.pc = .recv) {r : Reply Bytes} {x : RObj ε}
    (hx : zmqMsgRecv ser r = some x) : (s.resume ser R r).InStep (turns.received k) := by
  have htype := h.type
  rw [resume_recv ser R hpc, hx]
  refine ⟨by simp [turns, htype], ?_⟩
  have hflag : (turns.received k).flag = true := by simp [turns, htype]
  rcases handle_cases ser R s x with ⟨result, ws, -, -, hh⟩ | ⟨-, -, hh⟩ | ⟨-, hh⟩
  · exact Or.inr (Or.inl ⟨⟨result, by rw [receive, hh]⟩, hflag⟩)
  · exact Or.inr (Or.inr (Or.inl ⟨by rw [receive, hh], hflag⟩))
  · exact Or.inr (Or.inr (Or.inr (Or.inr hh)))

/-- The server sends an answer. -/
theorem Server.InStep.answer {ser : Serializer ε} {R : Interpreter ε σ} {s : Server ε σ} {k : Sock}
    (h : s.InStep k) {m : Bytes} (hn : s.need ser R = .send m) :
    (s.resume ser R .sent).InStep (turns.sent k) := by
  have htype := h.type
  refine ⟨by simp [turns, htype], ?_⟩
  cases hpc : s.pc <;> simp [need, hpc] at hn <;> simp [resume, hpc, turns, htype]

variable [DecidableEq ι]

/-- The server and all clients are in step. -/
structure InStep (program : ι → List (RObj ε)) (c : Config ι ε σ) : Prop where
  hub : c.hub.InStep c.hubSock
  spoke : ∀ i, Client.InStep (program i) (c.spoke i)

/-- The next operation neither fails nor stops anybody. -/
def Proceeds : StarAction ι → Bool
  | .spoke _ choice | .hub _ choice => choice = .proceed

section

variable {ser : Serializer ε} {R : Interpreter ε σ} {workspace : σ} {program : ι → List (RObj ε)}
  {cap : Nat} {c d : Config ι ε σ}

/-- One endpoint of a star in step is replaced. -/
theorem InStep.update (h : InStep program c) {i : ι} {e : Endpoint (Client ε) Sock Bytes}
    (he : Client.InStep (program i) e) (j : ι) :
    Client.InStep (program j) (Function.update c.spoke i e j) :=
  (Function.forall_update_iff c.spoke fun j e => Client.InStep (program j) e).mpr
    ⟨he, fun j _ => h.spoke j⟩ j

/-- An operation that does not fail keeps everybody in step. -/
theorem InStep.step (h : InStep program c)
    (hsend : ∀ i, ∀ x ∈ program i, Sendable ser x = true)
    {log : List (Served ι (RObj ε) (RObj ε))} {owed : ι → List (RObj ε)}
    (hlog : Accounted ser R workspace program c log owed) {a : StarAction ι}
    (ha : Proceeds a = true) (hs : Service.step cap ser R c a = some d) : InStep program d := by
  cases Star.stepped_of_step hs with
  | ask hn _ => exact ⟨h.hub, h.update ((h.spoke _).ask hn)⟩
  | @collect i m rest hn _ hin =>
    obtain ⟨flying, hqueue, -⟩ := (hlog.clients i).values
    obtain ⟨x, _, -, rfl, hx, -⟩ := Queued.uncons (hin ▸ hqueue)
    exact ⟨h.hub, h.update ((h.spoke i).collect (hsend i) hn (zmqMsgRecv_received hx))⟩
  | @spokeAlone i ch r _ _ ho =>
    rcases ho (by simpa [Proceeds] using ha) with hturn | hio
    · exact absurd hturn ((h.spoke i).inTurn ser).1
    · exact absurd hio ((h.spoke i).inTurn ser).2
  | spokeEnds => simp [Proceeds] at ha
  | @take i m rest hn ht hout =>
    have hpc := Server.pc_of_recv hn
    obtain ⟨x, hx, -⟩ := (hlog.owing.clear hpc ht i ▸ hlog.clients i).taken hout
    exact ⟨h.hub.take hpc hx, h.update ⟨(h.spoke _).type, (h.spoke _).order,
      (h.spoke _).valued, (h.spoke _).turn, (h.spoke _).alive, (h.spoke _).done⟩⟩
  | answer hn _ _ =>
    exact ⟨h.hub.answer hn, h.update ⟨(h.spoke _).type, (h.spoke _).order,
      (h.spoke _).valued, (h.spoke _).turn, (h.spoke _).alive, (h.spoke _).done⟩⟩
  | @hubAlone i ch r _ _ ho =>
    rcases ho (by simpa [Proceeds] using ha) with hturn | hio
    · exact absurd hturn (h.hub.inTurn ser R _ _).1
    · exact absurd hio (h.hub.inTurn ser R [] []).2
  | hubEnds => simp [Proceeds] at ha

/-- A run without failures, with a log that accounts for the clients. -/
theorem inStep_reach (hser : ser.unserialize [] = none)
    (hsend : ∀ i, ∀ x ∈ program i, Sendable ser x = true)
    (h : Reach (Fires (Service.step cap ser R)) (fun _ a => Proceeds a = true)
      (.start ser workspace program) c) :
    InStep program c ∧ ∃ log owed, Accounted ser R workspace program c log owed := by
  refine h.invariant (I := fun c => InStep program c ∧
    ∃ log owed, Accounted ser R workspace program c log owed) ?_ ?_
  · refine ⟨⟨⟨rfl, Or.inl ⟨rfl, rfl⟩⟩, fun i => .start (hsend i)⟩, [], _,
      .start ser R workspace program⟩
  · rintro s a t ⟨hin, log, owed, hlog⟩ ha hs
    obtain ⟨more, owed', hmore⟩ := hlog.step hser hs
    exact ⟨hin.step hsend hlog ha hs, _, owed', hmore⟩

/-- Neither the server nor a client can go on. -/
def Rests (cap : Nat) (ser : Serializer ε) (R : Interpreter ε σ) (c : Config ι ε σ) : Prop :=
  ∀ a, Proceeds a = true → Service.step cap ser R c a = none

/-- A client that cannot go on has finished or waits for an answer. -/
theorem InStep.spoke_rests (h : InStep program c) (htokens : ∀ i, c.tokens turns i = 1)
    (hcap : 0 < cap) (hrests : Rests cap ser R c) (i : ι) :
    (c.spoke i).proc.pc = .finished ∨
      ((c.spoke i).proc.pc = .recv ∧ turns.maySend (c.spoke i).sock = false ∧
        (c.spoke i).inbox = []) := by
  have hstuck : (c.spoke i).move cap turns (clientProcess ser) .proceed = none :=
    Option.map_eq_none_iff.mp (hrests (.spoke i .proceed) rfl)
  have hone := htokens i
  simp only [Star.tokens, Endpoint.tokens] at hone
  rcases Endpoint.waits_of_stuck hstuck with hn | ⟨m, hn, ht, hfull⟩ | ⟨hn, ht, hin⟩
  · have halive := (h.spoke i).alive
    cases hpc : (c.spoke i).proc.pc <;> simp [clientProcess, Client.need, hpc] at hn halive
    exact Or.inl rfl
  · simp only [ht, Bool.toNat_true] at hone
    omega
  · refine Or.inr ⟨Client.pc_of_recv hn, ?_, hin⟩
    have htype := (h.spoke i).type
    simpa [turns, htype] using ht

/-- A server that cannot go on has ended, or finds no command. -/
theorem InStep.hub_rests (h : InStep program c) {log : List (Served ι (RObj ε) (RObj ε))}
    {owed : ι → List (RObj ε)} (hlog : Accounted ser R workspace program c log owed)
    (htokens : ∀ i, c.tokens turns i = 1) (hcap : 0 < cap) (hrests : Rests cap ser R c) :
    c.hub.Ended ∨
      (c.hub.pc = .recv ∧ turns.maySend c.hubSock = false ∧ ∀ i, (c.spoke i).outbox = []) := by
  have hstuck : ∀ i, c.addresses turns (serverProcess ser R) i = true →
      (c.hubEnd i).move cap turns (serverProcess ser R) .proceed = none := by
    intro i ha
    have hnone := hrests (.hub i .proceed) rfl
    simp only [Service.step, Star.step, ha, if_true] at hnone
    exact Option.map_eq_none_iff.mp hnone
  have hholds : ∀ x, c.hub.holds R = some x → False := by
    intro x hx
    obtain ⟨-, ht, p, hp, -, -⟩ := hlog.owing.held x hx
    have ha : c.addresses turns (serverProcess ser R) p = true := by
      cases hn : (serverProcess ser R).need c.hub <;> simp [Star.addresses, hn, hp]
    have hone := htokens p
    simp only [Star.tokens, hp, ht, if_true, Bool.toNat_true, Endpoint.tokens] at hone
    rcases Endpoint.waits_of_stuck (hstuck p ha) with hn | ⟨m, hn, -, hfull⟩ | ⟨hn, -, -⟩
    · cases hpc : c.hub.pc <;> simp [Server.holds, hpc] at hx <;>
        simp [Star.hubEnd, serverProcess, Server.need, hpc] at hn
    · simp only [Star.hubEnd] at hfull
      omega
    · have hpc : c.hub.pc = .recv := Server.pc_of_recv hn
      simp [Server.holds, hpc] at hx
  rcases h.hub.turn with ⟨hpc, hflag⟩ | ⟨⟨result, hpc⟩, -⟩ | ⟨hpc, -⟩ | hpc | hpc
  · refine Or.inr ⟨hpc, by simp [turns, h.hub.type, hflag], fun i => ?_⟩
    have hneed : (serverProcess ser R).need c.hub = .recv := by
      simp [serverProcess, Server.need, hpc]
    have ha : c.addresses turns (serverProcess ser R) i = true := by simp [Star.addresses, hneed]
    rcases Endpoint.waits_of_stuck (hstuck i ha) with hn | ⟨m, hn, -, -⟩ | ⟨-, -, hin⟩
    · exact absurd (hneed.symm.trans hn) (by simp)
    · exact absurd (hneed.symm.trans hn) (by simp)
    · exact hin
  · exact (hholds result (by simp [Server.holds, hpc])).elim
  · exact (hholds R.farewell (by simp [Server.holds, hpc])).elim
  · exact Or.inl (Or.inr (Or.inl hpc))
  · exact Or.inl (Or.inr (Or.inr hpc))

end

/-- Operations that a client still has before it, with those that its messages cause. -/
def Client.weight (k : Client ε) : Nat :=
  6 * k.later.length + match k.pc with
    | .send _ => 5
    | .recv => 1
    | .finished | .stopped => 0

@[inherit_doc Client.weight] def spokeWeight (e : Endpoint (Client ε) Sock Bytes) : Nat :=
  e.proc.weight + 3 * e.outbox.length + e.inbox.length

/-- Operations that the server has before it without another command. -/
def Server.weight (s : Server ε σ) : Nat :=
  match s.pc with
  | .recv => 1
  | .send _ => 3
  | .farewell => 2
  | .finished | .raised | .recvRaised | .stopped => 0

/-- A bound on the length of the rest of a run. -/
def weight [Fintype ι] (c : Config ι ε σ) : Nat := c.hub.weight + ∑ i, spokeWeight (c.spoke i)

theorem Client.weight_calls (ser : Serializer ε) (k : Client ε) (program : List (RObj ε)) :
    (k.calls ser program).weight ≤ 6 * program.length := by
  induction program generalizing k with
  | nil => exact Nat.le_refl 0
  | cons x rest ih =>
    rw [calls]
    split
    · simp only [weight, List.length_cons]
      omega
    · have hrest := ih { k with values := k.values ++ [none] }
      rw [List.length_cons]
      omega

/-- The end of a call makes a client lighter. -/
theorem Client.weight_resume_recv (ser : Serializer ε) {k : Client ε} (h : k.pc = .recv)
    (r : Reply Bytes) : (k.resume ser r).weight < k.weight := by
  have hcalls := weight_calls ser { k with values := k.values ++ [zmqMsgRecv ser r] } k.later
  rw [resume_recv ser h]
  refine Nat.lt_of_le_of_lt hcalls ?_
  simp [weight, h]

/-- Receiving makes the server heavier by two at most. -/
theorem Server.weight_resume_recv (ser : Serializer ε) (R : Interpreter ε σ) {s : Server ε σ}
    (h : s.pc = .recv) (r : Reply Bytes) : (s.resume ser R r).weight ≤ s.weight + 2 := by
  rw [resume_recv ser R h]
  have hpc : ∀ t : Server ε σ, t.weight ≤ 3 := by
    intro t
    cases ht : t.pc <;> simp [weight, ht]
  simpa [weight, h] using hpc _

/-- Every operation makes the system lighter, whether it fails or not. -/
theorem weight_lt [Fintype ι] {ser : Serializer ε} (hser : ser.unserialize [] = none)
    {R : Interpreter ε σ} {cap : Nat} {c d : Config ι ε σ} {a : StarAction ι}
    (h : Service.step cap ser R c a = some d) :
    weight d < weight c := by
  have hspoke : ∀ {i e}, spokeWeight e < spokeWeight (c.spoke i) →
      weight (c.setSpoke i e) < weight c := by
    intro i e he
    have hsum := sum_update_add (fun _ => spokeWeight) c.spoke i e
    simp only [weight, Star.setSpoke]
    omega
  cases Star.stepped_of_step h with
  | ask hn _ =>
    obtain ⟨data, hpc, -⟩ := Client.pc_of_send hn
    refine hspoke ?_
    simp only [spokeWeight, clientProcess, Client.resume, hpc, Client.weight, List.length_append,
      List.length_singleton]
    omega
  | @collect i m rest hn _ hin =>
    have hless := Client.weight_resume_recv ser (Client.pc_of_recv hn) (.received m)
    refine hspoke ?_
    simp only [spokeWeight, hin, List.length_cons, clientProcess]
    omega
  | @spokeAlone i ch r hr hn _ =>
    refine hspoke ?_
    simp only [spokeWeight, clientProcess]
    cases hpc : (c.spoke i).proc.pc with
    | send data =>
      have hresume : ((c.spoke i).proc.resume ser r) = { (c.spoke i).proc with pc := .recv } := by
        rcases hr with rfl | ⟨fault, rfl⟩ <;> simp [Client.resume, hpc]
      rw [hresume]
      simp only [Client.weight, hpc]
      omega
    | recv =>
      have hless := Client.weight_resume_recv ser hpc r
      omega
    | finished | stopped => simp [clientProcess, Client.need, hpc] at hn
  | @spokeEnds i hn =>
    refine hspoke ?_
    simp only [spokeWeight, clientProcess, Client.weight]
    cases hpc : (c.spoke i).proc.pc <;> simp [clientProcess, Client.need, hpc] at hn ⊢
  | @take i m rest hn _ hout =>
    have hhub := Server.weight_resume_recv ser R (Server.pc_of_recv hn) (.received m)
    have hsum := sum_update_add (fun _ => spokeWeight) c.spoke i { c.spoke i with outbox := rest }
    simp only [weight, serverProcess]
    simp only [spokeWeight, hout, List.length_cons] at hsum ⊢
    omega
  | @answer i m hn _ _ =>
    obtain ⟨x, hx, -⟩ := Server.pc_of_send hn
    have hhub : (c.hub.resume ser R .sent).weight + 2 ≤ c.hub.weight := by
      cases hpc : c.hub.pc <;> simp [Server.holds, hpc] at hx <;>
        simp [Server.resume, Server.weight, hpc]
    have hsum := sum_update_add (fun _ => spokeWeight) c.spoke i
      { c.spoke i with inbox := (c.spoke i).inbox ++ [m] }
    simp only [weight, serverProcess]
    simp only [spokeWeight, List.length_append, List.length_singleton] at hsum ⊢
    omega
  | @hubAlone i ch r hr hn _ =>
    have hless : (c.hub.resume ser R r).weight < c.hub.weight := by
      cases hpc : c.hub.pc with
      | recv =>
        rw [Server.resume_recv ser R hpc, zmqMsgRecv_alone hser hr]
        simp [Server.receive, Server.weight, hpc]
      | send | farewell => simp [Server.resume, Server.weight, hpc]
      | finished | raised | recvRaised | stopped =>
        simp [serverProcess, Server.need, hpc] at hn
    simp only [weight, serverProcess]
    omega
  | @hubEnds i hn =>
    have hpos : 0 < c.hub.weight := by
      cases hpc : c.hub.pc <;> simp [serverProcess, Server.need, hpc] at hn <;>
        simp [Server.weight, hpc]
    simp only [weight, serverProcess, Server.weight] at hpos ⊢
    omega

omit [DecidableEq ι] in
theorem weight_start [Fintype ι] (ser : Serializer ε) (workspace : σ)
    (program : ι → List (RObj ε)) :
    weight (Config.start ser workspace program) ≤ 6 * ∑ i, (program i).length + 1 := by
  rw [weight, Finset.mul_sum, Nat.add_comm]
  exact Nat.add_le_add_right (Finset.sum_le_sum fun i _ =>
    Client.weight_calls ser ⟨.finished, [], [], []⟩ (program i)) 1

/-- All values of a client in step are there. -/
theorem Client.InStep.values_eq {program : List (RObj ε)} {e : Endpoint (Client ε) Sock Bytes}
    (h : Client.InStep program e) :
    e.proc.values = e.proc.values.reduceOption.map some := by
  have hall : ∀ vs : List (Option (RObj ε)), (∀ v ∈ vs, v.isSome) →
      vs = vs.reduceOption.map some := by
    intro vs
    induction vs with
    | nil => exact fun _ => rfl
    | cons v vs ih =>
      intro hvs
      obtain ⟨x, rfl⟩ := Option.isSome_iff_exists.mp (hvs v List.mem_cons_self)
      rw [List.reduceOption_cons_of_some, List.map_cons,
        ← ih fun v hv => hvs v (List.mem_cons_of_mem _ hv)]
  exact hall _ h.valued

section

variable {ser : Serializer ε} {R : Interpreter ε σ} {workspace : σ} {program : ι → List (RObj ε)}
  {cap : Nat} {c : Config ι ε σ} {log : List (Served ι (RObj ε) (RObj ε))}
  {owed : ι → List (RObj ε)}

/-- The value of a call is the answer to the command of the same call. -/
theorem InStep.value_eq (h : InStep program c) (hlog : Accounted ser R workspace program c log owed)
    {i : ι} {n : Nat} {v : Option (RObj ε)} (hv : (c.spoke i).proc.values[n]? = some v) :
    ∃ x b, v = some b ∧ (program i)[n]? = some x ∧
      (historyOf i log)[n]? = some ⟨i, x, some b⟩ := by
  obtain ⟨o, hserves, -⟩ := hlog.served
  obtain ⟨waiting, -, hasked⟩ := (hlog.clients i).requests
  obtain ⟨flying, -, hanswers⟩ := (hlog.clients i).values
  have horder := (h.spoke i).order
  rw [(h.spoke i).values_eq, List.getElem?_map, Option.map_eq_some_iff] at hv
  obtain ⟨b, hb, rfl⟩ := hv
  have hanswer : (answersOf i log)[n]? = some b := by
    rw [← hanswers, List.append_assoc,
      List.getElem?_append_left (List.getElem?_eq_some_iff.mp hb).1, hb]
  obtain ⟨x, hx⟩ := hserves.getElem?_answersOf hanswer
  refine ⟨x, b, rfl, ?_, hx⟩
  have hrequest : (requestsOf i log)[n]? = some x := by
    rw [requestsOf, List.getElem?_map, hx]
    rfl
  rw [← horder, hasked, List.append_assoc,
    List.getElem?_append_left (List.getElem?_eq_some_iff.mp hrequest).1, hrequest]

/-- Where nobody can go on and the server has not ended, every call has its value. -/
theorem InStep.answered_of_rests (h : InStep program c)
    (hlog : Accounted ser R workspace program c log owed) (htokens : ∀ i, c.tokens turns i = 1)
    (hcap : 0 < cap) (hrests : Rests cap ser R c) :
    c.hub.Ended ∨ (c.hub.Serving ∧ ∀ i, requestsOf i log = program i ∧
      (c.spoke i).proc.values = (answersOf i log).map some) := by
  refine (h.hub_rests hlog htokens hcap hrests).imp id fun ⟨hpc, hmay, hempty⟩ => ?_
  refine ⟨Or.inl hpc, fun i => ?_⟩
  have hone := htokens i
  simp only [Star.tokens, Endpoint.tokens, hmay, hempty i, Bool.toNat_false, ite_self,
    List.length_nil] at hone
  rcases h.spoke_rests htokens hcap hrests i with hfinished | ⟨-, ht, hin⟩
  · have hreq : turns.maySend (c.spoke i).sock = true := by
      have hturn := (h.spoke i).turn
      have htype := (h.spoke i).type
      simp only [hfinished, reduceCtorEq, false_and, ne_eq, not_false_eq_true, true_and,
        false_or] at hturn
      simp [turns, htype, hturn.1]
    rw [hreq, Bool.toNat_true] at hone
    have hin : (c.spoke i).inbox = [] := List.length_eq_zero_iff.mp (by omega)
    obtain ⟨waiting, hwaiting, hasked⟩ := (hlog.clients i).requests
    obtain ⟨flying, hflying, hanswers⟩ := (hlog.clients i).values
    have hnone : waiting = [] ∧ flying = [] := by
      have hw := hwaiting.eq_map
      have hf := hflying.eq_map
      rw [hempty i] at hw
      rw [hin] at hf
      exact ⟨List.map_eq_nil_iff.mp hw.symm, List.map_eq_nil_iff.mp hf.symm⟩
    have hrecv : turns.mayRecv c.hubSock = true := by
      have hrep := h.hub.type
      simpa [turns, hrep] using hmay
    have horder := (h.spoke i).order
    rw [Client.remaining, hfinished, (h.spoke i).done hfinished, List.append_nil] at horder
    rw [hlog.owing.clear hpc hrecv i, hnone.2, List.append_nil, List.append_nil] at hanswers
    rw [hnone.1, List.append_nil] at hasked
    exact ⟨hasked.symm.trans horder, by rw [← hanswers]; exact (h.spoke i).values_eq⟩
  · rw [ht, hin] at hone
    simp at hone

end

/-- Runs without failures, for any number of clients and commands that can be sent. A run
has at most so many operations. The value of a call is the answer to the command of the
same call. Where nobody can go on, every call has its value, unless the last command that
was served has ended the server. -/
theorem calls_answered [Fintype ι] (ser : Serializer ε) (hser : ser.unserialize [] = none)
    (R : Interpreter ε σ) (workspace : σ) {program : ι → List (RObj ε)}
    (hsend : ∀ i, ∀ x ∈ program i, Sendable ser x = true) {cap : Nat} (hcap : 0 < cap)
    {labels : List (StarAction ι)} {c : Config ι ε σ}
    (hrun : exec (step cap ser R) (fun _ a => Proceeds a) (.start ser workspace program) labels =
      some c) :
    labels.length ≤ 6 * ∑ i, (program i).length + 1 ∧
    ∃ (log : List (Served ι (RObj ε) (RObj ε))) (o : Option σ),
      Serves (R.respond ser) workspace log o ∧
      (∀ i (n : Nat) v, (c.spoke i).proc.values[n]? = some v → ∃ x b, v = some b ∧
        (program i)[n]? = some x ∧
        (historyOf i log)[n]? = some ⟨i, x, some b⟩) ∧
      (Rests cap ser R c → o = none ∨ (o = some c.hub.workspace ∧ ∀ i,
        requestsOf i log = program i ∧
        (c.spoke i).proc.values = (answersOf i log).map some)) := by
  have hreach := reach_of_exec .init hrun
  obtain ⟨hin, log, owed, hlog⟩ := inStep_reach hser hsend hreach
  have htokens := (tokens_reach hreach).2
  obtain ⟨o, hserves, hserving, hended⟩ := hlog.served
  refine ⟨?_, log, o, hserves, fun i n v hv => hin.value_eq hlog hv, fun hrests => ?_⟩
  · have hlength := length_le_of_exec weight (fun _ _ _ _ => weight_lt hser) hrun
    have hstart := weight_start ser workspace program
    omega
  · exact (hin.answered_of_rests hlog htokens hcap hrests).imp hended
      fun ⟨hpc, hall⟩ => ⟨hserving hpc, hall⟩

/-- Two clients call in turn, and each is answered. -/
theorem calls_answered_run : ∃ c : Config Bool Empty Nat,
    ((c.spoke true).proc.values = [some (.raw [1])] ∧
      (c.spoke false).proc.values = [some (.raw [0]), some (.raw [9])]) ∧
    ∃ log o, Serves (Interpreter.counting.respond Serializer.basic) 0 log o ∧
      ∀ i (n : Nat) v, (c.spoke i).proc.values[n]? = some v → ∃ x b, v = some b ∧
        (bif i then [.raw [1]] else [.raw [0], .raw [9]] : List (RObj Empty))[n]? = some x ∧
        (historyOf i log)[n]? = some ⟨i, x, some b⟩ := by
  obtain ⟨c, hc, hp⟩ := (Option.any_eq_true _ _).mp (show (exec (step 1 Serializer.basic
    .counting) (fun _ a => Proceeds a) (Config.start Serializer.basic 0 fun i : Bool =>
      bif i then [.raw [1]] else [.raw [0], .raw [9]])
    [.spoke true .proceed, .spoke false .proceed, .hub false .proceed, .hub false .proceed,
      .hub true .proceed, .hub true .proceed, .spoke false .proceed, .spoke true .proceed,
      .spoke false .proceed, .hub false .proceed, .hub false .proceed,
      .spoke false .proceed]).any (fun c =>
        (c.spoke true).proc.values = [some (.raw [1])] ∧
          (c.spoke false).proc.values = [some (.raw [0]), some (.raw [9])]) = true by decide)
  obtain ⟨-, log, o, hserves, hvalues, -⟩ := calls_answered Serializer.basic rfl .counting 0
    (by decide) (Nat.one_pos) hc
  exact ⟨c, by simpa using hp, log, o, hserves, hvalues⟩

end PbdZmq.Service
