import PbdZmq.Core.System

/-!
# Two processes over a pair of bounded first-in first-out queues

A process is deterministic code that stops at calls to its surroundings and
resumes with the reply. Each side reaches the other through a socket with a turn
discipline: a call out of turn is refused without effect, a send waits for room
in the queue, and a receive waits for a message. The surroundings may also fail a
socket call, disturb a local operation, or stop a process.
-/

namespace PbdZmq

variable {π ρ S μ : Type*}

/-- What a process waits for next. -/
inductive Need (μ : Type*)
  | send (m : μ)
  | recv
  | io
  | halted

/-- What the surroundings answer. -/
inductive Reply (μ : Type*)
  | sent
  | received (m : μ)
  | failed
  | io (fault : Option Nat)

/-- How the surroundings treat the next operation of a process. -/
inductive Choice
  | proceed
  | fail
  | fault (k : Nat)
  | stop
  deriving DecidableEq, Repr

/-- Deterministic code between calls. -/
structure Process (π μ : Type*) where
  /-- The call at which the process stands. -/
  need : π → Need μ
  /-- The state in which it stands at its next call. -/
  resume : π → Reply μ → π
  /-- The state of a stopped process. -/
  halt : π → π

/-- When a socket accepts a call, and how its state advances. -/
structure Discipline (S : Type*) where
  /-- A send is in turn. -/
  maySend : S → Bool
  /-- A receive is in turn. -/
  mayRecv : S → Bool
  /-- The state after an accepted send. -/
  sent : S → S
  /-- The state after an accepted receive. -/
  received : S → S

/-- A process with its socket, the queue it reads and the queue it writes. -/
structure Endpoint (π S μ : Type*) where
  proc : π
  sock : S
  inbox : List μ
  outbox : List μ

/-- One operation of the process at an endpoint; `none` means that it waits. -/
def Endpoint.move (cap : Nat) (D : Discipline S) (P : Process π μ) (e : Endpoint π S μ) :
    Choice → Option (Endpoint π S μ)
  | .proceed =>
    match P.need e.proc with
    | .send m =>
      if D.maySend e.sock then
        if e.outbox.length < cap then
          some ⟨P.resume e.proc .sent, D.sent e.sock, e.inbox, e.outbox ++ [m]⟩
        else none
      else some { e with proc := P.resume e.proc .failed }
    | .recv =>
      if D.mayRecv e.sock then
        match e.inbox with
        | [] => none
        | m :: rest => some ⟨P.resume e.proc (.received m), D.received e.sock, rest, e.outbox⟩
      else some { e with proc := P.resume e.proc .failed }
    | .io => some { e with proc := P.resume e.proc (.io none) }
    | .halted => none
  | .fail =>
    match P.need e.proc with
    | .send _ | .recv => some { e with proc := P.resume e.proc .failed }
    | .io | .halted => none
  | .fault k =>
    match P.need e.proc with
    | .io => some { e with proc := P.resume e.proc (.io (some k)) }
    | .send _ | .recv | .halted => none
  | .stop =>
    match P.need e.proc with
    | .halted => none
    | .send _ | .recv | .io => some { e with proc := P.halt e.proc }

/-- The process at this endpoint is about to make a call that its socket refuses. -/
def Endpoint.OutOfTurn (D : Discipline S) (P : Process π μ) (e : Endpoint π S μ) : Prop :=
  (∃ m, P.need e.proc = .send m ∧ D.maySend e.sock = false) ∨
    (P.need e.proc = .recv ∧ D.mayRecv e.sock = false)

/-- Everything that one operation can do. -/
inductive Endpoint.Moved (cap : Nat) (D : Discipline S) (P : Process π μ) (e : Endpoint π S μ) :
    Choice → Endpoint π S μ → Prop
  | send {m} : P.need e.proc = .send m → D.maySend e.sock = true → e.outbox.length < cap →
      Moved cap D P e .proceed
        ⟨P.resume e.proc .sent, D.sent e.sock, e.inbox, e.outbox ++ [m]⟩
  | recv {m rest} : P.need e.proc = .recv → D.mayRecv e.sock = true → e.inbox = m :: rest →
      Moved cap D P e .proceed
        ⟨P.resume e.proc (.received m), D.received e.sock, rest, e.outbox⟩
  | refuse : e.OutOfTurn D P →
      Moved cap D P e .proceed { e with proc := P.resume e.proc .failed }
  | io : P.need e.proc = .io →
      Moved cap D P e .proceed { e with proc := P.resume e.proc (.io none) }
  | fail : (P.need e.proc = .recv ∨ ∃ m, P.need e.proc = .send m) →
      Moved cap D P e .fail { e with proc := P.resume e.proc .failed }
  | fault {k} : P.need e.proc = .io →
      Moved cap D P e (.fault k) { e with proc := P.resume e.proc (.io (some k)) }
  | stop : P.need e.proc ≠ .halted → Moved cap D P e .stop { e with proc := P.halt e.proc }

/-- The executable move does nothing but what is listed. -/
theorem Endpoint.moved_of_move {cap : Nat} {D : Discipline S} {P : Process π μ}
    {e e' : Endpoint π S μ} {ch : Choice} (h : e.move cap D P ch = some e') :
    Moved cap D P e ch e' := by
  cases ch with
  | proceed =>
    cases hn : P.need e.proc with
    | send m =>
      simp only [move, hn] at h
      by_cases ht : D.maySend e.sock = true
      · rw [if_pos ht] at h
        split at h
        · rename_i hroom
          exact Option.some.inj h ▸ .send hn ht hroom
        · contradiction
      · rw [if_neg ht] at h
        exact Option.some.inj h ▸ .refuse (Or.inl ⟨m, hn, Bool.eq_false_iff.mpr ht⟩)
    | recv =>
      simp only [move, hn] at h
      by_cases ht : D.mayRecv e.sock = true
      · rw [if_pos ht] at h
        split at h
        · contradiction
        · rename_i m rest hin
          exact Option.some.inj h ▸ .recv hn ht hin
      · rw [if_neg ht] at h
        exact Option.some.inj h ▸ .refuse (Or.inr ⟨hn, Bool.eq_false_iff.mpr ht⟩)
    | io =>
      simp only [move, hn] at h
      exact Option.some.inj h ▸ .io hn
    | halted => simp [move, hn] at h
  | fail =>
    cases hn : P.need e.proc with
    | send m =>
      simp only [move, hn] at h
      exact Option.some.inj h ▸ .fail (Or.inr ⟨m, hn⟩)
    | recv =>
      simp only [move, hn] at h
      exact Option.some.inj h ▸ .fail (Or.inl hn)
    | io | halted => simp [move, hn] at h
  | fault k =>
    cases hn : P.need e.proc with
    | io =>
      simp only [move, hn] at h
      exact Option.some.inj h ▸ .fault hn
    | send | recv | halted => simp [move, hn] at h
  | stop =>
    cases hn : P.need e.proc with
    | send | recv | io =>
      simp only [move, hn] at h
      exact Option.some.inj h ▸ .stop (by simp [hn])
    | halted => simp [move, hn] at h

/-- A move as the outgoing queue sees it: a send, some reply that adds nothing to
the queue, or the end of the process. A call that sends is then out of turn or fails. -/
theorem Endpoint.Moved.outgoing {cap : Nat} {D : Discipline S} {P : Process π μ}
    {e e' : Endpoint π S μ} {ch : Choice} (h : Moved cap D P e ch e') :
    (∃ m, P.need e.proc = .send m ∧ D.maySend e.sock = true ∧
      e' = ⟨P.resume e.proc .sent, D.sent e.sock, e.inbox, e.outbox ++ [m]⟩) ∨
    (∃ r sock inbox, r ≠ .sent ∧ P.need e.proc ≠ .halted ∧
      (∀ m, P.need e.proc = .send m → e.OutOfTurn D P ∨ ch = .fail) ∧
      e' = ⟨P.resume e.proc r, sock, inbox, e.outbox⟩) ∨
    (P.need e.proc ≠ .halted ∧ e' = { e with proc := P.halt e.proc }) := by
  cases h with
  | send hn ht _ => exact Or.inl ⟨_, hn, ht, rfl⟩
  | @recv m rest hn ht hin =>
    exact Or.inr (Or.inl ⟨.received m, _, _, nofun, by simp [hn], by simp [hn], rfl⟩)
  | refuse ho =>
    have hn : P.need e.proc ≠ .halted := by
      rcases ho with ⟨m, hn, _⟩ | ⟨hn, _⟩ <;> simp [hn]
    exact Or.inr (Or.inl ⟨.failed, _, _, nofun, hn, fun _ _ => Or.inl ho, rfl⟩)
  | io hn => exact Or.inr (Or.inl ⟨.io none, _, _, nofun, by simp [hn], by simp [hn], rfl⟩)
  | fail hf =>
    have hn : P.need e.proc ≠ .halted := by
      rcases hf with hn | ⟨m, hn⟩ <;> simp [hn]
    exact Or.inr (Or.inl ⟨.failed, _, _, nofun, hn, fun _ _ => Or.inr rfl, rfl⟩)
  | @fault k hn =>
    exact Or.inr (Or.inl ⟨.io (some k), _, _, nofun, by simp [hn], by simp [hn], rfl⟩)
  | stop hn => exact Or.inr (Or.inr ⟨hn, rfl⟩)

/-- A move as the incoming queue sees it: a receive, some reply that takes nothing
from the queue, or the end of the process. A call that receives is then out of turn
or fails. -/
theorem Endpoint.Moved.incoming {cap : Nat} {D : Discipline S} {P : Process π μ}
    {e e' : Endpoint π S μ} {ch : Choice} (h : Moved cap D P e ch e') :
    (∃ m rest, P.need e.proc = .recv ∧ D.mayRecv e.sock = true ∧ e.inbox = m :: rest ∧
      e' = ⟨P.resume e.proc (.received m), D.received e.sock, rest, e.outbox⟩) ∨
    (∃ r sock outbox, (∀ m, r ≠ .received m) ∧ P.need e.proc ≠ .halted ∧
      (P.need e.proc = .recv → e.OutOfTurn D P ∨ ch = .fail) ∧
      e' = ⟨P.resume e.proc r, sock, e.inbox, outbox⟩) ∨
    (P.need e.proc ≠ .halted ∧ e' = { e with proc := P.halt e.proc }) := by
  cases h with
  | @send m hn ht _ =>
    exact Or.inr (Or.inl ⟨.sent, _, _, nofun, by simp [hn], by simp [hn], rfl⟩)
  | recv hn ht hin => exact Or.inl ⟨_, _, hn, ht, hin, rfl⟩
  | refuse ho =>
    have hn : P.need e.proc ≠ .halted := by
      rcases ho with ⟨m, hn, _⟩ | ⟨hn, _⟩ <;> simp [hn]
    exact Or.inr (Or.inl ⟨.failed, _, _, nofun, hn, fun _ => Or.inl ho, rfl⟩)
  | io hn => exact Or.inr (Or.inl ⟨.io none, _, _, nofun, by simp [hn], by simp [hn], rfl⟩)
  | fail hf =>
    have hn : P.need e.proc ≠ .halted := by
      rcases hf with hn | ⟨m, hn⟩ <;> simp [hn]
    exact Or.inr (Or.inl ⟨.failed, _, _, nofun, hn, fun _ => Or.inr rfl, rfl⟩)
  | @fault k hn =>
    exact Or.inr (Or.inl ⟨.io (some k), _, _, nofun, by simp [hn], by simp [hn], rfl⟩)
  | stop hn => exact Or.inr (Or.inr ⟨hn, rfl⟩)

/-- A process that cannot proceed has halted or waits for room or for a message. -/
theorem Endpoint.waits_of_stuck {cap : Nat} {D : Discipline S} {P : Process π μ}
    {e : Endpoint π S μ} (h : e.move cap D P .proceed = none) :
    P.need e.proc = .halted ∨
      (∃ m, P.need e.proc = .send m ∧ D.maySend e.sock = true ∧ cap ≤ e.outbox.length) ∨
      (P.need e.proc = .recv ∧ D.mayRecv e.sock = true ∧ e.inbox = []) := by
  cases hn : P.need e.proc with
  | send m =>
    simp only [move, hn] at h
    split at h
    · rename_i ht
      split at h
      · contradiction
      · rename_i hroom
        exact Or.inr (Or.inl ⟨m, rfl, ht, Nat.le_of_not_lt hroom⟩)
    · contradiction
  | recv =>
    simp only [move, hn] at h
    split at h
    · rename_i ht
      split at h
      · rename_i hin
        exact Or.inr (Or.inr ⟨rfl, ht, hin⟩)
      · contradiction
    · contradiction
  | io => simp [move, hn] at h
  | halted => exact Or.inl rfl

/-- The two sides of a connection. -/
inductive Side
  | left
  | right
  deriving DecidableEq, Repr

/-- Which side acts, and how its surroundings treat it. -/
structure Action where
  side : Side
  choice : Choice
  deriving DecidableEq, Repr

/-- Two connected processes and the messages in flight. -/
structure Duplex (π ρ S μ : Type*) where
  left : π
  leftSock : S
  right : ρ
  rightSock : S
  /-- Messages from left to right. -/
  fwd : List μ
  /-- Messages from right to left. -/
  bwd : List μ

/-- The left process with the queues as it sees them. -/
def Duplex.leftEnd (c : Duplex π ρ S μ) : Endpoint π S μ := ⟨c.left, c.leftSock, c.bwd, c.fwd⟩

/-- The right process with the queues as it sees them. -/
def Duplex.rightEnd (c : Duplex π ρ S μ) : Endpoint ρ S μ := ⟨c.right, c.rightSock, c.fwd, c.bwd⟩

/-- Put a moved left endpoint back. -/
def Duplex.setLeft (c : Duplex π ρ S μ) (e : Endpoint π S μ) : Duplex π ρ S μ :=
  { c with left := e.proc, leftSock := e.sock, bwd := e.inbox, fwd := e.outbox }

/-- Put a moved right endpoint back. -/
def Duplex.setRight (c : Duplex π ρ S μ) (e : Endpoint ρ S μ) : Duplex π ρ S μ :=
  { c with right := e.proc, rightSock := e.sock, fwd := e.inbox, bwd := e.outbox }

/-- One operation of one side. -/
def Duplex.step (cap : Nat) (D : Discipline S) (P : Process π μ) (Q : Process ρ μ)
    (c : Duplex π ρ S μ) (a : Action) : Option (Duplex π ρ S μ) :=
  match a.side with
  | .left => (c.leftEnd.move cap D P a.choice).map c.setLeft
  | .right => (c.rightEnd.move cap D Q a.choice).map c.setRight

/-- A step is a move of exactly one side. -/
theorem Duplex.step_cases {cap : Nat} {D : Discipline S} {P : Process π μ} {Q : Process ρ μ}
    {c d : Duplex π ρ S μ} {a : Action} (h : c.step cap D P Q a = some d) :
    (∃ e, a.side = .left ∧ Endpoint.Moved cap D P c.leftEnd a.choice e ∧ d = c.setLeft e) ∨
      (∃ e, a.side = .right ∧ Endpoint.Moved cap D Q c.rightEnd a.choice e ∧
        d = c.setRight e) := by
  rcases a with ⟨side, choice⟩
  cases side with
  | left =>
    obtain ⟨e, he, hd⟩ := Option.map_eq_some_iff.mp h
    exact Or.inl ⟨e, rfl, Endpoint.moved_of_move he, hd.symm⟩
  | right =>
    obtain ⟨e, he, hd⟩ := Option.map_eq_some_iff.mp h
    exact Or.inr ⟨e, rfl, Endpoint.moved_of_move he, hd.symm⟩

/-- On these sockets sends and receives take turns. -/
structure Discipline.Alternates (D : Discipline S) (A : S → Prop) : Prop where
  mayRecv : ∀ s, A s → D.mayRecv s = !D.maySend s
  sent : ∀ s, A s → A (D.sent s) ∧ D.maySend (D.sent s) = false
  received : ∀ s, A s → A (D.received s) ∧ D.maySend (D.received s) = true

/-- Sides that may send, and messages in flight. -/
def Duplex.tokens (D : Discipline S) (c : Duplex π ρ S μ) : Nat :=
  (D.maySend c.leftSock).toNat + (D.maySend c.rightSock).toNat + c.fwd.length + c.bwd.length

/-- Sends and receives pass a token between a side and a queue; nothing else touches it. -/
theorem Endpoint.Moved.tokens {cap : Nat} {D : Discipline S} {P : Process π μ}
    {A : S → Prop} (hD : D.Alternates A) {e e' : Endpoint π S μ} {ch : Choice}
    (h : Moved cap D P e ch e') (ha : A e.sock) :
    A e'.sock ∧ (D.maySend e'.sock).toNat + e'.inbox.length + e'.outbox.length =
      (D.maySend e.sock).toNat + e.inbox.length + e.outbox.length := by
  cases h with
  | send _ ht _ =>
    obtain ⟨hs, hf⟩ := hD.sent e.sock ha
    refine ⟨hs, ?_⟩
    simp only [hf, ht, List.length_append, List.length_singleton, Bool.toNat_false,
      Bool.toNat_true]
    omega
  | @recv m rest _ ht hin =>
    obtain ⟨hs, hf⟩ := hD.received e.sock ha
    have hm : D.maySend e.sock = false := by
      have hr := hD.mayRecv e.sock ha
      rw [ht] at hr
      simpa using hr.symm
    refine ⟨hs, ?_⟩
    simp only [hf, hm, hin, List.length_cons, Bool.toNat_false, Bool.toNat_true]
    omega
  | refuse | io | fail | fault | stop => exact ⟨ha, rfl⟩

/-- Between two sockets that take turns the number of tokens never changes, whatever
fails: at any time one side may send or one message is in flight. -/
theorem Duplex.tokens_step {cap : Nat} {D : Discipline S} {P : Process π μ} {Q : Process ρ μ}
    {A : S → Prop} (hD : D.Alternates A) {c d : Duplex π ρ S μ} {a : Action}
    (h : c.step cap D P Q a = some d) (hl : A c.leftSock) (hr : A c.rightSock) :
    A d.leftSock ∧ A d.rightSock ∧ d.tokens D = c.tokens D := by
  rcases step_cases h with ⟨e, _, hm, rfl⟩ | ⟨e, _, hm, rfl⟩
  · obtain ⟨ha, ht⟩ := hm.tokens hD hl
    simp only [leftEnd] at ht
    refine ⟨ha, hr, ?_⟩
    simp only [tokens, setLeft]
    omega
  · obtain ⟨ha, ht⟩ := hm.tokens hD hr
    simp only [rightEnd] at ht
    refine ⟨hl, ha, ?_⟩
    simp only [tokens, setRight]
    omega

/-- A configuration in which neither side can proceed leaves both sides waiting. -/
theorem Duplex.stuck_sides {cap : Nat} {D : Discipline S} {P : Process π μ} {Q : Process ρ μ}
    {c : Duplex π ρ S μ} (h : ∀ side, c.step cap D P Q ⟨side, .proceed⟩ = none) :
    c.leftEnd.move cap D P .proceed = none ∧ c.rightEnd.move cap D Q .proceed = none :=
  ⟨Option.map_eq_none_iff.mp (h .left), Option.map_eq_none_iff.mp (h .right)⟩

end PbdZmq
