import Mathlib.Logic.Function.Basic
import PbdZmq.Core.Duplex

/-!
# One process connected to many

A hub has one socket for all its spokes. It receives from any spoke that has sent
something, and sends to the spoke it received from last. Between sockets that take
turns every spoke has one token: the right to send, or one message on its way to the
hub, in the hand of the hub, or on its way back.
-/

namespace PbdZmq

variable {ι π ρ S μ : Type*}

/-- What one operation does to an endpoint: a message leaves, a message arrives, some
other reply changes the process alone, or the process ends. -/
theorem Endpoint.Moved.effect {cap : Nat} {D : Discipline S} {P : Process π μ}
    {e e' : Endpoint π S μ} {ch : Choice} (h : Moved cap D P e ch e') :
    (∃ m, ch = .proceed ∧ P.need e.proc = .send m ∧ D.maySend e.sock = true ∧
      e' = ⟨P.resume e.proc .sent, D.sent e.sock, e.inbox, e.outbox ++ [m]⟩) ∨
    (∃ m rest, ch = .proceed ∧ P.need e.proc = .recv ∧ D.mayRecv e.sock = true ∧
      e.inbox = m :: rest ∧
      e' = ⟨P.resume e.proc (.received m), D.received e.sock, rest, e.outbox⟩) ∨
    (∃ r, (r = .failed ∨ ∃ fault, r = .io fault) ∧ P.need e.proc ≠ .halted ∧
      (ch = .proceed → e.OutOfTurn D P ∨ P.need e.proc = .io) ∧
      e' = { e with proc := P.resume e.proc r }) ∨
    (ch = .stop ∧ P.need e.proc ≠ .halted ∧ e' = { e with proc := P.halt e.proc }) := by
  cases h with
  | send hn ht _ => exact Or.inl ⟨_, rfl, hn, ht, rfl⟩
  | recv hn ht hin => exact Or.inr (Or.inl ⟨_, _, rfl, hn, ht, hin, rfl⟩)
  | refuse ho =>
    have hn : P.need e.proc ≠ .halted := by
      rcases ho with ⟨m, hn, _⟩ | ⟨hn, _⟩ <;> simp [hn]
    exact Or.inr (Or.inr (Or.inl ⟨.failed, Or.inl rfl, hn, fun _ => Or.inl ho, rfl⟩))
  | io hn =>
    exact Or.inr (Or.inr (Or.inl
      ⟨.io none, Or.inr ⟨none, rfl⟩, by simp [hn], fun _ => Or.inr hn, rfl⟩))
  | fail hf =>
    have hn : P.need e.proc ≠ .halted := by
      rcases hf with hn | ⟨m, hn⟩ <;> simp [hn]
    exact Or.inr (Or.inr (Or.inl ⟨.failed, Or.inl rfl, hn, nofun, rfl⟩))
  | @fault k hn =>
    exact Or.inr (Or.inr (Or.inl
      ⟨.io (some k), Or.inr ⟨some k, rfl⟩, by simp [hn], nofun, rfl⟩))
  | stop hn => exact Or.inr (Or.inr (Or.inr ⟨rfl, hn, rfl⟩))

/-- A hub with its spokes. Each spoke holds the queues between it and the hub. -/
structure Star (ι π ρ S μ : Type*) where
  hub : π
  hubSock : S
  /-- The spoke that the hub received from last. -/
  peer : Option ι
  spoke : ι → Endpoint ρ S μ

/-- Who acts, and how its surroundings treat it. An operation of the hub names the
spoke whose queues it uses. -/
inductive StarAction (ι : Type*)
  | spoke (i : ι) (choice : Choice)
  | hub (i : ι) (choice : Choice)
  deriving DecidableEq, Repr

/-- The hub with the queues to one spoke, as the hub sees them. -/
def Star.hubEnd (c : Star ι π ρ S μ) (i : ι) : Endpoint π S μ :=
  ⟨c.hub, c.hubSock, (c.spoke i).outbox, (c.spoke i).inbox⟩

variable [DecidableEq ι]

/-- Put a moved spoke back. -/
def Star.setSpoke (c : Star ι π ρ S μ) (i : ι) (e : Endpoint ρ S μ) : Star ι π ρ S μ :=
  { c with spoke := Function.update c.spoke i e }

/-- Put a moved hub back. -/
def Star.setHub (c : Star ι π ρ S μ) (i : ι) (peer : Option ι) (e : Endpoint π S μ) :
    Star ι π ρ S μ where
  hub := e.proc
  hubSock := e.sock
  peer := peer
  spoke := Function.update c.spoke i { c.spoke i with inbox := e.outbox, outbox := e.inbox }

/-- A message that the hub sends goes to the spoke it received from last. -/
def Star.addresses (D : Discipline S) (P : Process π μ) (c : Star ι π ρ S μ) (i : ι) : Bool :=
  match P.need c.hub with
  | .send _ => !D.maySend c.hubSock || decide (c.peer = some i)
  | .recv | .io | .halted => true

/-- The spoke received from last, after an operation of the hub. -/
def Star.nextPeer (D : Discipline S) (P : Process π μ) (c : Star ι π ρ S μ) (i : ι) :
    Choice → Option ι
  | .proceed =>
    match P.need c.hub with
    | .recv => if D.mayRecv c.hubSock then some i else c.peer
    | .send _ | .io | .halted => c.peer
  | .fail | .fault _ | .stop => c.peer

/-- One operation of the hub or of a spoke. -/
def Star.step (cap : Nat) (D : Discipline S) (P : Process π μ) (Q : Process ρ μ)
    (c : Star ι π ρ S μ) : StarAction ι → Option (Star ι π ρ S μ)
  | .spoke i choice => ((c.spoke i).move cap D Q choice).map (c.setSpoke i)
  | .hub i choice =>
    if c.addresses D P i then
      ((c.hubEnd i).move cap D P choice).map (c.setHub i (c.nextPeer D P i choice))
    else none

/-- Everything that one operation can do: it moves a message between a process and a
queue, or changes one process alone. -/
inductive Star.Stepped (D : Discipline S) (P : Process π μ) (Q : Process ρ μ)
    (c : Star ι π ρ S μ) : StarAction ι → Star ι π ρ S μ → Prop
  | ask {i m} : Q.need (c.spoke i).proc = .send m → D.maySend (c.spoke i).sock = true →
      Stepped D P Q c (.spoke i .proceed) (c.setSpoke i ⟨Q.resume (c.spoke i).proc .sent,
        D.sent (c.spoke i).sock, (c.spoke i).inbox, (c.spoke i).outbox ++ [m]⟩)
  | collect {i m rest} : Q.need (c.spoke i).proc = .recv → D.mayRecv (c.spoke i).sock = true →
      (c.spoke i).inbox = m :: rest →
      Stepped D P Q c (.spoke i .proceed) (c.setSpoke i ⟨Q.resume (c.spoke i).proc (.received m),
        D.received (c.spoke i).sock, rest, (c.spoke i).outbox⟩)
  | spokeAlone {i ch r} : (r = .failed ∨ ∃ fault, r = .io fault) →
      Q.need (c.spoke i).proc ≠ .halted →
      (ch = .proceed → (c.spoke i).OutOfTurn D Q ∨ Q.need (c.spoke i).proc = .io) →
      Stepped D P Q c (.spoke i ch)
        (c.setSpoke i { c.spoke i with proc := Q.resume (c.spoke i).proc r })
  | spokeEnds {i} : Q.need (c.spoke i).proc ≠ .halted → Stepped D P Q c (.spoke i .stop)
      (c.setSpoke i { c.spoke i with proc := Q.halt (c.spoke i).proc })
  | take {i m rest} : P.need c.hub = .recv → D.mayRecv c.hubSock = true →
      (c.spoke i).outbox = m :: rest →
      Stepped D P Q c (.hub i .proceed) ⟨P.resume c.hub (.received m), D.received c.hubSock,
        some i, Function.update c.spoke i { c.spoke i with outbox := rest }⟩
  | answer {i m} : P.need c.hub = .send m → D.maySend c.hubSock = true → c.peer = some i →
      Stepped D P Q c (.hub i .proceed) ⟨P.resume c.hub .sent, D.sent c.hubSock, c.peer,
        Function.update c.spoke i { c.spoke i with inbox := (c.spoke i).inbox ++ [m] }⟩
  | hubAlone {i ch r} : (r = .failed ∨ ∃ fault, r = .io fault) → P.need c.hub ≠ .halted →
      (ch = .proceed → (c.hubEnd i).OutOfTurn D P ∨ P.need c.hub = .io) →
      Stepped D P Q c (.hub i ch) { c with hub := P.resume c.hub r }
  | hubEnds {i} : P.need c.hub ≠ .halted →
      Stepped D P Q c (.hub i .stop) { c with hub := P.halt c.hub }

omit [DecidableEq ι] in
/-- Only a receive of the hub changes whom it answers. -/
theorem Star.nextPeer_of_ne {D : Discipline S} {P : Process π μ} {c : Star ι π ρ S μ} {i : ι}
    {ch : Choice} (h : ch = .proceed → P.need c.hub = .recv → D.mayRecv c.hubSock = false) :
    c.nextPeer D P i ch = c.peer := by
  cases ch with
  | proceed =>
    cases hn : P.need c.hub with
    | recv => simp only [nextPeer, hn, h rfl hn, Bool.false_eq_true, if_false]
    | send | io | halted => simp only [nextPeer, hn]
  | fail | fault | stop => rfl

/-- The executable step does nothing but what is listed. -/
theorem Star.stepped_of_step {cap : Nat} {D : Discipline S} {P : Process π μ} {Q : Process ρ μ}
    {c d : Star ι π ρ S μ} {a : StarAction ι} (h : c.step cap D P Q a = some d) :
    Stepped D P Q c a d := by
  cases a with
  | spoke i ch =>
    obtain ⟨e, he, rfl⟩ := Option.map_eq_some_iff.mp h
    rcases (Endpoint.moved_of_move he).effect with ⟨m, rfl, hn, ht, rfl⟩ |
      ⟨m, rest, rfl, hn, ht, hin, rfl⟩ | ⟨r, hr, hn, ho, rfl⟩ | ⟨rfl, hn, rfl⟩
    · exact .ask hn ht
    · exact .collect hn ht hin
    · exact .spokeAlone hr hn ho
    · exact .spokeEnds hn
  | hub i ch =>
    rw [step] at h
    split at h
    · rename_i haddress
      obtain ⟨e, he, rfl⟩ := Option.map_eq_some_iff.mp h
      rcases (Endpoint.moved_of_move he).effect with ⟨m, rfl, hn, ht, rfl⟩ |
        ⟨m, rest, rfl, hn, ht, hin, rfl⟩ | ⟨r, hr, hn, ho, rfl⟩ | ⟨rfl, hn, rfl⟩
      · simp only [hubEnd] at hn ht ⊢
        have hpeer : c.peer = some i := by simpa [addresses, hn, ht] using haddress
        rw [nextPeer_of_ne (by simp [hn])]
        exact .answer hn ht hpeer
      · simp only [hubEnd] at hn ht hin ⊢
        have hpeer : c.nextPeer D P i .proceed = some i := by simp [nextPeer, hn, ht]
        rw [hpeer]
        exact .take hn ht hin
      · have hpeer : c.nextPeer D P i ch = c.peer := by
          refine nextPeer_of_ne fun hch hrecv => ?_
          rcases ho hch with (⟨m, hsend, _⟩ | ⟨_, ht⟩) | hio
          · exact absurd (hrecv.symm.trans hsend) (by simp)
          · exact ht
          · exact absurd (hrecv.symm.trans hio) (by simp)
        simp only [hubEnd, setHub, hpeer, Function.update_eq_self]
        exact .hubAlone hr hn ho
      · simp only [hubEnd, setHub, nextPeer, Function.update_eq_self]
        exact .hubEnds hn
    · contradiction

/-- The right of an endpoint to send, and the messages in its queues. -/
def Endpoint.tokens (D : Discipline S) (e : Endpoint ρ S μ) : Nat :=
  (D.maySend e.sock).toNat + e.outbox.length + e.inbox.length

/-- The tokens of a spoke: its own, and the message of it that the hub is to answer. -/
def Star.tokens (D : Discipline S) (c : Star ι π ρ S μ) (i : ι) : Nat :=
  (c.spoke i).tokens D + if c.peer = some i then (D.maySend c.hubSock).toNat else 0

/-- All sockets of a star satisfy a property. -/
structure Star.Socks (A : S → Prop) (c : Star ι π ρ S μ) : Prop where
  hub : A c.hubSock
  spoke : ∀ i, A (c.spoke i).sock

/-- A spoke may move as long as its own tokens stay. -/
theorem Star.tokens_setSpoke {D : Discipline S} {A : S → Prop} {c : Star ι π ρ S μ} {i : ι}
    {e : Endpoint ρ S μ} (hA : c.Socks A) (hs : A e.sock)
    (ht : e.tokens D = (c.spoke i).tokens D) :
    (c.setSpoke i e).Socks A ∧ ∀ j, (c.setSpoke i e).tokens D j = c.tokens D j := by
  constructor
  · exact ⟨hA.hub, (Function.forall_update_iff c.spoke fun _ e => A e.sock).mpr
      ⟨hs, fun j _ => hA.spoke j⟩⟩
  · intro j
    simp only [tokens, setSpoke]
    by_cases hj : j = i
    · subst j
      rw [Function.update_self, ht]
      rfl
    · rw [Function.update_of_ne hj]
      rfl

/-- Between sockets that take turns the number of tokens of each spoke never changes,
whatever fails. -/
theorem Star.tokens_step {D : Discipline S} {P : Process π μ} {Q : Process ρ μ} {A : S → Prop}
    (hD : D.Alternates A) {c d : Star ι π ρ S μ} {a : StarAction ι} (h : Stepped D P Q c a d)
    (hA : c.Socks A) : d.Socks A ∧ ∀ i, d.tokens D i = c.tokens D i := by
  cases h with
  | @ask i m _ ht =>
    obtain ⟨hs, hf⟩ := hD.sent _ (hA.spoke i)
    refine tokens_setSpoke hA hs ?_
    simp only [Endpoint.tokens, hf, ht, List.length_append, List.length_singleton,
      Bool.toNat_false, Bool.toNat_true]
    omega
  | @collect i m rest _ ht hin =>
    obtain ⟨hs, hf⟩ := hD.received _ (hA.spoke i)
    have hm : D.maySend (c.spoke i).sock = false := by
      simpa [ht] using hD.mayRecv _ (hA.spoke i)
    refine tokens_setSpoke hA hs ?_
    simp only [Endpoint.tokens, hf, hm, hin, List.length_cons, Bool.toNat_false,
      Bool.toNat_true]
    omega
  | spokeAlone => exact tokens_setSpoke hA (hA.spoke _) rfl
  | spokeEnds => exact tokens_setSpoke hA (hA.spoke _) rfl
  | @take i m rest _ ht hout =>
    obtain ⟨hs, hf⟩ := hD.received _ hA.hub
    have hm : D.maySend c.hubSock = false := by
      simpa [ht] using hD.mayRecv _ hA.hub
    refine ⟨⟨hs, (Function.forall_update_iff c.spoke fun _ e => A e.sock).mpr
      ⟨hA.spoke i, fun j _ => hA.spoke j⟩⟩, fun j => ?_⟩
    simp only [tokens, hf, hm, Bool.toNat_false, Bool.toNat_true, ite_self, Option.some.injEq]
    by_cases hj : j = i
    · subst j
      simp only [Function.update_self, Endpoint.tokens, hout, List.length_cons, if_true]
      omega
    · rw [Function.update_of_ne hj, if_neg fun he => hj he.symm]
  | @answer i m _ ht hpeer =>
    obtain ⟨hs, hf⟩ := hD.sent _ hA.hub
    refine ⟨⟨hs, (Function.forall_update_iff c.spoke fun _ e => A e.sock).mpr
      ⟨hA.spoke i, fun j _ => hA.spoke j⟩⟩, fun j => ?_⟩
    simp only [tokens, hf, ht, hpeer, Bool.toNat_false, Bool.toNat_true, ite_self,
      Option.some.injEq]
    by_cases hj : j = i
    · subst j
      simp only [Function.update_self, Endpoint.tokens, List.length_append,
        List.length_singleton, if_true]
      omega
    · rw [Function.update_of_ne hj, if_neg fun he => hj he.symm]
  | hubAlone => exact ⟨⟨hA.hub, hA.spoke⟩, fun _ => rfl⟩
  | hubEnds => exact ⟨⟨hA.hub, hA.spoke⟩, fun _ => rfl⟩

end PbdZmq
