import Mathlib.Logic.Function.Basic
import PbdZmq.Core.System
import PbdZmq.Models.Subscription.Sockets

/-!
# Subscribers and publishers

Any number of subscribers are connected to any number of publishers. A connection has two
ends that are attached and terminate on their own, and what a subscriber sends waits until
the publisher reads it. A connection that is made anew is another connection. A pipe that
has reached its limit drops what is sent to it.
-/

namespace PbdZmq.Subscription

/-- An end of a connection. -/
inductive End
  | fresh
  | attached
  | terminated
  deriving DecidableEq, Repr

/-- A connection. -/
structure Connection where
  subscriber : End
  publisher : End
  /-- What the publisher has not read. -/
  upstream : List Bytes
  deriving DecidableEq, Repr

/-- Which sockets a pipe connects. -/
structure Topology (π σ ρ : Type) where
  subscriber : π → σ
  publisher : π → ρ

/-- The sockets and their connections. -/
structure Net (π σ ρ : Type) where
  xsub : σ → Trie
  xpub : ρ → Mtrie π
  pipe : π → Connection
  /-- History: what was put into `pending_data`. -/
  pending_data : ρ → List Bytes

/-- What happens at one end. -/
inductive Event (π σ : Type)
  /-- `xsend` of a subscriber, while some pipes have reached their limit. -/
  | xsend (s : σ) (msg : Bytes) (full : π → Bool)
  /-- `xattach_pipe` of a subscriber, where the pipe takes so many messages. -/
  | attachSubscriber (p : π) (room : Nat)
  /-- `xattach_pipe` of a publisher. What the pipe has is read by an event of its own. -/
  | attachPublisher (p : π)
  /-- `xread_activated` of a publisher, when so many messages have come. -/
  | read (p : π) (available : Nat)
  /-- `xpipe_terminated` of a subscriber. -/
  | terminateSubscriber (p : π)
  /-- `xpipe_terminated` of a publisher. -/
  | terminatePublisher (p : π)

variable {π σ ρ : Type}

/-- No subscriptions and no connections. -/
def Net.start : Net π σ ρ where
  xsub _ := .new
  xpub _ := .new
  pipe _ := ⟨.fresh, .fresh, []⟩
  pending_data _ := []

/-- An end is attached once, and reads and terminates while it is attached. -/
def Net.Enabled (c : Net π σ ρ) : Event π σ → Prop
  | .xsend _ _ _ => True
  | .attachSubscriber p _ => (c.pipe p).subscriber = .fresh
  | .attachPublisher p => (c.pipe p).publisher = .fresh
  | .read p _ | .terminatePublisher p => (c.pipe p).publisher = .attached
  | .terminateSubscriber p => (c.pipe p).subscriber = .attached

instance (c : Net π σ ρ) : (e : Event π σ) → Decidable (c.Enabled e)
  | .xsend _ _ _ => inferInstanceAs (Decidable True)
  | .attachSubscriber p _ => inferInstanceAs (Decidable ((c.pipe p).subscriber = .fresh))
  | .attachPublisher p => inferInstanceAs (Decidable ((c.pipe p).publisher = .fresh))
  | .read p _ => inferInstanceAs (Decidable ((c.pipe p).publisher = .attached))
  | .terminateSubscriber p => inferInstanceAs (Decidable ((c.pipe p).subscriber = .attached))
  | .terminatePublisher p => inferInstanceAs (Decidable ((c.pipe p).publisher = .attached))

variable [DecidableEq π]

section

variable [DecidableEq σ] [DecidableEq ρ]

/-- The publisher of a pipe has another trie and tells its user about it. -/
def Net.hear (W : Topology π σ ρ) (c : Net π σ ρ) (p : π) (x : Connection)
    (r : List Bytes × Mtrie π) : Net π σ ρ :=
  { c with
    xpub := Function.update c.xpub (W.publisher p) r.2
    pipe := Function.update c.pipe p x
    pending_data := Function.update c.pending_data (W.publisher p)
      (c.pending_data (W.publisher p) ++ r.1) }

/-- One event; none if it is not enabled or an assertion fails. -/
def step (W : Topology π σ ρ) (c : Net π σ ρ) (e : Event π σ) : Option (Net π σ ρ) :=
  if c.Enabled e then
    match e with
    | .xsend s msg full =>
      ((c.xsub s).xsend msg).map fun (sent, t) =>
        { c with
          xsub := Function.update c.xsub s t
          pipe p :=
            if sent ∧ W.subscriber p = s ∧ (c.pipe p).subscriber = .attached ∧ full p = false then
              { c.pipe p with upstream := (c.pipe p).upstream ++ [msg] }
            else c.pipe p }
    | .attachSubscriber p room =>
      (c.xsub (W.subscriber p)).send_subscriptions.map fun msgs =>
        { c with
          pipe := Function.update c.pipe p { c.pipe p with
            subscriber := .attached
            upstream := (c.pipe p).upstream ++ msgs.take room } }
    | .attachPublisher p =>
      some { c with pipe := Function.update c.pipe p { c.pipe p with publisher := .attached } }
    | .read p available =>
      ((c.xpub (W.publisher p)).xread_activated p ((c.pipe p).upstream.take available)).map
        (c.hear W p { c.pipe p with upstream := (c.pipe p).upstream.drop available })
    | .terminateSubscriber p =>
      some { c with pipe := Function.update c.pipe p { c.pipe p with subscriber := .terminated } }
    | .terminatePublisher p =>
      ((c.xpub (W.publisher p)).xpipe_terminated p).map
        (c.hear W p { c.pipe p with publisher := .terminated })
  else none

end

/-- No pipe drops a message, and no prefix has 2 ^ 32 - 1 subscriptions of one subscriber. -/
def Keeps (W : Topology π σ ρ) (c : Net π σ ρ) : Event π σ → Prop
  | .xsend s msg full =>
    (∀ p, W.subscriber p = s → (c.pipe p).subscriber = .attached → full p = false) ∧
      ∀ key, msg = 1 :: key → (c.xsub s).lookup key + 1 < 2 ^ 32
  | .attachSubscriber p room =>
    ∀ msgs, (c.xsub (W.subscriber p)).send_subscriptions = some msgs → msgs.length ≤ room
  | _ => True

/-- What the publisher knows of a pipe, and what the subscriber wants, differ by the messages
that are under way. -/
structure Connection.Forwards (x : Connection) (known wanted : Set Bytes) : Prop where
  fresh : x.subscriber = .fresh → x.upstream = [] ∧ known = ∅
  attached : x.publisher ≠ .attached → known = ∅
  removable : x.publisher ≠ .terminated →
    Respects Change.Removable known (x.upstream.map change)
  forwarded : x.publisher ≠ .terminated → x.subscriber = .attached →
    replay known (x.upstream.map change) = wanted

namespace Connection.Forwards

variable {x : Connection} {known wanted : Set Bytes} (h : x.Forwards known wanted)

include h

/-- The subscriber sends a message. -/
theorem send {msg : Bytes} (hattached : x.subscriber = .attached)
    (hmsg : Change.Removable wanted (change msg)) :
    Connection.Forwards { x with upstream := x.upstream ++ [msg] } known
      ((change msg).apply wanted) where
  fresh hfresh := absurd (hattached.symm.trans hfresh) (by decide)
  attached := h.attached
  removable hup := by
    rw [List.map_append, respects_append, h.forwarded hup hattached, List.map_singleton,
      respects_singleton]
    exact ⟨h.removable hup, hmsg⟩
  forwarded hup _ := by
    rw [List.map_append, replay_append, h.forwarded hup hattached]
    rfl

/-- What a subscriber wants does not matter to a pipe that is not attached. -/
theorem detached (hattached : x.subscriber ≠ .attached) (wanted' : Set Bytes) :
    x.Forwards known wanted' where
  fresh := h.fresh
  attached := h.attached
  removable := h.removable
  forwarded _ hsub := absurd hsub hattached

/-- The subscriber tells a new pipe what it wants. -/
theorem attach (hfresh : x.subscriber = .fresh) {keys : List Bytes}
    (hkeys : ∀ k, k ∈ keys ↔ k ∈ wanted) :
    Connection.Forwards { x with
      subscriber := .attached
      upstream := x.upstream ++ keys.map fun key => 1 :: key } known wanted := by
  obtain ⟨hempty, rfl⟩ := h.fresh hfresh
  have hchange : (x.upstream ++ keys.map fun key => 1 :: key).map change =
      keys.map Change.add := by
    rw [hempty, List.nil_append, List.map_map]
    rfl
  refine ⟨by rintro ⟨⟩, fun _ => rfl, fun _ => ?_, fun _ _ => ?_⟩
  · rw [hchange]
    exact respects_adds keys
  · ext k
    rw [hchange, mem_replay_adds, hkeys]
    exact or_iff_right (Set.notMem_empty k)

/-- The publisher attaches a new pipe. -/
theorem attachPublisher (hfresh : x.publisher = .fresh) :
    Connection.Forwards { x with publisher := .attached } known wanted where
  fresh := h.fresh
  attached hnot := absurd rfl hnot
  removable _ := h.removable (by rw [hfresh]; decide)
  forwarded _ := h.forwarded (by rw [hfresh]; decide)

/-- The publisher reads. -/
theorem read (hattached : x.publisher = .attached) (available : Nat) :
    Connection.Forwards { x with upstream := x.upstream.drop available }
      (replay known ((x.upstream.take available).map change)) wanted := by
  have hsplit : x.upstream.map change = (x.upstream.take available).map change ++
      (x.upstream.drop available).map change := by
    rw [← List.map_append, List.take_append_drop]
  refine ⟨fun hfresh => ?_, fun hnot => absurd hattached hnot, fun hup => ?_, fun hup hsub => ?_⟩
  · obtain ⟨hempty, rfl⟩ := h.fresh hfresh
    simp [hempty]
  · have hall := h.removable hup
    rw [hsplit, respects_append] at hall
    exact hall.2
  · rw [← replay_append, ← hsplit]
    exact h.forwarded hup hsub

/-- The subscriber lets a pipe go. -/
theorem terminateSubscriber :
    Connection.Forwards { x with subscriber := .terminated } known wanted where
  fresh := by rintro ⟨⟩
  attached := h.attached
  removable := h.removable
  forwarded _ := by rintro ⟨⟩

/-- The publisher lets a pipe go. -/
theorem terminatePublisher :
    Connection.Forwards { x with publisher := .terminated } ∅ wanted where
  fresh hfresh := ⟨(h.fresh hfresh).1, rfl⟩
  attached _ := rfl
  removable hup := absurd rfl hup
  forwarded hup := absurd rfl hup

end Connection.Forwards

/-- Every connection forwards, and every user of a publisher was told its topics. -/
structure Net.Forwards (W : Topology π σ ρ) (c : Net π σ ρ) : Prop where
  xsub : ∀ s, (c.xsub s).WF
  xpub : ∀ r, (c.xpub r).WF
  pipe : ∀ p, (c.pipe p).Forwards ((c.xpub (W.publisher p)).interests p)
    (c.xsub (W.subscriber p)).interests
  own : ∀ r p, W.publisher p ≠ r → (c.xpub r).interests p = ∅
  strict : ∀ r, Respects Change.Strict ∅ ((c.pending_data r).map change)
  topics : ∀ r, replay ∅ ((c.pending_data r).map change) = (c.xpub r).topics

namespace Net.Forwards

theorem begin (W : Topology π σ ρ) : (Net.start : Net π σ ρ).Forwards W := by
  have hinterests : ∀ p, Mtrie.interests (.new : Mtrie π) p = ∅ := by
    intro p
    ext k
    simp [Node.lookup_new]
  refine ⟨fun _ => Node.wf_new, fun _ => Node.wf_new, fun p => ⟨fun _ => ⟨rfl, hinterests p⟩,
    fun _ => hinterests p, fun _ => trivial, by intro _; rintro ⟨⟩⟩, fun _ p _ => hinterests p,
    fun _ => trivial, fun r => ?_⟩
  ext k
  simp [Net.start, Node.lookup_new]

variable {W : Topology π σ ρ} {c : Net π σ ρ} (h : c.Forwards W)

include h

/-- Only the pipe changes. -/
theorem setPipe {p : π} {x : Connection}
    (hx : x.Forwards ((c.xpub (W.publisher p)).interests p)
      (c.xsub (W.subscriber p)).interests) :
    Net.Forwards W { c with pipe := Function.update c.pipe p x } where
  xsub := h.xsub
  xpub := h.xpub
  pipe := (Function.forall_update_iff c.pipe fun p x =>
    x.Forwards ((c.xpub (W.publisher p)).interests p) (c.xsub (W.subscriber p)).interests).mpr
      ⟨hx, fun q _ => h.pipe q⟩
  own := h.own
  strict := h.strict
  topics := h.topics

variable [DecidableEq ρ]

/-- A publisher hears of one pipe. -/
theorem hear {p : π} {x : Connection} {S : Set Bytes} {told : List Bytes} {t : Mtrie π}
    (hears : Mtrie.Hears p S (c.xpub (W.publisher p)) t told)
    (hx : x.Forwards S (c.xsub (W.subscriber p)).interests) :
    (c.hear W p x (told, t)).Forwards W := by
  have hknown : ∀ q ≠ p, ∀ r, (Function.update c.xpub (W.publisher p) t r).interests q =
      (c.xpub r).interests q := by
    intro q hq r
    by_cases hr : r = W.publisher p
    · subst hr
      rw [Function.update_self]
      exact hears.others q hq
    · rw [Function.update_of_ne hr]
  refine ⟨h.xsub, ?_, fun q => ?_, fun r q hr => ?_, ?_, ?_⟩
  · exact (Function.forall_update_iff c.xpub fun _ t => t.WF).mpr
      ⟨hears.wf, fun r _ => h.xpub r⟩
  · by_cases hq : q = p
    · subst hq
      simp only [Net.hear, Function.update_self, hears.self]
      exact hx
    · simp only [Net.hear, Function.update_of_ne hq, hknown q hq]
      exact h.pipe q
  · by_cases hq : q = p
    · subst hq
      simp only [Net.hear, Function.update_of_ne (Ne.symm hr)]
      exact h.own r q hr
    · simp only [Net.hear, hknown q hq]
      exact h.own r q hr
  · intro r
    by_cases hr : r = W.publisher p
    · subst hr
      simp only [Net.hear, Function.update_self, List.map_append, respects_append, h.topics]
      exact ⟨h.strict _, hears.strict⟩
    · simp only [Net.hear, Function.update_of_ne hr]
      exact h.strict r
  · intro r
    by_cases hr : r = W.publisher p
    · subst hr
      simp only [Net.hear, Function.update_self, List.map_append, replay_append, h.topics]
      exact hears.topics
    · simp only [Net.hear, Function.update_of_ne hr]
      exact h.topics r

variable [DecidableEq σ]

/-- A subscriber sends a message, and no pipe of it drops the message. -/
theorem xsend {s : σ} {msg : Bytes} {full : π → Bool} (hkeeps : Keeps W c (.xsend s msg full)) :
    ∃ d, step W c (.xsend s msg full) = some d ∧ d.Forwards W := by
  obtain ⟨hfull, hroom⟩ := hkeeps
  obtain ⟨sent, t, hsend, hwf, hinterests, hmsg⟩ := Trie.xsend_spec (h.xsub s) hroom
  have henabled : c.Enabled (.xsend s msg full) := trivial
  refine ⟨_, by rw [step, if_pos henabled, hsend]; rfl, ?_⟩
  refine ⟨(Function.forall_update_iff c.xsub fun _ t => t.WF).mpr ⟨hwf, fun s _ => h.xsub s⟩,
    h.xpub, fun p => ?_, h.own, h.strict, h.topics⟩
  have hp := h.pipe p
  by_cases hs : W.subscriber p = s
  swap
  · simp only [hs, false_and, and_false, if_false, Function.update_of_ne hs]
    exact hp
  subst hs
  simp only [true_and, Function.update_self]
  by_cases hattached : (c.pipe p).subscriber = .attached
  swap
  · simp only [hattached, false_and, and_false, if_false]
    exact hp.detached hattached _
  cases sent with
  | true =>
    rw [if_pos ⟨rfl, hattached, hfull p rfl hattached⟩, hinterests, if_pos rfl]
    exact hp.send hattached (hmsg rfl)
  | false =>
    rw [if_neg fun hsent => Bool.false_ne_true hsent.1, hinterests, if_neg Bool.false_ne_true]
    exact hp

/-- No assertion fails in one event, and all connections forward behind it. -/
theorem step {e : Event π σ} (henabled : c.Enabled e) (hkeeps : Keeps W c e) :
    ∃ d, Subscription.step W c e = some d ∧ d.Forwards W := by
  cases e with
  | xsend s msg full => exact h.xsend hkeeps
  | attachSubscriber p room =>
    obtain ⟨keys, hkeys, hmem⟩ := Trie.send_subscriptions_spec (h.xsub (W.subscriber p))
    have hstep : Subscription.step W c (.attachSubscriber p room) = some { c with
        pipe := Function.update c.pipe p { c.pipe p with
          subscriber := .attached
          upstream := (c.pipe p).upstream ++ keys.map fun key => 1 :: key } } := by
      rw [Subscription.step, if_pos henabled]
      simp only [hkeys, Option.map_some, List.take_of_length_le (hkeeps _ hkeys)]
    exact ⟨_, hstep, h.setPipe ((h.pipe p).attach henabled hmem)⟩
  | attachPublisher p =>
    exact ⟨_, by rw [Subscription.step, if_pos henabled],
      h.setPipe ((h.pipe p).attachPublisher henabled)⟩
  | read p available =>
    have hup : (c.pipe p).publisher ≠ .terminated := by
      rw [show (c.pipe p).publisher = .attached from henabled]
      decide
    have hall := (h.pipe p).removable hup
    rw [← List.take_append_drop available (c.pipe p).upstream, List.map_append,
      respects_append] at hall
    obtain ⟨told, t, hread, hears⟩ := Mtrie.xread_activated_spec (h.xpub (W.publisher p)) hall.1
    have hstep : Subscription.step W c (.read p available) = some (c.hear W p
        { c.pipe p with upstream := (c.pipe p).upstream.drop available } (told, t)) := by
      rw [Subscription.step, if_pos henabled]
      simp only [hread, Option.map_some]
    exact ⟨_, hstep, h.hear hears ((h.pipe p).read henabled available)⟩
  | terminateSubscriber p =>
    exact ⟨_, by rw [Subscription.step, if_pos henabled],
      h.setPipe (h.pipe p).terminateSubscriber⟩
  | terminatePublisher p =>
    obtain ⟨told, t, hrm, hears⟩ := Mtrie.xpipe_terminated_spec (h.xpub (W.publisher p)) p
    have hstep : Subscription.step W c (.terminatePublisher p) =
        some (c.hear W p { c.pipe p with publisher := .terminated } (told, t)) := by
      rw [Subscription.step, if_pos henabled]
      simp only [hrm, Option.map_some]
    exact ⟨_, hstep, h.hear hears (h.pipe p).terminatePublisher⟩

end Net.Forwards

section

variable [DecidableEq σ] [DecidableEq ρ] {W : Topology π σ ρ} {c : Net π σ ρ}

end

end PbdZmq.Subscription
