import PbdZmq.Core.Announce
import PbdZmq.Models.Subscription.Mtrie
import PbdZmq.Models.Subscription.Trie

/-!
# What subscribers and publishers tell each other

A message that starts with 1 subscribes to the prefix behind it and one that starts with 0
unsubscribes. A subscriber counts, and sends the last unsubscription only. A publisher knows
the pipes of each prefix, and passes the first subscription and the last unsubscription on
to its user. The messages have one part and no socket is manual, verbose or inverted.
-/

namespace PbdZmq.Subscription

/-- What a message says of subscriptions. -/
def change : Bytes → Change Bytes
  | [] => .other
  | data :: key => if data = 1 then .add key else if data = 0 then .remove key else .other

theorem change_one (key : Bytes) : change (1 :: key) = .add key := rfl

theorem change_zero (key : Bytes) : change (0 :: key) = .remove key := rfl

/-- The prefixes that a subscriber is subscribed to. -/
def Trie.interests (t : Trie) : Set Bytes := {k | 0 < t.lookup k}

@[simp]
theorem Trie.mem_interests {t : Trie} {k : Bytes} : k ∈ t.interests ↔ 0 < t.lookup k := Iff.rfl

/-- `xsub_t::xsend`: whether the message is sent to all pipes, and the subscriptions; none if an
assertion fails. -/
def Trie.xsend (subscriptions : Trie) : Bytes → Option (Bool × Trie)
  | [] => some (true, subscriptions)
  | data :: key =>
    if data = 1 then (Trie.add key subscriptions).map fun r => (true, r.2)
    else if data = 0 then Trie.rm key subscriptions
    else some (true, subscriptions)

/-- `send_subscription` for every subscription. -/
def Trie.send_subscriptions (subscriptions : Trie) : Option (List Bytes) :=
  (Trie.apply subscriptions).map fun keys => keys.map fun key => 1 :: key

/-- A subscriber tells how its set changes. -/
theorem Trie.xsend_spec {t : Trie} (h : t.WF) {msg : Bytes}
    (hroom : ∀ key, msg = 1 :: key → t.lookup key + 1 < 2 ^ 32) :
    ∃ sent t', t.xsend msg = some (sent, t') ∧ t'.WF ∧
      t'.interests = (if sent then change msg else .other).apply t.interests ∧
      (sent = true → Change.Removable t.interests (change msg)) := by
  have hother : ∀ {m}, change m = .other → Change.Removable t.interests (change m) := by
    intro m hm a ha
    rw [hm] at ha
    contradiction
  cases msg with
  | nil => exact ⟨true, t, rfl, h, rfl, fun _ => hother rfl⟩
  | cons data key =>
    by_cases hone : data = 1
    · subst hone
      obtain ⟨t', hadd, hwf, hlookup⟩ := Trie.add_spec h (hroom key rfl)
      refine ⟨true, t', by rw [xsend, if_pos rfl, hadd]; rfl, hwf, ?_, fun _ => ?_⟩
      · ext k
        rw [if_pos rfl, change_one, Change.apply, Set.mem_insert_iff, mem_interests,
          mem_interests, hlookup]
        split <;> simp [*]
      · rintro a ⟨⟩
    by_cases hzero : data = 0
    · subst hzero
      obtain ⟨t', hrm, hwf, hlookup⟩ := Trie.rm_spec h key
      refine ⟨_, t', by rw [xsend, if_neg hone, if_pos rfl, hrm], hwf, ?_, ?_⟩
      · ext k
        rw [mem_interests, hlookup]
        by_cases hlast : t.lookup key = 1
        · rw [if_pos (decide_eq_true hlast), change_zero, Change.apply, Set.mem_sdiff,
            Set.mem_singleton_iff, mem_interests]
          split
          · rename_i hk
            simp [hk, hlast]
          · rename_i hk
            simp [hk]
        · have hkeep : ¬decide (t.lookup key = 1) = true := by simpa using hlast
          rw [if_neg hkeep]
          split
          · rename_i hk
            show 0 < t.lookup k - 1 ↔ 0 < t.lookup k
            rw [hk]
            omega
          · rfl
      · intro hsent a ha
        obtain rfl := Change.remove.inj ha
        rw [mem_interests, of_decide_eq_true hsent]
        exact Nat.one_pos
    · have hc : change (data :: key) = .other := by rw [change, if_neg hone, if_neg hzero]
      refine ⟨true, t, by rw [xsend, if_neg hone, if_neg hzero], h, ?_, fun _ => hother hc⟩
      rw [if_pos rfl, hc]
      rfl

/-- The subscriptions that a new pipe is told. -/
theorem Trie.send_subscriptions_spec {t : Trie} (h : t.WF) :
    ∃ keys : List Bytes, t.send_subscriptions = some (keys.map fun key => 1 :: key) ∧
      ∀ k, k ∈ keys ↔ k ∈ t.interests := by
  obtain ⟨keys, hkeys, -, hmem⟩ := Trie.apply_spec h
  exact ⟨keys, by rw [send_subscriptions, hkeys]; rfl, hmem⟩

namespace Mtrie

variable {π : Type}

/-- The prefixes that a pipe is attached to. -/
def interests (t : Mtrie π) (pipe : π) : Set Bytes := {k | pipe ∈ t.lookup k}

/-- The prefixes that any pipe is attached to. -/
def topics (t : Mtrie π) : Set Bytes := {k | t.lookup k ≠ ∅}

@[simp]
theorem mem_interests {t : Mtrie π} {pipe : π} {k : Bytes} :
    k ∈ t.interests pipe ↔ pipe ∈ t.lookup k := Iff.rfl

@[simp]
theorem mem_topics {t : Mtrie π} {k : Bytes} : k ∈ t.topics ↔ t.lookup k ≠ ∅ := Iff.rfl

variable [DecidableEq π]

/-- The body of the loop of `xpub_t::xread_activated`: what is put into `pending_data`, and the
subscriptions; none if an assertion fails. -/
def process (pipe : π) (subscriptions : Mtrie π) : Bytes → Option (List Bytes × Mtrie π)
  | [] => some ([[]], subscriptions)
  | data :: key =>
    if data = 0 ∨ data = 1 then
      let r := if data = 0 then rm pipe key subscriptions else add pipe key subscriptions
      r.map fun (unique, subscriptions) =>
        (if unique then [data :: key] else [], subscriptions)
    else some ([data :: key], subscriptions)

/-- `xpub_t::xread_activated` on the messages that the pipe has. -/
def xread_activated (pipe : π) : Mtrie π → List Bytes → Option (List Bytes × Mtrie π)
  | subscriptions, [] => some ([], subscriptions)
  | subscriptions, sub :: rest =>
    (process pipe subscriptions sub).bind fun here =>
      (xread_activated pipe here.2 rest).map fun below => (here.1 ++ below.1, below.2)

/-- `xpub_t::xpipe_terminated`. -/
def xpipe_terminated (pipe : π) (subscriptions : Mtrie π) : Option (List Bytes × Mtrie π) :=
  (rm_pipe pipe true subscriptions).map fun r => (r.1.map fun key => 0 :: key, r.2)

/-- What a publisher makes of what it reads: the pipe has other interests, the others have not,
and its user is told how the topics change. -/
structure Hears (pipe : π) (interests : Set Bytes) (t t' : Mtrie π) (pending_data : List Bytes) :
    Prop where
  wf : t'.WF
  self : t'.interests pipe = interests
  others : ∀ p ≠ pipe, t'.interests p = t.interests p
  strict : Respects Change.Strict t.topics (pending_data.map change)
  topics : replay t.topics (pending_data.map change) = t'.topics

variable {pipe : π} {t : Mtrie π}

/-- Nothing that concerns subscriptions. -/
theorem Hears.of_other (h : t.WF) {msg : Bytes} (hc : change msg = .other) :
    Hears pipe (t.interests pipe) t t [msg] where
  wf := h
  self := rfl
  others _ _ := rfl
  strict := by
    rw [List.map_singleton, hc, respects_singleton]
    constructor <;> rintro a ⟨⟩
  topics := by
    rw [List.map_singleton, hc]
    rfl

/-- A subscription. -/
theorem Hears.of_add {t' : Mtrie π} {key : Bytes} (hwf : t'.WF)
    (hlookup : ∀ k, t'.lookup k = if k = key then Insert.insert pipe (t.lookup k) else t.lookup k) :
    Hears pipe (Insert.insert key (t.interests pipe)) t t'
      (if t.lookup key = ∅ then [1 :: key] else []) where
  wf := hwf
  self := by
    ext k
    rw [Set.mem_insert_iff, mem_interests, mem_interests, hlookup]
    split <;> simp [*]
  others p hp := by
    ext k
    rw [mem_interests, mem_interests, hlookup]
    split <;> simp [hp]
  strict := by
    split
    · rename_i hnone
      rw [List.map_singleton, change_one, respects_singleton]
      refine ⟨by rintro a ⟨⟩, ?_⟩
      rintro a ⟨⟩
      exact not_not.mpr hnone
    · trivial
  topics := by
    ext k
    rw [mem_topics, hlookup]
    by_cases hnone : t.lookup key = ∅
    · rw [if_pos hnone, List.map_singleton, change_one, replay_cons, replay_nil, Change.apply,
        Set.mem_insert_iff, mem_topics]
      split <;> simp [*]
    · rw [if_neg hnone, List.map_nil, replay_nil, mem_topics]
      split
      · rename_i hk
        simp [hk, hnone]
      · rfl

/-- An unsubscription from what the pipe is attached to. -/
theorem Hears.of_rm {t' : Mtrie π} {key : Bytes} (hmem : pipe ∈ t.lookup key) (hwf : t'.WF)
    (hlookup : ∀ k, t'.lookup k = if k = key then (t.lookup k).erase pipe else t.lookup k) :
    Hears pipe (t.interests pipe \ {key}) t t'
      (if t.lookup key = {pipe} then [0 :: key] else []) where
  wf := hwf
  self := by
    ext k
    rw [Set.mem_sdiff, Set.mem_singleton_iff, mem_interests, mem_interests, hlookup]
    split <;> simp [*]
  others p hp := by
    ext k
    rw [mem_interests, mem_interests, hlookup]
    split <;> simp [hp]
  strict := by
    split
    · rw [List.map_singleton, change_zero, respects_singleton]
      refine ⟨?_, by rintro a ⟨⟩⟩
      rintro a ⟨⟩
      exact Finset.ne_empty_of_mem hmem
    · trivial
  topics := by
    have hlast : (t.lookup key).erase pipe = ∅ ↔ t.lookup key = {pipe} := by
      rw [Finset.erase_eq_empty_iff, or_iff_right (Finset.ne_empty_of_mem hmem)]
    ext k
    rw [mem_topics, hlookup]
    by_cases hone : t.lookup key = {pipe}
    · rw [if_pos hone, List.map_singleton, change_zero, replay_cons, replay_nil, Change.apply,
        Set.mem_sdiff, Set.mem_singleton_iff, mem_topics]
      split
      · rename_i hk
        rw [hk, hlast.mpr hone]
        simp
      · rename_i hk
        simp [hk]
    · rw [if_neg hone, List.map_nil, replay_nil, mem_topics]
      split
      · rename_i hk
        rw [hk, ne_eq, ne_eq, hlast]
        exact iff_of_true (Finset.ne_empty_of_mem hmem) hone
      · rfl

/-- One message. -/
theorem process_spec (h : t.WF) {msg : Bytes}
    (hmsg : Change.Removable (t.interests pipe) (change msg)) :
    ∃ told t', process pipe t msg = some (told, t') ∧
      Hears pipe ((change msg).apply (t.interests pipe)) t t' told := by
  cases msg with
  | nil => exact ⟨_, t, rfl, .of_other h rfl⟩
  | cons data key =>
    by_cases hzero : data = 0
    · subst hzero
      have hmem := hmsg key rfl
      obtain ⟨t', hrm, hwf, hlookup⟩ := rm_spec h hmem
      refine ⟨_, t', ?_, .of_rm hmem hwf hlookup⟩
      rw [process, if_pos (Or.inl rfl), if_pos rfl, hrm]
      simp only [Option.map_some, decide_eq_true_eq]
    by_cases hone : data = 1
    · subst hone
      obtain ⟨t', hadd, hwf, hlookup⟩ := add_spec h pipe key
      refine ⟨_, t', ?_, .of_add hwf hlookup⟩
      rw [process, if_pos (Or.inr rfl), if_neg hzero, hadd]
      simp only [Option.map_some, decide_eq_true_eq]
    · have hc : change (data :: key) = .other := by rw [change, if_neg hone, if_neg hzero]
      refine ⟨[data :: key], t, ?_, ?_⟩
      · rw [process, if_neg (not_or.mpr ⟨hzero, hone⟩)]
      · rw [hc]
        exact .of_other h hc

/-- What is read in two parts. -/
theorem Hears.trans {S S' : Set Bytes} {t' t'' : Mtrie π} {told told' : List Bytes}
    (h : Hears pipe S t t' told) (h' : Hears pipe S' t' t'' told') :
    Hears pipe S' t t'' (told ++ told') where
  wf := h'.wf
  self := h'.self
  others p hp := (h'.others p hp).trans (h.others p hp)
  strict := by
    rw [List.map_append, respects_append, h.topics]
    exact ⟨h.strict, h'.strict⟩
  topics := by rw [List.map_append, replay_append, h.topics, h'.topics]

/-- All messages that a pipe has. -/
theorem xread_activated_spec (h : t.WF) {msgs : List Bytes}
    (hmsgs : Respects Change.Removable (t.interests pipe) (msgs.map change)) :
    ∃ told t', xread_activated pipe t msgs = some (told, t') ∧
      Hears pipe (replay (t.interests pipe) (msgs.map change)) t t' told := by
  induction msgs generalizing t with
  | nil => exact ⟨[], t, rfl, h, rfl, fun _ _ => rfl, trivial, rfl⟩
  | cons msg rest ih =>
    obtain ⟨hmsg, hrest⟩ := hmsgs
    obtain ⟨here, t', hhere, hears⟩ := process_spec h hmsg
    rw [← hears.self] at hrest
    obtain ⟨below, t'', hbelow, hears'⟩ := ih hears.wf hrest
    rw [hears.self] at hears'
    exact ⟨here ++ below, t'', by rw [xread_activated, hhere, Option.bind_some, hbelow]; rfl,
      hears.trans hears'⟩

/-- A pipe that terminates unsubscribes from everything. -/
theorem xpipe_terminated_spec (h : t.WF) (pipe : π) :
    ∃ told t', xpipe_terminated pipe t = some (told, t') ∧ Hears pipe ∅ t t' told := by
  obtain ⟨keys, t', hrm, hwf, hlookup, hnodup, hmem⟩ := @rm_pipe_spec π _ pipe true t h
  have hsingle : ∀ k, k ∈ keys ↔ t.lookup k = {pipe} := by
    intro k
    rw [hmem]
    refine ⟨fun hk => hk.2 rfl, fun hk => ⟨?_, fun _ => hk⟩⟩
    rw [hk]
    exact Finset.mem_singleton_self pipe
  have hchange : (keys.map fun key => 0 :: key).map change = keys.map Change.remove := by
    rw [List.map_map]
    rfl
  refine ⟨_, t', by rw [xpipe_terminated, hrm]; rfl, hwf, ?_, fun p hp => ?_, ?_, ?_⟩
  · ext k
    simp [hlookup]
  · ext k
    simp [hlookup, hp]
  · rw [hchange]
    refine respects_removes hnodup fun k hk => ?_
    rw [mem_topics, (hsingle k).mp hk]
    exact Finset.singleton_ne_empty pipe
  · ext k
    rw [hchange, mem_replay_removes, hsingle, mem_topics, mem_topics, hlookup,
      ne_eq ((t.lookup k).erase pipe), Finset.erase_eq_empty_iff, not_or]

end Mtrie

end PbdZmq.Subscription
