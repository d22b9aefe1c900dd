import PbdZmq.Models.Poll.PollSet

/-!
# The arrays that `zmq.poll` allocates

`R_zmq_poll_free` decides by the number of items whether there is an array to free. An
array for no items, which `malloc` may return for a size of zero, is therefore kept, and
the next `zmq.poll` forgets it.
-/

namespace PbdZmq.Poll

/-- The global variables, and what `malloc` returned and was not freed. -/
structure Arrays where
  /-- `NULL` or an address. -/
  PBD_POLLITEM : Option Nat
  PBD_POLLITEM_LENGTH : Nat
  live : List Nat
  deriving DecidableEq, Repr

/-- The variables when the package is loaded. -/
def Arrays.initial : Arrays := ⟨none, 0, []⟩

/-- A call of `zmq.poll` with its `malloc` and its user. -/
structure PollRun extends PollCall where
  /-- What `malloc` returns. -/
  block : Option Nat
  /-- `R_CheckUserInterrupt` raises an error. -/
  interrupted : Bool
  deriving DecidableEq, Repr

/-- How a call ends. -/
inductive Exit
  | returned
  /-- An R error or an interrupt. -/
  | raised
  deriving DecidableEq, Repr

/-- `R_zmq_poll_free`. There is no result if it frees what is not allocated. -/
def Arrays.R_zmq_poll_free (a : Arrays) : Option Arrays :=
  if a.PBD_POLLITEM_LENGTH ≠ 0 then
    match a.PBD_POLLITEM with
    | none => some ⟨none, 0, a.live⟩
    | some b => if b ∈ a.live then some ⟨none, 0, a.live.erase b⟩ else none
  else some a

/-- The variables behind the `malloc` of `R_zmq_poll`. -/
def Arrays.allocate (a : Arrays) (block : Option Nat) (length : Nat) : Arrays :=
  ⟨block, length, block.toList ++ a.live⟩

/-- `R_zmq_poll`. There is no result if it writes through `NULL`, or if `malloc` returns what
is allocated already. -/
def Arrays.R_zmq_poll (a : Arrays) (p : PollRun) : Option (Exit × Arrays) :=
  match p.socket with
  | .bare => some (.raised, a)
  | .vector elems =>
    if intMax < elems.length then some (.raised, a)
    else if p.block.any fun b => b ∈ a.live then none
    else if p.noMemory then some (.raised, a.allocate p.block elems.length)
    else
      match p.block, elems with
      | none, .pointer _ :: _ => none
      | _, _ =>
        if (fill (elems.zip p.type)).2 && !p.interrupted then
          some (.returned, a.allocate p.block elems.length)
        else some (.raised, a.allocate p.block elems.length)

/-- `zmq.poll`. -/
def Arrays.zmqPoll (a : Arrays) (p : PollRun) : Option (Exit × Arrays) :=
  if p.accepted then a.R_zmq_poll_free.bind fun a => a.R_zmq_poll p else some (.raised, a)

/-- The exported functions that change the arrays. -/
inductive ArrayCall
  | poll (p : PollRun)
  | free
  deriving DecidableEq, Repr

/-- One call. -/
def Arrays.step (a : Arrays) : ArrayCall → Option Arrays
  | .poll p => (a.zmqPoll p).map Prod.snd
  | .free => a.R_zmq_poll_free

/-- The arrays after a sequence of calls, the most recent one first. -/
def arraysAfter : List ArrayCall → Option Arrays
  | [] => some .initial
  | call :: earlier => (arraysAfter earlier).bind fun a => a.step call

/-- At most one array is allocated, which is the current one, and `zmq.poll.free` leaves
none. -/
structure Arrays.Tidy (a : Arrays) : Prop where
  current : ∀ b ∈ a.live, a.PBD_POLLITEM = some b
  single : a.live.length ≤ 1
  freed : ∃ a', a.R_zmq_poll_free = some a' ∧ a'.live = [] ∧ a'.PBD_POLLITEM = none

/-- The call has a socket, or gets no array for none. -/
def ArrayCall.NotEmpty : ArrayCall → Prop
  | .poll p => p.socket = .vector [] → p.type = [] → p.block = none
  | .free => True

/-- The current array is all that is allocated, and the length tells whether there is one. -/
structure Arrays.Owned (a : Arrays) : Prop where
  live_eq : a.live = a.PBD_POLLITEM.toList
  none_of_length : a.PBD_POLLITEM_LENGTH = 0 → a.PBD_POLLITEM = none

/-- Freeing an owned array leaves nothing. -/
theorem Arrays.Owned.free {a : Arrays} (h : a.Owned) :
    ∃ a', a.R_zmq_poll_free = some a' ∧ a'.live = [] ∧ a'.PBD_POLLITEM = none := by
  have hlive := h.live_eq
  unfold R_zmq_poll_free
  by_cases hz : a.PBD_POLLITEM_LENGTH = 0
  · have hnone := h.none_of_length hz
    rw [hnone] at hlive
    rw [if_neg (not_not.mpr hz)]
    exact ⟨a, rfl, hlive, hnone⟩
  · rw [if_pos hz]
    cases hp : a.PBD_POLLITEM with
    | none =>
      rw [hp] at hlive
      exact ⟨_, rfl, hlive, rfl⟩
    | some b =>
      rw [hp] at hlive
      simp only [hlive, Option.toList_some, List.mem_singleton, if_true]
      exact ⟨_, rfl, by simp, rfl⟩

theorem Arrays.Owned.tidy {a : Arrays} (h : a.Owned) : a.Tidy := by
  refine ⟨?_, ?_, h.free⟩
  · intro b hb
    rw [h.live_eq] at hb
    exact Option.mem_toList.mp hb
  · rw [h.live_eq]
    cases a.PBD_POLLITEM <;> simp

/-- Behind its `malloc`, `R_zmq_poll` leaves the arrays alone on every way out. -/
theorem Arrays.R_zmq_poll_cases {a a' : Arrays} {p : PollRun} {exit : Exit}
    (h : a.R_zmq_poll p = some (exit, a')) :
    (a' = a ∧ ∀ elems, p.socket = .vector elems → intMax < elems.length) ∨
      ∃ elems, p.socket = .vector elems ∧ ¬ intMax < elems.length ∧
        a' = a.allocate p.block elems.length := by
  unfold R_zmq_poll at h
  split at h
  · rename_i hs
    refine Or.inl ⟨(Prod.mk.inj (Option.some.inj h)).2.symm, ?_⟩
    intro elems helems
    rw [hs] at helems
    contradiction
  · rename_i elems hs
    split at h
    · rename_i hlong
      refine Or.inl ⟨(Prod.mk.inj (Option.some.inj h)).2.symm, ?_⟩
      intro elems' helems
      rw [hs, SocketArg.vector.injEq] at helems
      rwa [← helems]
    · rename_i hlong
      refine Or.inr ⟨elems, hs, hlong, ?_⟩
      split at h
      · contradiction
      · split at h
        · exact (Prod.mk.inj (Option.some.inj h)).2.symm
        · split at h
          · contradiction
          · split at h
            · exact (Prod.mk.inj (Option.some.inj h)).2.symm
            · exact (Prod.mk.inj (Option.some.inj h)).2.symm

/-- What a `zmq.poll` does to the arrays. -/
theorem Arrays.zmqPoll_cases {a a' : Arrays} {p : PollRun} {exit : Exit}
    (h : a.zmqPoll p = some (exit, a')) : a' = a ∨ ∃ f, a.R_zmq_poll_free = some f ∧
      (a' = f ∨ ∃ elems, p.socket = .vector elems ∧ p.type.length = elems.length ∧
        a' = f.allocate p.block elems.length) := by
  unfold zmqPoll at h
  split at h
  · rename_i haccepted
    obtain ⟨f, hf, hpoll⟩ := Option.bind_eq_some_iff.mp h
    refine Or.inr ⟨f, hf, ?_⟩
    rcases R_zmq_poll_cases hpoll with ⟨heq, -⟩ | ⟨elems, hs, -, heq⟩
    · exact Or.inl heq
    · refine Or.inr ⟨elems, hs, ?_, heq⟩
      simp only [PollCall.accepted, hs, SocketArg.length, Bool.and_eq_true, beq_iff_eq]
        at haccepted
      exact haccepted.1.symm
  · exact Or.inl (Prod.mk.inj (Option.some.inj h)).2.symm

/-- A call leaves the arrays alone, or frees the current one and perhaps allocates another. -/
theorem Arrays.step_cases {a a' : Arrays} {call : ArrayCall} (h : a.step call = some a') :
    a' = a ∨ ∃ f, a.R_zmq_poll_free = some f ∧
      (a' = f ∨ ∃ p elems, call = .poll p ∧ p.socket = .vector elems ∧
        p.type.length = elems.length ∧ a' = f.allocate p.block elems.length) := by
  cases call with
  | free => exact Or.inr ⟨a', h, Or.inl rfl⟩
  | poll p =>
    obtain ⟨⟨exit, t⟩, hpoll, rfl⟩ := Option.map_eq_some_iff.mp h
    rcases zmqPoll_cases hpoll with heq | ⟨f, hf, heq | ⟨elems, hsocket, htype, heq⟩⟩
    · exact Or.inl heq
    · exact Or.inr ⟨f, hf, Or.inl heq⟩
    · exact Or.inr ⟨f, hf, Or.inr ⟨p, elems, rfl, hsocket, htype, heq⟩⟩

/-- The current array, if there is one, is allocated. -/
structure Arrays.Current (a : Arrays) : Prop where
  mem_live : ∀ b, a.PBD_POLLITEM = some b → b ∈ a.live

/-- Freeing the current array is never a double free. -/
theorem Arrays.Current.free {a : Arrays} (h : a.Current) :
    ∃ f, a.R_zmq_poll_free = some f ∧ f.Current := by
  unfold R_zmq_poll_free
  by_cases hz : a.PBD_POLLITEM_LENGTH = 0
  · rw [if_neg (not_not.mpr hz)]
    exact ⟨a, rfl, h⟩
  · rw [if_pos hz]
    cases hp : a.PBD_POLLITEM with
    | none => exact ⟨_, rfl, ⟨fun b hb => by contradiction⟩⟩
    | some b =>
      simp only [if_pos (h.mem_live b hp)]
      exact ⟨_, rfl, ⟨fun b' hb' => by contradiction⟩⟩

/-- Every call leaves an allocated array as the current one. -/
theorem Arrays.Current.step {a a' : Arrays} (h : a.Current) {call : ArrayCall}
    (hs : a.step call = some a') : a'.Current := by
  obtain ⟨f, hf, hcurrent⟩ := h.free
  rcases step_cases hs with heq | ⟨f', hf', heq⟩
  · rw [heq]
    exact h
  · obtain rfl : f = f' := Option.some.inj (hf.symm.trans hf')
    rcases heq with heq | ⟨p, elems, -, -, -, heq⟩
    · rw [heq]
      exact hcurrent
    · rw [heq]
      refine ⟨fun b hb => ?_⟩
      exact List.mem_append_left _ (Option.mem_toList.mpr hb)

/-- After any sequence of calls `zmq.poll.free` frees nothing twice. -/
theorem free_of_arraysAfter {calls : List ArrayCall} {a : Arrays}
    (h : arraysAfter calls = some a) : ∃ f, a.R_zmq_poll_free = some f := by
  have hcurrent : a.Current := by
    induction calls generalizing a with
    | nil =>
      obtain rfl := Option.some.inj h
      exact ⟨fun b hb => by contradiction⟩
    | cons call earlier ih =>
      obtain ⟨s, hs, hstep⟩ := Option.bind_eq_some_iff.mp h
      exact (ih hs).step hstep
  obtain ⟨f, hf, -⟩ := hcurrent.free
  exact ⟨f, hf⟩

/-- A call that has a socket keeps the array owned. -/
theorem Arrays.Owned.step {a a' : Arrays} (h : a.Owned) {call : ArrayCall}
    (hcall : call.NotEmpty) (hs : a.step call = some a') : a'.Owned := by
  obtain ⟨f, hf, hlive, hnone⟩ := h.free
  rcases step_cases hs with heq | ⟨f', hf', heq⟩
  · rw [heq]
    exact h
  · obtain rfl : f = f' := Option.some.inj (hf.symm.trans hf')
    rcases heq with heq | ⟨p, elems, rfl, hsocket, htype, heq⟩
    · rw [heq]
      exact ⟨by rw [hlive, hnone]; rfl, fun _ => hnone⟩
    · rw [heq]
      refine ⟨by simp [allocate, hlive], ?_⟩
      intro hz
      have hnil : elems = [] := List.length_eq_zero_iff.mp hz
      rw [hnil] at hsocket htype
      exact hcall hsocket (List.length_eq_zero_iff.mp htype)

/-- A `zmq.poll` without sockets ends with its array and the length zero. -/
theorem Arrays.step_empty {a a' : Arrays} {p : PollRun} (hs : a.step (.poll p) = some a')
    (hsocket : p.socket = .vector []) (htype : p.type = []) :
    a'.PBD_POLLITEM = p.block ∧ a'.PBD_POLLITEM_LENGTH = 0 := by
  have haccepted : p.accepted = true := by
    rw [PollCall.accepted, hsocket, htype]
    rfl
  obtain ⟨⟨exit, t⟩, ht, rfl⟩ := Option.map_eq_some_iff.mp hs
  rw [zmqPoll, if_pos haccepted] at ht
  obtain ⟨f, -, hf⟩ := Option.bind_eq_some_iff.mp ht
  rcases R_zmq_poll_cases hf with ⟨-, hlong⟩ | ⟨elems, helems, -, heq⟩
  · exact absurd (hlong [] hsocket) (Nat.not_lt_zero _)
  · obtain rfl : [] = elems := SocketArg.vector.inj (hsocket.symm.trans helems)
    rw [heq]
    exact ⟨rfl, rfl⟩

/-- An array for no items is not freed. -/
theorem Arrays.Tidy.notEmpty {a a' : Arrays} {call : ArrayCall} (h : a'.Tidy)
    (hs : a.step call = some a') : call.NotEmpty := by
  cases call with
  | free => trivial
  | poll p =>
    intro hsocket htype
    obtain ⟨hblock, hz⟩ := step_empty hs hsocket htype
    obtain ⟨f, hf, -, hnone⟩ := h.freed
    rw [R_zmq_poll_free, if_neg (not_not.mpr hz), Option.some.injEq] at hf
    rw [← hblock, hf, hnone]

/-- With no array for no items the array stays owned all along. -/
theorem owned_of_notEmpty {calls : List ArrayCall} {a : Arrays} (h : arraysAfter calls = some a)
    (hcalls : ∀ call ∈ calls, call.NotEmpty) : a.Owned := by
  induction calls generalizing a with
  | nil =>
    obtain rfl := Option.some.inj h
    exact ⟨rfl, fun _ => rfl⟩
  | cons call earlier ih =>
    obtain ⟨hcall, hearlier⟩ := List.forall_mem_cons.mp hcalls
    obtain ⟨s, hs, hstep⟩ := Option.bind_eq_some_iff.mp h
    exact (ih hs hearlier).step hcall hstep

/-- In a sequence of calls the arrays are tidy all along exactly if no call gets an array
for no items. -/
theorem tidy_iff {calls : List ArrayCall} {a : Arrays} (h : arraysAfter calls = some a) :
    (∀ earlier t, earlier <:+ calls → arraysAfter earlier = some t → t.Tidy) ↔
      ∀ call ∈ calls, call.NotEmpty := by
  constructor
  · intro htidy
    induction calls generalizing a with
    | nil => simp
    | cons call earlier ih =>
      obtain ⟨s, hs, hstep⟩ := Option.bind_eq_some_iff.mp h
      refine List.forall_mem_cons.mpr ⟨(htidy _ a List.suffix_rfl h).notEmpty hstep, ih hs ?_⟩
      intro before t hbefore
      exact htidy before t (hbefore.trans (List.suffix_cons call earlier))
  · rintro hcalls earlier t ⟨later, rfl⟩ ht
    refine (owned_of_notEmpty ht ?_).tidy
    intro call hcall
    exact hcalls call (List.mem_append_right later hcall)

/-- The lengths agree, and an array stands for the items of the poll set. -/
structure Arrays.Follows (a : Arrays) (g : Globals) : Prop where
  length_eq : g.PBD_POLLITEM_LENGTH = a.PBD_POLLITEM_LENGTH
  isSome : a.PBD_POLLITEM.isSome → g.PBD_POLLITEM.isSome

theorem Arrays.Follows.free {a a' : Arrays} {g : Globals} (h : a.Follows g)
    (hf : a.R_zmq_poll_free = some a') : a'.Follows g.R_zmq_poll_free := by
  unfold R_zmq_poll_free at hf
  rw [Globals.R_zmq_poll_free, h.length_eq]
  by_cases hz : a.PBD_POLLITEM_LENGTH = 0
  · rw [if_neg (not_not.mpr hz), Option.some.injEq] at hf
    rw [if_neg (not_not.mpr hz), ← hf]
    exact h
  · rw [if_pos hz] at hf
    rw [if_pos hz]
    split at hf
    · rw [← Option.some.inj hf]
      exact ⟨rfl, id⟩
    · split at hf
      · rw [← Option.some.inj hf]
        exact ⟨rfl, id⟩
      · contradiction

theorem Arrays.Follows.poll {a a' : Arrays} {g : Globals} (h : a.Follows g) {p : PollRun}
    {exit : Exit} (hp : a.R_zmq_poll p = some (exit, a')) :
    a'.Follows (g.R_zmq_poll p.toPollCall) := by
  unfold Globals.R_zmq_poll
  rcases R_zmq_poll_cases hp with ⟨heq, hrefused⟩ | ⟨elems, hs, hlong, heq⟩
  · rw [heq]
    cases hs : p.socket with
    | bare => exact h
    | vector elems =>
      simp only [if_pos (hrefused elems hs)]
      exact h
  · have hmade : ∀ g' : Globals, g'.PBD_POLLITEM.isSome = true →
        g'.PBD_POLLITEM_LENGTH = elems.length → a'.Follows g' := by
      intro g' hsome hlen
      rw [heq]
      exact ⟨hlen, fun _ => hsome⟩
    simp only [hs, if_neg hlong]
    split
    · exact hmade _ rfl rfl
    · split
      · exact hmade _ rfl rfl
      · exact hmade _ rfl rfl

/-- A poll of no sockets whose `malloc` returns a block. -/
def emptyPoll : PollRun where
  socket := .vector []
  type := []
  noMemory := false
  outcome := []
  block := some 1
  interrupted := false

/-- A poll of one socket. -/
def onePoll : PollRun := { emptyPoll with socket := .vector [.pointer none], type := [1] }

/-- It is not freed, and nothing else is. -/
theorem free_of_arraysAfter_leaked : ∃ f, (⟨some 1, 0, [1]⟩ : Arrays).R_zmq_poll_free = some f :=
  free_of_arraysAfter (show arraysAfter [.poll emptyPoll] = some ⟨some 1, 0, [1]⟩ from rfl)

/-- The array for one socket is freed. -/
theorem tidy_iff_single :
    (∀ earlier t, earlier <:+ [.free, .poll onePoll] → arraysAfter earlier = some t → t.Tidy) ↔
      ∀ call ∈ [ArrayCall.free, .poll onePoll], call.NotEmpty :=
  tidy_iff rfl

/-- The array for no sockets stays allocated when the poll set is freed. -/
theorem leaked_array : ¬ ∀ (calls : List ArrayCall) (a : Arrays),
    arraysAfter calls = some a → a.Tidy := by
  intro hall
  obtain ⟨f, hf, hlive, -⟩ := (hall [.poll emptyPoll] ⟨some 1, 0, [1]⟩ rfl).freed
  obtain rfl : (⟨some 1, 0, [1]⟩ : Arrays) = f := Option.some.inj hf
  contradiction

end PbdZmq.Poll
