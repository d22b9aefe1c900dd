import PbdZmq.R.Value

/-!
# The poll set behind `zmq.poll`

Two global variables of the C code hold the items of the latest `zmq.poll`. Reading
them back is not guarded: neither the length nor the pointer is looked at, and an
item has a result only if `zmq_poll` stored one. Memory that was not written since
`malloc` is absent here, so that a read of it can be told from a result.
-/

namespace PbdZmq.Poll

/-- A `zmq_pollitem_t`, field by field as far as it has been written. -/
structure Item where
  socket : Option (Option Nat)
  events : Option Int
  revents : Option Int
  deriving DecidableEq, Repr

/-- An item as `malloc` leaves it. -/
def Item.fresh : Item := ⟨none, none, none⟩

/-- An element of the `socket` argument: an external pointer with its address, or an
object that `VECTOR_ELT` or `R_ExternalPtrAddr` refuses with an error. -/
inductive Elem
  | pointer (addr : Option Nat)
  | other
  deriving DecidableEq, Repr

/-- The `socket` argument. An object that is not a vector has `length` one in R, and
`LENGTH` refuses it with an error. -/
inductive SocketArg
  | vector (elems : List Elem)
  | bare
  deriving DecidableEq, Repr

/-- `length(socket)`. -/
def SocketArg.length : SocketArg → Nat
  | .vector elems => elems.length
  | .bare => 1

/-- A call of `zmq.poll`, and how its surroundings treat it. -/
structure PollCall where
  socket : SocketArg
  /-- `as.integer(type)`. -/
  type : List Int
  /-- `R_MakeExternalPtr` raises an error. -/
  noMemory : Bool
  /-- What `zmq_poll` stores into each item; it may fail before or between the items. -/
  outcome : List (Option Int)
  deriving DecidableEq, Repr

/-- The global variables. -/
structure Globals where
  /-- `NULL` or the items. -/
  PBD_POLLITEM : Option (List Item)
  PBD_POLLITEM_LENGTH : Nat
  deriving DecidableEq, Repr

/-- The variables when the package is loaded. -/
def Globals.initial : Globals := ⟨none, 0⟩

/-- The loop that fills the items, and whether it runs to its end. -/
def fill : List (Elem × Int) → List Item × Bool
  | [] => ([], true)
  | (.pointer a, t) :: rest => (⟨some a, some t, none⟩ :: (fill rest).1, (fill rest).2)
  | (.other, _) :: rest => (List.replicate (rest.length + 1) .fresh, false)

/-- The results that `zmq_poll` stores. -/
def store : List Item → List (Option Int) → List Item
  | item :: items, r :: rs => { item with revents := r.or item.revents } :: store items rs
  | items, _ => items

/-- `R_zmq_poll`. A vector longer than an `int` is refused by `LENGTH`. -/
def Globals.R_zmq_poll (g : Globals) (p : PollCall) : Globals :=
  match p.socket with
  | .bare => g
  | .vector elems =>
    if intMax < elems.length then g
    else if p.noMemory then ⟨some (List.replicate elems.length .fresh), elems.length⟩
    else if (fill (elems.zip p.type)).2 then
      ⟨some (store (fill (elems.zip p.type)).1 p.outcome), elems.length⟩
    else ⟨some (fill (elems.zip p.type)).1, elems.length⟩

/-- `R_zmq_poll_free`. -/
def Globals.R_zmq_poll_free (g : Globals) : Globals :=
  if g.PBD_POLLITEM_LENGTH ≠ 0 then ⟨none, 0⟩ else g

/-- What a read of the items gives. -/
inductive Read
  /-- An R error. -/
  | error
  | value (v : Int)
  /-- A read through `NULL`, outside the items, or of memory not written. -/
  | invalid
  deriving DecidableEq, Repr

/-- `R_zmq_poll_get_revents`. -/
def Globals.R_zmq_poll_get_revents (g : Globals) (index : Int) : Read :=
  match g.PBD_POLLITEM with
  | none => .invalid
  | some items =>
    if index < 0 then .invalid
    else
      match items[index.toNat]? with
      | none => .invalid
      | some item =>
        match item.revents with
        | none => .invalid
        | some v => .value v

/-- The checks of `zmq.poll` on its arguments. -/
def PollCall.accepted (p : PollCall) : Bool :=
  p.socket.length == p.type.length && p.type.all fun t => decide (1 ≤ t ∧ t ≤ 7)

/-- `zmq.poll`. -/
def Globals.zmqPoll (g : Globals) (p : PollCall) : Globals :=
  if p.accepted then g.R_zmq_poll_free.R_zmq_poll p else g

/-- `zmq.poll.get.revents`. -/
def Globals.zmqPollGetRevents (g : Globals) (index : Int) : Read :=
  if index < 1 then .error else g.R_zmq_poll_get_revents (asInteger (index - 1))

/-- The exported functions on the poll set. -/
inductive Call
  | poll (p : PollCall)
  | free
  | length
  | getRevents (index : Int)
  deriving DecidableEq, Repr

/-- The variables after a sequence of calls, the most recent one first. -/
def after : List Call → Globals
  | [] => .initial
  | .poll p :: earlier => (after earlier).zmqPoll p
  | .free :: earlier => (after earlier).R_zmq_poll_free
  | .length :: earlier | .getRevents _ :: earlier => after earlier

/-- Every item was filled, so that `zmq_poll` is called. -/
def PollCall.polls (p : PollCall) : Bool :=
  p.accepted && !p.noMemory && match p.socket with
    | .vector elems => decide (elems.length ≤ intMax) && elems.all fun e => decide (e ≠ .other)
    | .bare => false

/-- The revents that `zmq_poll` stored in this call for the socket at `k`, from zero. -/
def PollCall.stored (p : PollCall) (k : Nat) : Option Int :=
  if p.polls ∧ k < p.socket.length then p.outcome[k]?.join else none

/-- The most recent `zmq.poll`. -/
def lastPoll : List Call → Option PollCall
  | [] => none
  | .poll p :: _ => some p
  | _ :: earlier => lastPoll earlier

/-- The most recent `zmq.poll` whose arguments were accepted. -/
def lastAccepted : List Call → Option PollCall
  | [] => none
  | .poll p :: earlier => if p.accepted then some p else lastAccepted earlier
  | _ :: earlier => lastAccepted earlier

/-- `zmq.poll.free` was called after the most recent accepted `zmq.poll`. -/
def freedSince : List Call → Bool
  | [] => false
  | .poll p :: earlier => if p.accepted then false else freedSince earlier
  | .free :: _ => true
  | _ :: earlier => freedSince earlier

/-- The length is that of the items, and an `int`. -/
structure Globals.Valid (g : Globals) : Prop where
  length_le : g.PBD_POLLITEM_LENGTH ≤ intMax
  length_eq : (g.PBD_POLLITEM.getD []).length = g.PBD_POLLITEM_LENGTH

/-- The result that the items hold at a position. -/
def Globals.revents (g : Globals) (k : Nat) : Option Int :=
  ((g.PBD_POLLITEM.getD [])[k]?).bind Item.revents

theorem length_fill (xs : List (Elem × Int)) : (fill xs).1.length = xs.length := by
  induction xs with
  | nil => rfl
  | cons x rest ih =>
    rcases x with ⟨e, t⟩
    cases e with
    | pointer a => simp [fill, ih]
    | other => simp [fill]

/-- The fill loop writes no result. -/
theorem revents_of_mem_fill {xs : List (Elem × Int)} {item : Item} (h : item ∈ (fill xs).1) :
    item.revents = none := by
  induction xs with
  | nil => simp [fill] at h
  | cons x rest ih =>
    rcases x with ⟨e, t⟩
    cases e with
    | pointer a =>
      rcases List.mem_cons.mp h with rfl | h
      · rfl
      · exact ih h
    | other =>
      rw [List.eq_of_mem_replicate h]
      rfl

/-- The fill loop ends early exactly at an element that is no external pointer. -/
theorem fill_complete {elems : List Elem} {types : List Int} (h : elems.length = types.length) :
    (fill (elems.zip types)).2 = elems.all fun e => decide (e ≠ .other) := by
  induction elems generalizing types with
  | nil => rfl
  | cons e elems ih =>
    cases types with
    | nil => simp at h
    | cons t types =>
      have hrest := ih (by simpa using h : elems.length = types.length)
      cases e with
      | pointer a => simpa [fill] using hrest
      | other => simp [fill]

theorem length_store (items : List Item) (rs : List (Option Int)) :
    (store items rs).length = items.length := by
  induction items generalizing rs with
  | nil => cases rs <;> rfl
  | cons item items ih =>
    cases rs with
    | nil => rfl
    | cons r rs => simp [store, ih]

/-- Into items without results `zmq_poll` stores exactly its outcome. -/
theorem revents_store (items : List Item) (h : ∀ item ∈ items, item.revents = none)
    (rs : List (Option Int)) (k : Nat) :
    ((store items rs)[k]?).bind Item.revents = if k < items.length then rs[k]?.join else none := by
  induction items generalizing rs k with
  | nil => cases rs <;> simp [store]
  | cons item items ih =>
    have hitem : item.revents = none := h item List.mem_cons_self
    have hrest : ∀ x ∈ items, x.revents = none := fun x hx => h x (List.mem_cons_of_mem _ hx)
    cases rs with
    | nil =>
      cases k with
      | zero => simp [store, hitem]
      | succ k =>
        have hk := ih hrest [] k
        have hnil : store items [] = items := by cases items <;> rfl
        rw [hnil] at hk
        simpa [store] using hk
    | cons r rs =>
      cases k with
      | zero => cases r <;> simp [store, hitem]
      | succ k => simpa [store] using ih hrest rs k

/-- Freeing leaves no items, or none that hold a result. -/
theorem Globals.Valid.free {g : Globals} (h : g.Valid) :
    g.R_zmq_poll_free.Valid ∧ ∀ k, g.R_zmq_poll_free.revents k = none := by
  unfold R_zmq_poll_free
  by_cases hz : g.PBD_POLLITEM_LENGTH = 0
  · rw [if_neg (not_not.mpr hz)]
    refine ⟨h, fun k => ?_⟩
    have hnil : g.PBD_POLLITEM.getD [] = [] := by
      rw [← List.length_eq_zero_iff, h.length_eq, hz]
    rw [revents, hnil]
    rfl
  · rw [if_pos hz]
    exact ⟨⟨Nat.zero_le _, rfl⟩, fun _ => rfl⟩

/-- Items without results. -/
private theorem revents_replicate (n k : Nat) (len : Nat) :
    (⟨some (List.replicate n .fresh), len⟩ : Globals).revents k = none := by
  simp only [Globals.revents, Option.getD_some, List.getElem?_replicate]
  split <;> rfl

/-- After an accepted call the items hold exactly what `zmq_poll` stored. -/
theorem Globals.Valid.poll {g : Globals} (h : g.Valid) {p : PollCall} (hp : p.accepted = true)
    (hnone : ∀ k, g.revents k = none) :
    (g.R_zmq_poll p).Valid ∧ ∀ k, (g.R_zmq_poll p).revents k = p.stored k := by
  have hlen : p.socket.length = p.type.length := by
    simp only [PollCall.accepted, Bool.and_eq_true, beq_iff_eq] at hp
    exact hp.1
  unfold R_zmq_poll
  cases hs : p.socket with
  | bare =>
    refine ⟨h, fun k => ?_⟩
    simp [PollCall.stored, PollCall.polls, hs, hnone]
  | vector elems =>
    rw [hs] at hlen
    have hcomplete := fill_complete (hlen : elems.length = p.type.length)
    have hzip : (elems.zip p.type).length = elems.length := by
      rw [List.length_zip, ← hlen]
      exact Nat.min_self _
    by_cases hlong : intMax < elems.length
    · simp only [hlong, if_true]
      refine ⟨h, fun k => ?_⟩
      have hpolls : p.polls = false := by
        simp [PollCall.polls, hs, Nat.not_le.mpr hlong]
      simp [PollCall.stored, hpolls, hnone]
    · simp only [hlong, if_false]
      have hle : elems.length ≤ intMax := Nat.le_of_not_lt hlong
      cases hm : p.noMemory with
      | true =>
        simp only [if_true]
        refine ⟨⟨hle, by simp⟩, fun k => ?_⟩
        rw [revents_replicate]
        simp [PollCall.stored, PollCall.polls, hm]
      | false =>
        have hpolls : p.polls = (fill (elems.zip p.type)).2 := by
          rw [hcomplete]
          simp only [PollCall.polls, hp, hm, hs, hle, decide_true, Bool.not_false, Bool.true_and]
        cases hf : (fill (elems.zip p.type)).2 with
        | true =>
          simp only [Bool.false_eq_true, if_true, if_false]
          refine ⟨⟨hle, by simp [length_store, length_fill, hzip]⟩, fun k => ?_⟩
          have hstore := revents_store (fill (elems.zip p.type)).1
            (fun _ hmem => revents_of_mem_fill hmem) p.outcome k
          rw [length_fill, hzip] at hstore
          simpa [revents, PollCall.stored, hpolls, hf, hs, SocketArg.length] using hstore
        | false =>
          simp only [Bool.false_eq_true, if_false]
          refine ⟨⟨hle, by simp [length_fill, hzip]⟩, fun k => ?_⟩
          have hempty : (⟨some (fill (elems.zip p.type)).1, elems.length⟩ : Globals).revents k =
              none := by
            simp only [revents, Option.getD_some]
            cases hk : (fill (elems.zip p.type)).1[k]? with
            | none => rfl
            | some item => exact revents_of_mem_fill (List.mem_of_getElem? hk)
          rw [hempty]
          simp [PollCall.stored, hpolls, hf]

/-- After any calls the items hold what the last accepted `zmq.poll` stored, unless
they were freed since. -/
theorem after_spec (calls : List Call) : (after calls).Valid ∧
    ∀ k, (after calls).revents k =
      if freedSince calls then none else (lastAccepted calls).bind (·.stored k) := by
  induction calls with
  | nil => exact ⟨⟨Nat.zero_le _, rfl⟩, fun _ => rfl⟩
  | cons call earlier ih =>
    obtain ⟨hvalid, hrevents⟩ := ih
    cases call with
    | poll p =>
      by_cases hp : p.accepted = true
      · obtain ⟨hfree, hnone⟩ := hvalid.free
        obtain ⟨hnew, hstored⟩ := hfree.poll hp hnone
        simp only [after, Globals.zmqPoll, hp, if_true, freedSince, lastAccepted]
        exact ⟨hnew, hstored⟩
      · simp only [after, Globals.zmqPoll, hp, freedSince, lastAccepted]
        exact ⟨hvalid, hrevents⟩
    | free =>
      obtain ⟨hfree, hnone⟩ := hvalid.free
      exact ⟨hfree, hnone⟩
    | length | getRevents => exact ⟨hvalid, hrevents⟩

/-- A read gives a value exactly where the items hold a result. -/
theorem Globals.Valid.read {g : Globals} (h : g.Valid) {i : Int} (hi : 1 ≤ i) :
    g.zmqPollGetRevents i ≠ .error ∧
      ∀ v, g.zmqPollGetRevents i = .value v ↔ g.revents (i - 1).toNat = some v := by
  unfold zmqPollGetRevents
  rw [if_neg (by omega)]
  have hlen := h.length_eq
  unfold R_zmq_poll_get_revents revents
  cases hg : g.PBD_POLLITEM with
  | none => simp
  | some items =>
    rw [hg, Option.getD_some] at hlen
    have hle := h.length_le
    by_cases hbig : (i - 1).natAbs ≤ intMax
    · simp only [asInteger_eq hbig, Option.getD_some]
      rw [if_neg (by omega)]
      cases hk : items[(i - 1).toNat]? with
      | none => simp
      | some item => cases hr : item.revents <;> simp [hr]
    · have hna : asInteger (i - 1) = naInteger := by rw [asInteger, if_neg hbig]
      have hout : items[(i - 1).toNat]? = none := List.getElem?_eq_none (by omega)
      have hneg : naInteger < 0 := by decide
      simp only [hna, hneg, if_true, Option.getD_some, hout, Option.bind_none]
      simp

/-- A read at `i` signals an R error, or `i` is a position of the current poll set and
the value is what `zmq_poll` stored for the `i`-th socket of the call that `last` selects. -/
def Faithful (last : List Call → Option PollCall) (calls : List Call) (i : Int) : Prop :=
  (after calls).zmqPollGetRevents i = .error ∨
    ∃ v p, (after calls).zmqPollGetRevents i = .value v ∧
      i ≤ (after calls).PBD_POLLITEM_LENGTH ∧ last calls = some p ∧
      p.stored (i - 1).toNat = some v

/-- A call that stored a result was accepted. -/
theorem PollCall.accepted_of_stored {p : PollCall} {k : Nat} (h : (p.stored k).isSome) :
    p.accepted = true := by
  unfold stored at h
  split at h
  · rename_i hp
    have hpolls := hp.1
    simp only [polls, Bool.and_eq_true] at hpolls
    exact hpolls.1.1
  · contradiction

/-- If the most recent `zmq.poll` was accepted, it is the most recent accepted one. -/
theorem lastAccepted_of_lastPoll {calls : List Call} {p : PollCall} (h : lastPoll calls = some p)
    (hp : p.accepted = true) : lastAccepted calls = some p := by
  induction calls with
  | nil => contradiction
  | cons call earlier ih =>
    cases call with
    | poll q =>
      obtain rfl := Option.some.inj h
      simp only [lastAccepted, hp, if_true]
    | free | length | getRevents => exact ih h

/-- A result that the items hold is at a position of the poll set. -/
theorem Globals.Valid.lt_of_revents {g : Globals} (h : g.Valid) {k : Nat} {v : Int}
    (hk : g.revents k = some v) : k < g.PBD_POLLITEM_LENGTH := by
  obtain ⟨item, hitem, _⟩ := Option.bind_eq_some_iff.mp hk
  obtain ⟨hlt, _⟩ := List.getElem?_eq_some_iff.mp hitem
  rw [h.length_eq] at hlt
  exact hlt

/-- A read is faithful to a selection of accepted calls where the selected call stored
a result and nothing was freed since. -/
private theorem faithful_of_selects {last : List Call → Option PollCall} {calls : List Call}
    {i : Int} (hi : 1 ≤ i)
    (hlast : ∀ p, last calls = some p → p.accepted = true → lastAccepted calls = some p) :
    Faithful last calls i ↔ ∃ p, last calls = some p ∧ (p.stored (i - 1).toNat).isSome ∧
      freedSince calls = false := by
  obtain ⟨hvalid, hrevents⟩ := after_spec calls
  obtain ⟨hnoerror, hread⟩ := hvalid.read hi
  constructor
  · rintro (herror | ⟨v, p, hvalue, _, hp, hstored⟩)
    · exact absurd herror hnoerror
    · refine ⟨p, hp, by rw [hstored]; rfl, ?_⟩
      have hheld := (hread v).mp hvalue
      rw [hrevents] at hheld
      cases hfreed : freedSince calls with
      | false => rfl
      | true => simp [hfreed] at hheld
  · rintro ⟨p, hp, hstored, hfreed⟩
    obtain ⟨v, hv⟩ := Option.isSome_iff_exists.mp hstored
    have haccepted := hlast p hp (PollCall.accepted_of_stored hstored)
    have hheld : (after calls).revents (i - 1).toNat = some v := by
      rw [hrevents, hfreed, haccepted]
      exact hv
    have hlt := hvalid.lt_of_revents hheld
    exact Or.inr ⟨v, p, (hread v).mpr hheld, by omega, hp, hv⟩

/-- After any sequence of calls, a read is faithful exactly if the call it should report
on stored a result at this position and nothing was freed since. This holds with the
most recent `zmq.poll` of all, and with the most recent one that was accepted. -/
theorem faithful_iff (calls : List Call) {i : Int} (hi : 1 ≤ i) :
    (Faithful lastPoll calls i ↔ ∃ p, lastPoll calls = some p ∧
      (p.stored (i - 1).toNat).isSome ∧ freedSince calls = false) ∧
    (Faithful lastAccepted calls i ↔ ∃ p, lastAccepted calls = some p ∧
      (p.stored (i - 1).toNat).isSome ∧ freedSince calls = false) :=
  ⟨faithful_of_selects hi fun _ => lastAccepted_of_lastPoll,
    faithful_of_selects hi fun _ hp _ => hp⟩

/-- Two sockets are polled, a later call is rejected: the second result is still there,
but it is not one of the most recent `zmq.poll`. -/
theorem faithful_iff_rejected :
    Faithful lastAccepted [.poll ⟨.bare, [], false, []⟩,
        .poll ⟨.vector [.pointer (some 1), .pointer (some 2)], [1, 1], false, [some 0, some 1]⟩] 2 ∧
      ¬ Faithful lastPoll [.poll ⟨.bare, [], false, []⟩,
        .poll ⟨.vector [.pointer (some 1), .pointer (some 2)], [1, 1], false, [some 0, some 1]⟩]
        2 := by
  obtain ⟨hpoll, haccepted⟩ := faithful_iff [.poll ⟨.bare, [], false, []⟩,
    .poll ⟨.vector [.pointer (some 1), .pointer (some 2)], [1, 1], false, [some 0, some 1]⟩]
    (i := 2) (by decide)
  refine ⟨haccepted.mpr ⟨_, rfl, by decide, by decide⟩, ?_⟩
  intro hfaithful
  obtain ⟨p, hp, hstored, _⟩ := hpoll.mp hfaithful
  obtain rfl := Option.some.inj hp
  revert hstored
  decide

/-- Before any poll the read goes through the `NULL` pointer. -/
theorem unfaithful_read :
    ¬ ∀ (calls : List Call) (i : Int), 1 ≤ i → Faithful lastPoll calls i := by
  intro hall
  rcases hall [] 1 (by decide) with herror | ⟨v, p, _, _, hp, _⟩
  · revert herror
    decide
  · contradiction

end PbdZmq.Poll
