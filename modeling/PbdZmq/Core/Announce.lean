import Mathlib.Data.Set.Insert

/-!
# Sets that are announced

One party keeps a set and tells another one how it changes. Who replays the changes in
order has the set. What the other party relies on is a property of each change and the set
before it.
-/

namespace PbdZmq

variable {α : Type*}

/-- How a set changes. -/
inductive Change (α : Type*)
  | add (a : α)
  | remove (a : α)
  /-- Something that has nothing to do with the set. -/
  | other
  deriving DecidableEq, Repr

namespace Change

/-- The set after a change. -/
def apply (S : Set α) : Change α → Set α
  | add a => insert a S
  | remove a => S \ {a}
  | other => S

/-- What is removed is there. -/
def Removable (S : Set α) (c : Change α) : Prop := ∀ a, c = remove a → a ∈ S

/-- What is removed is there and what is added is not. -/
def Strict (S : Set α) (c : Change α) : Prop := Removable S c ∧ ∀ a, c = add a → a ∉ S

end Change

/-- The set after some changes. -/
def replay (S : Set α) (cs : List (Change α)) : Set α := cs.foldl Change.apply S

/-- Every change has a property in the set before it. -/
def Respects (P : Set α → Change α → Prop) : Set α → List (Change α) → Prop
  | _, [] => True
  | S, c :: cs => P S c ∧ Respects P (c.apply S) cs

@[simp]
theorem replay_nil (S : Set α) : replay S [] = S := rfl

@[simp]
theorem replay_cons (S : Set α) (c : Change α) (cs : List (Change α)) :
    replay S (c :: cs) = replay (c.apply S) cs := rfl

theorem replay_append (S : Set α) (cs ds : List (Change α)) :
    replay S (cs ++ ds) = replay (replay S cs) ds := List.foldl_append

variable {P : Set α → Change α → Prop} {S : Set α}

theorem respects_append {cs ds : List (Change α)} :
    Respects P S (cs ++ ds) ↔ Respects P S cs ∧ Respects P (replay S cs) ds := by
  induction cs generalizing S with
  | nil => exact (and_iff_right trivial).symm
  | cons c cs ih => rw [List.cons_append, Respects, ih, Respects, replay_cons, and_assoc]

theorem respects_singleton {c : Change α} : Respects P S [c] ↔ P S c := and_iff_left trivial

/-- Additions. -/
theorem mem_replay_adds {as : List α} {a : α} :
    a ∈ replay S (as.map Change.add) ↔ a ∈ S ∨ a ∈ as := by
  induction as generalizing S with
  | nil => simp
  | cons b as ih =>
    rw [List.map_cons, replay_cons, ih, Change.apply, Set.mem_insert_iff, List.mem_cons,
      or_assoc, or_left_comm]

/-- Additions remove nothing. -/
theorem respects_adds (as : List α) : Respects Change.Removable S (as.map Change.add) := by
  induction as generalizing S with
  | nil => trivial
  | cons b as ih =>
    refine ⟨?_, ih⟩
    rintro a ⟨⟩

/-- Removals. -/
theorem mem_replay_removes {as : List α} {a : α} :
    a ∈ replay S (as.map Change.remove) ↔ a ∈ S ∧ a ∉ as := by
  induction as generalizing S with
  | nil => simp
  | cons b as ih =>
    rw [List.map_cons, replay_cons, ih, Change.apply, Set.mem_sdiff, Set.mem_singleton_iff,
      List.mem_cons, not_or, and_assoc]

/-- Removals of members, each once. -/
theorem respects_removes {as : List α} (hnodup : as.Nodup) (hmem : ∀ a ∈ as, a ∈ S) :
    Respects Change.Strict S (as.map Change.remove) := by
  induction as generalizing S with
  | nil => trivial
  | cons b as ih =>
    rw [List.nodup_cons] at hnodup
    refine ⟨⟨?_, ?_⟩, ih hnodup.2 fun a ha => ?_⟩
    · rintro a ⟨⟩
      exact hmem b List.mem_cons_self
    · rintro a ⟨⟩
    · refine ⟨hmem a (List.mem_cons_of_mem b ha), ?_⟩
      rintro rfl
      exact hnodup.1 ha

end PbdZmq
