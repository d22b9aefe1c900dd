import Mathlib.Data.List.Basic

/-!
# Lifetimes of resources in a trace

What a program does to its resources is written down in order. A resource may be accessed
between its acquisition and its release, and both happen at most once. A program has
released a resource in the end if it never acquired it, or released it too.
-/

namespace PbdZmq

variable {ρ : Type*}

/-- What can be done to a resource. -/
inductive UseKind
  | acquire
  | access
  | release
  deriving DecidableEq, Repr

/-- An action on one resource. -/
structure Use (ρ : Type*) where
  kind : UseKind
  resource : ρ
  deriving DecidableEq, Repr

/-- Where a resource is in its life. -/
inductive Stage
  | absent
  | held
  | released
  deriving DecidableEq, Repr

/-- The stage behind an action that is allowed. -/
def Stage.next : Stage → UseKind → Option Stage
  | .absent, .acquire => some .held
  | .held, .access => some .held
  | .held, .release => some .released
  | _, _ => none

variable [DecidableEq ρ]

/-- The stage of a resource behind a trace. There is none if the resource was misused. -/
def stage (r : ρ) (s : Stage) : List (Use ρ) → Option Stage
  | [] => some s
  | u :: us =>
    if u.resource = r then (s.next u.kind).bind fun t => stage r t us else stage r s us

/-- The resource is never misused, and not held in the end. -/
def Disciplined (r : ρ) (us : List (Use ρ)) : Prop :=
  stage r .absent us = some .absent ∨ stage r .absent us = some .released

instance (r : ρ) (us : List (Use ρ)) : Decidable (Disciplined r us) :=
  inferInstanceAs (Decidable (_ ∨ _))

/-- A trace in two parts. -/
theorem stage_append (r : ρ) (s : Stage) (us vs : List (Use ρ)) :
    stage r s (us ++ vs) = (stage r s us).bind fun t => stage r t vs := by
  induction us generalizing s with
  | nil => rfl
  | cons u us ih =>
    simp only [List.cons_append, stage]
    by_cases hr : u.resource = r
    · rw [if_pos hr, if_pos hr]
      cases s.next u.kind with
      | none => rfl
      | some t => exact ih t
    · rw [if_neg hr, if_neg hr]
      exact ih s

/-- Accesses leave a held resource held. -/
theorem stage_access {r : ρ} {us : List (Use ρ)} (h : ∀ u ∈ us, u.kind = .access) :
    stage r .held us = some .held := by
  induction us with
  | nil => rfl
  | cons u us ih =>
    obtain ⟨hu, hus⟩ := List.forall_mem_cons.mp h
    rw [stage, hu]
    by_cases hr : u.resource = r
    · rw [if_pos hr]
      exact ih hus
    · rw [if_neg hr]
      exact ih hus

end PbdZmq
