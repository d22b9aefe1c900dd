import Mathlib.Data.List.Basic

/-!
# Labelled systems and guarded runs

A system is a labelled step relation. A run may be guarded by a predicate on the
source state and the label of each step, so one system serves faultless runs,
disciplined runs and arbitrary runs alike. An invariant is proved once per step
and holds at every state of every guarded run.
-/

namespace PbdZmq

variable {σ ℓ : Type*}

/-- States reached from `start` by steps whose source state and label pass the guard. -/
inductive Reach (step : σ → ℓ → σ → Prop) (guard : σ → ℓ → Prop) (start : σ) : σ → Prop
  | init : Reach step guard start start
  | snoc {s l t} : Reach step guard start s → guard s l → step s l t → Reach step guard start t

/-- An executable step function read as a step relation. -/
def Fires (step : σ → ℓ → Option σ) (s : σ) (l : ℓ) (t : σ) : Prop := step s l = some t

/-- A property of the start that every guarded step preserves holds all along the run. -/
theorem Reach.invariant {step : σ → ℓ → σ → Prop} {guard : σ → ℓ → Prop} {start s : σ}
    {I : σ → Prop} (hinit : I start)
    (hstep : ∀ s l t, I s → guard s l → step s l t → I t)
    (h : Reach step guard start s) : I s := by
  induction h with
  | init => exact hinit
  | snoc _ hg hs ih => exact hstep _ _ _ ih hg hs

/-- A run under a guard is a run under any weaker guard. -/
theorem Reach.mono {step : σ → ℓ → σ → Prop} {guard guard' : σ → ℓ → Prop} {start s : σ}
    (hle : ∀ s l, guard s l → guard' s l) (h : Reach step guard start s) :
    Reach step guard' start s := by
  induction h with
  | init => exact .init
  | snoc _ hg hs ih => exact .snoc ih (hle _ _ hg) hs

/-- Runs one after the other are a run. -/
theorem Reach.trans {step : σ → ℓ → σ → Prop} {guard : σ → ℓ → Prop} {start s t : σ}
    (h : Reach step guard start s) (h' : Reach step guard s t) : Reach step guard start t := by
  induction h' with
  | init => exact h
  | snoc _ hg hs ih => exact .snoc ih hg hs

/-- Execute a list of labels in order, checking the guard before each step. -/
def exec (step : σ → ℓ → Option σ) (guard : σ → ℓ → Bool) (s : σ) : List ℓ → Option σ
  | [] => some s
  | l :: ls => if guard s l then (step s l).bind fun t => exec step guard t ls else none

/-- A state reached by execution is reached by a guarded run. -/
theorem reach_of_exec {step : σ → ℓ → Option σ} {guard : σ → ℓ → Bool} {start s t : σ}
    {ls : List ℓ} (hs : Reach (Fires step) (fun s l => guard s l = true) start s)
    (h : exec step guard s ls = some t) :
    Reach (Fires step) (fun s l => guard s l = true) start t := by
  induction ls generalizing s with
  | nil =>
    have he : s = t := by simpa only [exec, Option.some.injEq] using h
    exact he ▸ hs
  | cons l ls ih =>
    simp only [exec] at h
    split at h
    · rename_i hg
      obtain ⟨u, hu, ht⟩ := Option.bind_eq_some_iff.mp h
      exact ih (hs.snoc hg hu) ht
    · contradiction

/-- A run is no longer than a measure that every guarded step decreases where an invariant
holds. -/
theorem length_le_of_exec_of_invariant {I : σ → Prop} (measure : σ → Nat)
    {step : σ → ℓ → Option σ} {guard : σ → ℓ → Bool}
    (hstep : ∀ s l t, I s → guard s l = true → step s l = some t → I t ∧ measure t < measure s)
    {s t : σ} {ls : List ℓ} (hs : I s) (h : exec step guard s ls = some t) :
    ls.length + measure t ≤ measure s := by
  induction ls generalizing s with
  | nil =>
    have he : s = t := by simpa only [exec, Option.some.injEq] using h
    exact he ▸ Nat.le_of_eq (Nat.zero_add (measure s))
  | cons l ls ih =>
    simp only [exec] at h
    split at h
    · rename_i hg
      obtain ⟨u, hu, ht⟩ := Option.bind_eq_some_iff.mp h
      obtain ⟨hi, hless⟩ := hstep s l u hs hg hu
      have hrest := ih hi ht
      rw [List.length_cons]
      omega
    · contradiction

/-- A run is no longer than a measure that every guarded step decreases. -/
theorem length_le_of_exec (measure : σ → Nat) {step : σ → ℓ → Option σ} {guard : σ → ℓ → Bool}
    (hstep : ∀ s l t, guard s l = true → step s l = some t → measure t < measure s) {s t : σ}
    {ls : List ℓ} (h : exec step guard s ls = some t) : ls.length + measure t ≤ measure s :=
  length_le_of_exec_of_invariant (I := fun _ => True) measure
    (fun s l t _ hg hs => ⟨trivial, hstep s l t hg hs⟩) trivial h

/-- An executed run that ends in a state with a decidable property witnesses it. -/
theorem exists_reach_of_exec (step : σ → ℓ → Option σ) (guard : σ → ℓ → Bool) (start : σ)
    (ls : List ℓ) (p : σ → Bool) (h : (exec step guard start ls).any p = true) :
    ∃ s, Reach (Fires step) (fun s l => guard s l = true) start s ∧ p s = true := by
  obtain ⟨s, hs, hp⟩ := (Option.any_eq_true _ _).mp h
  exact ⟨s, reach_of_exec .init hs, hp⟩

end PbdZmq
