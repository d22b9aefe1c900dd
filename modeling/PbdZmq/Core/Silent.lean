import Mathlib.Logic.Basic

/-!
# Programs that leave the state alone

A program over a state and errors is silent if it only decides whether to return. Its
condition and its value are then fixed, and both compose along the program. What the
program does to the state lies between its silent parts.
-/

namespace PbdZmq

variable {ε σ α β : Type}

/-- The program keeps every state; it returns `a` under `P` and raises an error otherwise. -/
def Silent (x : EStateM ε σ α) (P : Prop) (a : α) : Prop :=
  ∀ s, (P ∧ x.run s = .ok a s) ∨ (¬ P ∧ ∃ e, x.run s = .error e s)

theorem Silent.pure (a : α) : Silent (Pure.pure a : EStateM ε σ α) True a :=
  fun _ => Or.inl ⟨trivial, rfl⟩

/-- An error ends the program whatever it would have returned. -/
theorem Silent.throw (e : ε) (a : α) : Silent (throw e : EStateM ε σ α) False a :=
  fun _ => Or.inr ⟨not_false, e, rfl⟩

theorem Silent.bind {x : EStateM ε σ α} {f : α → EStateM ε σ β} {P Q : Prop} {a : α} {b : β}
    (hx : Silent x P a) (hf : Silent (f a) Q b) : Silent (x >>= f) (P ∧ Q) b := by
  intro s
  rw [EStateM.run_bind]
  rcases hx s with ⟨hp, hrun⟩ | ⟨hp, e, hrun⟩
  · simp only [hrun]
    rcases hf s with ⟨hq, hrun'⟩ | ⟨hq, e, hrun'⟩
    · exact Or.inl ⟨⟨hp, hq⟩, hrun'⟩
    · exact Or.inr ⟨fun h => hq h.2, e, hrun'⟩
  · simp only [hrun]
    exact Or.inr ⟨fun h => hp h.1, e, rfl⟩

/-- A program that computes a value from the one of another program. -/
theorem Silent.bind_pure {x : EStateM ε σ α} {P : Prop} {a : α} (hx : Silent x P a)
    (g : α → β) : Silent (x >>= fun r => Pure.pure (g r)) P (g a) := by
  intro s
  have hall := hx.bind (f := fun r => Pure.pure (g r)) (Silent.pure (g a)) s
  simpa only [and_true] using hall

/-- A part of a program that is skipped where a test fails. -/
theorem Silent.when_bind {c : Prop} [Decidable c] {x : EStateM ε σ PUnit}
    {f : PUnit → EStateM ε σ β} {P Q : Prop} {b : β} (hx : Silent x P ⟨⟩)
    (hf : Silent (f ⟨⟩) Q b) : Silent (if c then x >>= f else f ⟨⟩) ((c → P) ∧ Q) b := by
  intro s
  by_cases hc : c
  · rw [if_pos hc]
    simpa only [hc, true_implies] using hx.bind hf s
  · rw [if_neg hc]
    simpa only [hc, false_implies, true_and] using hf s

/-- The condition may be replaced by an equivalent one. -/
theorem Silent.congr {x : EStateM ε σ α} {P Q : Prop} {a : α} (hx : Silent x P a)
    (h : P ↔ Q) : Silent x Q a := by
  intro s
  rw [← h]
  exact hx s

/-- The state in which a program ends, whether it returns or not. -/
def endState (x : EStateM ε σ α) (s : σ) : σ :=
  match x.run s with
  | .ok _ t | .error _ t => t

/-- An update of the state in front of a program. -/
theorem endState_modify_bind (u : σ → σ) (f : PUnit → EStateM ε σ β) (s : σ) :
    endState (modify u >>= f) s = endState (f ⟨⟩) (u s) := rfl

/-- A reading of the state in front of a program. -/
theorem endState_get_bind (f : σ → EStateM ε σ β) (s : σ) :
    endState (get >>= f) s = endState (f s) s := rfl

/-- A silent program in front of another decides whether it runs. -/
theorem Silent.endState_bind {x : EStateM ε σ α} {f : α → EStateM ε σ β} {P : Prop}
    [Decidable P] {a : α} (hx : Silent x P a) (s : σ) :
    endState (x >>= f) s = if P then endState (f a) s else s := by
  unfold endState
  rw [EStateM.run_bind]
  rcases hx s with ⟨hp, hrun⟩ | ⟨hp, e, hrun⟩
  · rw [if_pos hp, hrun]
  · rw [if_neg hp, hrun]

/-- A silent program ends where it starts. -/
theorem Silent.endState_eq {x : EStateM ε σ α} {P : Prop} {a : α} (hx : Silent x P a) (s : σ) :
    endState x s = s := by
  unfold endState
  rcases hx s with ⟨_, hrun⟩ | ⟨_, e, hrun⟩
  · rw [hrun]
  · rw [hrun]

end PbdZmq
