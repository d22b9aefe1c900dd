import Mathlib.Logic.Basic

/-!
# Loops that may run forever

A loop is run with a bound on how often its test is made. It returns what it returns under
any larger bound. A measure that every round decreases gives a bound, and a loop whose
invariant implies its test has none.
-/

namespace PbdZmq

variable {σ : Type*} {test : σ → Bool} {body : σ → σ}

/-- `while (test s) s = body s`, if the test is made at most `fuel` times. -/
def whileLoop (test : σ → Bool) (body : σ → σ) : Nat → σ → Option σ
  | 0, _ => none
  | fuel + 1, s => if test s then whileLoop test body fuel (body s) else some s

/-- A loop whose test fails does nothing. -/
theorem whileLoop_of_false {s : σ} (h : test s = false) (fuel : Nat) :
    whileLoop test body (fuel + 1) s = some s := by
  rw [whileLoop, h]
  rfl

/-- A larger bound does not change the result. -/
theorem whileLoop_mono {fuel fuel' : Nat} (hle : fuel ≤ fuel') {s t : σ}
    (h : whileLoop test body fuel s = some t) : whileLoop test body fuel' s = some t := by
  induction fuel generalizing fuel' s with
  | zero => contradiction
  | succ fuel ih =>
    obtain ⟨more, rfl⟩ := Nat.exists_eq_add_of_le hle
    rw [Nat.add_right_comm, whileLoop]
    rw [whileLoop] at h
    by_cases htest : test s = true
    · rw [if_pos htest] at h ⊢
      exact ih (Nat.le_add_right fuel more) h
    · rw [if_neg htest] at h ⊢
      exact h

/-- A loop has one result. -/
theorem whileLoop_unique {fuel fuel' : Nat} {s t t' : σ}
    (h : whileLoop test body fuel s = some t) (h' : whileLoop test body fuel' s = some t') :
    t = t' := by
  have hmax := whileLoop_mono (Nat.le_max_left fuel fuel') h
  rw [whileLoop_mono (Nat.le_max_right fuel fuel') h'] at hmax
  exact (Option.some.inj hmax).symm

/-- A loop returns if every round keeps an invariant and decreases a measure. -/
theorem whileLoop_total (inv : σ → Prop) (measure : σ → Nat)
    (hstep : ∀ s, inv s → test s = true → inv (body s) ∧ measure (body s) < measure s)
    {fuel : Nat} {s : σ} (hinv : inv s) (hfuel : measure s < fuel) :
    ∃ t, whileLoop test body fuel s = some t ∧ inv t ∧ test t = false := by
  induction fuel generalizing s with
  | zero => exact absurd hfuel (Nat.not_lt_zero _)
  | succ fuel ih =>
    cases htest : test s with
    | false => exact ⟨s, whileLoop_of_false htest fuel, hinv, htest⟩
    | true =>
      obtain ⟨hnext, hless⟩ := hstep s hinv htest
      rw [whileLoop, if_pos htest]
      exact ih hnext (Nat.lt_of_lt_of_le hless (Nat.le_of_lt_succ hfuel))

/-- A loop never returns if every round keeps an invariant that implies the test. -/
theorem whileLoop_eq_none (inv : σ → Prop) (hstep : ∀ s, inv s → test s = true ∧ inv (body s))
    {s : σ} (hinv : inv s) (fuel : Nat) : whileLoop test body fuel s = none := by
  induction fuel generalizing s with
  | zero => rfl
  | succ fuel ih =>
    obtain ⟨htest, hnext⟩ := hstep s hinv
    rw [whileLoop, if_pos htest]
    exact ih hnext

end PbdZmq
