import Mathlib.Data.Rat.Floor
import PbdZmq.R.Value

/-!
# Arithmetic of doubles

Finite doubles are rational numbers, and their arithmetic is exact. Infinities and NaN follow
the floating-point standard, except that the sign of a zero is not kept.
-/

namespace PbdZmq

/-- `x >= y`, which is false of a NaN. -/
def RDouble.atLeast (x : RDouble) (y : ℚ) : Bool :=
  match x with
  | .nan => false
  | .infinite negative => !negative
  | .finite x => y ≤ x

/-- `x * y`. -/
def RDouble.mul : RDouble → RDouble → RDouble
  | .nan, _ | _, .nan => .nan
  | .infinite s, .infinite t => .infinite (s != t)
  | .infinite s, .finite q | .finite q, .infinite s =>
    if q = 0 then .nan else .infinite (s != decide (q < 0))
  | .finite p, .finite q => .finite (p * q)

/-- `x / y`. -/
def RDouble.div : RDouble → RDouble → RDouble
  | .nan, _ | _, .nan | .infinite _, .infinite _ => .nan
  | .infinite s, .finite q => .infinite (s != decide (q < 0))
  | .finite _, .infinite _ => .finite 0
  | .finite p, .finite q =>
    if q ≠ 0 then .finite (p / q) else if p = 0 then .nan else .infinite (decide (p < 0))

/-- The conversion to a C `int`, which is defined where the integer part fits. -/
def RDouble.toInt : RDouble → Option Int
  | .nan | .infinite _ => none
  | .finite q =>
    let n := q.num.tdiv q.den
    if naInteger ≤ n ∧ n ≤ intMax then some n else none

/-- Numbers are divided as numbers. -/
theorem RDouble.div_finite (p : ℚ) {q : ℚ} (h : q ≠ 0) :
    RDouble.div (.finite p) (.finite q) = .finite (p / q) := if_pos h

/-- A number from zero to an `int` is rounded down. -/
theorem RDouble.toInt_of_le {q : ℚ} {n : Nat} (h : 0 ≤ q) (hle : q ≤ n) (hn : n ≤ intMax) :
    RDouble.toInt (.finite q) = some ⌊q⌋ := by
  have hfloor : q.num.tdiv q.den = ⌊q⌋ := by
    rw [Rat.floor_def', Int.tdiv_eq_ediv_of_nonneg (Rat.num_nonneg.mpr h)]
  have hlow : 0 ≤ ⌊q⌋ := Int.floor_nonneg.mpr h
  have hhigh : ⌊q⌋ ≤ n := Int.floor_le_iff.mpr (by push_cast; linarith)
  have hrange : naInteger ≤ ⌊q⌋ ∧ ⌊q⌋ ≤ intMax := by
    rw [naInteger]
    omega
  simp only [toInt, hfloor, if_pos hrange]

end PbdZmq
