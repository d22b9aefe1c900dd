import Mathlib.Algebra.BigOperators.Group.Finset.Basic

/-!
# Families with one member replaced

Systems of many alike parts change one part at a time. What is summed over all parts then
changes by what that part contributes.
-/

namespace PbdZmq

variable {ι α M : Type*} [DecidableEq ι] [Fintype ι] [AddCommMonoid M]

/-- A sum over a family, its replaced member apart. -/
theorem sum_update (w : ι → α → M) (f : ι → α) (i : ι) (x : α) :
    ∑ j, w j (Function.update f i x j) = w i x + ∑ j ∈ Finset.univ.erase i, w j (f j) := by
  have hrest : ∑ j ∈ Finset.univ.erase i, w j (Function.update f i x j) =
      ∑ j ∈ Finset.univ.erase i, w j (f j) :=
    Finset.sum_congr rfl fun j hj => by rw [Function.update_of_ne (Finset.ne_of_mem_erase hj)]
  rw [← Finset.add_sum_erase _ _ (Finset.mem_univ i), hrest, Function.update_self]

/-- A sum over a family when one member is replaced. -/
theorem sum_update_add (w : ι → α → M) (f : ι → α) (i : ι) (x : α) :
    (∑ j, w j (Function.update f i x j)) + w i (f i) = (∑ j, w j (f j)) + w i x := by
  rw [sum_update, ← Finset.add_sum_erase _ (fun j => w j (f j)) (Finset.mem_univ i),
    add_right_comm, add_assoc, add_comm (w i x), add_comm (w i (f i)), add_right_comm]

/-- A sum over a family when one member grows. -/
theorem sum_update_of_add {w : ι → α → M} {f : ι → α} {i : ι} {x : α} {m : M}
    (h : w i x = w i (f i) + m) :
    ∑ j, w j (Function.update f i x j) = (∑ j, w j (f j)) + m := by
  rw [sum_update, h, ← Finset.add_sum_erase _ (fun j => w j (f j)) (Finset.mem_univ i),
    add_right_comm]

end PbdZmq
