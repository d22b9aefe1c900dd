import Mathlib.Data.List.Basic

/-!
# Splitting a list into full blocks and one short block

Reading a finite source in blocks of a fixed positive size produces full blocks
followed by exactly one short block, which may be empty. The short block is the
only end marker: it occurs once, at the end, so a prefix of the blocks that
contains it is all of them.
-/

namespace PbdZmq

variable {α : Type*}

/-- Full blocks of `n` elements, then the short remainder. -/
def blocks (n : Nat) (xs : List α) : List (List α) :=
  if _h : 0 < n ∧ n ≤ xs.length then xs.take n :: blocks n (xs.drop n) else [xs]
termination_by xs.length
decreasing_by simp only [List.length_drop]; omega

/-- One block is read; reading goes on exactly when that block was full. -/
theorem blocks_eq {n : Nat} (hn : 0 < n) (xs : List α) :
    blocks n xs = xs.take n ::
      (if (xs.take n).length = n then blocks n (xs.drop n) else []) := by
  rw [blocks]
  by_cases h : n ≤ xs.length
  · have hl : (xs.take n).length = n := by simp [h]
    simp only [hn, h, and_self, dite_true, hl, ite_true]
  · have hl : ¬ (xs.take n).length = n := by simp; omega
    simp only [h, and_false, dite_false, hl, ite_false]
    rw [List.take_of_length_le (by omega)]

theorem blocks_ne_nil (n : Nat) (xs : List α) : blocks n xs ≠ [] := by
  rw [blocks]
  split <;> simp

/-- The blocks concatenate to the original list. -/
theorem flatten_blocks (n : Nat) (xs : List α) : (blocks n xs).flatten = xs := by
  induction xs using blocks.induct n with
  | case1 xs h ih =>
    rw [blocks]
    simp only [h, and_self, dite_true, List.flatten_cons, ih, List.take_append_drop]
  | case2 xs h =>
    rw [blocks, dif_neg h]
    simp

/-- Only the last block is short, and before it every block is full. -/
theorem blocks_short_last {n : Nat} (hn : 0 < n) {xs b : List α} {before after : List (List α)}
    (h : blocks n xs = before ++ b :: after) :
    b.length ≤ n ∧ (b.length < n ↔ after = []) := by
  induction xs using blocks.induct n generalizing before with
  | case1 xs hx ih =>
    rw [blocks, dif_pos hx] at h
    cases before with
    | nil =>
      obtain ⟨hb, ha⟩ := List.cons.inj h
      have hl : b.length = n := by rw [← hb]; simp [hx.2]
      refine ⟨Nat.le_of_eq hl, ?_⟩
      rw [← ha]
      simp [hl, blocks_ne_nil]
    | cons c before => exact ih (List.cons.inj h).2
  | case2 xs hx =>
    rw [blocks, dif_neg hx] at h
    have hlt : xs.length < n := by omega
    cases before with
    | nil =>
      obtain ⟨hb, ha⟩ := List.cons.inj h
      subst hb
      exact ⟨Nat.le_of_lt hlt, by simp [← ha, hlt]⟩
    | cons c before =>
      have := congrArg List.length h
      simp at this

end PbdZmq
