import PbdZmq.Core.Lines

/-!
# Texts split at a separator

A text is split at the first occurrence of a text, or at the last one of a character. What
was joined is recovered where the separator occurs nowhere else.
-/

namespace PbdZmq

/-- The text before and behind the first occurrence of `sep`. -/
def splitFirst (sep : Text) : Text → Option (Text × Text)
  | [] => none
  | c :: text =>
    if sep.isPrefixOf (c :: text) then some ([], (c :: text).drop sep.length)
    else (splitFirst sep text).map fun r => (c :: r.1, r.2)

/-- The text before and behind the last `sep`. -/
def splitLast (sep : Char) : Text → Option (Text × Text)
  | [] => none
  | c :: text =>
    match splitLast sep text with
    | some r => some (c :: r.1, r.2)
    | none => if c = sep then some ([], text) else none

/-- A text without the first character of the separator is recovered before it. -/
theorem splitFirst_append {c : Char} {sep before : Text} (h : c ∉ before) (behind : Text) :
    splitFirst (c :: sep) (before ++ c :: sep ++ behind) = some (before, behind) := by
  induction before with
  | nil =>
    have hsep : (c :: sep).isPrefixOf (c :: (sep ++ behind)) = true :=
      List.isPrefixOf_iff_prefix.mpr (List.prefix_append (c :: sep) behind)
    rw [List.nil_append, List.cons_append, splitFirst, if_pos hsep, ← List.cons_append,
      List.drop_left]
  | cons d before ih =>
    rw [List.mem_cons, not_or] at h
    have hsep : ¬(c :: sep).isPrefixOf (d :: (before ++ c :: sep ++ behind)) = true := by
      intro hfirst
      obtain ⟨heq, -⟩ := List.cons_prefix_cons.mp (List.isPrefixOf_iff_prefix.mp hfirst)
      exact h.1 heq
    rw [List.cons_append, List.cons_append, splitFirst, if_neg hsep, ih h.2]
    rfl

/-- A text without the separator is not split. -/
theorem splitLast_eq_none {sep : Char} {text : Text} (h : sep ∉ text) :
    splitLast sep text = none := by
  induction text with
  | nil => rfl
  | cons c text ih =>
    rw [List.mem_cons, not_or] at h
    rw [splitLast, ih h.2]
    exact if_neg (Ne.symm h.1)

/-- A text without the separator is recovered behind it. -/
theorem splitLast_append {sep : Char} {behind : Text} (h : sep ∉ behind) (before : Text) :
    splitLast sep (before ++ sep :: behind) = some (before, behind) := by
  induction before with
  | nil =>
    rw [List.nil_append, splitLast, splitLast_eq_none h]
    exact if_pos rfl
  | cons c before ih =>
    rw [List.cons_append, splitLast, ih]

end PbdZmq
