import Mathlib.Data.List.TakeWhile

/-!
# Lines of keys and values

A file of lines `key = value` is read by the first line that starts with a key. Where no
key has a blank, this is the lookup of the key among the pairs that were written.
-/

namespace PbdZmq

/-- The characters of a text. -/
abbrev Text := List Char

/-- The line `key = value`. -/
def keyLine (key value : Text) : Text := key ++ ' ' :: '=' :: ' ' :: value

/-- What follows `key = ` in the first line that starts so. -/
def readKey (key : Text) (lines : List Text) : Option Text :=
  (lines.find? fun line => (keyLine key []).isPrefixOf line).map
    fun line => line.drop (keyLine key []).length

/-- The part of a line before its first blank is the key. -/
theorem takeWhile_keyLine {key : Text} (h : ' ' ∉ key) (value : Text) :
    (keyLine key value).takeWhile (· ≠ ' ') = key := by
  have hne : ∀ c ∈ key, decide (c ≠ ' ') = true := by
    intro c hc
    apply decide_eq_true
    rintro rfl
    exact h hc
  rw [keyLine, List.takeWhile_append_of_pos hne]
  simp

/-- A line starts with a key exactly if it was written with this key. -/
theorem keyLine_prefix_iff {key key' : Text} (h : ' ' ∉ key) (h' : ' ' ∉ key') (value : Text) :
    keyLine key [] <+: keyLine key' value ↔ key' = key := by
  constructor
  · rintro ⟨rest, heq⟩
    have hkey := takeWhile_keyLine h' value
    have hline : keyLine key rest = keyLine key' value := by
      rw [← heq]
      simp [keyLine]
    rw [← hline, takeWhile_keyLine h] at hkey
    exact hkey.symm
  · rintro rfl
    exact ⟨value, by simp [keyLine]⟩

/-- Reading a key gives the value that was written with it first. -/
theorem readKey_map {key : Text} (h : ' ' ∉ key) {pairs : List (Text × Text)}
    (hkeys : ∀ p ∈ pairs, ' ' ∉ p.1) :
    readKey key (pairs.map fun p => keyLine p.1 p.2) =
      (pairs.find? fun p => p.1 = key).map Prod.snd := by
  induction pairs with
  | nil => rfl
  | cons p pairs ih =>
    obtain ⟨hp, hpairs⟩ := List.forall_mem_cons.mp hkeys
    have hbegins := keyLine_prefix_iff h hp p.2
    have hrest := ih hpairs
    unfold readKey at hrest ⊢
    by_cases heq : p.1 = key
    · have hstart : (keyLine key []).isPrefixOf (keyLine p.1 p.2) = true :=
        List.isPrefixOf_iff_prefix.mpr (hbegins.mpr heq)
      have hdrop : (keyLine p.1 p.2).drop (keyLine key []).length = p.2 := by
        rw [heq]
        simp [keyLine]
      rw [List.map_cons, List.find?_cons_of_pos hstart, List.find?_cons_of_pos (by simpa using heq),
        Option.map_some, Option.map_some, hdrop]
    · have hstart : (keyLine key []).isPrefixOf (keyLine p.1 p.2) = false := by
        rw [Bool.eq_false_iff]
        exact fun htrue => heq (hbegins.mp (List.isPrefixOf_iff_prefix.mp htrue))
      simpa [hstart, heq] using hrest

end PbdZmq
