import Mathlib.Data.List.Basic
import Mathlib.Data.List.Forall2

/-!
# Windows on sparse tables

A sparse table keeps the cells between its first and its last entry. The window moves with
the entries: it grows to reach a new one and shrinks when one at its end is removed. What is
in the table does not depend on the window.
-/

namespace PbdZmq

/-- The cells from the index `min` on. -/
structure Window (α : Type*) where
  min : Nat
  cells : List (Option α)

namespace Window

variable {α : Type*}

/-- The entry at an index. -/
def get (w : Window α) (c : Nat) : Option α :=
  if c < w.min then none else w.cells[c - w.min]?.join

/-- The index past the last cell. -/
def top (w : Window α) : Nat := w.min + w.cells.length

/-- How many entries there are. -/
def live (w : Window α) : Nat := w.cells.countP Option.isSome

/-- There are entries at both ends. -/
structure Tight (w : Window α) : Prop where
  first : w.cells ≠ [] → (w.get w.min).isSome
  last : w.cells ≠ [] → (w.get (w.top - 1)).isSome

/-- The cell at an index is emptied. -/
def erase (w : Window α) (c : Nat) : Window α := ⟨w.min, w.cells.set (c - w.min) none⟩

section

variable {w : Window α} {m n c d : Nat} {cells : List (Option α)} {x : Option α}

theorem get_of_lt (h : c < w.min) : w.get c = none := by
  rw [get, if_pos h]

theorem get_of_top_le (h : w.top ≤ c) : w.get c = none := by
  rw [top] at h
  rw [get, if_neg (by omega), List.getElem?_eq_none (by omega)]
  rfl

/-- Entries are within the window. -/
theorem mem_of_get (h : (w.get c).isSome) : w.min ≤ c ∧ c < w.top := by
  constructor
  · by_contra hlt
    simp [get_of_lt (Nat.lt_of_not_le hlt)] at h
  · by_contra hle
    simp [get_of_top_le (Nat.le_of_not_lt hle)] at h

/-- Entries by their position. -/
theorem get_add (w : Window α) (i : Nat) : w.get (w.min + i) = w.cells[i]?.join := by
  rw [get, if_neg (by omega), Nat.add_sub_cancel_left]

theorem get_eq (h : w.min ≤ c) : w.get c = w.cells[c - w.min]?.join := by
  rw [get, if_neg (Nat.not_lt_of_le h)]

/-- The cell at a position. -/
theorem getD_cells (w : Window α) (i : Nat) : w.cells.getD i none = w.get (w.min + i) := by
  rw [get_add, List.getD_eq_getElem?_getD]
  cases w.cells[i]? <;> rfl

/-- The entries but for the first cell. -/
theorem get_cons (m : Nat) (x : Option α) (cells : List (Option α)) (c : Nat) :
    get ⟨m, x :: cells⟩ c = if c = m then x else get ⟨m + 1, cells⟩ c := by
  simp only [get]
  by_cases hm : c < m
  · rw [if_pos hm, if_neg (Nat.ne_of_lt hm), if_pos (Nat.lt_succ_of_lt hm)]
  by_cases hcm : c = m
  · subst hcm
    rw [if_neg hm, if_pos rfl, Nat.sub_self]
    rfl
  · rw [if_neg hm, if_neg hcm, if_neg (show ¬c < m + 1 by omega),
      show c - m = c - (m + 1) + 1 by omega,
      List.getElem?_cons_succ]

/-- The first cell is empty. -/
theorem get_cons_none (m : Nat) (cells : List (Option α)) (c : Nat) :
    get ⟨m, none :: cells⟩ c = get ⟨m + 1, cells⟩ c := by
  rw [get_cons]
  split
  · rename_i hc
    rw [get_of_lt (show c < m + 1 by omega)]
  · rfl

/-- Every entry is at an index. -/
theorem get_of_mem {a : α} (h : some a ∈ w.cells) : ∃ c, w.get c = some a := by
  obtain ⟨i, hi⟩ := List.mem_iff_getElem?.mp h
  refine ⟨w.min + i, ?_⟩
  rw [get_add, hi]
  rfl

/-- The only cell is not empty. -/
theorem Tight.single (h : w.Tight) (h1 : w.cells.length = 1) : none ∉ w.cells := by
  obtain ⟨cell, hcells⟩ := List.length_eq_one_iff.mp h1
  have hfirst := h.first (by rw [hcells]; exact List.cons_ne_nil _ _)
  rw [get_eq (Nat.le_refl _), Nat.sub_self, hcells] at hfirst
  rw [hcells, List.mem_singleton]
  rintro rfl
  contradiction

/-- Empty cells in front. -/
theorem get_replicate_append (m n : Nat) (cells : List (Option α)) (c : Nat) :
    get ⟨m, List.replicate n none ++ cells⟩ c = get ⟨m + n, cells⟩ c := by
  simp only [get]
  by_cases hm : c < m
  · rw [if_pos hm, if_pos (by omega)]
  · rw [if_neg hm, List.getElem?_append, List.length_replicate]
    by_cases hn : c - m < n
    · rw [if_pos hn, if_pos (by omega), List.getElem?_replicate_of_lt hn]
      rfl
    · rw [if_neg hn, if_neg (by omega), Nat.sub_sub]

/-- Empty cells at the end. -/
theorem get_append_replicate (m n : Nat) (cells : List (Option α)) (c : Nat) :
    get ⟨m, cells ++ List.replicate n none⟩ c = get ⟨m, cells⟩ c := by
  simp only [get]
  split
  · rfl
  · rw [List.getElem?_append]
    split
    · rfl
    · rename_i hlen
      rw [List.getElem?_replicate, List.getElem?_eq_none (Nat.le_of_not_lt hlen)]
      split <;> rfl

/-- One cell is set. -/
theorem get_set (hm : m ≤ c) (hc : c < m + cells.length) (x : Option α) (d : Nat) :
    get ⟨m, cells.set (c - m) x⟩ d = if d = c then x else get ⟨m, cells⟩ d := by
  simp only [get]
  by_cases hd : d < m
  · rw [if_pos hd, if_pos hd, if_neg (by omega)]
  · rw [if_neg hd, if_neg hd]
    by_cases hdc : d = c
    · subst hdc
      rw [if_pos rfl, List.getElem?_set_self (by omega)]
      rfl
    · rw [if_neg hdc, List.getElem?_set_ne (by omega)]

/-- The cells from a position on. -/
theorem get_drop (m n : Nat) (cells : List (Option α)) (c : Nat) :
    get ⟨m + n, cells.drop n⟩ c = if c < m + n then none else get ⟨m, cells⟩ c := by
  simp only [get]
  split
  · rfl
  · rw [if_neg (by omega), List.getElem?_drop]
    congr 2
    omega

/-- The cells up to a position. -/
theorem get_take (m n : Nat) (cells : List (Option α)) (c : Nat) :
    get ⟨m, cells.take n⟩ c = if c < m + n then get ⟨m, cells⟩ c else none := by
  simp only [get]
  by_cases hm : c < m
  · simp only [if_pos hm, ite_self]
  · rw [if_neg hm, if_neg hm]
    split
    · rw [List.getElem?_take_of_lt (by omega)]
    · rw [List.getElem?_eq_none (by rw [List.length_take]; omega)]
      rfl

/-- Entries on either side of a position. -/
theorem live_split (w : Window α) (n : Nat) :
    live ⟨w.min, w.cells.take n⟩ + live ⟨w.min + n, w.cells.drop n⟩ = w.live := by
  rw [live, live, live, ← List.countP_append, List.take_append_drop]

/-- No entry is left exactly if every cell is empty. -/
theorem live_eq_zero_iff : w.live = 0 ↔ ∀ c, w.get c = none := by
  rw [live, List.countP_eq_zero]
  constructor
  · intro h c
    by_contra hsome
    have hsome : (w.get c).isSome := Option.isSome_iff_ne_none.mpr hsome
    have hmem := mem_of_get hsome
    rw [get_eq hmem.1] at hsome
    cases hcell : w.cells[c - w.min]? with
    | none => simp [hcell] at hsome
    | some cell =>
      rw [hcell] at hsome
      exact h cell (List.mem_of_getElem? hcell) hsome
  · intro h cell hmem
    obtain ⟨i, hi⟩ := List.mem_iff_getElem?.mp hmem
    have hnone := h (w.min + i)
    rw [get_add, hi] at hnone
    rw [Bool.not_eq_true, Option.isSome_eq_false_iff, Option.isNone_iff_eq_none]
    exact hnone

/-- An entry is one more than those that are left without it. -/
theorem live_erase (h : (w.get c).isSome) : (w.erase c).live + 1 = w.live := by
  obtain ⟨hm, ht⟩ := mem_of_get h
  have hi : c - w.min < w.cells.length := by
    rw [top] at ht
    omega
  rw [get_eq hm, List.getElem?_eq_getElem hi, Option.join_some] at h
  have hpos : 0 < w.cells.countP Option.isSome :=
    List.countP_pos_iff.mpr ⟨_, List.getElem_mem hi, h⟩
  rw [live, live, erase, List.countP_set hi, if_pos h]
  simp only [Option.isSome_none, Bool.false_eq_true, if_false]
  omega

/-- There is nothing to empty. -/
theorem erase_of_get_eq_none (hm : w.min ≤ c) (ht : c < w.top) (h : w.get c = none) :
    w.erase c = w := by
  have hi : c - w.min < w.cells.length := by
    rw [top] at ht
    omega
  rw [get_eq hm, List.getElem?_eq_getElem hi, Option.join_some] at h
  have hset := List.set_getElem_self hi
  rw [h] at hset
  rw [erase, hset]

theorem get_erase (hm : w.min ≤ c) (ht : c < w.top) (d : Nat) :
    (w.erase c).get d = if d = c then none else w.get d := get_set hm ht none d

/-- The only entry. -/
theorem get_eq_none_of_live_eq_one (h1 : w.live = 1) (hc : (w.get c).isSome) (hd : d ≠ c) :
    w.get d = none := by
  obtain ⟨hm, ht⟩ := mem_of_get hc
  have hzero : (w.erase c).live = 0 := by
    have herase := live_erase hc
    omega
  have hnone := live_eq_zero_iff.mp hzero d
  rwa [get_erase hm ht, if_neg hd] at hnone

/-- Two entries. -/
theorem two_le_live (hc : (w.get c).isSome) (hd : (w.get d).isSome) (hne : d ≠ c) :
    2 ≤ w.live := by
  by_contra hless
  have hpos : w.live ≠ 0 := by
    intro h0
    rw [live_eq_zero_iff.mp h0 c] at hc
    contradiction
  rw [get_eq_none_of_live_eq_one (by omega) hc hne] at hd
  contradiction

/-- All entries are the same. -/
theorem live_eq_one (hc : (w.get c).isSome) (h : ∀ d, (w.get d).isSome → d = c) : w.live = 1 := by
  obtain ⟨hm, ht⟩ := mem_of_get hc
  have hzero : (w.erase c).live = 0 := by
    rw [live_eq_zero_iff]
    intro d
    rw [get_erase hm ht]
    split
    · rfl
    · rename_i hd
      by_contra hsome
      exact hd (h d (Option.isSome_iff_ne_none.mpr hsome))
  have herase := live_erase hc
  omega

/-- A function on the cells. -/
theorem get_map {β : Type*} {f : Option α → Option β} (hf : f none = none) (m : Nat)
    (cells : List (Option α)) (c : Nat) : get ⟨m, cells.map f⟩ c = f (get ⟨m, cells⟩ c) := by
  simp only [get]
  split
  · exact hf.symm
  · rw [List.getElem?_map]
    cases cells[c - m]? with
    | none => exact hf.symm
    | some cell => rfl

section

variable {β : Type*} {R : α → β → Prop} {cells' : List (Option β)}

/-- Entries that are related cell by cell. -/
theorem get_rel (h : List.Forall₂ (Option.Rel R) cells cells') (m : Nat) (c : Nat) :
    Option.Rel R (get ⟨m, cells⟩ c) (get ⟨m, cells'⟩ c) := by
  induction h generalizing m with
  | nil =>
    rw [live_eq_zero_iff.mp (show live ⟨m, ([] : List (Option α))⟩ = 0 from rfl),
      live_eq_zero_iff.mp (show live ⟨m, ([] : List (Option β))⟩ = 0 from rfl)]
    exact .none
  | cons hx _ ih =>
    rw [get_cons, get_cons]
    split
    · exact hx
    · exact ih (m + 1)

theorem isSome_rel {y : Option β} (h : Option.Rel R x y) : y.isSome = x.isSome := by
  cases h <;> rfl

theorem live_rel (h : List.Forall₂ (Option.Rel R) cells cells') (m : Nat) :
    live ⟨m, cells'⟩ = live ⟨m, cells⟩ := by
  rw [live, live]
  induction h with
  | nil => rfl
  | cons hx _ ih => rw [List.countP_cons, List.countP_cons, ih, isSome_rel hx]

theorem tight_rel (h : List.Forall₂ (Option.Rel R) cells cells') (ht : Tight ⟨m, cells⟩) :
    Tight ⟨m, cells'⟩ := by
  have hlength := h.length_eq
  have htop : top ⟨m, cells'⟩ = top ⟨m, cells⟩ := congrArg (m + ·) hlength.symm
  have hne : cells' ≠ [] → cells ≠ [] := by
    rintro hne rfl
    exact hne (List.length_eq_zero_iff.mp hlength.symm)
  constructor
  · intro hcells
    rw [isSome_rel (get_rel h m _)]
    exact ht.first (hne hcells)
  · intro hcells
    rw [isSome_rel (get_rel h m _), htop]
    exact ht.last (hne hcells)

end

/-- A window that has shrunk to the entries. -/
structure Shrunk (w v : Window α) : Prop where
  get_eq : ∀ d, v.get d = w.get d
  live_eq : v.live = w.live
  top_le : v.top ≤ w.top
  tight : v.Tight

/-- No entry is dropped. -/
theorem drop_eq (h : ∀ d < w.min + n, w.get d = none) :
    (∀ d, get ⟨w.min + n, w.cells.drop n⟩ d = w.get d) ∧
      live ⟨w.min + n, w.cells.drop n⟩ = w.live := by
  constructor
  · intro d
    rw [get_drop]
    split
    · rename_i hd
      exact (h d hd).symm
    · rfl
  · have hzero : live ⟨w.min, w.cells.take n⟩ = 0 := by
      rw [live_eq_zero_iff]
      intro d
      rw [get_take]
      split
      · rename_i hd
        exact h d hd
      · rfl
    rw [← live_split w n, hzero, Nat.zero_add]

/-- The window shrinks from the left. -/
theorem shrunk_drop (h : ∀ d < w.min + n, w.get d = none)
    (hfirst : (w.get (w.min + n)).isSome) (hlast : (w.get (w.top - 1)).isSome) :
    Shrunk w ⟨w.min + n, w.cells.drop n⟩ := by
  obtain ⟨hget, hlive⟩ := drop_eq h
  have hlt := (mem_of_get hfirst).2
  have htop : top ⟨w.min + n, w.cells.drop n⟩ = w.top := by
    simp only [top, List.length_drop] at hlt ⊢
    omega
  refine ⟨hget, hlive, Nat.le_of_eq htop, fun _ => ?_, fun _ => ?_⟩
  · rwa [hget]
  · rwa [hget, htop]

/-- The window shrinks from the right. -/
theorem shrunk_take (hpos : 0 < n) (h : ∀ d, w.min + n ≤ d → w.get d = none)
    (hfirst : (w.get w.min).isSome) (hlast : (w.get (w.min + (n - 1))).isSome) :
    Shrunk w ⟨w.min, w.cells.take n⟩ := by
  have hlt := (mem_of_get hlast).2
  have htop : top ⟨w.min, w.cells.take n⟩ - 1 = w.min + (n - 1) := by
    simp only [top, List.length_take] at hlt ⊢
    omega
  have hget : ∀ d, get ⟨w.min, w.cells.take n⟩ d = w.get d := by
    intro d
    rw [get_take]
    split
    · rfl
    · rename_i hd
      exact (h d (Nat.le_of_not_lt hd)).symm
  refine ⟨hget, ?_, ?_, fun _ => ?_, fun _ => ?_⟩
  · have hzero : live ⟨w.min + n, w.cells.drop n⟩ = 0 := by
      rw [live_eq_zero_iff]
      intro d
      rw [get_drop]
      split
      · rfl
      · rename_i hd
        exact h d (Nat.le_of_not_lt hd)
    rw [← live_split w n, hzero, Nat.add_zero]
  · simp only [top, List.length_take]
    omega
  · rwa [hget]
  · rwa [hget, htop]

/-- The window shrinks from both sides. -/
theorem shrunk_slice (hpos : 0 < n) (hlow : ∀ d < w.min + m, w.get d = none)
    (hhigh : ∀ d, w.min + m + n ≤ d → w.get d = none) (hfirst : (w.get (w.min + m)).isSome)
    (hlast : (w.get (w.min + m + (n - 1))).isSome) :
    Shrunk w ⟨w.min + m, (w.cells.drop m).take n⟩ := by
  obtain ⟨hget, hlive⟩ := drop_eq hlow
  have hshrunk := shrunk_take (w := ⟨w.min + m, w.cells.drop m⟩) hpos
    (fun d hd => (hget d).trans (hhigh d hd)) (by rwa [hget]) (by rwa [hget])
  refine ⟨fun d => (hshrunk.get_eq d).trans (hget d), hshrunk.live_eq.trans hlive, ?_,
    hshrunk.tight⟩
  have hlt := (mem_of_get hfirst).2
  have htop : top ⟨w.min + m, w.cells.drop m⟩ = w.top := by
    simp only [top, List.length_drop] at hlt ⊢
    omega
  exact htop ▸ hshrunk.top_le

/-- The window shrinks to nothing. -/
theorem shrunk_empty (h0 : w.live = 0) (m : Nat) (hm : m ≤ w.top) : Shrunk w ⟨m, []⟩ where
  get_eq d := by
    rw [live_eq_zero_iff.mp h0,
      live_eq_zero_iff.mp (show live ⟨m, ([] : List (Option α))⟩ = 0 from rfl)]
  live_eq := h0.symm
  top_le := hm
  tight := ⟨fun hne => absurd rfl hne, fun hne => absurd rfl hne⟩

/-- The window shrinks to the only entry. -/
theorem shrunk_single {a : α} (h1 : w.live = 1) (hd : w.get d = some a) :
    Shrunk w ⟨d, [some a]⟩ := by
  have hsome : (w.get d).isSome := by
    rw [hd]
    rfl
  have hself : get ⟨d, [some a]⟩ d = some a := by
    rw [get_eq (Nat.le_refl d), Nat.sub_self]
    rfl
  refine ⟨fun e => ?_, h1.symm, (mem_of_get hsome).2, fun _ => ?_, fun _ => ?_⟩
  · by_cases he : e = d
    · rw [he, hd, hself]
    · rw [get_eq_none_of_live_eq_one h1 hsome he]
      exact get_eq_none_of_live_eq_one rfl (by rw [hself]; rfl) he
  · rw [hself]
    rfl
  · have hlast : top ⟨d, [some a]⟩ - 1 = d := rfl
    rw [hlast, hself]
    rfl

/-- The window stays. -/
theorem shrunk_self (hfirst : (w.get w.min).isSome) (hlast : (w.get (w.top - 1)).isSome) :
    Shrunk w w :=
  ⟨fun _ => rfl, rfl, Nat.le_refl _, fun _ => hfirst, fun _ => hlast⟩

/-- A window that has grown to reach an index, and no further. -/
structure Grown (w : Window α) (c : Nat) (g : Window α) : Prop where
  get_eq : ∀ d, g.get d = w.get d
  live_eq : g.live = w.live
  min_le : g.min ≤ c
  lt_top : c < g.top
  first : g.min = c ∨ w.cells ≠ [] ∧ g.min = w.min
  last : g.top = c + 1 ∨ w.cells ≠ [] ∧ g.top = w.top

theorem Grown.refl (hm : w.min ≤ c) (ht : c < w.top) : Grown w c w := by
  have hne : w.cells ≠ [] := by
    intro hnil
    rw [top, hnil, List.length_nil] at ht
    omega
  exact ⟨fun _ => rfl, rfl, hm, ht, Or.inr ⟨hne, rfl⟩, Or.inr ⟨hne, rfl⟩⟩

theorem Grown.empty (h : w.cells = []) (c : Nat) : Grown w c ⟨c, [none]⟩ where
  get_eq d := by
    have hnone : ∀ e, w.get e = none := live_eq_zero_iff.mp (by simp [live, h])
    rw [hnone, live_eq_zero_iff.mp (show live ⟨c, [none]⟩ = 0 from rfl)]
  live_eq := by simp [live, h]
  min_le := Nat.le_refl c
  lt_top := Nat.lt_succ_self c
  first := Or.inl rfl
  last := Or.inl rfl

theorem Grown.low (hne : w.cells ≠ []) (h : c < w.min) :
    Grown w c ⟨c, List.replicate (w.min - c) none ++ w.cells⟩ where
  get_eq d := by
    rw [get_replicate_append, Nat.add_sub_cancel' (Nat.le_of_lt h)]
  live_eq := by simp [live]
  min_le := Nat.le_refl c
  lt_top := by
    simp only [top, List.length_append, List.length_replicate]
    omega
  first := Or.inl rfl
  last := Or.inr ⟨hne, by
    simp only [top, List.length_append, List.length_replicate]
    omega⟩

theorem Grown.high (hne : w.cells ≠ []) (h : w.top ≤ c) :
    Grown w c ⟨w.min, w.cells ++ List.replicate (c + 1 - w.top) none⟩ where
  get_eq d := get_append_replicate _ _ _ d
  live_eq := by simp [live]
  min_le := Nat.le_trans (Nat.le_add_right _ _) h
  lt_top := by
    simp only [top, List.length_append, List.length_replicate] at h ⊢
    omega
  first := Or.inr ⟨hne, rfl⟩
  last := Or.inl (by
    simp only [top, List.length_append, List.length_replicate] at h ⊢
    omega)

/-- The entry at an index is set. -/
def put (g : Window α) (c : Nat) (a : α) : Window α := ⟨g.min, g.cells.set (c - g.min) (some a)⟩

variable {g : Window α}

theorem Grown.get_put (h : Grown w c g) (a : α) (d : Nat) :
    (g.put c a).get d = if d = c then some a else w.get d := by
  rw [put, get_set h.min_le h.lt_top, h.get_eq]

theorem top_put (g : Window α) (c : Nat) (a : α) : (g.put c a).top = g.top := by
  simp [put, top]

/-- A new entry keeps the window tight. -/
theorem Grown.tight_put (h : Grown w c g) (hw : w.Tight) (a : α) : (g.put c a).Tight where
  first _ := by
    rw [h.get_put]
    split
    · rfl
    · rename_i hne
      have hmin : (g.put c a).min = g.min := rfl
      rcases h.first with hc | ⟨hcells, hc⟩
      · exact absurd hc hne
      · rw [hmin, hc]
        exact hw.first hcells
  last _ := by
    rw [h.get_put, top_put]
    split
    · rfl
    · rename_i hne
      rcases h.last with hc | ⟨hcells, hc⟩
      · omega
      · rw [hc]
        exact hw.last hcells

/-- A new entry counts unless it replaces one. -/
theorem Grown.live_put (h : Grown w c g) (a : α) :
    (g.put c a).live = if (w.get c).isSome then w.live else w.live + 1 := by
  have hput : ((g.put c a).get c).isSome := by
    rw [h.get_put, if_pos rfl]
    rfl
  have hsame : (g.put c a).erase c = g.erase c := by
    simp [put, erase]
  have hput' := live_erase hput
  rw [hsame] at hput'
  rw [← hput']
  split
  · rename_i hsome
    rw [live_erase (by rwa [h.get_eq]), h.live_eq]
  · rename_i hnone
    rw [erase_of_get_eq_none h.min_le h.lt_top, h.live_eq]
    rwa [h.get_eq, ← Option.isNone_iff_eq_none, ← Option.not_isSome, Bool.not_eq_true',
      ← Bool.not_eq_true]

end

end Window

end PbdZmq
