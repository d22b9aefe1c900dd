import Mathlib.Data.List.Basic

/-!
# Reachability with ephemerons

A heap is a finite graph with roots and ephemerons: an ephemeron keeps its values
reachable as long as its key is, and does not keep its key. A collector may treat
as live any set that holds the roots and is closed under edges and ephemerons, so
what it leaves out is unreachable.
-/

namespace PbdZmq

variable {ν : Type*}

/-- Objects, by what keeps them reachable. -/
structure Heap (ν : Type*) where
  roots : List ν
  /-- The first object refers to the second. -/
  edges : List (ν × ν)
  /-- A key and the objects reachable while it is. -/
  ephemerons : List (ν × List ν)

/-- Reachable from the roots. -/
inductive Heap.Reaches (h : Heap ν) : ν → Prop
  | root {x} : x ∈ h.roots → Reaches h x
  | edge {x y} : Reaches h x → (x, y) ∈ h.edges → Reaches h y
  | ephemeron {k xs y} : Reaches h k → (k, xs) ∈ h.ephemerons → y ∈ xs → Reaches h y

/-- A property of the roots that passes along edges and ephemerons. -/
structure Heap.Closed (h : Heap ν) (P : ν → Prop) : Prop where
  roots : ∀ x ∈ h.roots, P x
  edges : ∀ e ∈ h.edges, P e.1 → P e.2
  ephemerons : ∀ e ∈ h.ephemerons, P e.1 → ∀ y ∈ e.2, P y

/-- Such a property holds of everything reachable. -/
theorem Heap.Closed.reaches {h : Heap ν} {P : ν → Prop} (hc : h.Closed P) {x : ν}
    (hr : h.Reaches x) : P x := by
  induction hr with
  | root hx => exact hc.roots _ hx
  | edge _ he ih => exact hc.edges _ he ih
  | ephemeron _ he hy ih => exact hc.ephemerons _ he ih _ hy

/-- A collector may take this set for the live objects. -/
def Heap.Marks (h : Heap ν) (live : List ν) : Prop :=
  (∀ x ∈ h.roots, x ∈ live) ∧ (∀ e ∈ h.edges, e.1 ∈ live → e.2 ∈ live) ∧
    ∀ e ∈ h.ephemerons, e.1 ∈ live → ∀ y ∈ e.2, y ∈ live

instance [DecidableEq ν] (h : Heap ν) (live : List ν) : Decidable (h.Marks live) :=
  inferInstanceAs (Decidable (_ ∧ _ ∧ _))

/-- What a collector leaves out is unreachable. -/
theorem Heap.Marks.mem_of_reaches {h : Heap ν} {live : List ν} (hm : h.Marks live) {x : ν}
    (hr : h.Reaches x) : x ∈ live := by
  obtain ⟨hroots, hedges, hephemerons⟩ := hm
  have hc : h.Closed (· ∈ live) := ⟨hroots, hedges, hephemerons⟩
  exact hc.reaches hr

/-- Every object that the heap mentions satisfies a property. -/
structure Heap.All (h : Heap ν) (P : ν → Prop) : Prop where
  roots : ∀ x ∈ h.roots, P x
  edges : ∀ e ∈ h.edges, P e.1 ∧ P e.2
  ephemerons : ∀ e ∈ h.ephemerons, P e.1 ∧ ∀ y ∈ e.2, P y

/-- Everything reachable is mentioned. -/
theorem Heap.All.reaches {h : Heap ν} {P : ν → Prop} (ha : h.All P) {x : ν} (hr : h.Reaches x) :
    P x := by
  have hc : h.Closed P :=
    ⟨ha.roots, fun e he _ => (ha.edges e he).2, fun e he _ => (ha.ephemerons e he).2⟩
  exact hc.reaches hr

/-- Say that an old object is one with the property. Where roots, edges and ephemerons
give old objects only to old objects that were reachable before, no old object
becomes reachable. -/
theorem Heap.Reaches.of_step {h h' : Heap ν} {P : ν → Prop} {x : ν} (hr : h'.Reaches x)
    (hx : P x) (ha : h.All P) (hroots : ∀ x ∈ h'.roots, P x → h.Reaches x)
    (hedges : ∀ e ∈ h'.edges, e ∈ h.edges ∨ h.Reaches e.2)
    (hephemerons : ∀ e ∈ h'.ephemerons, e ∈ h.ephemerons ∨ ∀ y ∈ e.2, P y → h.Reaches y) :
    h.Reaches x := by
  have hc : h'.Closed fun x => P x → h.Reaches x := by
    refine ⟨hroots, ?_, ?_⟩
    · intro e he hfrom _
      rcases hedges e he with hold | hnew
      · exact .edge (hfrom (ha.edges e hold).1) hold
      · exact hnew
    · intro e he hfrom y hy hpy
      rcases hephemerons e he with hold | hnew
      · exact .ephemeron (hfrom (ha.ephemerons e hold).1) hold hy
      · exact hnew y hy hpy
  exact hc.reaches hr hx

end PbdZmq
