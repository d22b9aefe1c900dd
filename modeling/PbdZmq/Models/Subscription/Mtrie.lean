import Mathlib.Data.Finset.Basic
import Mathlib.Data.Finset.Lattice.Basic
import PbdZmq.Models.Subscription.Keys
import PbdZmq.Models.Subscription.Prune

/-!
# The trie of a publisher

A publisher keeps with every prefix the pipes that have subscribed to it. A message is sent to
the pipes of its prefixes, and a pipe that terminates is removed from every node.
-/

namespace PbdZmq.Subscription

/-- `mtrie_t`; the value is `pipes`, where the empty set stands for the null pointer. -/
abbrev Mtrie (π : Type) := Node (Finset π)

namespace Mtrie

variable {π : Type}

/-- The child that is left: the first one of the table. -/
def keep (t : Mtrie π) (table : List (Option (Mtrie π))) (_ : Nat) : Option (Nat × Mtrie π) :=
  ((List.range t.next.length).find? fun i => (table.getD i none).isSome).bind fun i =>
    (table.getD i none).map fun node => (i, node)

/-- The first child that is left is the only one. -/
theorem keeps : Node.Keeps (keep (π := π)) := by
  intro t c e hmin hlength htwo hone hleft hright
  have htop : e.top = e.min + t.next.length := congrArg (e.min + ·) hlength
  have hsome : ∃ d, (e.get d).isSome := by
    by_contra hnone
    have hzero := Window.live_eq_zero_iff.mpr fun d =>
      Option.not_isSome_iff_eq_none.mp fun hd => hnone ⟨d, hd⟩
    omega
  obtain ⟨d, hd⟩ := hsome
  obtain ⟨hm, ht⟩ := Window.mem_of_get hd
  cases hfind : (List.range t.next.length).find? fun i => (e.cells.getD i none).isSome with
  | none =>
    rw [List.find?_range_eq_none] at hfind
    have hnone := hfind (d - e.min) (by omega)
    rw [e.getD_cells, Nat.add_sub_cancel' hm, hd] at hnone
    contradiction
  | some i =>
    have hfirst := hfind
    rw [List.find?_range_eq_some] at hfind
    obtain ⟨node, hnode⟩ := Option.isSome_iff_exists.mp hfind.1
    refine ⟨i, node, ?_, by rw [← e.getD_cells, hnode]⟩
    rw [keep, hfirst, Option.bind_some, hnode]
    rfl

variable [DecidableEq π]

/-- `bool result = !pipes; pipes->insert (pipe_); return result;`. -/
def insert (pipe : π) (pipes : Finset π) : Bool × Finset π := (pipes = ∅, Insert.insert pipe pipes)

/-- `if (pipes) { erased = pipes->erase (pipe_); zmq_assert (erased == 1); } return !pipes;`. -/
def erase (pipe : π) (pipes : Finset π) : Option (Bool × Finset π) :=
  if pipes = ∅ then some (true, pipes)
  else if pipe ∈ pipes then some (pipes.erase pipe = ∅, pipes.erase pipe)
  else none

/-- `add`: whether the prefix is new. -/
def add (pipe : π) : Bytes → Mtrie π → Option (Bool × Mtrie π) :=
  Node.add (fun _ _ => true) (insert pipe)

/-- `rm` of a prefix: whether no pipe is left; none if an assertion fails. -/
def rm (pipe : π) : Bytes → Mtrie π → Option (Bool × Mtrie π) := Node.rm keep false (erase pipe)

/-- What the loop of `rm_helper` over the table keeps. -/
structure Scan where
  live_nodes : Nat
  new_min : Nat
  new_max : Nat

/-- The loop of `rm_helper` over the table from a character on, after the removals below; none if
an assertion fails. -/
def scan (c : Nat) : List (Option (Mtrie π)) → Scan → Option (List (Option (Mtrie π)) × Scan)
  | [], r => some ([], r)
  | none :: table, r => (scan (c + 1) table r).map fun s => (none :: s.1, s.2)
  | some node :: table, r =>
    if node.is_redundant then
      if r.live_nodes > 0 then
        (scan (c + 1) table { r with live_nodes := r.live_nodes - 1 }).map fun s =>
          (none :: s.1, s.2)
      else none
    else
      let new_min := if c < r.new_min then c else r.new_min
      let new_max := if c > r.new_max then c else r.new_max
      (scan (c + 1) table ⟨r.live_nodes, new_min, new_max⟩).map fun s => (some node :: s.1, s.2)

/-- What `rm_helper` does with the table after the removals below; none if an assertion fails. -/
def compact (pipes : Finset π) (min live_nodes : Nat) (next : List (Option (Mtrie π))) :
    Option (Mtrie π) :=
  let count := next.length
  if count = 0 then some ⟨pipes, min, live_nodes, next⟩
  else if count = 1 then
    match next.getD 0 none with
    | some node =>
      if node.is_redundant then
        if live_nodes - 1 = 0 then some ⟨pipes, min, live_nodes - 1, []⟩ else none
      else some ⟨pipes, min, live_nodes, next⟩
    | none => none
  else
    (scan min next ⟨live_nodes, min + count - 1, min⟩).bind fun (table, r) =>
      if r.live_nodes = 0 then some ⟨pipes, min, r.live_nodes, []⟩
      else if r.live_nodes = 1 then
        if r.new_min = r.new_max ∧ r.new_min ≥ min ∧ r.new_min < min + count then
          (table.getD (r.new_min - min) none).map fun node =>
            ⟨pipes, r.new_min, r.live_nodes, [some node]⟩
        else none
      else if r.new_min > min ∨ r.new_max < min + count - 1 then
        if r.new_max - r.new_min + 1 > 1 ∧ r.new_min ≥ min ∧ r.new_max ≤ min + count - 1 ∧
            r.new_max - r.new_min + 1 < count then
          let count := r.new_max - r.new_min + 1
          some ⟨pipes, r.new_min, r.live_nodes, (table.drop (r.new_min - min)).take count⟩
        else none
      else some ⟨pipes, min, r.live_nodes, table⟩

mutual

/-- `rm_helper` of a pipe: the prefixes that are reported and the trie without the pipe; none if
an assertion fails. -/
def rm_helper (pipe : π) (call_on_uniq : Bool) (buff : Bytes) :
    Mtrie π → Option (List Bytes × Mtrie π)
  | ⟨pipes, min, live_nodes, next⟩ =>
    (rm_table pipe call_on_uniq buff min (next.length = 1) next).bind fun (below, next) =>
      (compact (pipes.erase pipe) min live_nodes next).map fun t =>
        (if pipe ∈ pipes ∧ (!call_on_uniq ∨ pipes.erase pipe = ∅) then buff :: below else below, t)

/-- The removals below the table of `rm_helper` from a character on. -/
def rm_table (pipe : π) (call_on_uniq : Bool) (buff : Bytes) (c : Nat) (single : Bool) :
    List (Option (Mtrie π)) → Option (List Bytes × List (Option (Mtrie π)))
  | [] => some ([], [])
  | none :: next =>
    if single then none
    else (rm_table pipe call_on_uniq buff (c + 1) single next).map fun r => (r.1, none :: r.2)
  | some node :: next =>
    (rm_helper pipe call_on_uniq (buff ++ [UInt8.ofNat c]) node).bind fun here =>
      (rm_table pipe call_on_uniq buff (c + 1) single next).map fun below =>
        (here.1 ++ below.1, some here.2 :: below.2)

end

/-- `rm` of a pipe. -/
def rm_pipe (pipe : π) (call_on_uniq : Bool) (t : Mtrie π) : Option (List Bytes × Mtrie π) :=
  rm_helper pipe call_on_uniq [] t

section

variable {t : Mtrie π} (h : t.WF)

include h

/-- `add` attaches the pipe to the prefix and says whether it is the first one. -/
theorem add_spec (pipe : π) (key : Bytes) :
    ∃ t', add pipe key t = some (decide (t.lookup key = ∅), t') ∧ t'.WF ∧
      ∀ k, t'.lookup k = if k = key then Insert.insert pipe (t.lookup k) else t.lookup k := by
  obtain ⟨t', hadd, hwf, -, hlookup⟩ := h.add (fun _ _ _ => rfl)
    (show (insert pipe (t.lookup key)).2 ≠ ⊥ from Finset.insert_ne_empty _ _)
  refine ⟨t', hadd, hwf, fun k => ?_⟩
  rw [hlookup]
  split
  · rename_i hk
    rw [hk]
    rfl
  · rfl

end

/-- `rm` detaches a pipe from a prefix it is attached to and says whether it was the last one. -/
theorem rm_spec {t : Mtrie π} (h : t.WF) {pipe : π} {key : Bytes} (hmem : pipe ∈ t.lookup key) :
    ∃ t', rm pipe key t = some (decide (t.lookup key = {pipe}), t') ∧ t'.WF ∧
      ∀ k, t'.lookup k = if k = key then (t.lookup k).erase pipe else t.lookup k := by
  have hne : t.lookup key ≠ ∅ := Finset.ne_empty_of_mem hmem
  have hvisit : erase pipe (t.lookup key) =
      some (decide (t.lookup key = {pipe}), (t.lookup key).erase pipe) := by
    have hlast : (t.lookup key).erase pipe = ∅ ↔ t.lookup key = {pipe} := by
      rw [Finset.erase_eq_empty_iff, or_iff_right hne]
    rw [erase, if_neg hne, if_pos hmem, decide_eq_decide.mpr hlast]
  obtain ⟨b, t', hrm, hb, hwf, hlookup⟩ := h.rm keeps false (fun r hr => by
    cases hr
    rfl) hvisit
  rcases hb with rfl | ⟨hnone, -⟩
  swap
  · exact absurd hnone hne
  refine ⟨t', hrm, hwf, fun k => ?_⟩
  rw [hlookup]
  split
  · rename_i hk
    rw [hk]
  · rfl

/-- What the loop over the table finds: between which characters the children are. -/
structure Scan.Spans {α : Type} (w : Window α) (new_min new_max : Nat) (s : Scan) : Prop where
  min_le : s.new_min ≤ new_min
  le_max : new_max ≤ s.new_max
  min_mem : s.new_min = new_min ∨ (w.get s.new_min).isSome
  max_mem : s.new_max = new_max ∨ (w.get s.new_max).isSome
  between : ∀ d, (w.get d).isSome → s.new_min ≤ d ∧ d ≤ s.new_max

section

variable {α : Type} {new_min new_max c : Nat} {s : Scan} {next : List (Option α)}

theorem Scan.Spans.nil : Scan.Spans ⟨c, ([] : List (Option α))⟩ s.new_min s.new_max s where
  min_le := Nat.le_refl _
  le_max := Nat.le_refl _
  min_mem := Or.inl rfl
  max_mem := Or.inl rfl
  between d hd := by
    rw [Window.live_eq_zero_iff.mp rfl d] at hd
    contradiction

theorem Scan.Spans.empty (h : Scan.Spans ⟨c + 1, next⟩ new_min new_max s) :
    Scan.Spans ⟨c, none :: next⟩ new_min new_max s where
  min_le := h.min_le
  le_max := h.le_max
  min_mem := by
    rw [Window.get_cons_none]
    exact h.min_mem
  max_mem := by
    rw [Window.get_cons_none]
    exact h.max_mem
  between d hd := by
    rw [Window.get_cons_none] at hd
    exact h.between d hd

theorem Scan.Spans.child (a : α) (h : Scan.Spans ⟨c + 1, next⟩ (if c < new_min then c else new_min)
    (if c > new_max then c else new_max) s) :
    Scan.Spans ⟨c, some a :: next⟩ new_min new_max s := by
  obtain ⟨hmin, hmax, hmin', hmax', hbetween⟩ := h
  have hself : ((Window.mk c (some a :: next)).get c).isSome := by
    rw [Window.get_cons, if_pos rfl]
    rfl
  have hrest : ∀ d, ((Window.mk (c + 1) next).get d).isSome →
      ((Window.mk c (some a :: next)).get d).isSome := by
    intro d hd
    rw [Window.get_cons]
    split
    · rfl
    · exact hd
  constructor
  · split at hmin <;> omega
  · split at hmax <;> omega
  · rcases hmin' with heq | hsome
    · split at heq
      · exact Or.inr (heq ▸ hself)
      · exact Or.inl heq
    · exact Or.inr (hrest _ hsome)
  · rcases hmax' with heq | hsome
    · split at heq
      · exact Or.inr (heq ▸ hself)
      · exact Or.inl heq
    · exact Or.inr (hrest _ hsome)
  · intro d hd
    rw [Window.get_cons] at hd
    split at hd
    · split at hmin <;> split at hmax <;> omega
    · exact hbetween d hd

end

/-- There are children at both ends. -/
theorem Scan.Spans.ends {α : Type} {w : Window α} {s : Scan}
    (h : Scan.Spans w (w.top - 1) w.min s) (hne : w.live ≠ 0) :
    (w.get s.new_min).isSome ∧ (w.get s.new_max).isSome := by
  have hsome : ∃ d, (w.get d).isSome := by
    by_contra hnone
    exact hne (Window.live_eq_zero_iff.mpr fun d =>
      Option.not_isSome_iff_eq_none.mp fun hd => hnone ⟨d, hd⟩)
  obtain ⟨d, hd⟩ := hsome
  obtain ⟨hm, ht⟩ := Window.mem_of_get hd
  obtain ⟨hmin, hmax⟩ := h.between d hd
  constructor
  · rcases h.min_mem with heq | hfirst
    · rwa [show s.new_min = d by omega]
    · exact hfirst
  · rcases h.max_mem with heq | hlast
    · rwa [show s.new_max = d by omega]
    · exact hlast

/-- A child that is not redundant. -/
def kept (child : Option (Mtrie π)) : Option (Mtrie π) :=
  child.filter fun node => !node.is_redundant

/-- The loop removes the children that are redundant. -/
theorem scan_spec (c : Nat) (next : List (Option (Mtrie π))) (r : Scan)
    (hlive : next.countP Option.isSome ≤ r.live_nodes) :
    ∃ s, scan c next r = some (next.map kept, s) ∧
      s.live_nodes + next.countP Option.isSome =
        r.live_nodes + (next.map kept).countP Option.isSome ∧
      Scan.Spans ⟨c, next.map kept⟩ r.new_min r.new_max s := by
  induction next generalizing c r with
  | nil => exact ⟨r, rfl, rfl, Scan.Spans.nil⟩
  | cons x next ih =>
    rw [List.countP_cons] at hlive ⊢
    cases x with
    | none =>
      obtain ⟨s, hs, hnodes, hspans⟩ := ih (c + 1) r hlive
      refine ⟨s, ?_, ?_, hspans.empty⟩
      · rw [scan, hs]
        rfl
      · exact hnodes
    | some node =>
      cases hred : node.is_redundant with
      | true =>
        have hkept : kept (some node) = none := by simp [kept, hred]
        simp only [Option.isSome_some, if_true] at hlive ⊢
        obtain ⟨s, hs, hnodes, hspans⟩ :=
          ih (c + 1) { r with live_nodes := r.live_nodes - 1 } (show _ ≤ r.live_nodes - 1 by omega)
        refine ⟨s, ?_, ?_, ?_⟩
        · rw [scan, if_pos hred, if_pos (by omega), hs]
          simp only [Option.map_some, List.map_cons, hkept]
        · rw [List.map_cons, hkept, List.countP_cons_of_neg (by simp)]
          simp only at hnodes
          omega
        · rw [List.map_cons, hkept]
          exact hspans.empty
      | false =>
        have hkept : kept (some node) = some node := by simp [kept, hred]
        simp only [Option.isSome_some, if_true] at hlive ⊢
        set r' : Scan := ⟨r.live_nodes, if c < r.new_min then c else r.new_min,
          if c > r.new_max then c else r.new_max⟩ with hr'
        obtain ⟨s, hs, hnodes, hspans⟩ := ih (c + 1) r' (show _ ≤ r.live_nodes by omega)
        refine ⟨s, ?_, ?_, ?_⟩
        · rw [scan, if_neg (by rw [hred]; exact Bool.false_ne_true)]
          simp only [← hr', hs, Option.map_some, List.map_cons, hkept]
        · rw [List.map_cons, hkept, List.countP_cons_of_pos (by simp)]
          simp only [hr'] at hnodes
          omega
        · rw [List.map_cons, hkept]
          exact hspans.child node

/-- The table is compacted after the removals below, and no assertion fails. -/
theorem compact_spec (pipes : Finset π) {min live_nodes : Nat} {next : List (Option (Mtrie π))}
    (hlive : live_nodes = (Window.mk min next).live) (htight : (Window.mk min next).Tight) :
    ∃ v, compact pipes min live_nodes next = some ⟨pipes, v.min, v.live, v.cells⟩ ∧
      (Window.mk min (next.map kept)).Shrunk v := by
  have hlength : (next.map kept).length = next.length := List.length_map _
  have htop : (Window.mk min (next.map kept)).top = min + next.length := congrArg (min + ·) hlength
  by_cases h0 : next.length = 0
  · rw [List.length_eq_zero_iff] at h0
    subst h0
    exact ⟨⟨min, []⟩, by rw [hlive]; rfl, Window.shrunk_empty rfl min (Nat.le_refl _)⟩
  by_cases h1 : next.length = 1
  · obtain ⟨x, rfl⟩ := List.length_eq_one_iff.mp h1
    have hx := htight.single h1
    cases x with
    | none => exact absurd List.mem_cons_self hx
    | some node =>
      have hone : live_nodes = 1 := hlive
      cases hred : node.is_redundant with
      | true =>
        have hkept : kept (some node) = none := by simp [kept, hred]
        refine ⟨⟨min, []⟩, ?_, Window.shrunk_empty ?_ min (Nat.le_add_right _ _)⟩
        · simp [compact, hred, hone, Window.live]
        · simp [Window.live, hkept]
      | false =>
        have hkept : kept (some node) = some node := by simp [kept, hred]
        have hwindow : Window.mk min ([some node].map kept) = ⟨min, [some node]⟩ := by
          rw [List.map_singleton, hkept]
        refine ⟨⟨min, [some node]⟩, ?_, ?_⟩
        · simp [compact, hred, hone, Window.live]
        · rw [hwindow]
          exact Window.shrunk_self (htight.first (List.cons_ne_nil _ _))
            (htight.last (List.cons_ne_nil _ _))
  obtain ⟨s, hs, hnodes, hspans⟩ := scan_spec min next ⟨live_nodes, min + next.length - 1, min⟩
    (Nat.le_of_eq hlive.symm)
  rw [compact, if_neg h0, if_neg h1, hs]
  set w : Window (Mtrie π) := ⟨min, next.map kept⟩
  have hmin' : w.min = min := rfl
  have hnodes' : s.live_nodes = w.live := by
    have hcount : live_nodes = next.countP Option.isSome := hlive
    have hcount' : w.live = (next.map kept).countP Option.isSome := rfl
    simp only at hnodes
    omega
  have hspans' : Scan.Spans w (w.top - 1) w.min s := by
    rw [htop]
    exact hspans
  simp only [Option.bind_some, hnodes', show next.map kept = w.cells from rfl]
  by_cases hzero : w.live = 0
  · exact ⟨⟨min, []⟩, by rw [if_pos hzero, hzero]; rfl, Window.shrunk_empty hzero min (by omega)⟩
  obtain ⟨hfirst, hlast⟩ := hspans'.ends hzero
  obtain ⟨hm, ht⟩ := Window.mem_of_get hfirst
  obtain ⟨hm', ht'⟩ := Window.mem_of_get hlast
  rw [if_neg hzero]
  by_cases hone : w.live = 1
  · have hsame : s.new_min = s.new_max := by
      by_contra hne
      rw [Window.get_eq_none_of_live_eq_one hone hlast hne] at hfirst
      contradiction
    obtain ⟨node, hnode⟩ := Option.isSome_iff_exists.mp hfirst
    refine ⟨⟨s.new_min, [some node]⟩, ?_, Window.shrunk_single hone hnode⟩
    rw [if_pos hone, if_pos ⟨hsame, by omega, by omega⟩, w.getD_cells, hmin',
      Nat.add_sub_cancel' (by omega), hnode, hone]
    rfl
  rw [if_neg hone]
  have hlt : s.new_min < s.new_max := by
    have hle := (hspans'.between _ hlast).1
    by_contra hge
    refine hone (Window.live_eq_one hlast fun d hd => ?_)
    have hd' := hspans'.between d hd
    omega
  have hlow : ∀ d < s.new_min, w.get d = none := by
    intro d hd
    by_contra hsome
    have hle := (hspans'.between d (Option.isSome_iff_ne_none.mpr hsome)).1
    omega
  have hhigh : ∀ d, s.new_max < d → w.get d = none := by
    intro d hd
    by_contra hsome
    have hle := (hspans'.between d (Option.isSome_iff_ne_none.mpr hsome)).2
    omega
  by_cases hends : s.new_min > min ∨ s.new_max < min + next.length - 1
  · have hstart : w.min + (s.new_min - min) = s.new_min := by omega
    have hshrunk := Window.shrunk_slice (w := w) (m := s.new_min - min)
      (n := s.new_max - s.new_min + 1) (Nat.succ_pos _) (by rwa [hstart])
      (fun d hd => hhigh d (by omega)) (by rwa [hstart])
      (by rwa [hstart, Nat.add_sub_cancel, Nat.add_sub_cancel' (Nat.le_of_lt hlt)])
    rw [hstart] at hshrunk
    refine ⟨_, ?_, hshrunk⟩
    rw [if_pos hends, if_pos ⟨by omega, by omega, by omega, by omega⟩, hshrunk.live_eq]
  · refine ⟨w, by rw [if_neg hends], Window.shrunk_self ?_ ?_⟩
    · rwa [hmin', show min = s.new_min by omega]
    · rwa [htop, show min + next.length - 1 = s.new_max by omega]

/-- A child and what it is without a pipe. -/
structure Removed (pipe : π) (node node' : Mtrie π) : Prop where
  wf : node'.WF
  lookup_eq : ∀ k, node'.lookup k = (node.lookup k).erase pipe

/-- The prefixes that are reported: all that the pipe is attached to or those it alone is. -/
def Leaves (pipe : π) (call_on_uniq : Bool) (t : Mtrie π) (k : Bytes) : Prop :=
  pipe ∈ t.lookup k ∧ (call_on_uniq = true → t.lookup k = {pipe})

/-- The pipe is removed from every node, and no assertion fails. -/
def RemovesFrom (pipe : π) (call_on_uniq : Bool) (t : Mtrie π) : Prop :=
  ∀ buff, ∃ keys t', rm_helper pipe call_on_uniq buff t = some (keys, t') ∧
    Removed pipe t t' ∧ Reports buff (Leaves pipe call_on_uniq t) keys

section

variable {pipe : π} {call_on_uniq : Bool}

/-- The pipe is removed below the table. -/
theorem rm_table_spec (buff : Bytes) (c : Nat) (single : Bool) (next : List (Option (Mtrie π)))
    (hroom : c + next.length ≤ 256) (hsingle : single = true → none ∉ next)
    (ih : ∀ node, some node ∈ next → RemovesFrom pipe call_on_uniq node) :
    ∃ keys next', rm_table pipe call_on_uniq buff c single next = some (keys, next') ∧
      List.Forall₂ (Option.Rel (Removed pipe)) next next' ∧
      Reports buff (Through ⟨c, next⟩ (Leaves pipe call_on_uniq)) keys := by
  induction next generalizing c with
  | nil => exact ⟨[], [], rfl, .nil, Reports.done buff c _⟩
  | cons x next ihn =>
    rw [List.length_cons] at hroom
    obtain ⟨keys, next', hkeys, hrel, hbelow⟩ := ihn (c + 1) (by omega)
      (fun h hnone => hsingle h (List.mem_cons_of_mem x hnone))
      fun node hnode => ih node (List.mem_cons_of_mem x hnode)
    cases x with
    | none =>
      refine ⟨keys, none :: next', ?_, .cons .none hrel, hbelow.skip⟩
      rw [rm_table, if_neg fun h => hsingle h List.mem_cons_self, hkeys]
      rfl
    | some node =>
      obtain ⟨here, node', hhere, hremoved, hreports⟩ :=
        ih node List.mem_cons_self (buff ++ [UInt8.ofNat c])
      refine ⟨here ++ keys, some node' :: next', ?_, .cons (.some hremoved) hrel,
        Reports.child (by omega) hreports hbelow⟩
      rw [rm_table, hhere, Option.bind_some, hkeys]
      rfl

/-- The prefixes that are reported of a node and below it. -/
theorem leaves_iff (t : Mtrie π) (k : Bytes) :
    Leaves pipe call_on_uniq t k ↔
      (k = [] ∧ pipe ∈ t.value ∧ (!call_on_uniq ∨ t.value.erase pipe = ∅)) ∨
        Through t.window (Leaves pipe call_on_uniq) k := by
  cases k with
  | nil =>
    rw [Leaves, Node.lookup, Through, or_false]
    refine ⟨fun h => ⟨rfl, h.1, ?_⟩, fun h => ⟨h.2.1, fun huniq => ?_⟩⟩
    · cases call_on_uniq with
      | false => exact Or.inl rfl
      | true => exact Or.inr (by rw [h.2 rfl, Finset.erase_singleton])
    · have herase := h.2.2.resolve_left (by simp [huniq])
      rw [Finset.erase_eq_empty_iff] at herase
      exact herase.resolve_left (Finset.ne_empty_of_mem h.2.1)
  | cons d rest =>
    have hthrough : Leaves pipe call_on_uniq t (d :: rest) ↔
        Through t.window (Leaves pipe call_on_uniq) (d :: rest) := by
      exact Node.lookup_cons_iff (P := fun pipes =>
        pipe ∈ pipes ∧ (call_on_uniq = true → pipes = {pipe})) fun h => Finset.notMem_empty pipe h.1
    rw [hthrough]
    exact ⟨Or.inr, fun h => h.resolve_left fun hnil => List.cons_ne_nil d rest hnil.1⟩

/-- `rm` of a pipe detaches it from every prefix, and no assertion fails. -/
theorem rm_helper_spec {t : Mtrie π} (h : t.WF) : RemovesFrom pipe call_on_uniq t := by
  induction h with
  | @mk t room tight live child useful ih =>
    intro buff
    obtain ⟨keys, next', hkeys, hrel, hbelow⟩ := rm_table_spec buff t.min (t.next.length = 1)
      t.next room (fun h1 => tight.single (of_decide_eq_true h1)) fun node hnode => by
        obtain ⟨c, hget⟩ := Window.get_of_mem (w := t.window) hnode
        exact ih c node hget
    have hlive : t.live_nodes = (Window.mk t.min next').live := by
      rw [Window.live_rel hrel]
      exact live
    obtain ⟨v, hcompact, hshrunk⟩ := compact_spec (t.value.erase pipe) hlive
      (Window.tight_rel hrel tight)
    have hget : ∀ d, v.get d = kept ((Window.mk t.min next').get d) := by
      intro d
      rw [hshrunk.get_eq, Window.get_map rfl]
    have hrel' : ∀ d, Option.Rel (Removed pipe) (t.window.get d) ((Window.mk t.min next').get d) :=
      Window.get_rel hrel t.min
    have hchild : ∀ d node', v.get d = some node' →
        ∃ node, Removed pipe node node' ∧ node'.is_redundant = false := by
      intro d node' hnode'
      rw [hget, kept, Option.filter_eq_some_iff, Bool.not_eq_true'] at hnode'
      have hd := hrel' d
      rw [hnode'.1] at hd
      generalize t.window.get d = x at hd
      cases hd with
      | some hremoved => exact ⟨_, hremoved, hnode'.2⟩
    refine ⟨_, ⟨t.value.erase pipe, v.min, v.live, v.cells⟩, ?_,
      ⟨.mk ?_ hshrunk.tight rfl ?_ ?_, ?_⟩, hbelow.self (leaves_iff t)⟩
    · cases t
      rw [rm_helper, hkeys, Option.bind_some]
      simp only [hcompact]
      rfl
    · have htop : (Window.mk t.min (next'.map kept)).top = t.window.top := by
        simp only [Window.top, List.length_map, ← hrel.length_eq]
        rfl
      exact Nat.le_trans (htop ▸ hshrunk.top_le) room
    · intro d node' hnode'
      obtain ⟨node, hremoved, -⟩ := hchild d node' hnode'
      exact hremoved.wf
    · intro d node' hnode'
      obtain ⟨node, -, huseful⟩ := hchild d node' hnode'
      exact huseful
    · intro k
      cases k with
      | nil => rfl
      | cons d rest =>
        rw [Node.lookup_cons, Node.lookup_cons, show Node.window _ = v from rfl, hget]
        have hd := hrel' d.toNat
        generalize t.window.get d.toNat = x at hd
        generalize (Window.mk t.min next').get d.toNat = y at hd
        cases hd with
        | none => rfl
        | @some node node' hremoved =>
          cases hred : node'.is_redundant with
          | true =>
            rw [kept, Option.filter_some, hred]
            exact (hremoved.wf.lookup_eq_bot hred rest).symm.trans (hremoved.lookup_eq rest)
          | false =>
            rw [kept, Option.filter_some, hred]
            exact hremoved.lookup_eq rest

/-- `rm` of a pipe by what is left: it reports the prefixes that no pipe is attached to any more,
or all that the pipe was. -/
theorem rm_pipe_spec {t : Mtrie π} (h : t.WF) :
    ∃ keys t', rm_pipe pipe call_on_uniq t = some (keys, t') ∧ t'.WF ∧
      (∀ k, t'.lookup k = (t.lookup k).erase pipe) ∧ keys.Nodup ∧
      ∀ k, k ∈ keys ↔ pipe ∈ t.lookup k ∧ (call_on_uniq = true → t.lookup k = {pipe}) := by
  obtain ⟨keys, t', hrm, hremoved, hreports⟩ := rm_helper_spec h []
  exact ⟨keys, t', hrm, hremoved.wf, hremoved.lookup_eq, hreports.nodup, hreports.mem_nil⟩

end

end Mtrie

end PbdZmq.Subscription
