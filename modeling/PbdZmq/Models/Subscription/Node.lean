import Mathlib.Order.BoundedOrder.Basic
import PbdZmq.Core.Window
import PbdZmq.R.Value

/-!
# The nodes of the tries

The tries of subscribers and publishers have nodes of one shape. A node has the value of its
prefix and a table of children for the characters from the least to the greatest one in use.
A table of one child stands for the single-node representation of the source. A well-formed
node is a function from prefixes to values.
-/

namespace PbdZmq.Subscription

/-- `trie_t` and `mtrie_t`: the value is `refcnt` or `pipes`, the table's length is `count`. -/
structure Node (α : Type) where
  value : α
  min : Nat
  live_nodes : Nat
  next : List (Option (Node α))

namespace Node

variable {α β : Type}

section

variable [Bot α]

/-- `trie_t::trie_t`, `mtrie_t::mtrie_t`. -/
def new : Node α := ⟨⊥, 0, 0, []⟩

/-- `is_redundant`. -/
def is_redundant [DecidableEq α] (t : Node α) : Bool := t.value = ⊥ && t.live_nodes = 0

end

/-- The table with the character of its first cell. -/
def window (t : Node α) : Window (Node α) := ⟨t.min, t.next⟩

/-- Where the child of a character is: `next.node` or `next.table [c - min]`. -/
def index (t : Node α) (c : Nat) : Nat := if t.next.length = 1 then 0 else c - t.min

/-- The part of `add` that extends the table to a character. -/
def extend (t : Node α) (c : Nat) : Node α :=
  if c < t.min ∨ t.min + t.next.length ≤ c then
    if t.next.length = 0 then { t with min := c, next := [none] }
    else if t.next.length = 1 then
      let oldp := t.next.getD 0 none
      let count := (if t.min < c then c - t.min else t.min - c) + 1
      let min := Nat.min t.min c
      { t with min := min, next := (List.replicate count none).set (t.min - min) oldp }
    else if t.min < c then
      let count := c - t.min + 1
      { t with next := t.next ++ List.replicate (count - t.next.length) none }
    else { t with min := c, next := List.replicate (t.min - c) none ++ t.next }
  else t

/-- `add`: what is done at the node of the prefix is `visit`; a new child is counted if the
assertion on `count` and `live_nodes` holds. -/
def add [Bot α] (holds : Nat → Nat → Bool) (visit : α → β × α) :
    Bytes → Node α → Option (β × Node α)
  | [], t => some ((visit t.value).1, { t with value := (visit t.value).2 })
  | c :: rest, t =>
    let t := t.extend c.toNat
    let i := t.index c.toNat
    match t.next.getD i none with
    | some node =>
      (add holds visit rest node).map fun r =>
        (r.1, { t with next := t.next.set i (some r.2) })
    | none =>
      let live_nodes := t.live_nodes + 1
      if holds t.next.length live_nodes then
        (add holds visit rest .new).map fun r =>
          (r.1, { t with live_nodes := live_nodes, next := t.next.set i (some r.2) })
      else none

/-- The value of a prefix. -/
def lookup [Bot α] (t : Node α) : Bytes → α
  | [] => t.value
  | c :: rest =>
    match t.window.get c.toNat with
    | some node => node.lookup rest
    | none => ⊥

/-- The table is extended to the character and no further. -/
theorem grown_extend (t : Node α) (c : Nat) : t.window.Grown c (t.extend c).window := by
  have hlen : t.window.top = t.min + t.next.length := rfl
  by_cases hout : c < t.min ∨ t.min + t.next.length ≤ c
  swap
  · rw [extend, if_neg hout]
    exact Window.Grown.refl (Nat.le_of_not_lt fun hlt => hout (Or.inl hlt))
      (Nat.lt_of_not_le fun hle => hout (Or.inr hle))
  rw [extend, if_pos hout]
  by_cases h0 : t.next.length = 0
  · rw [if_pos h0]
    exact Window.Grown.empty (List.length_eq_zero_iff.mp h0) c
  rw [if_neg h0]
  have hne : t.window.cells ≠ [] := fun hnil => h0 (congrArg List.length hnil)
  by_cases h1 : t.next.length = 1
  · rw [if_pos h1]
    obtain ⟨oldp, hnext⟩ := List.length_eq_one_iff.mp h1
    have hold : t.next.getD 0 none = oldp := by
      rw [hnext]
      rfl
    by_cases hlt : t.min < c
    · have hgrown := Window.Grown.high hne (show t.window.top ≤ c by omega)
      have hset : (List.replicate (c - t.min + 1) none).set (t.min - t.min) oldp =
          t.next ++ List.replicate (c + 1 - t.window.top) none := by
        rw [Nat.sub_self, List.replicate_succ, List.set_cons_zero, hlen, h1,
          Nat.add_sub_add_right, hnext]
        rfl
      simp only [hlt, if_true, hold, Nat.min_eq_left (Nat.le_of_lt hlt), hset]
      exact hgrown
    · have hlow : c < t.min := by omega
      have hgrown := Window.Grown.low hne (show c < t.window.min from hlow)
      have hset : (List.replicate (t.min - c + 1) none).set (t.min - c) oldp =
          List.replicate (t.min - c) none ++ t.next := by
        rw [List.replicate_succ', List.set_append_right _ _ (by simp), hnext]
        simp
      simp only [hlt, if_false, hold, Nat.min_eq_right (Nat.le_of_lt hlow), hset]
      exact hgrown
  · rw [if_neg h1]
    by_cases hlt : t.min < c
    · have hgrown := Window.Grown.high hne (show t.window.top ≤ c by omega)
      have hcount : c - t.min + 1 - t.next.length = c + 1 - t.window.top := by omega
      simp only [if_pos hlt, hcount]
      exact hgrown
    · rw [if_neg hlt]
      exact Window.Grown.low hne (show c < t.min by omega)

/-- Nothing but the table is extended. -/
theorem extend_value (t : Node α) (c : Nat) :
    (t.extend c).value = t.value ∧ (t.extend c).live_nodes = t.live_nodes := by
  simp only [extend]
  repeat' split
  all_goals exact ⟨rfl, rfl⟩

section

variable {t : Node α} {c : Nat}

/-- The index of a character is that of its cell. -/
theorem index_eq (hm : t.min ≤ c) (ht : c < t.window.top) : t.index c = c - t.min := by
  rw [index]
  split
  · rename_i h1
    have htop : t.window.top = t.min + t.next.length := rfl
    omega
  · rfl

theorem getD_index (hm : t.min ≤ c) (ht : c < t.window.top) :
    t.next.getD (t.index c) none = t.window.get c := by
  have hcell := t.window.getD_cells (c - t.min)
  rw [index_eq hm ht]
  rwa [show t.window.min + (c - t.min) = c from Nat.add_sub_cancel' hm] at hcell

/-- There is no child outside the table. -/
theorem get_of_out (hout : t.next.length = 0 ∨ c < t.min ∨ t.min + t.next.length ≤ c) :
    t.window.get c = none := by
  rcases hout with h0 | hlt | hle
  · exact Window.live_eq_zero_iff.mp
      (by rw [Window.live, show t.window.cells = [] from List.length_eq_zero_iff.mp h0]; rfl) c
  · exact Window.get_of_lt hlt
  · exact Window.get_of_top_le hle

/-- The child of a character is replaced. -/
theorem set_index (hm : t.min ≤ c) (ht : c < t.window.top) (node : Node α) :
    (⟨t.min, t.next.set (t.index c) (some node)⟩ : Window (Node α)) = t.window.put c node := by
  rw [index_eq hm ht]
  rfl

end

section

variable [Bot α]

theorem lookup_cons (t : Node α) (c : UInt8) (rest : Bytes) :
    t.lookup (c :: rest) = ((t.window.get c.toNat).map fun node => node.lookup rest).getD ⊥ := by
  rw [lookup]
  cases t.window.get c.toNat <;> rfl

/-- A new node has no values. -/
theorem lookup_new (key : Bytes) : (new : Node α).lookup key = ⊥ := by
  cases key with
  | nil => rfl
  | cons c rest =>
    have hget : (new : Node α).window.get c.toNat = none :=
      Window.live_eq_zero_iff.mp rfl c.toNat
    rw [lookup_cons, hget]
    rfl

/-- A value that is not the default is found through a child. -/
theorem lookup_cons_iff {P : α → Prop} (hbot : ¬P ⊥) {t : Node α} {c : UInt8} {rest : Bytes} :
    P (t.lookup (c :: rest)) ↔ ∃ node, t.window.get c.toNat = some node ∧ P (node.lookup rest) := by
  rw [lookup_cons]
  cases t.window.get c.toNat with
  | none => simp [hbot]
  | some node => simp

/-- The values of a node that has another child for one character. -/
theorem lookup_of_get {t t' : Node α} {c : UInt8} {node : Option (Node α)}
    (hget : ∀ d, t'.window.get d = if d = c.toNat then node else t.window.get d)
    (hvalue : t'.value = t.value) (k : Bytes) :
    t'.lookup k = match k with
      | [] => t.value
      | d :: rest => if d = c then (node.map fun node => node.lookup rest).getD ⊥
        else t.lookup (d :: rest) := by
  cases k with
  | nil => exact hvalue
  | cons d rest =>
    simp only [lookup_cons, hget, UInt8.toNat_inj]
    split <;> rfl

end

section

variable [Bot α] [DecidableEq α]

/-- What every operation keeps of a node and those below it. -/
inductive WF : Node α → Prop
  | mk {t : Node α} (room : t.window.top ≤ 256) (tight : t.window.Tight)
      (live : t.live_nodes = t.window.live)
      (child : ∀ c node, t.window.get c = some node → WF node)
      (useful : ∀ c node, t.window.get c = some node → node.is_redundant = false) : WF t

section

variable {t : Node α} (h : t.WF)

include h

theorem WF.room : t.window.top ≤ 256 := by
  cases h
  assumption

theorem WF.tight : t.window.Tight := by
  cases h
  assumption

theorem WF.live : t.live_nodes = t.window.live := by
  cases h
  assumption

theorem WF.child {c : Nat} {node : Node α} (hget : t.window.get c = some node) : node.WF := by
  cases h with
  | mk _ _ _ child _ => exact child c node hget

theorem WF.useful {c : Nat} {node : Node α} (hget : t.window.get c = some node) :
    node.is_redundant = false := by
  cases h with
  | mk _ _ _ _ useful => exact useful c node hget

/-- The value of the node itself. -/
theorem WF.with_value (a : α) : ({ t with value := a } : Node α).WF :=
  .mk h.room h.tight h.live (fun _ _ hget => h.child hget) fun _ _ hget => h.useful hget

/-- The node with fewer children. -/
theorem WF.fewer (a : α) {v : Window (Node α)} (htop : v.top ≤ t.window.top) (htight : v.Tight)
    (hget : ∀ c node, v.get c = some node → t.window.get c = some node) :
    (⟨a, v.min, v.live, v.cells⟩ : Node α).WF :=
  .mk (Nat.le_trans htop h.room) htight rfl (fun c node hc => h.child (hget c node hc))
    fun c node hc => h.useful (hget c node hc)

/-- A redundant node has no values. -/
theorem WF.lookup_eq_bot (hred : t.is_redundant = true) (k : Bytes) : t.lookup k = ⊥ := by
  simp only [is_redundant, Bool.and_eq_true, decide_eq_true_eq] at hred
  cases k with
  | nil => exact hred.1
  | cons c rest =>
    have hget := Window.live_eq_zero_iff.mp (h.live.symm.trans hred.2) c.toNat
    rw [lookup_cons, hget]
    rfl

end

/-- A new node is well-formed. -/
theorem wf_new : (new : Node α).WF := by
  have hget : ∀ c, (new : Node α).window.get c = none :=
    fun c => Window.live_eq_zero_iff.mp rfl c
  refine .mk (Nat.zero_le _) ⟨fun hne => absurd rfl hne, fun hne => absurd rfl hne⟩ rfl ?_ ?_
  · intro c node hsome
    rw [hget] at hsome
    contradiction
  · intro c node hsome
    rw [hget] at hsome
    contradiction

/-- A node and the one it becomes when the child of a character is put in its table. -/
theorem WF.put {t g : Node α} {c : Nat} {node : Node α} (h : t.WF) (live_nodes : Nat)
    (hc : c < 256) (hg : t.window.Grown c g.window) (hnode : node.WF)
    (huseful : node.is_redundant = false)
    (hlive : live_nodes = if (t.window.get c).isSome then t.live_nodes else t.live_nodes + 1) :
    let t' : Node α := ⟨g.value, g.min, live_nodes, g.next.set (g.index c) (some node)⟩
    t'.WF ∧ t'.is_redundant = false ∧
      ∀ d, t'.window.get d = if d = c then some node else t.window.get d := by
  have hget := hg.get_put node
  intro t'
  have hw : t'.window = g.window.put c node := set_index hg.min_le hg.lt_top node
  have hlive' : live_nodes = (g.window.put c node).live := by
    rw [hg.live_put, ← h.live]
    exact hlive
  refine ⟨.mk ?_ ?_ ?_ ?_ ?_, ?_, fun d => by rw [hw, hget]⟩
  · rw [hw, Window.top_put]
    rcases hg.last with hlast | ⟨-, hlast⟩
    · omega
    · rw [hlast]
      exact h.room
  · rw [hw]
    exact hg.tight_put h.tight node
  · rw [hw]
    exact hlive'
  · intro d child hd
    rw [hw, hget] at hd
    split at hd
    · exact Option.some.inj hd ▸ hnode
    · exact h.child hd
  · intro d child hd
    rw [hw, hget] at hd
    split at hd
    · exact Option.some.inj hd ▸ huseful
    · exact h.useful hd
  · have hpos : live_nodes ≠ 0 := by
      intro h0
      rw [hlive'] at h0
      have hnone := Window.live_eq_zero_iff.mp h0 c
      rw [hget, if_pos rfl] at hnone
      contradiction
    simp [is_redundant, t', hpos]

/-- A table of one cell has no other child, a larger one has. -/
theorem WF.first_node {t g : Node α} {c : Nat} (h : t.WF) (hg : t.window.Grown c g.window)
    (hget : t.window.get c = none) :
    if g.next.length = 1 then t.live_nodes + 1 = 1 else t.live_nodes + 1 > 1 := by
  have htop : g.window.top = g.window.min + g.next.length := rfl
  have hm := hg.min_le
  have ht := hg.lt_top
  rw [h.live, ← hg.live_eq]
  split
  · rename_i h1
    rw [Window.live_eq_zero_iff.mpr fun d => ?_]
    by_cases hd : d = c
    · rw [hd, hg.get_eq, hget]
    · by_cases hlt : d < g.window.min
      · exact Window.get_of_lt hlt
      · exact Window.get_of_top_le (by omega)
  · rename_i h1
    by_contra hnone
    have hzero := Window.live_eq_zero_iff.mp (show g.window.live = 0 by omega)
    have hnil : t.window.cells = [] := by
      by_contra hne
      have hfirst := h.tight.first hne
      rw [← hg.get_eq, hzero] at hfirst
      contradiction
    have hfirst := hg.first
    have hlast := hg.last
    simp only [hnil, ne_eq, not_true_eq_false, false_and, or_false] at hfirst hlast
    omega

/-- `add` changes the value of one prefix, and the assertion holds. -/
theorem WF.add {holds : Nat → Nat → Bool} {visit : α → β × α} {t : Node α} (h : t.WF)
    (hholds : ∀ count live_nodes,
      (if count = 1 then live_nodes = 1 else live_nodes > 1) → holds count live_nodes = true)
    {key : Bytes} (huseful : (visit (t.lookup key)).2 ≠ ⊥) :
    ∃ t', t.add holds visit key = some ((visit (t.lookup key)).1, t') ∧ t'.WF ∧
      t'.is_redundant = false ∧
      ∀ k, t'.lookup k = if k = key then (visit (t.lookup key)).2 else t.lookup k := by
  induction key generalizing t with
  | nil =>
    refine ⟨_, rfl, h.with_value _, ?_, fun k => ?_⟩
    · rw [lookup] at huseful
      simp [is_redundant, huseful]
    · cases k with
      | nil => rfl
      | cons d rest => rfl
  | cons c rest ih =>
    have hg := grown_extend t c.toNat
    obtain ⟨hvalue, hlive⟩ := extend_value t c.toNat
    have hchild := getD_index (t := t.extend c.toNat) hg.min_le hg.lt_top
    rw [hg.get_eq] at hchild
    cases hget : t.window.get c.toNat with
    | some node =>
      have hcount : t.lookup (c :: rest) = node.lookup rest := by
        rw [lookup_cons, hget]
        rfl
      rw [hcount] at huseful ⊢
      obtain ⟨node', hadd, hnode', hred', hlookup⟩ := ih (h.child hget) huseful
      obtain ⟨hwf, hred, hwindow⟩ := h.put (t.extend c.toNat).live_nodes c.toNat_lt hg hnode'
        hred' (by rw [hget, hlive]; rfl)
      refine ⟨_, ?_, hwf, hred, fun k => ?_⟩
      · rw [Node.add]
        simp only [hchild, hget, hadd, Option.map_some]
      · rw [lookup_of_get hwindow hvalue]
        cases k with
        | nil => rfl
        | cons d r =>
          by_cases hd : d = c
          · subst hd
            simp only [if_true, Option.map_some, Option.getD_some, hlookup, lookup_cons, hget,
              List.cons.injEq, true_and]
          · simp only [List.cons.injEq, hd, false_and, if_false]
    | none =>
      have hcount : t.lookup (c :: rest) = (new : Node α).lookup rest := by
        rw [lookup_cons, hget, lookup_new]
        rfl
      rw [hcount] at huseful ⊢
      obtain ⟨node', hadd, hnode', hred', hlookup⟩ := ih wf_new huseful
      obtain ⟨hwf, hred, hwindow⟩ := h.put ((t.extend c.toNat).live_nodes + 1) c.toNat_lt hg
        hnode' hred' (by rw [hget, hlive]; rfl)
      have hassert := hholds _ _ (h.first_node hg hget)
      rw [← hlive] at hassert
      refine ⟨_, ?_, hwf, hred, fun k => ?_⟩
      · rw [Node.add]
        simp only [hchild, hget, hassert, if_true, hadd, Option.map_some]
      · rw [lookup_of_get hwindow hvalue]
        cases k with
        | nil => rfl
        | cons d r =>
          by_cases hd : d = c
          · subst hd
            simp only [if_true, Option.map_some, Option.getD_some, hlookup, lookup_cons, hget,
              List.cons.injEq, true_and, lookup_new, Option.map_none, Option.getD_none]
          · simp only [List.cons.injEq, hd, false_and, if_false]

end

end Node

end PbdZmq.Subscription
