import PbdZmq.Models.Subscription.Node

/-!
# Removal from the tries

A child that has become redundant is removed and the table is compacted to the characters
still in use. The two tries differ in how they find the last child that is left.
-/

namespace PbdZmq.Subscription

namespace Node

variable {α β : Type}

/-- The part of `rm` that removes the child of a character; none if an assertion fails. The
child that is kept if only one is left is found by `keep`. -/
def prune (keep : Node α → List (Option (Node α)) → Nat → Option (Nat × Node α)) (t : Node α)
    (c : Nat) : Option (Node α) :=
  let count := t.next.length
  if count = 1 then
    if t.live_nodes - 1 = 0 then some { t with live_nodes := t.live_nodes - 1, next := [] }
    else none
  else
    let table := t.next.set (c - t.min) none
    if t.live_nodes > 1 then
      let live_nodes := t.live_nodes - 1
      if live_nodes = 1 then
        (keep t table c).map fun r => ⟨t.value, t.min + r.1, live_nodes, [some r.2]⟩
      else if c = t.min then
        ((List.range' 1 (count - 1)).find? fun i => (table.getD i none).isSome).map fun i =>
          ⟨t.value, t.min + i, live_nodes, table.drop i⟩
      else if c = t.min + count - 1 then
        ((List.range' 1 (count - 1)).find? fun i =>
          (table.getD (count - 1 - i) none).isSome).map fun i =>
            ⟨t.value, t.min, live_nodes, table.take (count - i)⟩
      else some ⟨t.value, t.min, live_nodes, table⟩
    else none

/-- `rm`: what is done at the node of the prefix is `visit`, and a redundant child is removed.
None if an assertion fails. -/
def rm [Bot α] [DecidableEq α]
    (keep : Node α → List (Option (Node α)) → Nat → Option (Nat × Node α)) (absent : β)
    (visit : α → Option (β × α)) : Bytes → Node α → Option (β × Node α)
  | [], t => (visit t.value).map fun r => (r.1, { t with value := r.2 })
  | c :: rest, t =>
    if t.next.length = 0 ∨ c.toNat < t.min ∨ t.min + t.next.length ≤ c.toNat then
      some (absent, t)
    else
      match t.next.getD (t.index c.toNat) none with
      | none => some (absent, t)
      | some node =>
        (rm keep absent visit rest node).bind fun r =>
          let t := { t with next := t.next.set (t.index c.toNat) (some r.2) }
          if r.2.is_redundant then (t.prune keep c.toNat).map fun t => (r.1, t) else some (r.1, t)

section

variable {keep : Node α → List (Option (Node α)) → Nat → Option (Nat × Node α)} {t : Node α}
  {c : Nat}

/-- The last child of a node is removed. -/
theorem prune_single (hlive : t.live_nodes = t.window.live) (hget : (t.window.get c).isSome)
    (h1 : t.next.length = 1) :
    ∃ v, t.prune keep c = some ⟨t.value, v.min, (t.window.erase c).live, v.cells⟩ ∧
      (t.window.erase c).Shrunk v := by
  obtain ⟨hm, ht⟩ := Window.mem_of_get hget
  have htop : t.window.top = t.window.min + t.next.length := rfl
  have herase := Window.live_erase hget
  have hnone : ∀ d, (t.window.erase c).get d = none := by
    intro d
    rw [Window.get_erase hm ht]
    split
    · rfl
    · by_cases hlt : d < t.window.min
      · exact Window.get_of_lt hlt
      · exact Window.get_of_top_le (by omega)
  have hzero := Window.live_eq_zero_iff.mpr hnone
  have hone : t.live_nodes - 1 = 0 := by omega
  refine ⟨⟨t.min, []⟩, ?_, fun d => ?_, hzero.symm, Nat.le_add_right _ _,
    fun hne => absurd rfl hne, fun hne => absurd rfl hne⟩
  · rw [prune]
    simp only [h1, if_true, hone, hzero]
  · rw [hnone]
    exact Window.live_eq_zero_iff.mp rfl d

/-- The child that is left is found. -/
def Keeps (keep : Node α → List (Option (Node α)) → Nat → Option (Nat × Node α)) : Prop :=
  ∀ (t : Node α) (c : Nat) (e : Window (Node α)), e.min = t.min →
    e.cells.length = t.next.length → 2 ≤ t.next.length → e.live = 1 →
    (c ≠ e.min → (e.get e.min).isSome) → (c ≠ e.top - 1 → (e.get (e.top - 1)).isSome) →
    ∃ i node, keep t e.cells c = some (i, node) ∧ e.get (e.min + i) = some node

/-- What is left of a larger table is compacted. -/
theorem prune_table (hkeep : Keeps keep) (hlive : t.live_nodes = t.window.live)
    (htight : t.window.Tight) (hget : (t.window.get c).isSome) (h1 : t.next.length ≠ 1) :
    ∃ v, t.prune keep c = some ⟨t.value, v.min, (t.window.erase c).live, v.cells⟩ ∧
      (t.window.erase c).Shrunk v := by
  obtain ⟨hm, ht⟩ := Window.mem_of_get hget
  have htop : t.window.top = t.min + t.next.length := rfl
  have hmin : t.window.min = t.min := rfl
  have hne : t.window.cells ≠ [] := fun hnil => by
    have h0 : t.next.length = 0 := congrArg List.length hnil
    omega
  have hfirst := htight.first hne
  have hlast := htight.last hne
  have htwo : t.live_nodes > 1 := by
    rw [hlive]
    exact Window.two_le_live hfirst hlast (by omega)
  have hcell : ∀ i, (t.window.erase c).cells.getD i none = (t.window.erase c).get (t.min + i) :=
    (t.window.erase c).getD_cells
  have hnodes := Window.live_erase hget
  rw [← hlive] at hnodes
  have hget' := Window.get_erase hm ht
  have hmin' : (t.window.erase c).min = t.min := rfl
  have hlength : (t.window.erase c).cells.length = t.next.length := List.length_set
  have htop' : (t.window.erase c).top = t.min + t.next.length := congrArg (t.min + ·) hlength
  rw [prune]
  simp only [if_neg h1, show t.next.set (c - t.min) none = (t.window.erase c).cells from rfl,
    if_pos htwo, show t.live_nodes - 1 = (t.window.erase c).live by omega, hcell]
  set e := t.window.erase c
  have hleft : c ≠ t.min → (e.get t.min).isSome := fun h => by
    rwa [hget', if_neg (Ne.symm h)]
  have hright : c ≠ t.min + t.next.length - 1 → (e.get (t.min + t.next.length - 1)).isSome :=
    fun h => by
      rwa [hget', if_neg (Ne.symm h)]
  by_cases hone : e.live = 1
  · obtain ⟨i, node, hi, hnode⟩ := hkeep t c e rfl hlength (by omega) hone hleft
      (by rw [htop']; exact hright)
    refine ⟨_, ?_, Window.shrunk_single hone hnode⟩
    rw [if_pos hone, hi]
    rfl
  rw [if_neg hone]
  by_cases hcm : c = t.min
  · rw [if_pos hcm]
    cases hfind : (List.range' 1 (t.next.length - 1)).find? fun i => (e.get (t.min + i)).isSome with
    | none =>
      rw [List.find?_range'_eq_none] at hfind
      have hnone := hfind (t.next.length - 1) (by omega) (by omega)
      rw [show t.min + (t.next.length - 1) = t.min + t.next.length - 1 by omega,
        hright (by omega)] at hnone
      contradiction
    | some i =>
      rw [List.find?_range'_eq_some] at hfind
      obtain ⟨hsome, hrange, hless⟩ := hfind
      rw [List.mem_range'_1] at hrange
      refine ⟨⟨t.min + i, e.cells.drop i⟩, rfl, Window.shrunk_drop (fun d hd => ?_) hsome ?_⟩
      · by_cases hdm : d < t.min
        · exact Window.get_of_lt hdm
        by_cases hdc : d = t.min
        · rw [hget', if_pos (hdc.trans hcm.symm)]
        have hnone := hless (d - t.min) (by omega) (by omega)
        rwa [Nat.add_sub_cancel' (by omega), Bool.not_eq_true', Option.isSome_eq_false_iff,
          Option.isNone_iff_eq_none] at hnone
      · rw [htop']
        exact hright (by omega)
  rw [if_neg hcm]
  by_cases hcl : c = t.min + t.next.length - 1
  · rw [if_pos hcl]
    cases hfind : (List.range' 1 (t.next.length - 1)).find? fun i =>
        (e.get (t.min + (t.next.length - 1 - i))).isSome with
    | none =>
      rw [List.find?_range'_eq_none] at hfind
      have hnone := hfind (t.next.length - 1) (by omega) (by omega)
      rw [Nat.sub_self, Nat.add_zero, hleft hcm] at hnone
      contradiction
    | some i =>
      rw [List.find?_range'_eq_some] at hfind
      obtain ⟨hsome, hrange, hless⟩ := hfind
      rw [List.mem_range'_1] at hrange
      refine ⟨⟨t.min, e.cells.take (t.next.length - i)⟩, rfl,
        Window.shrunk_take (by omega) (fun d hd => ?_) (hleft hcm) ?_⟩
      · by_cases hdt : e.top ≤ d
        · exact Window.get_of_top_le hdt
        by_cases hdc : d = c
        · rw [hget', if_pos hdc]
        have hnone := hless (t.min + t.next.length - 1 - d) (by omega) (by omega)
        rwa [show t.min + (t.next.length - 1 - (t.min + t.next.length - 1 - d)) = d by omega,
          Bool.not_eq_true', Option.isSome_eq_false_iff, Option.isNone_iff_eq_none] at hnone
      · rwa [show t.next.length - i - 1 = t.next.length - 1 - i by omega]
  · rw [if_neg hcl]
    refine ⟨e, rfl, Window.shrunk_self (hleft hcm) ?_⟩
    rw [htop']
    exact hright hcl

/-- The table is compacted after a removal, and no assertion fails. -/
theorem prune_spec (hkeep : Keeps keep) (hlive : t.live_nodes = t.window.live)
    (htight : t.window.Tight) (hget : (t.window.get c).isSome) :
    ∃ v, t.prune keep c = some ⟨t.value, v.min, (t.window.erase c).live, v.cells⟩ ∧
      (t.window.erase c).Shrunk v := by
  by_cases h1 : t.next.length = 1
  · exact prune_single hlive hget h1
  · exact prune_table hkeep hlive htight hget h1

end

section

variable [Bot α] [DecidableEq α]
  {keep : Node α → List (Option (Node α)) → Nat → Option (Nat × Node α)}

/-- A redundant child is removed. -/
theorem WF.prune (hkeep : Keeps keep) {t : Node α} {c : Nat} (h : t.WF) (node : Node α)
    (hget : (t.window.get c).isSome) :
    ∃ t', Node.prune keep { t with next := t.next.set (t.index c) (some node) } c = some t' ∧
      t'.WF ∧ t'.value = t.value ∧
        ∀ d, t'.window.get d = if d = c then none else t.window.get d := by
  obtain ⟨hm, ht⟩ := Window.mem_of_get hget
  have hg := Window.Grown.refl hm ht
  set t₁ : Node α := { t with next := t.next.set (t.index c) (some node) } with ht₁
  have hw : t₁.window = t.window.put c node := set_index hm ht node
  have hget₁ : ∀ d, t₁.window.get d = if d = c then some node else t.window.get d := by
    rw [hw]
    exact hg.get_put node
  have hlive : t₁.live_nodes = t₁.window.live := by
    rw [hw, hg.live_put, if_pos hget]
    exact h.live
  have hself : (t₁.window.get c).isSome := by
    rw [hget₁, if_pos rfl]
    rfl
  obtain ⟨v, hsome, hv⟩ := prune_spec hkeep hlive (hw ▸ hg.tight_put h.tight node) hself
  rw [← hv.live_eq] at hsome
  have hleft : ∀ d, v.get d = if d = c then none else t.window.get d := by
    intro d
    obtain ⟨hm₁, ht₁⟩ := Window.mem_of_get hself
    rw [hv.get_eq, Window.get_erase hm₁ ht₁, hget₁]
    split <;> rfl
  have htop : (t₁.window.erase c).top = t.window.top := by
    rw [hw]
    simp [Window.erase, Window.put, Window.top]
  refine ⟨_, hsome, h.fewer _ (htop ▸ hv.top_le) hv.tight fun d child hd => ?_, rfl, hleft⟩
  rw [hleft] at hd
  split at hd
  · contradiction
  · exact hd

/-- `rm` changes the value of one prefix, and no assertion fails. -/
theorem WF.rm {visit : α → Option (β × α)} (hkeep : Keeps keep) (absent : β)
    (hbot : ∀ r, visit ⊥ = some r → r.2 = ⊥) {t : Node α} (h : t.WF) {key : Bytes} {r : β × α}
    (hvisit : visit (t.lookup key) = some r) :
    ∃ b t', t.rm keep absent visit key = some (b, t') ∧
      (b = r.1 ∨ t.lookup key = ⊥ ∧ b = absent) ∧ t'.WF ∧
      ∀ k, t'.lookup k = if k = key then r.2 else t.lookup k := by
  induction key generalizing t with
  | nil =>
    rw [lookup] at hvisit
    refine ⟨r.1, { t with value := r.2 }, ?_, Or.inl rfl, h.with_value _, fun k => ?_⟩
    · rw [Node.rm, hvisit]
      rfl
    · cases k with
      | nil => rfl
      | cons d rest => rfl
  | cons c rest ih =>
    cases hget : t.window.get c.toNat with
    | none =>
      have hcount : t.lookup (c :: rest) = ⊥ := by
        rw [lookup_cons, hget]
        rfl
      refine ⟨absent, t, ?_, Or.inr ⟨hcount, rfl⟩, h, fun k => ?_⟩
      · rw [Node.rm]
        by_cases hout : t.next.length = 0 ∨ c.toNat < t.min ∨ t.min + t.next.length ≤ c.toNat
        · rw [if_pos hout]
        · obtain ⟨-, hm, ht⟩ := not_or.mp hout |>.imp_right not_or.mp
          rw [if_neg hout, getD_index (by omega) (Nat.lt_of_not_le ht), hget]
      · split
        · rename_i hk
          rw [hk, hcount, hbot r (hcount ▸ hvisit)]
        · rfl
    | some node =>
      have hsome : (t.window.get c.toNat).isSome := by
        rw [hget]
        rfl
      obtain ⟨hm, ht⟩ := Window.mem_of_get hsome
      have hin : ¬(t.next.length = 0 ∨ c.toNat < t.min ∨ t.min + t.next.length ≤ c.toNat) := by
        intro hout
        rw [get_of_out hout] at hget
        contradiction
      have hcount : t.lookup (c :: rest) = node.lookup rest := by
        rw [lookup_cons, hget]
        rfl
      rw [hcount] at hvisit
      obtain ⟨b, node', hrm, hb, hnode', hlookup⟩ := ih (h.child hget) hvisit
      have hstep : t.rm keep absent visit (c :: rest) =
          let t := { t with next := t.next.set (t.index c.toNat) (some node') }
          if node'.is_redundant then (t.prune keep c.toNat).map fun t => (b, t)
          else some (b, t) := by
        rw [Node.rm, if_neg hin, getD_index hm ht, hget]
        simp only [hrm, Option.bind_some]
      cases hred : node'.is_redundant with
      | true =>
        obtain ⟨t', hpruned, hwf, hvalue, hwindow⟩ := h.prune hkeep node' hsome
        refine ⟨b, t', ?_, by rwa [hcount], hwf, fun k => ?_⟩
        · rw [hstep]
          simp only [hred, if_true, hpruned, Option.map_some]
        · rw [lookup_of_get hwindow hvalue]
          cases k with
          | nil => rfl
          | cons d rest' =>
            by_cases hd : d = c
            · subst hd
              have hzero := hnode'.lookup_eq_bot hred rest'
              simp only [hlookup] at hzero
              simp only [if_true, Option.map_none, Option.getD_none, List.cons.injEq, true_and,
                lookup_cons, hget, Option.map_some, Option.getD_some, hzero]
            · simp only [List.cons.injEq, hd, false_and, if_false]
      | false =>
        obtain ⟨hwf, -, hwindow⟩ := h.put t.live_nodes c.toNat_lt (Window.Grown.refl hm ht) hnode'
          hred (by rw [if_pos hsome])
        refine ⟨b, _, ?_, by rwa [hcount], hwf, fun k => ?_⟩
        · rw [hstep]
          simp only [hred, Bool.false_eq_true, if_false]
        · rw [lookup_of_get hwindow rfl]
          cases k with
          | nil => rfl
          | cons d rest' =>
            by_cases hd : d = c
            · subst hd
              simp only [if_true, Option.map_some, Option.getD_some, hlookup, lookup_cons, hget,
                List.cons.injEq, true_and]
            · simp only [List.cons.injEq, hd, false_and, if_false]

end

end Node

end PbdZmq.Subscription
