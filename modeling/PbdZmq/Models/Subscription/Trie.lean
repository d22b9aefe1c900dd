import Mathlib.Algebra.Group.Nat.Defs
import Mathlib.Order.Nat
import PbdZmq.Models.Subscription.Keys
import PbdZmq.Models.Subscription.Prune

/-!
# The trie of a subscriber

A subscriber counts its subscriptions to every prefix. A message matches if a prefix of it is
subscribed to.
-/

namespace PbdZmq.Subscription

/-- `trie_t`; the value is `refcnt`. -/
abbrev Trie := Node Nat

namespace Trie

/-- The assertions on `live_nodes` after a new child. -/
def asserts (count live_nodes : Nat) : Bool :=
  if count = 1 then live_nodes = 1 else live_nodes > 1

/-- `++refcnt; return refcnt == 1;`. -/
def subscribe (refcnt : Nat) : Bool × Nat := ((refcnt + 1) % 2 ^ 32 = 1, (refcnt + 1) % 2 ^ 32)

/-- `if (!refcnt) return false; refcnt--; return refcnt == 0;`. -/
def unsubscribe (refcnt : Nat) : Option (Bool × Nat) :=
  if refcnt = 0 then some (false, refcnt) else some (refcnt - 1 = 0, refcnt - 1)

/-- `add`: whether the prefix is new; none if an assertion fails. -/
def add : Bytes → Trie → Option (Bool × Trie) := Node.add asserts subscribe

/-- The child that is left: the last one if the first one is removed and the first one if the
last one is. -/
def keep (t : Trie) (table : List (Option Trie)) (c : Nat) : Option (Nat × Trie) :=
  let count := t.next.length
  if c = t.min then (table.getD (count - 1) none).map fun node => (count - 1, node)
  else if c = t.min + count - 1 then (table.getD 0 none).map fun node => (0, node)
  else none

/-- `rm`: whether the prefix is removed; none if an assertion fails. -/
def rm : Bytes → Trie → Option (Bool × Trie) := Node.rm keep false unsubscribe

/-- `check`; none if the single node is missing. -/
def check : Bytes → Trie → Option Bool
  | data, t =>
    if t.value ≠ 0 then some true
    else
      match data with
      | [] => some false
      | c :: rest =>
        if c.toNat < t.min ∨ t.min + t.next.length ≤ c.toNat then some false
        else
          match t.next.getD (t.index c.toNat) none with
          | some node => check rest node
          | none => if t.next.length = 1 then none else some false

mutual

/-- `apply_helper`: the subscriptions in the order they are applied to; none if the single node
is missing. -/
def apply_helper (buff : Bytes) : Trie → Option (List Bytes)
  | ⟨refcnt, min, _, next⟩ =>
    (apply_table buff min (next.length = 1) next).map fun below =>
      if refcnt ≠ 0 then buff :: below else below

/-- The loop of `apply_helper` over the table from a character on. -/
def apply_table (buff : Bytes) (c : Nat) (single : Bool) :
    List (Option Trie) → Option (List Bytes)
  | [] => some []
  | none :: next => if single then none else apply_table buff (c + 1) single next
  | some node :: next =>
    (apply_helper (buff ++ [UInt8.ofNat c]) node).bind fun here =>
      (apply_table buff (c + 1) single next).map fun below => here ++ below

end

/-- `apply`. -/
def apply (t : Trie) : Option (List Bytes) := t.apply_helper []

/-- The child that is left is at one end of the table. -/
theorem keeps : Node.Keeps keep := by
  intro t c e hmin hlength htwo hone hleft hright
  have htop : e.top = e.min + t.next.length := congrArg (e.min + ·) hlength
  have hlast : e.top - 1 = e.min + (t.next.length - 1) := by omega
  rw [hlast] at hright
  by_cases hc : c = t.min
  · obtain ⟨node, hnode⟩ := Option.isSome_iff_exists.mp (hright (by omega))
    refine ⟨_, node, ?_, hnode⟩
    rw [keep, if_pos hc, e.getD_cells, hnode]
    rfl
  · obtain ⟨node, hnode⟩ := Option.isSome_iff_exists.mp (hleft (by omega))
    refine ⟨0, node, ?_, hnode⟩
    have hcl : c = t.min + t.next.length - 1 := by
      by_contra hcl
      have htwo' := Window.two_le_live (hleft (by omega)) (hright (by omega)) (by omega)
      omega
    rw [keep, if_neg hc, if_pos hcl, e.getD_cells, Nat.add_zero, hnode]
    rfl

section

variable {t : Trie}

/-- The assertions of `add`. -/
theorem asserts_of (count live_nodes : Nat)
    (h : if count = 1 then live_nodes = 1 else live_nodes > 1) :
    asserts count live_nodes = true := by
  rw [asserts]
  split
  · rename_i h1
    rw [if_pos h1] at h
    exact decide_eq_true h
  · rename_i h1
    rw [if_neg h1] at h
    exact decide_eq_true h

/-- `add` counts one subscription more and says whether it is the first one. -/
theorem add_spec (h : t.WF) {key : Bytes} (hroom : t.lookup key + 1 < 2 ^ 32) :
    ∃ t', add key t = some (decide (t.lookup key = 0), t') ∧ t'.WF ∧
      ∀ k, t'.lookup k = if k = key then t.lookup k + 1 else t.lookup k := by
  have hvisit : subscribe (t.lookup key) = (decide (t.lookup key = 0), t.lookup key + 1) := by
    rw [subscribe, Nat.mod_eq_of_lt hroom]
    exact Prod.ext (decide_eq_decide.mpr Nat.add_eq_right) rfl
  have huseful : (subscribe (t.lookup key)).2 ≠ ⊥ := by
    rw [hvisit]
    exact Nat.succ_ne_zero _
  obtain ⟨t', hadd, hwf, -, hlookup⟩ := h.add
    asserts_of huseful
  rw [hvisit] at hadd
  refine ⟨t', hadd, hwf, fun k => ?_⟩
  rw [hlookup, hvisit]
  split
  · rename_i hk
    rw [hk]
  · rfl

/-- `rm` counts one subscription less and says whether it was the last one. -/
theorem rm_spec (h : t.WF) (key : Bytes) :
    ∃ t', rm key t = some (decide (t.lookup key = 1), t') ∧ t'.WF ∧
      ∀ k, t'.lookup k = if k = key then t.lookup k - 1 else t.lookup k := by
  have hvisit : unsubscribe (t.lookup key) =
      some (decide (t.lookup key = 1), t.lookup key - 1) := by
    rw [unsubscribe]
    split
    · rename_i h0
      rw [h0]
      rfl
    · rename_i h0
      rw [decide_eq_decide.mpr (show t.lookup key - 1 = 0 ↔ t.lookup key = 1 by omega)]
  obtain ⟨b, t', hrm, hb, hwf, hlookup⟩ := h.rm keeps false (fun r hr => by
    cases hr
    rfl) hvisit
  have hlast : b = decide (t.lookup key = 1) := by
    rcases hb with hb | ⟨h0, hb⟩
    · exact hb
    · rw [hb, h0]
      rfl
  refine ⟨t', hlast ▸ hrm, hwf, fun k => ?_⟩
  rw [hlookup]
  split
  · rename_i hk
    rw [hk]
  · rfl

/-- The table reports the subscriptions that go through its children. -/
theorem apply_table_spec (buff : Bytes) (c : Nat) (single : Bool) (next : List (Option Trie))
    (hroom : c + next.length ≤ 256) (hsingle : single = true → none ∉ next)
    (ih : ∀ node, some node ∈ next → ∀ buff, ∃ keys, apply_helper buff node = some keys ∧
      Reports buff (fun k => 0 < node.lookup k) keys) :
    ∃ keys, apply_table buff c single next = some keys ∧
      Reports buff (Through ⟨c, next⟩ fun node k => 0 < node.lookup k) keys := by
  induction next generalizing c with
  | nil => exact ⟨[], rfl, Reports.done buff c _⟩
  | cons x next ihn =>
    rw [List.length_cons] at hroom
    obtain ⟨keys, hkeys, hbelow⟩ := ihn (c + 1) (by omega)
      (fun h hnone => hsingle h (List.mem_cons_of_mem x hnone))
      fun node hnode => ih node (List.mem_cons_of_mem x hnode)
    cases x with
    | none =>
      refine ⟨keys, ?_, hbelow.skip⟩
      rw [apply_table, if_neg fun h => hsingle h List.mem_cons_self, hkeys]
    | some node =>
      obtain ⟨here, hhere, hreports⟩ := ih node List.mem_cons_self (buff ++ [UInt8.ofNat c])
      refine ⟨here ++ keys, ?_, Reports.child (by omega) hreports hbelow⟩
      rw [apply_table, hhere, Option.bind_some, hkeys]
      rfl

/-- `apply` lists every subscription once. -/
theorem apply_spec (h : t.WF) :
    ∃ keys, t.apply = some keys ∧ keys.Nodup ∧ ∀ p, p ∈ keys ↔ 0 < t.lookup p := by
  suffices ∀ buff, ∃ keys, apply_helper buff t = some keys ∧
      Reports buff (fun k => 0 < t.lookup k) keys by
    obtain ⟨keys, hkeys, hreports⟩ := this []
    exact ⟨keys, hkeys, hreports.nodup, hreports.mem_nil⟩
  induction h with
  | @mk t room tight live child useful ih =>
    intro buff
    obtain ⟨keys, hkeys, hbelow⟩ := apply_table_spec buff t.min (t.next.length = 1) t.next room
      (fun h1 => tight.single (of_decide_eq_true h1)) fun node hnode => by
        obtain ⟨c, hget⟩ := Window.get_of_mem (w := t.window) hnode
        exact ih c node hget
    refine ⟨if t.value ≠ 0 then buff :: keys else keys, ?_, hbelow.self fun k => ?_⟩
    · cases t
      rw [apply_helper, hkeys]
      rfl
    · cases k with
      | nil => simp [Node.lookup, Through, Nat.pos_iff_ne_zero]
      | cons d rest =>
        rw [Node.lookup_cons_iff (P := fun n => 0 < n) (Nat.lt_irrefl 0)]
        exact ⟨Or.inr, fun h => h.resolve_left fun hnil => List.cons_ne_nil d rest hnil.1⟩

end

end Trie

end PbdZmq.Subscription
