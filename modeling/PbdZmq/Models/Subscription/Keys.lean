import PbdZmq.Models.Subscription.Node

/-!
# Lists of keys

The functions that visit a whole trie report keys in a buffer that holds the way down. A list
of keys is put together from those of the node itself and those below each cell of its table.
-/

namespace PbdZmq.Subscription

variable {α : Type}

/-- The keys that have a property, after those of the buffer, each once. -/
structure Reports (buff : Bytes) (P : Bytes → Prop) (keys : List Bytes) : Prop where
  nodup : keys.Nodup
  mem_iff : ∀ p, p ∈ keys ↔ ∃ k, p = buff ++ k ∧ P k

/-- A property of the keys that go through a child. -/
def Through (w : Window (Node α)) (P : Node α → Bytes → Prop) : Bytes → Prop
  | [] => False
  | c :: rest => ∃ node, w.get c.toNat = some node ∧ P node rest

namespace Reports

variable {buff : Bytes} {P Q : Bytes → Prop} {R : Node α → Bytes → Prop}

theorem congr {keys : List Bytes} (h : Reports buff P keys) (hiff : ∀ k, P k ↔ Q k) :
    Reports buff Q keys where
  nodup := h.nodup
  mem_iff p := by
    rw [h.mem_iff]
    simp only [hiff]

/-- Without a buffer. -/
theorem mem_nil {keys : List Bytes} (h : Reports [] P keys) (p : Bytes) : p ∈ keys ↔ P p := by
  rw [h.mem_iff]
  constructor
  · rintro ⟨k, rfl, hk⟩
    exact hk
  · exact fun hp => ⟨p, rfl, hp⟩

/-- The table is at its end. -/
theorem done (buff : Bytes) (c : Nat) (R : Node α → Bytes → Prop) :
    Reports buff (Through ⟨c, []⟩ R) [] where
  nodup := List.nodup_nil
  mem_iff p := by
    refine iff_of_false List.not_mem_nil ?_
    rintro ⟨k, -, hk⟩
    cases k with
    | nil => exact hk
    | cons d rest =>
      obtain ⟨node, hget, -⟩ := hk
      rw [Window.live_eq_zero_iff.mp (show (Window.mk c ([] : List (Option (Node α)))).live = 0
        from rfl)] at hget
      contradiction

/-- A cell is empty. -/
theorem skip {c : Nat} {next : List (Option (Node α))} {keys : List Bytes}
    (h : Reports buff (Through ⟨c + 1, next⟩ R) keys) :
    Reports buff (Through ⟨c, none :: next⟩ R) keys := by
  refine h.congr fun k => ?_
  cases k with
  | nil => exact Iff.rfl
  | cons d rest => rw [Through, Through, Window.get_cons_none]

/-- A cell has a child. -/
theorem child {c : Nat} {node : Node α} {next : List (Option (Node α))} {here keys : List Bytes}
    (hc : c < 256) (hhere : Reports (buff ++ [UInt8.ofNat c]) (R node) here)
    (h : Reports buff (Through ⟨c + 1, next⟩ R) keys) :
    Reports buff (Through ⟨c, some node :: next⟩ R) (here ++ keys) := by
  have hofNat : (UInt8.ofNat c).toNat = c := UInt8.toNat_ofNat_of_lt' hc
  have hafter : ∀ {d : UInt8} {rest}, Through ⟨c + 1, next⟩ R (d :: rest) → d ≠ UInt8.ofNat c := by
    rintro d rest ⟨node', hget, -⟩ rfl
    rw [hofNat, Window.get_of_lt (Nat.lt_succ_self c)] at hget
    contradiction
  have hsplit : ∀ k, Through ⟨c, some node :: next⟩ R k ↔
      (∃ rest, k = UInt8.ofNat c :: rest ∧ R node rest) ∨ Through ⟨c + 1, next⟩ R k := by
    intro k
    cases k with
    | nil => simp [Through]
    | cons d rest =>
      rw [Through, Window.get_cons]
      by_cases hd : d = UInt8.ofNat c
      · rw [hd, hofNat, if_pos rfl]
        constructor
        · rintro ⟨node', hnode', hR⟩
          cases hnode'
          exact Or.inl ⟨rest, rfl, hR⟩
        · rintro (⟨rest', heq, hR⟩ | hthrough)
          · cases heq
            exact ⟨node, rfl, hR⟩
          · exact absurd rfl (hafter hthrough)
      · rw [if_neg fun hdc => hd (UInt8.toNat_inj.mp (hdc.trans hofNat.symm))]
        constructor
        · exact fun hthrough => Or.inr hthrough
        · rintro (⟨rest', heq, -⟩ | hthrough)
          · exact absurd (List.cons.inj heq).1 hd
          · exact hthrough
  refine ⟨List.nodup_append.mpr ⟨hhere.nodup, h.nodup, ?_⟩, fun p => ?_⟩
  · rintro p hp q hq rfl
    obtain ⟨k, rfl, -⟩ := (hhere.mem_iff p).mp hp
    obtain ⟨k', heq, hthrough⟩ := (h.mem_iff _).mp hq
    rw [List.append_assoc, List.append_cancel_left_eq] at heq
    subst heq
    exact hafter hthrough rfl
  · rw [List.mem_append, hhere.mem_iff, h.mem_iff]
    simp only [hsplit]
    constructor
    · rintro (⟨k, rfl, hR⟩ | ⟨k, rfl, hthrough⟩)
      · exact ⟨UInt8.ofNat c :: k, by simp, Or.inl ⟨k, rfl, hR⟩⟩
      · exact ⟨k, rfl, Or.inr hthrough⟩
    · rintro ⟨k, rfl, ⟨rest, rfl, hR⟩ | hthrough⟩
      · exact Or.inl ⟨rest, by simp, hR⟩
      · exact Or.inr ⟨k, rfl, hthrough⟩

/-- The node itself and those below it. -/
theorem self {w : Window (Node α)} {keys : List Bytes} {A : Prop} [Decidable A]
    (h : Reports buff (Through w R) keys)
    (hiff : ∀ k, P k ↔ (k = [] ∧ A) ∨ Through w R k) :
    Reports buff P (if A then buff :: keys else keys) := by
  have hself : buff ∉ keys := by
    intro hmem
    obtain ⟨k, heq, hthrough⟩ := (h.mem_iff buff).mp hmem
    rw [List.self_eq_append_right] at heq
    subst heq
    exact hthrough
  refine ⟨?_, fun p => ?_⟩
  · split
    · exact List.nodup_cons.mpr ⟨hself, h.nodup⟩
    · exact h.nodup
  · have hmem : p ∈ (if A then buff :: keys else keys) ↔ (p = buff ∧ A) ∨ p ∈ keys := by
      split <;> simp [*]
    rw [hmem, h.mem_iff]
    simp only [hiff]
    constructor
    · rintro (⟨rfl, hA⟩ | ⟨k, hp, hthrough⟩)
      · exact ⟨[], (List.append_nil _).symm, Or.inl ⟨rfl, hA⟩⟩
      · exact ⟨k, hp, Or.inr hthrough⟩
    · rintro ⟨k, rfl, ⟨rfl, hA⟩ | hthrough⟩
      · exact Or.inl ⟨List.append_nil _, hA⟩
      · exact Or.inr ⟨k, rfl, hthrough⟩

end Reports

end PbdZmq.Subscription
