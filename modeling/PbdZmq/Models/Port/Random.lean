import Mathlib.Algebra.Order.Field.Basic
import Mathlib.Data.Rat.Floor
import Mathlib.Tactic.Linarith
import PbdZmq.Core.Lines
import PbdZmq.R.Value

/-!
# Random ports

`random_port` truncates a draw between its smallest port and one more than its largest. The
draws are numbers of an ordered field, such as the rationals or the reals.
-/

namespace PbdZmq.Port

variable {α : Type} [Field α] [LinearOrder α]

/-- The warnings of `random_port`. -/
def portWarnings (minPort maxPort : α) : List Text :=
  (if minPort < 49152 then
    ["non-recommended 'min_port' value; see ?random_port for details".toList] else []) ++
  if 65536 < maxPort then
    ["non-recommended 'max_port' value; see ?random_port for details".toList] else []

/-- What `runif(1, min_port, max_port+1)` may draw. -/
def IsDraw (minPort maxPort u : α) : Prop := minPort < u ∧ u < maxPort + 1

/-- No warning means recommended bounds. -/
theorem recommended_of_portWarnings {minPort maxPort : α} (h : portWarnings minPort maxPort = []) :
    49152 ≤ minPort ∧ maxPort ≤ 65536 := by
  obtain ⟨hmin, hmax⟩ := List.append_eq_nil_iff.mp h
  constructor
  · by_contra hlow
    rw [if_pos (not_le.mp hlow)] at hmin
    simp at hmin
  · by_contra hhigh
    rw [if_pos (not_le.mp hhigh)] at hmax
    simp at hmax

variable [IsStrictOrderedRing α] [FloorRing α]

/-- `as.integer` of a number, without the range of `int`. -/
def truncate (u : α) : Int := if 0 ≤ u then ⌊u⌋ else ⌈u⌉

/-- The warnings and the result of `random_port` on one draw. -/
def randomPort (minPort maxPort u : α) : List Text × Int :=
  (portWarnings minPort maxPort, asInteger (truncate u))

/-- Every draw gives a TCP port within the bounds, and every such port is drawn. -/
def ValidPorts (minPort maxPort : α) : Prop :=
  (∀ u, IsDraw minPort maxPort u →
    minPort ≤ ((randomPort minPort maxPort u).2 : α) ∧
    ((randomPort minPort maxPort u).2 : α) ≤ maxPort ∧
    (randomPort minPort maxPort u).2 ≤ 65535) ∧
  ∀ p : Int, minPort ≤ (p : α) → (p : α) ≤ maxPort → p ≤ 65535 →
    ∃ u, IsDraw minPort maxPort u ∧ (randomPort minPort maxPort u).2 = p

/-- Within recommended bounds the port is the integer part of the draw. -/
theorem randomPort_eq {minPort maxPort u : α} (hmin : 49152 ≤ minPort) (hmax : maxPort ≤ 65536)
    (h : IsDraw minPort maxPort u) : (randomPort minPort maxPort u).2 = ⌊u⌋ := by
  obtain ⟨hlow, hhigh⟩ := h
  have hpos : 0 ≤ u := by linarith
  have hfloor : 0 ≤ ⌊u⌋ := Int.floor_nonneg.mpr hpos
  have hbound : ⌊u⌋ < 65537 := by
    rw [Int.floor_lt]
    push_cast
    linarith
  have hrange : ⌊u⌋.natAbs ≤ intMax := by
    rw [intMax]
    omega
  rw [randomPort, truncate, if_pos hpos, asInteger_eq hrange]

/-- Every port between whole bounds is the integer part of a draw. -/
theorem exists_draw {m n p : Int} (hm : m ≤ p) (hn : p ≤ n) :
    ∃ u : α, IsDraw (m : α) n u ∧ ⌊u⌋ = p := by
  have hm' : (m : α) ≤ p := Int.cast_le.mpr hm
  have hn' : (p : α) ≤ n := Int.cast_le.mpr hn
  obtain ⟨u, hu, hu'⟩ := exists_between (lt_add_one (p : α))
  refine ⟨u, ⟨by linarith, by linarith⟩, Int.floor_eq_iff.mpr ⟨hu.le, hu'⟩⟩

/-- Where no draw falls below the smallest port, this is whole. -/
theorem floor_minPort {minPort maxPort : α} (hle : minPort ≤ maxPort)
    (h : ∀ u, IsDraw minPort maxPort u → minPort ≤ (⌊u⌋ : α)) : minPort = ⌊minPort⌋ := by
  refine le_antisymm ?_ (Int.floor_le minPort)
  have hroom : minPort < min ((⌊minPort⌋ : α) + 1) (maxPort + 1) :=
    lt_min (Int.lt_floor_add_one minPort) (by linarith)
  obtain ⟨u, hu, hu'⟩ := exists_between hroom
  obtain ⟨hnext, hhigh⟩ := lt_min_iff.mp hu'
  have hfloor : ⌊u⌋ = ⌊minPort⌋ :=
    Int.floor_eq_iff.mpr ⟨(Int.floor_le minPort).trans hu.le, hnext⟩
  have hlow := h u ⟨hu, hhigh⟩
  rwa [hfloor] at hlow

/-- Where no draw exceeds the largest port, this is whole. -/
theorem floor_maxPort {minPort maxPort : α} (hle : minPort ≤ maxPort)
    (h : ∀ u, IsDraw minPort maxPort u → (⌊u⌋ : α) ≤ maxPort) : maxPort = ⌊maxPort⌋ := by
  refine le_antisymm ?_ (Int.floor_le maxPort)
  by_contra hpart
  rw [not_le] at hpart
  have hroom : max minPort ((⌊maxPort⌋ : α) + 1) < maxPort + 1 :=
    max_lt (by linarith) (by linarith)
  obtain ⟨u, hu, hu'⟩ := exists_between hroom
  obtain ⟨hlow, hnext⟩ := max_lt_iff.mp hu
  have hlast := Int.lt_floor_add_one maxPort
  have hfloor : ⌊u⌋ = ⌊maxPort⌋ + 1 :=
    Int.floor_eq_iff.mpr ⟨by push_cast; exact hnext.le, by push_cast; linarith⟩
  have hhigh := h u ⟨hlow, hu'⟩
  rw [hfloor] at hhigh
  push_cast at hhigh
  linarith

/-- Within recommended bounds `random_port` gives valid ports exactly if the bounds are whole and
the largest port is one. -/
theorem validPorts_iff {minPort maxPort : α} (hwarn : portWarnings minPort maxPort = [])
    (hle : minPort ≤ maxPort) :
    ValidPorts minPort maxPort ↔
      ∃ m n : Int, minPort = m ∧ maxPort = n ∧ n ≤ 65535 := by
  obtain ⟨hmin, hmax⟩ := recommended_of_portWarnings hwarn
  constructor
  · rintro ⟨hvalid, -⟩
    have hfloor : ∀ u, IsDraw minPort maxPort u →
        minPort ≤ (⌊u⌋ : α) ∧ (⌊u⌋ : α) ≤ maxPort ∧ ⌊u⌋ ≤ 65535 := by
      intro u hu
      rw [← randomPort_eq hmin hmax hu]
      exact hvalid u hu
    have hm : minPort = ⌊minPort⌋ := floor_minPort hle fun u hu => (hfloor u hu).1
    have hn : maxPort = ⌊maxPort⌋ := floor_maxPort hle fun u hu => (hfloor u hu).2.1
    refine ⟨⌊minPort⌋, ⌊maxPort⌋, hm, hn, ?_⟩
    obtain ⟨u, hu, hlast⟩ := exists_draw (α := α) (Int.floor_le_floor hle) (le_refl ⌊maxPort⌋)
    rw [← hm, ← hn] at hu
    rw [← hlast]
    exact (hfloor u hu).2.2
  · rintro ⟨m, n, rfl, rfl, hport⟩
    constructor
    · intro u hu
      rw [randomPort_eq hmin hmax hu]
      have hlow : m ≤ ⌊u⌋ := Int.le_floor.mpr hu.1.le
      have hhigh : ⌊u⌋ < n + 1 := Int.floor_lt.mpr (by push_cast; exact hu.2)
      exact ⟨Int.cast_le.mpr hlow, Int.cast_le.mpr (by omega), by omega⟩
    · intro p hlow hhigh _
      obtain ⟨u, hu, hp⟩ := exists_draw (α := α) (Int.cast_le.mp hlow) (Int.cast_le.mp hhigh)
      exact ⟨u, hu, (randomPort_eq hmin hmax hu).trans hp⟩

/-- The documented range up to the largest port. -/
theorem validPorts_iff_documented :
    ValidPorts (49152 : ℚ) 65535 ↔ ∃ m n : Int, (49152 : ℚ) = m ∧ (65535 : ℚ) = n ∧ n ≤ 65535 :=
  validPorts_iff (by decide +kernel) (by norm_num)

/-- By default 65536 may be drawn, which is no port. -/
theorem port_65536 : ¬ ∀ minPort maxPort : ℚ, portWarnings minPort maxPort = [] →
    minPort ≤ maxPort → ValidPorts minPort maxPort := by
  intro hall
  have hmin : (49152 : ℚ) ≤ 49152 := le_rfl
  have hmax : (65536 : ℚ) ≤ 65536 := le_rfl
  obtain ⟨hvalid, -⟩ := hall 49152 65536 (by decide +kernel) (by norm_num)
  have hdraw : IsDraw (49152 : ℚ) 65536 (131073 / 2) := by
    constructor <;> norm_num
  have hport := (hvalid _ hdraw).2.2
  rw [randomPort_eq hmin hmax hdraw] at hport
  have hfloor : ⌊(131073 / 2 : ℚ)⌋ = 65536 := by
    rw [Int.floor_eq_iff]
    constructor <;> norm_num
  omega

end PbdZmq.Port
