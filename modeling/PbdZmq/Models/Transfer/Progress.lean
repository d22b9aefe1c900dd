import Mathlib.Algebra.Order.Floor.Semifield
import Mathlib.Data.Nat.Log
import PbdZmq.Core.Lines
import PbdZmq.Core.Loop
import PbdZmq.R.Double

/-!
# The unit and the bar of the progress display

`progress_init` divides the size of the file until it finds the unit in which sizes are
shown. On the receiving side the size is whatever double the peer has sent. The loop ends
unless it is infinite, behind the last unit if it is too large.
-/

namespace PbdZmq.Transfer

/-- The length of the bar. -/
def PROGRESS_BARLEN : Nat := 30

/-- The factor between two units. -/
def PROGRESS_SCALE : Nat := 1024

/-- The units. -/
def memnames : List Text :=
  ["B", "KiB", "MiB", "GiB", "TiB", "PiB", "EiB", "ZiB", "YiB"].map String.toList

/-- `memnames[ind]`, if it is inside the array. -/
def memname (ind : Int) : Option Text := if 0 ≤ ind then memnames[ind.toNat]? else none

/-- What `Rprintf` prints. -/
inductive Printed
  | text (s : Text)
  /-- A number with some decimals. -/
  | number (decimals : Nat) (x : RDouble)
  /-- An element of `memnames`, or what is read outside of the array. -/
  | name (name : Option Text)
  deriving DecidableEq, Repr

/-- The variables of the loop in `progress_init`. -/
structure Scaling where
  total : RDouble
  ind : Nat
  deriving DecidableEq, Repr

/-- `total >= PROGRESS_SCALE`. -/
def Scaling.test (s : Scaling) : Bool := s.total.atLeast PROGRESS_SCALE

/-- One round of the loop. -/
def Scaling.next (s : Scaling) : Scaling := ⟨s.total.div (.finite PROGRESS_SCALE), s.ind + 1⟩

/-- The empty bar with the size in the unit that was found. -/
def Scaling.shown (s : Scaling) : List Printed :=
  [.text "[".toList, .text (List.replicate PROGRESS_BARLEN '-'), .text "] 0 / ".toList,
    .number 3 s.total, .text " ".toList, .name (memname s.ind)]

/-- `progress_init`, if its loop ends within `fuel` tests: what it returns and prints. -/
def progress_init (fuel : Nat) (verbose : Int) (total : RDouble) : Option (Int × List Printed) :=
  if verbose = 0 then some (-1, [])
  else
    (whileLoop Scaling.test Scaling.next fuel ⟨total, 0⟩).map fun s => ((s.ind : Int), s.shown)

/-- `PROGRESS_BARLEN*(current/total)`. -/
def barLength (current : Nat) (total : RDouble) : RDouble :=
  RDouble.mul (.finite PROGRESS_BARLEN) (RDouble.div (.finite current) total)

/-- The two loops that draw the bar. -/
def bar (len : Int) : Text :=
  List.replicate len.toNat '#' ++ List.replicate (PROGRESS_BARLEN - (len + 1)).toNat '-'

/-- What `progress_update` prints, if the length of the bar is an `int`. -/
def progress_update (verbose : Int) (current : Nat) (total : RDouble) (ind : Int) :
    Option (List Printed) :=
  (barLength current total).toInt.map fun len =>
    let divby : RDouble := .finite (1 / (PROGRESS_SCALE : ℚ) ^ ind)
    if verbose = 0 then []
    else [.text "\r[".toList, .text (bar len), .text "] ".toList,
      .number 2 (RDouble.mul (.finite current) divby), .text " / ".toList,
      .number 2 (total.mul divby), .text " ".toList, .name (memname ind)]

/-- With `verbose` set, `progress_init` returns the index of a unit, and neither it nor a
later `progress_update` reads outside of `memnames`. -/
def NamesUnits (total : RDouble) : Prop :=
  ∀ verbose : Int, verbose ≠ 0 → ∃ fuel ind shown,
    progress_init fuel verbose total = some (ind, shown) ∧
    (0 ≤ ind ∧ ind < memnames.length) ∧ Printed.name none ∉ shown ∧
    ∀ current shown', progress_update verbose current total ind = some shown' →
      Printed.name none ∉ shown'

/-- An index of the array has a name. -/
theorem memname_ne_none {ind : Int} (h : 0 ≤ ind ∧ ind < memnames.length) :
    memname ind ≠ none := by
  have hlt : ind.toNat < memnames.length := by omega
  rw [memname, if_pos h.1, List.getElem?_eq_getElem hlt]
  exact Option.some_ne_none _

/-- `progress_init` has one result. -/
theorem progress_init_unique {fuel fuel' : Nat} {verbose : Int} {total : RDouble}
    {r r' : Int × List Printed} (h : progress_init fuel verbose total = some r)
    (h' : progress_init fuel' verbose total = some r') : r = r' := by
  unfold progress_init at h h'
  by_cases hverbose : verbose = 0
  · rw [if_pos hverbose] at h h'
    exact Option.some.inj (h.symm.trans h')
  · rw [if_neg hverbose] at h h'
    obtain ⟨s, hs, rfl⟩ := Option.map_eq_some_iff.mp h
    obtain ⟨s', hs', rfl⟩ := Option.map_eq_some_iff.mp h'
    rw [whileLoop_unique hs hs']

/-- The total is finite, and the loop makes `k` rounds from its start to its end. -/
def Scaling.Rounds (s : Scaling) (k : Nat) : Prop :=
  ∃ p : ℚ, s.total = .finite p ∧ s.ind + Nat.log PROGRESS_SCALE ⌊p⌋₊ = k

/-- A round leaves one round less to come. -/
theorem Scaling.Rounds.next {s : Scaling} {k : Nat} (h : s.Rounds k) (htest : s.test = true) :
    s.next.Rounds k ∧ k - s.next.ind < k - s.ind := by
  obtain ⟨p, hp, hk⟩ := h
  rw [test, hp] at htest
  have hle : (PROGRESS_SCALE : ℚ) ≤ p := of_decide_eq_true htest
  have hlog : Nat.log PROGRESS_SCALE ⌊p⌋₊ = Nat.log PROGRESS_SCALE ⌊p / PROGRESS_SCALE⌋₊ + 1 := by
    rw [Nat.floor_div_natCast]
    exact Nat.log_of_one_lt_of_le (by decide) (Nat.le_floor hle)
  have hscale : (PROGRESS_SCALE : ℚ) ≠ 0 := Nat.cast_ne_zero.mpr (by decide)
  have hind : s.next.ind = s.ind + 1 := rfl
  refine ⟨⟨p / PROGRESS_SCALE, ?_, by omega⟩, by omega⟩
  rw [Scaling.next, hp]
  exact RDouble.div_finite p hscale

/-- At the end of the loop all rounds are made. -/
theorem Scaling.Rounds.ind_eq {s : Scaling} {k : Nat} (h : s.Rounds k) (htest : s.test = false) :
    s.ind = k := by
  obtain ⟨p, hp, hk⟩ := h
  rw [test, hp] at htest
  have hless : ⌊p⌋₊ < PROGRESS_SCALE :=
    (Nat.floor_lt' (by decide)).mpr (not_le.mp (of_decide_eq_false htest))
  rwa [Nat.log_of_lt hless, Nat.add_zero] at hk

/-- The loop divides a finite size as often as its logarithm tells. -/
theorem scaling_finite (q : ℚ) : ∃ fuel t,
    whileLoop Scaling.test Scaling.next fuel ⟨.finite q, 0⟩ = some t ∧
      t.ind = Nat.log PROGRESS_SCALE ⌊q⌋₊ := by
  have hstart : Scaling.Rounds ⟨.finite q, 0⟩ (Nat.log PROGRESS_SCALE ⌊q⌋₊) :=
    ⟨q, rfl, Nat.zero_add _⟩
  obtain ⟨t, ht, hrounds, htest⟩ := whileLoop_total
    (Scaling.Rounds · (Nat.log PROGRESS_SCALE ⌊q⌋₊)) (Nat.log PROGRESS_SCALE ⌊q⌋₊ - Scaling.ind ·)
    (fun _ h htest => h.next htest) hstart (Nat.lt_succ_self _)
  exact ⟨_, t, ht, hrounds.ind_eq htest⟩

/-- The loop ends at once for a NaN and for a negative infinity. -/
theorem scaling_stops {total : RDouble} (h : total.atLeast PROGRESS_SCALE = false) :
    whileLoop Scaling.test Scaling.next 1 ⟨total, 0⟩ = some ⟨total, 0⟩ :=
  whileLoop_of_false (show Scaling.test ⟨total, 0⟩ = false from h) 0

/-- The loop never ends for an infinite size. -/
theorem scaling_infinite (fuel : Nat) :
    whileLoop Scaling.test Scaling.next fuel ⟨.infinite false, 0⟩ = none := by
  refine whileLoop_eq_none (Scaling.total · = .infinite false) ?_ rfl fuel
  rintro ⟨total, ind⟩ rfl
  exact ⟨rfl, rfl⟩

/-- The units suffice exactly for the sizes below the power of the factor behind the last one. -/
theorem log_lt_iff (q : ℚ) :
    Nat.log PROGRESS_SCALE ⌊q⌋₊ < memnames.length ↔ q < 1024 ^ 9 := by
  have hpow : ⌊q⌋₊ < PROGRESS_SCALE ^ memnames.length ↔ q < 1024 ^ 9 := by
    rw [Nat.floor_lt' (by decide)]
    push_cast [PROGRESS_SCALE, memnames]
    rfl
  by_cases hzero : ⌊q⌋₊ = 0
  · rw [hzero] at hpow ⊢
    exact iff_of_true (by decide) (hpow.mp (by decide))
  · rw [Nat.log_lt_iff_lt_pow (by decide) hzero, hpow]

/-- If the loop ends, the units suffice exactly if it has found one of them. -/
theorem namesUnits_of_scaling {fuel : Nat} {total : RDouble} {t : Scaling}
    (h : whileLoop Scaling.test Scaling.next fuel ⟨total, 0⟩ = some t) :
    NamesUnits total ↔ t.ind < memnames.length := by
  have hinit : ∀ verbose : Int, verbose ≠ 0 →
      progress_init fuel verbose total = some ((t.ind : Int), t.shown) := by
    intro verbose hverbose
    rw [progress_init, if_neg hverbose, h, Option.map_some]
  constructor
  · intro hnames
    obtain ⟨fuel', ind, shown, hresult, ⟨-, hlt⟩, -⟩ := hnames 1 (by decide)
    obtain ⟨rfl, -⟩ := Prod.mk.inj (progress_init_unique hresult (hinit 1 (by decide)))
    omega
  · intro hlt verbose hverbose
    have hrange : 0 ≤ (t.ind : Int) ∧ (t.ind : Int) < memnames.length := by omega
    have hname := (memname_ne_none hrange).symm
    refine ⟨fuel, _, _, hinit verbose hverbose, hrange, by simp [Scaling.shown, hname], ?_⟩
    intro current shown' hupdate
    obtain ⟨len, -, rfl⟩ := Option.map_eq_some_iff.mp hupdate
    simp [hverbose, hname]

/-- A size below `1024 ^ 9` is shown in one of the units. -/
theorem namesUnits_finite (q : ℚ) : NamesUnits (.finite q) ↔ q < 1024 ^ 9 := by
  obtain ⟨fuel, t, ht, hind⟩ := scaling_finite q
  rw [namesUnits_of_scaling ht, hind, log_lt_iff]

/-- No file is so large that the units do not suffice for its size. -/
theorem namesUnits_size {size : Nat} (h : size < 2 ^ 64) : NamesUnits (.finite size) := by
  have hsize : (size : ℚ) < 2 ^ 64 := by exact_mod_cast h
  exact (namesUnits_finite size).mpr (hsize.trans (by norm_num))

/-- The loop divides a double in its range so seldom that `ind` is an `int`. -/
theorem log_lt_of_double {q : ℚ} (h : q < 2 ^ 1024) : Nat.log PROGRESS_SCALE ⌊q⌋₊ ≤ 102 := by
  have hpow : ⌊q⌋₊ < PROGRESS_SCALE ^ 103 := by
    rw [Nat.floor_lt' (by decide)]
    have hscale : (2 : ℚ) ^ 10 = 1024 := by norm_num
    have hle : (2 : ℚ) ^ 1024 ≤ 2 ^ (10 * 103) := pow_le_pow_right₀ one_le_two (by decide)
    push_cast [PROGRESS_SCALE]
    rw [pow_mul, hscale] at hle
    exact h.trans_le hle
  exact Nat.le_of_lt_succ (Nat.log_lt_of_lt_pow' (by decide) hpow)

/-- The progress display is started for every size but the positive infinite one. -/
theorem progress_init_isSome (verbose : Int) {total : RDouble} (h : total ≠ .infinite false) :
    ∃ fuel r, progress_init fuel verbose total = some r := by
  by_cases hverbose : verbose = 0
  · exact ⟨0, _, if_pos hverbose⟩
  have hscaling : ∃ fuel t, whileLoop Scaling.test Scaling.next fuel ⟨total, 0⟩ = some t := by
    cases total with
    | nan => exact ⟨1, _, scaling_stops rfl⟩
    | infinite negative =>
      cases negative with
      | true => exact ⟨1, _, scaling_stops rfl⟩
      | false => exact absurd rfl h
    | finite q =>
      obtain ⟨fuel, t, ht, -⟩ := scaling_finite q
      exact ⟨fuel, t, ht⟩
  obtain ⟨fuel, t, ht⟩ := hscaling
  exact ⟨fuel, _, by rw [progress_init, if_neg hverbose, ht, Option.map_some]⟩

/-- The progress display is never started for an infinite size. -/
theorem progress_init_infinite {verbose : Int} (h : verbose ≠ 0) (fuel : Nat) :
    progress_init fuel verbose (.infinite false) = none := by
  rw [progress_init, if_neg h, scaling_infinite, Option.map_none]

theorem not_namesUnits_infinite : ¬ NamesUnits (.infinite false) := by
  intro hnames
  obtain ⟨fuel, ind, shown, hresult, -⟩ := hnames 1 (by decide)
  rw [progress_init_infinite (by decide)] at hresult
  contradiction

/-- The progress display is started and names its units exactly if the size is not at least
`1024 ^ 9`. -/
theorem namesUnits_iff (total : RDouble) : NamesUnits total ↔ total.atLeast (1024 ^ 9) = false := by
  cases total with
  | nan =>
    rw [namesUnits_of_scaling (scaling_stops rfl)]
    exact iff_of_true (by decide) rfl
  | infinite negative =>
    cases negative with
    | true =>
      rw [namesUnits_of_scaling (scaling_stops rfl)]
      exact iff_of_true (by decide) rfl
    | false => exact iff_of_false not_namesUnits_infinite (by simp [RDouble.atLeast])
  | finite q =>
    rw [namesUnits_finite, RDouble.atLeast, decide_eq_false_iff_not, not_le]

/-- An infinite size is divided forever, and `1024 ^ 9` ends behind the last unit. -/
theorem unnamed_sizes : ¬ NamesUnits (.infinite false) ∧ ¬ NamesUnits (.finite (1024 ^ 9)) := by
  refine ⟨not_namesUnits_infinite, ?_⟩
  rw [namesUnits_finite]
  exact lt_irrefl _

end PbdZmq.Transfer
