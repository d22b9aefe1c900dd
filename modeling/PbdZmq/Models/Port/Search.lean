import PbdZmq.Core.Decimal
import PbdZmq.Core.Split
import PbdZmq.Models.Options.Store
import PbdZmq.Models.Port.Random

/-!
# The search for an open port

`random_open_port` binds random ports until one attempt raises no condition. libzmq reads the
port from the text of the endpoint, modulo 65536, and lets the system choose one for zero.
-/

namespace PbdZmq.Port

open Options (MC)

/-- `paste0` of an integer. -/
def integerText (p : Int) : Text :=
  if p = naInteger then "NA".toList
  else if p < 0 then '-' :: decimal p.natAbs
  else decimal p.natAbs

/-- The digits at the start of a text as a number. -/
def leadingNumber (text : Text) : Int := Nat.ofDigitChars 10 (text.takeWhile Char.isDigit) 0

/-- C's `atoi`. -/
def atoi (text : Text) : Int :=
  let digits := text.dropWhile Char.isWhitespace
  if digits.head? = some '-' then -leadingNumber (digits.drop 1)
  else if digits.head? = some '+' then leadingNumber (digits.drop 1)
  else leadingNumber digits

/-- What the operating system does at the `k`-th attempt. -/
structure System where
  /-- A TCP port, or zero for any of them, can be bound. -/
  free : Nat → Nat → Bool
  /-- The port that is bound for zero. -/
  assigned : Nat → Nat
  /-- It is a port. -/
  assigned_pos : ∀ k, 0 < assigned k

/-- The text of the port in a TCP endpoint. -/
def portText (endpoint : Text) : Option Text :=
  (splitFirst "://".toList endpoint).bind fun uri =>
    if uri.1 = "tcp".toList then (splitLast ':' uri.2).map Prod.snd else none

/-- The TCP port that `zmq_bind` binds, if it does not return -1. -/
def System.zmq_bind (w : System) (k : Nat) (endpoint : Text) : Option Nat :=
  (portText endpoint).bind fun text =>
    if text = "*".toList ∨ text = "0".toList then
      if w.free k 0 then some (w.assigned k) else none
    else
      let port := (atoi text % 65536).toNat
      if port = 0 then none else if w.free k port then some port else none

/-- A condition that `tryCatch` returns. -/
inductive Condition where
  | error
  | warning
deriving DecidableEq

/-- What `zmq.bind` raises. -/
def bindCondition (mc : MC) (bound : Option Nat) : Option Condition :=
  match bound with
  | some _ => none
  | none =>
    if mc.stopAtError then some .error else if mc.warningAtError then some .warning else none

/-- One round of the loop. -/
structure Attempt where
  /-- `port`. -/
  port : Int
  /-- The TCP port that is bound. -/
  bound : Option Nat
  /-- What the bind raises. -/
  raised : Option Condition

/-- The loop over `i`, from the `k`-th attempt on: the attempts and `ret`. -/
def searchFrom (attempt : Nat → Attempt) : List Int → Nat → List Attempt × Int
  | [], _ => ([], -1)
  | _ :: is, k =>
    if (attempt k).raised = none then ([attempt k], (attempt k).port)
    else
      let r := searchFrom attempt is (k + 1)
      (attempt k :: r.1, r.2)

/-- The attempts of `random_open_port` and its result. -/
def search (attempt : Nat → Attempt) (maxTries : Nat) : List Attempt × Except Text Int :=
  let r := searchFrom attempt (colon 1 maxTries) 0
  (r.1, if r.2 = -1 then .error "No valid port could be found.".toList else .ok r.2)

section Draws

variable {α : Type} [Field α] [LinearOrder α] [FloorRing α]

/-- The `k`-th attempt, on the `k`-th draw. -/
def System.attempt (w : System) (minPort maxPort : α) (draws : Nat → α) (k : Nat) : Attempt :=
  let port := (randomPort minPort maxPort (draws k)).2
  let bound := w.zmq_bind k ("tcp://*:".toList ++ integerText port)
  ⟨port, bound, bindCondition MC.default bound⟩

/-- `random_open_port`. -/
def System.randomOpenPort (w : System) (minPort maxPort : α) (draws : Nat → α) (maxTries : Nat) :
    List Attempt × Except Text Int :=
  search (w.attempt minPort maxPort draws) maxTries

end Draws

/-- At most `max_tries` attempts are made, none after one that raised nothing. A port is
returned if it was bound last, and the error is raised after all attempts. -/
structure Searches (maxTries : Nat) (r : List Attempt × Except Text Int) : Prop where
  atMost : r.1.length ≤ maxTries
  stops : ∀ a ∈ r.1.dropLast, a.raised ≠ none
  returned : ∀ p, r.2 = .ok p → ∃ a, r.1.getLast? = some a ∧ a.raised = none ∧ a.port = p ∧
    a.bound.map Nat.cast = some p
  failed : ∀ message, r.2 = .error message →
    message = "No valid port could be found.".toList ∧ r.1.length = maxTries

/-- The search has a first attempt to make, and the first one that raises nothing is made on a
TCP port, or on the last try on port -1, which is taken for no port. -/
def FirstOpenIsPort (attempt : Nat → Attempt) (maxTries : Nat) : Prop :=
  1 ≤ maxTries ∧ ∀ k < maxTries, (∀ j < k, (attempt j).raised ≠ none) →
    (attempt k).raised = none →
    (1 ≤ (attempt k).port ∧ (attempt k).port ≤ 65535) ∨
      ((attempt k).port = -1 ∧ k + 1 = maxTries)

/-- A number starts with no blank. -/
theorem dropWhile_decimal (n : Nat) : (decimal n).dropWhile Char.isWhitespace = decimal n := by
  obtain ⟨digits, hdigits⟩ := decimal_eq_cons n
  have hblank : ∀ d < 10, (Nat.digitChar d).isWhitespace = false := by decide
  rw [hdigits, List.dropWhile_cons_of_neg]
  rw [hblank _ (leadingDigit_lt n)]
  exact Bool.false_ne_true

/-- The digits of a number are read. -/
theorem leadingNumber_decimal (n : Nat) : leadingNumber (decimal n) = n := by
  have hall : (decimal n).takeWhile Char.isDigit = decimal n :=
    List.takeWhile_eq_self_iff.mpr fun _ => isDigit_of_mem_decimal
  rw [leadingNumber, hall, decimal, Nat.ofDigitChars_toDigits (by decide) le_rfl]

/-- A number starts with no sign. -/
theorem head?_decimal_ne {c : Char} (h : c.isDigit = false) (n : Nat) :
    (decimal n).head? ≠ some c := by
  intro hhead
  have hdigit := isDigit_of_mem_decimal (List.mem_of_mem_head? hhead)
  rw [h] at hdigit
  exact Bool.false_ne_true hdigit

/-- An integer is read back from its text. -/
theorem atoi_integerText {p : Int} (h : p ≠ naInteger) : atoi (integerText p) = p := by
  rw [integerText, if_neg h]
  by_cases hneg : p < 0
  · have hblank : ('-' :: decimal p.natAbs).dropWhile Char.isWhitespace =
        '-' :: decimal p.natAbs := rfl
    rw [if_pos hneg, atoi, hblank]
    simp only [List.head?_cons, if_true, List.drop_succ_cons, List.drop_zero,
      leadingNumber_decimal]
    omega
  · have hminus : (decimal p.natAbs).head? ≠ some '-' := head?_decimal_ne (by decide) _
    have hplus : (decimal p.natAbs).head? ≠ some '+' := head?_decimal_ne (by decide) _
    rw [if_neg hneg, atoi, dropWhile_decimal]
    simp only [if_neg hminus, if_neg hplus, leadingNumber_decimal]
    omega

/-- No integer has a colon. -/
theorem colon_notMem_integerText (p : Int) : ':' ∉ integerText p := by
  have hdecimal : ':' ∉ decimal p.natAbs := fun hmem =>
    absurd (isDigit_of_mem_decimal hmem) (by decide)
  rw [integerText]
  split
  · decide
  · split
    · rw [List.mem_cons, not_or]
      exact ⟨by decide, hdecimal⟩
    · exact hdecimal

/-- libzmq finds the port in the endpoint. -/
theorem portText_integerText (p : Int) :
    portText ("tcp://*:".toList ++ integerText p) = some (integerText p) := by
  have huri : "tcp://*:".toList ++ integerText p =
      "tcp".toList ++ "://".toList ++ ("*".toList ++ ':' :: integerText p) := rfl
  have hsplit : splitFirst "://".toList ("tcp".toList ++ "://".toList ++
      ("*".toList ++ ':' :: integerText p)) =
        some ("tcp".toList, "*".toList ++ ':' :: integerText p) :=
    splitFirst_append (by decide) _
  rw [portText, huri, hsplit, Option.bind_some, if_pos rfl,
    splitLast_append (colon_notMem_integerText p), Option.map_some]

/-- The text of the port is that of zero only for zero. -/
theorem integerText_eq_zero_iff (p : Int) : integerText p = "0".toList ↔ p = 0 := by
  have hzero : "0".toList = decimal 0 := by decide
  constructor
  · rw [integerText]
    split
    · intro h
      exact absurd h (by decide)
    · split
      · intro h
        simp at h
      · intro h
        rw [hzero] at h
        exact Int.natAbs_eq_zero.mp (decimal_injective h)
  · rintro rfl
    decide

/-- The text of an integer is no wildcard. -/
theorem integerText_ne_wildcard (p : Int) : integerText p ≠ "*".toList := by
  rw [integerText]
  split
  · decide
  · split
    · simp
    · intro h
      have hmem : '*' ∈ decimal p.natAbs := by
        rw [h]
        decide
      exact absurd (isDigit_of_mem_decimal hmem) (by decide)

/-- A port is bound modulo 65536, and zero anywhere. -/
theorem System.zmq_bind_integerText (w : System) (k : Nat) (p : Int) :
    w.zmq_bind k ("tcp://*:".toList ++ integerText p) =
      if p = 0 then if w.free k 0 then some (w.assigned k) else none
      else if (p % 65536).toNat = 0 then none
      else if w.free k (p % 65536).toNat then some (p % 65536).toNat else none := by
  have hwildcard : (integerText p = "*".toList ∨ integerText p = "0".toList) ↔ p = 0 := by
    rw [or_iff_right (integerText_ne_wildcard p), integerText_eq_zero_iff]
  rw [zmq_bind, portText_integerText, Option.bind_some]
  simp only [hwildcard]
  by_cases hna : p = naInteger
  · have hzero : (atoi (integerText naInteger) % 65536).toNat = 0 := by decide
    have hmod : (naInteger % 65536).toNat = 0 := by decide
    simp only [hna, hzero, hmod, if_true]
  · rw [atoi_integerText hna]

/-- The port is the one that was bound exactly if it is a TCP port. -/
theorem System.zmq_bind_eq_iff {w : System} {k : Nat} {p : Int} {q : Nat}
    (h : w.zmq_bind k ("tcp://*:".toList ++ integerText p) = some q) :
    (q : Int) = p ↔ 1 ≤ p ∧ p ≤ 65535 := by
  rw [zmq_bind_integerText] at h
  by_cases hzero : p = 0
  · rw [if_pos hzero] at h
    split at h
    · have hq : w.assigned k = q := Option.some.inj h
      have hpos := w.assigned_pos k
      omega
    · simp at h
  · rw [if_neg hzero] at h
    split at h
    · simp at h
    · split at h
      · have hq : (p % 65536).toNat = q := Option.some.inj h
        omega
      · simp at h

/-- The loop makes all attempts, or stops at the first one that raises nothing. -/
theorem searchFrom_cases (attempt : Nat → Attempt) (is : List Int) (k : Nat) :
    ((∀ m < is.length, (attempt (k + m)).raised ≠ none) ∧
      searchFrom attempt is k = ((List.range is.length).map fun m => attempt (k + m), -1)) ∨
    ∃ m < is.length, (∀ j < m, (attempt (k + j)).raised ≠ none) ∧
      (attempt (k + m)).raised = none ∧
      searchFrom attempt is k =
        ((List.range (m + 1)).map fun j => attempt (k + j), (attempt (k + m)).port) := by
  induction is generalizing k with
  | nil => exact Or.inl ⟨fun m hm => absurd hm (Nat.not_lt_zero m), rfl⟩
  | cons i is ih =>
    have hshift : ∀ m, k + 1 + m = k + (m + 1) := fun m => by omega
    have hlater : ∀ n, (List.range (n + 1)).map (fun m => attempt (k + m)) =
        attempt k :: (List.range n).map fun m => attempt (k + (m + 1)) := by
      intro n
      rw [List.range_succ_eq_map, List.map_cons, List.map_map]
      rfl
    by_cases hraised : (attempt k).raised = none
    · refine Or.inr ⟨0, Nat.succ_pos _, fun j hj => absurd hj (Nat.not_lt_zero j), hraised, ?_⟩
      rw [searchFrom, if_pos hraised]
      rfl
    · have hstep : searchFrom attempt (i :: is) k =
          (attempt k :: (searchFrom attempt is (k + 1)).1, (searchFrom attempt is (k + 1)).2) :=
        if_neg hraised
      rcases ih (k + 1) with ⟨hall, hloop⟩ | ⟨m, hm, hbefore, hopen, hloop⟩
      · simp only [hshift] at hall hloop
        refine Or.inl ⟨fun m hm => ?_, ?_⟩
        · cases m with
          | zero => exact hraised
          | succ m => exact hall m (Nat.lt_of_succ_lt_succ hm)
        · rw [hstep, hloop, List.length_cons, hlater]
      · simp only [hshift] at hbefore hopen hloop
        refine Or.inr ⟨m + 1, Nat.succ_lt_succ hm, fun j hj => ?_, hopen, ?_⟩
        · cases j with
          | zero => exact hraised
          | succ j => exact hbefore j (Nat.lt_of_succ_lt_succ hj)
        · rw [hstep, hloop, hlater]

/-- `1:max_tries` has as many elements as there are tries, but two for none. -/
theorem length_colon (maxTries : Nat) :
    (colon 1 maxTries).length = if maxTries = 0 then 2 else maxTries := by
  rw [colon]
  by_cases hzero : maxTries = 0
  · rw [if_pos hzero, hzero]
    rfl
  · rw [if_neg hzero, if_pos (by omega), List.length_map, List.length_range]
    omega

/-- The first attempt is made, however many are wanted. -/
theorem search_ne_nil (attempt : Nat → Attempt) (maxTries : Nat) :
    (search attempt maxTries).1 ≠ [] := by
  have hlength := length_colon maxTries
  have hpos : 0 < (colon 1 maxTries).length := by
    rw [hlength]
    split <;> omega
  rw [search]
  rcases searchFrom_cases attempt (colon 1 maxTries) 0 with ⟨-, hloop⟩ | ⟨m, -, -, -, hloop⟩
  · rw [hloop]
    simp only [ne_eq, List.map_eq_nil_iff, List.range_eq_nil]
    omega
  · rw [hloop]
    simp

/-- Without an open port all tries are made. -/
theorem searches_of_raised {attempt : Nat → Attempt} {maxTries : Nat}
    (hraised : ∀ k < maxTries, (attempt k).raised ≠ none) :
    Searches maxTries ((List.range maxTries).map attempt,
      .error "No valid port could be found.".toList) where
  atMost := by rw [List.length_map, List.length_range]
  stops a ha := by
    obtain ⟨k, hk, rfl⟩ := List.mem_map.mp (List.dropLast_subset _ ha)
    exact hraised k (List.mem_range.mp hk)
  returned p h := by simp at h
  failed message h := by
    rw [List.length_map, List.length_range]
    exact ⟨(Except.error.inj h).symm, rfl⟩

/-- The attempts up to the first open port are those that a search may make. -/
theorem searches_iff_of_open {attempt : Nat → Attempt} {maxTries m : Nat} (hm : m < maxTries)
    (hbefore : ∀ j < m, (attempt j).raised ≠ none) {q : Nat} (hopen : (attempt m).raised = none)
    (hbound : (attempt m).bound = some q) (answer : Except Text Int)
    (hanswer : answer = if (attempt m).port = -1 then
      .error "No valid port could be found.".toList else .ok (attempt m).port) :
    Searches maxTries ((List.range (m + 1)).map attempt, answer) ↔
      if (attempt m).port = -1 then m + 1 = maxTries else (q : Int) = (attempt m).port := by
  have hattempts :
      (List.range (m + 1)).map attempt = (List.range m).map attempt ++ [attempt m] := by
    rw [List.range_succ, List.map_append, List.map_singleton]
  have hlength : ((List.range (m + 1)).map attempt).length = m + 1 := by
    rw [List.length_map, List.length_range]
  have hlast : ((List.range (m + 1)).map attempt).getLast? = some (attempt m) := by
    rw [hattempts, List.getLast?_concat]
  have hdrop : ∀ a ∈ ((List.range (m + 1)).map attempt).dropLast, a.raised ≠ none := by
    rw [hattempts, List.dropLast_concat]
    intro a ha
    obtain ⟨j, hj, rfl⟩ := List.mem_map.mp ha
    exact hbefore j (List.mem_range.mp hj)
  by_cases hsentinel : (attempt m).port = -1
  · rw [if_pos hsentinel] at hanswer ⊢
    subst hanswer
    constructor
    · intro hsearches
      exact hlength.symm.trans (hsearches.failed _ rfl).2
    · intro heq
      exact ⟨by rw [hlength, heq], hdrop, fun p h => by simp at h,
        fun message h => ⟨(Except.error.inj h).symm, hlength.trans heq⟩⟩
  · rw [if_neg hsentinel] at hanswer ⊢
    subst hanswer
    constructor
    · intro hsearches
      obtain ⟨a, ha, -, -, hport⟩ := hsearches.returned _ rfl
      rw [hlast] at ha
      rw [← Option.some.inj ha, hbound] at hport
      exact Option.some.inj hport
    · intro heq
      refine ⟨by rw [hlength]; omega, hdrop, fun p h => ?_, fun message h => by simp at h⟩
      obtain rfl := Except.ok.inj h
      exact ⟨attempt m, hlast, hopen, rfl, by rw [hbound, Option.map_some, heq]⟩

/-- Only the first attempt that raises nothing counts. -/
theorem firstOpenIsPort_iff {attempt : Nat → Attempt} {maxTries m : Nat} (hm : m < maxTries)
    (hbefore : ∀ j < m, (attempt j).raised ≠ none) (hopen : (attempt m).raised = none) :
    FirstOpenIsPort attempt maxTries ↔
      (1 ≤ (attempt m).port ∧ (attempt m).port ≤ 65535) ∨
        ((attempt m).port = -1 ∧ m + 1 = maxTries) := by
  constructor
  · exact fun hfirst => hfirst.2 m hm hbefore hopen
  · intro hport
    refine ⟨by omega, fun k hk hfirst hnone => ?_⟩
    rcases Nat.lt_trichotomy k m with hlt | rfl | hgt
    · exact absurd hnone (hbefore k hlt)
    · exact hport
    · exact absurd hopen (hfirst m hgt)

/-- The search is right exactly if it has an attempt to make and stops on a TCP port. -/
theorem searches_iff {attempt : Nat → Attempt}
    (hraised : ∀ k, (attempt k).raised = none → ∃ q, (attempt k).bound = some q)
    (hbound : ∀ k q, (attempt k).bound = some q →
      ((q : Int) = (attempt k).port ↔ 1 ≤ (attempt k).port ∧ (attempt k).port ≤ 65535))
    (maxTries : Nat) :
    Searches maxTries (search attempt maxTries) ↔ FirstOpenIsPort attempt maxTries := by
  by_cases hzero : maxTries = 0
  · refine iff_of_false (fun hsearches => ?_) (fun hfirst => absurd hfirst.1 (by omega))
    have hlength : (search attempt maxTries).1.length = 0 :=
      Nat.le_zero.mp (hsearches.atMost.trans hzero.le)
    exact search_ne_nil attempt maxTries (List.length_eq_zero_iff.mp hlength)
  have hcases := searchFrom_cases attempt (colon 1 maxTries) 0
  simp only [length_colon, if_neg hzero, Nat.zero_add] at hcases
  rw [search]
  rcases hcases with ⟨hall, hloop⟩ | ⟨m, hm, hbefore, hopen, hloop⟩
  · rw [hloop]
    exact iff_of_true (searches_of_raised hall)
      ⟨Nat.pos_of_ne_zero hzero, fun k hk _ hnone => absurd hnone (hall k hk)⟩
  · obtain ⟨q, hq⟩ := hraised m hopen
    rw [hloop, searches_iff_of_open hm hbefore hopen hq _ rfl,
      firstOpenIsPort_iff hm hbefore hopen]
    by_cases hsentinel : (attempt m).port = -1
    · rw [if_pos hsentinel, hsentinel]
      simp
    · rw [if_neg hsentinel, hbound m q hq]
      simp [hsentinel]

section Draws

variable {α : Type} [Field α] [LinearOrder α] [FloorRing α]

/-- With the default message control an attempt raises nothing exactly if it binds. -/
theorem bindCondition_default {bound : Option Nat} (h : bindCondition MC.default bound = none) :
    ∃ q, bound = some q := by
  cases bound with
  | none => exact absurd h (by decide)
  | some q => exact ⟨q, rfl⟩

/-- `random_open_port` is right exactly if it has an attempt to make and the first port that it
binds is a TCP port. -/
theorem randomOpenPort_iff (w : System) (minPort maxPort : α) (draws : Nat → α) (maxTries : Nat) :
    Searches maxTries (w.randomOpenPort minPort maxPort draws maxTries) ↔
      FirstOpenIsPort (w.attempt minPort maxPort draws) maxTries :=
  searches_iff (fun _ hnone => bindCondition_default hnone)
    (fun _ _ hbound => w.zmq_bind_eq_iff hbound) maxTries

end Draws

/-- A system that binds every port. -/
def idle : System where
  free _ _ := true
  assigned _ := 32768
  assigned_pos _ := by decide

/-- Port 70000 is returned where libzmq binds port 4464. -/
theorem port_70000 : ¬ ∀ (w : System) (minPort maxPort : ℚ) (draws : Nat → ℚ) (maxTries : Nat),
    minPort ≤ maxPort → (∀ k, IsDraw minPort maxPort (draws k)) →
    Searches maxTries (w.randomOpenPort minPort maxPort draws maxTries) := by
  intro hall
  have hdraw : IsDraw (70000 : ℚ) 70000 (140001 / 2) := by constructor <;> norm_num
  have hsearches := hall idle 70000 70000 (fun _ => 140001 / 2) 1 le_rfl fun _ => hdraw
  have hport : (idle.attempt (70000 : ℚ) 70000 (fun _ => 140001 / 2) 0).port = 70000 := by
    decide +kernel
  have hraised : (idle.attempt (70000 : ℚ) 70000 (fun _ => 140001 / 2) 0).raised = none := by
    decide +kernel
  have hfirst := (searches_iff (fun _ hnone => bindCondition_default hnone)
    (fun _ _ hbound => idle.zmq_bind_eq_iff hbound) 1).mp hsearches
  have hvalid := hfirst.2 0 Nat.one_pos (fun j hj => absurd hj (Nat.not_lt_zero j)) hraised
  rw [hport] at hvalid
  omega

end PbdZmq.Port
