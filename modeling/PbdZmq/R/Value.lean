import Mathlib.Data.Rat.Defs
import Mathlib.Data.List.Basic

/-!
# R values as the native code sees them

Only the distinctions that the package tests for are kept: `NULL`, raw vectors,
double vectors, and every other object. Serialization is R's own and is relied
on for its round trip alone. Integer coercion and indexed list assignment follow
the language definition.
-/

namespace PbdZmq

/-- A byte string. -/
abbrev Bytes := List UInt8

/-- A double as R stores it. -/
inductive RDouble
  | nan
  | infinite (negative : Bool)
  | finite (q : ℚ)
  deriving DecidableEq, Repr

/-- R objects, over a type `ε` of the objects the package never looks into. -/
inductive RObj (ε : Type)
  | null
  | raw (bytes : Bytes)
  | real (xs : List RDouble)
  | other (x : ε)
  deriving DecidableEq, Repr

/-- `is.null`. -/
def RObj.isNull {ε : Type} : RObj ε → Bool
  | .null => true
  | _ => false

/-- R's `serialize` and `unserialize`; a failing `unserialize` is an R error. -/
structure Serializer (ε : Type) where
  /-- `serialize(x, NULL)`. -/
  serialize : RObj ε → Bytes
  /-- `unserialize(bytes)`, or no value when R raises an error. -/
  unserialize : Bytes → Option (RObj ε)
  /-- What the package relies on. -/
  unserialize_serialize : ∀ x, unserialize (serialize x) = some x

/-- The largest C `int`. -/
def intMax : Nat := 2147483647

/-- `NA_integer_`, which C code reads as the smallest `int`. -/
def naInteger : Int := -2147483648

/-- `as.integer` of a whole number: `NA` outside the range of `int`. -/
def asInteger (x : Int) : Int := if x.natAbs ≤ intMax then x else naInteger

theorem asInteger_eq {x : Int} (h : x.natAbs ≤ intMax) : asInteger x = x := by
  rw [asInteger, if_pos h]

/-- A `size_t` stored in an `int`. -/
def cInt (n : Nat) : Int := (n : Int).bmod 4294967296

theorem cInt_eq {n : Nat} (h : n ≤ intMax) : cInt n = n := by
  have hmax : intMax = 2147483647 := rfl
  exact Int.bmod_eq_of_le (by omega) (by omega)

/-- The `int` that a size becomes is negative, or it is the size modulo 2^32. -/
theorem cInt_cases (n : Nat) : (2147483648 ≤ n % 4294967296 ∧ cInt n < 0) ∨
    (n % 4294967296 < 2147483648 ∧ cInt n = (n % 4294967296 : Nat)) := by
  have hle : -2147483648 ≤ cInt n := Int.le_bmod (by omega)
  have hlt : cInt n < 2147483648 := Int.bmod_lt (by omega)
  have hdvd : (4294967296 : Int) ∣ cInt n - n := Int.dvd_bmod_sub_self
  omega

/-- An `int` stored in a `size_t`. -/
def cSize (x : Int) : Nat := (x % 18446744073709551616).toNat

theorem cSize_natCast {n : Nat} (h : n ≤ intMax) : cSize n = n := by
  have hmax : intMax = 2147483647 := rfl
  unfold cSize
  omega

/-- `x[[i]] <- v` on a list, with R's one-based index. Assigning `NULL` deletes
element `i` or leaves the list alone; any other value past the end pads with `NULL`. -/
def setElement {ε : Type} (xs : List (RObj ε)) (i : Nat) (v : RObj ε) : List (RObj ε) :=
  match v with
  | .null => xs.eraseIdx (i - 1)
  | v =>
    if i - 1 < xs.length then xs.set (i - 1) v
    else xs ++ List.replicate (i - 1 - xs.length) .null ++ [v]

/-- Assigning `NULL` at or past the end leaves the list alone. -/
theorem setElement_null_of_le {ε : Type} {xs : List (RObj ε)} {i : Nat}
    (h : xs.length ≤ i - 1) : setElement xs i .null = xs :=
  List.eraseIdx_of_length_le h

/-- Assigning a value past the end pads with `NULL` up to its position. -/
theorem setElement_of_le {ε : Type} {xs : List (RObj ε)} {i : Nat} {v : RObj ε}
    (hv : v ≠ .null) (h : xs.length ≤ i - 1) :
    setElement xs i v = xs ++ List.replicate (i - 1 - xs.length) .null ++ [v] := by
  cases v with
  | null => exact absurd rfl hv
  | raw | real | other => simp only [setElement, Nat.not_lt.mpr h, ite_false]

/-- `x[[i]]` on a list. A negative index selects the other one of two elements; all other
indices outside the list are errors. -/
def getElement {α : Type} (xs : List α) (i : Int) : Option α :=
  if 1 ≤ i then xs[(i - 1).toNat]?
  else if xs.length = 2 ∧ -2 ≤ i ∧ i ≤ -1 then xs[(2 + i).toNat]?
  else none

/-- R's `a:b` on whole numbers, counting down when `b` is below `a`. -/
def colon (a b : Int) : List Int :=
  if a ≤ b then (List.range (b - a + 1).toNat).map fun i : Nat => a + i
  else (List.range (a - b + 1).toNat).map fun i : Nat => a - i

/-! An executable serializer, to run the models on concrete inputs. -/

/-- A double as three naturals. -/
def RDouble.code : RDouble → List Nat
  | .nan => [0, 0, 0]
  | .infinite negative => [1, negative.toNat, 0]
  | .finite q => [if q.num < 0 then 3 else 2, q.num.natAbs, q.den]

/-- Read a double back from three naturals. -/
def RDouble.ofCode (tag a b : Nat) : Option RDouble :=
  match tag with
  | 0 => some .nan
  | 1 => some (.infinite (a != 0))
  | 2 => some (.finite (mkRat a b))
  | 3 => some (.finite (mkRat (-a) b))
  | _ => none

/-- Read a double vector back. -/
def realsOfCode : List Nat → Option (List RDouble)
  | [] => some []
  | t :: a :: b :: ns => do
    let x ← RDouble.ofCode t a b
    let xs ← realsOfCode ns
    return x :: xs
  | _ => none

theorem realsOfCode_code (xs : List RDouble) :
    realsOfCode (xs.flatMap RDouble.code) = some xs := by
  induction xs with
  | nil => rfl
  | cons x xs ih =>
    have hx : ∀ ns, realsOfCode (x.code ++ ns) = (realsOfCode ns).map (x :: ·) := by
      intro ns
      cases x with
      | nan => cases h : realsOfCode ns <;> simp [RDouble.code, realsOfCode, RDouble.ofCode, h]
      | infinite b =>
        cases b <;> cases h : realsOfCode ns <;>
          simp [RDouble.code, realsOfCode, RDouble.ofCode, h]
      | finite q =>
        have hq : RDouble.ofCode (if q.num < 0 then 3 else 2) q.num.natAbs q.den =
            some (.finite q) := by
          by_cases hneg : q.num < 0
          · have hn : -(q.num.natAbs : Int) = q.num := by omega
            rw [if_pos hneg, RDouble.ofCode, hn, Rat.mkRat_self]
          · have hn : (q.num.natAbs : Int) = q.num := by omega
            rw [if_neg hneg, RDouble.ofCode, hn, Rat.mkRat_self]
        simp only [RDouble.code, List.cons_append, List.nil_append, realsOfCode, hq]
        cases realsOfCode ns <;> rfl
    rw [List.flatMap_cons, hx, ih]
    rfl

/-- Naturals in unary, each closed by a zero byte. -/
def unary (ns : List Nat) : Bytes := ns.flatMap fun n => List.replicate n 1 ++ [0]

/-- Read unary naturals, `n` ones of the current one being read already. -/
def ofUnary (n : Nat) : Bytes → List Nat
  | [] => []
  | b :: bs => if b = 0 then n :: ofUnary 0 bs else ofUnary (n + 1) bs

theorem ofUnary_unary (ns : List Nat) : ofUnary 0 (unary ns) = ns := by
  have hrun : ∀ k n bs, ofUnary n (List.replicate k 1 ++ 0 :: bs) = (n + k) :: ofUnary 0 bs := by
    intro k
    induction k with
    | zero => intro n bs; simp [ofUnary]
    | succ k ih =>
      intro n bs
      rw [List.replicate_succ, List.cons_append, ofUnary, if_neg (by decide), ih]
      simp only [List.cons.injEq, and_true]
      omega
  induction ns with
  | nil => rfl
  | cons n ns ih =>
    rw [unary, List.flatMap_cons, List.append_assoc, List.singleton_append, hrun, Nat.zero_add]
    exact congrArg (n :: ·) ih

/-- A serializer of the objects that the package looks into. -/
def Serializer.basic : Serializer Empty where
  serialize
    | .null => unary [0]
    | .raw bytes => unary (1 :: bytes.map UInt8.toNat)
    | .real xs => unary (2 :: xs.flatMap RDouble.code)
  unserialize bytes :=
    match ofUnary 0 bytes with
    | [0] => some .null
    | 1 :: ns => some (.raw (ns.map UInt8.ofNat))
    | 2 :: ns => (realsOfCode ns).map .real
    | _ => none
  unserialize_serialize x := by
    cases x with
    | null => rfl
    | raw bytes => simp [ofUnary_unary, Function.comp_def]
    | real xs => simp [ofUnary_unary, realsOfCode_code]
    | other x => exact x.elim

end PbdZmq
