import Mathlib.Data.List.Perm.Basic
import PbdZmq.Core.Lines

/-!
# Which environment `ls` lists

`base::ls` lists the environment of its arguments, or else the one it was called from. `ls`
of the package evaluates a call of `base::ls` in the frame two up on the call stack, with the
text of `name` and without `pos` and `envir`. What it hides depends on the environment it was
called from. The command has no pattern here.
-/

namespace PbdZmq.Listing

/-- What `as.environment` accepts. -/
inductive Where (ε : Type) where
  /-- A position on the search list. -/
  | position (n : Int)
  /-- The name of an element of the search list. -/
  | attached (name : Text)
  /-- An environment itself. -/
  | environment (e : ε)

/-- The argument `name`. -/
inductive NameArg (ε : Type) where
  /-- A value. -/
  | value (w : Where ε)
  /-- An expression that cannot be evaluated, in its own words. -/
  | unevaluated (text : Text)

/-- The arguments of `ls` without a pattern, apart from those left out. -/
structure LsArgs (ε : Type) where
  name : Option (NameArg ε)
  pos : Option (Where ε)
  envir : Option ε
  allNames : Bool
  sorted : Bool

/-- The environments of R, apart from the names in them, where `ls` is called. -/
structure Session (ε : Type) where
  /-- `.GlobalEnv`. -/
  global : ε
  /-- The search list. -/
  search : List (Text × ε)
  /-- `environmentName`. -/
  environmentName : ε → Text
  /-- The frames of the functions below `ls` on the call stack, the latest first. -/
  contexts : List ε
  /-- The environment from which `ls` was called, its `parent.frame()`. -/
  parent : ε
  /-- What `base::ls` makes of the text of an argument in some frame, if it parses: the value
  of this code, or the text where the code cannot be evaluated. -/
  valueIn : ε → Text → Option (Where ε)
  /-- The order of sorted names. -/
  collate : List Text → List Text
  /-- Sorting loses no name. -/
  collate_perm : ∀ names, (collate names).Perm names

variable {ε : Type}

/-- `as.environment`, evaluated for a function that was called from `caller`. -/
def Session.asEnvironment (s : Session ε) (caller : ε) : Where ε → Option ε
  | .position n =>
    if n = -1 then some caller
    else if 1 ≤ n then (s.search[n.toNat - 1]?).map Prod.snd else none
  | .attached name => (s.search.find? fun item => item.1 = name).map Prod.snd
  | .environment e => some e

/-- The environment that `base::ls` lists, called from `caller`. -/
def Session.target (s : Session ε) (caller : ε) (a : LsArgs ε) : Option ε :=
  match a.envir with
  | some e => some e
  | none =>
    match a.name with
    | some (.value w) => s.asEnvironment caller w
    | some (.unevaluated text) => s.asEnvironment caller (.attached text)
    | none => s.asEnvironment caller (a.pos.getD (.position (-1)))

/-- The names that `.Internal(ls())` lists, where `names` are those of each environment. -/
def Session.listed (s : Session ε) (names : ε → List Text) (e : ε) (allNames sorted : Bool) :
    List Text :=
  let visible := (names e).filter fun name => allNames || name.head? != some '.'
  if sorted then s.collate visible else visible

/-- `base::ls` without a pattern, called from `caller`. -/
def Session.baseLs (s : Session ε) (names : ε → List Text) (caller : ε) (a : LsArgs ε) :
    Option (List Text) :=
  (s.target caller a).map fun e => s.listed names e a.allNames a.sorted

/-- The objects of the package that nobody should see, `^\.pbd(_|)env$`. -/
def isHidden (name : Text) : Bool := name = ".pbd_env".toList || name = ".pbdenv".toList

/-- The names without these objects. -/
def unhide (ret : List Text) : List Text := ret.filter fun name => !isHidden name

/-- The frame `-2L` of `eval`, behind those of `eval` and `ls`. -/
def Session.frame (s : Session ε) : ε := s.contexts.headD s.global

/-- `name` after it was pasted and read in the frame of the command. No environment is pasted,
and nothing that cannot be evaluated. -/
def Session.pasted (s : Session ε) : NameArg ε → Option (Where ε)
  | .value (.position n) => some (.position n)
  | .value (.attached name) => s.valueIn s.frame name
  | .value (.environment _) => none
  | .unevaluated _ => none

/-- The command that `ls` evaluates. An argument that cannot be pasted is an R error. -/
def Session.command (s : Session ε) (names : ε → List Text) (a : LsArgs ε) :
    Option (List Text) :=
  match a.name with
  | none => s.baseLs names s.frame ⟨none, none, none, a.allNames, a.sorted⟩
  | some name => (s.pasted name).bind fun w =>
      s.baseLs names s.frame ⟨some (.value w), none, none, a.allNames, a.sorted⟩

/-- `ls` of the package without a pattern. -/
def Session.ls (s : Session ε) (names : ε → List Text) (a : LsArgs ε) : Option (List Text) :=
  (s.command names a).map fun ret =>
    if a.allNames = true ∧ s.environmentName s.parent = "R_GlobalEnv".toList then unhide ret
    else ret

/-- The text of `name`, or the frame two up without it, stands for one environment. -/
def Session.Denotes (s : Session ε) (name : Option (NameArg ε)) (e : ε) : Prop :=
  match name with
  | none => s.frame = e
  | some (.value (.position n)) => s.asEnvironment s.frame (.position n) = some e
  | some (.value (.attached text)) =>
    (s.valueIn s.frame text).bind (s.asEnvironment s.frame) = some e
  | some (.value (.environment _)) => False
  | some (.unevaluated _) => False

/-- The text stands for the environment that `base::ls` lists, and hidden objects are sought
there exactly if `ls` was called from the global environment. -/
def Session.Transparent (s : Session ε) (a : LsArgs ε) : Prop :=
  ∀ e, s.target s.parent a = some e → s.Denotes a.name e ∧
    (a.allNames = true → (s.environmentName s.parent = "R_GlobalEnv".toList ↔ e = s.global))

/-- Without a name `base::ls` lists the environment from which it was called. -/
theorem Session.target_default (s : Session ε) (caller : ε) (allNames sorted : Bool) :
    s.target caller ⟨none, none, none, allNames, sorted⟩ = some caller := rfl

/-- The command lists the environment for which the text stands. -/
theorem Session.command_eq_some {s : Session ε} {names : ε → List Text} {a : LsArgs ε}
    {ret : List Text} :
    s.command names a = some ret ↔
      ∃ e, s.Denotes a.name e ∧ s.listed names e a.allNames a.sorted = ret := by
  unfold command Denotes
  cases a.name with
  | none => simp [baseLs, target_default]
  | some name =>
    cases name with
    | unevaluated text => simp [pasted]
    | value w =>
      cases w with
      | position n => simp [pasted, baseLs, target]
      | attached text =>
        cases hvalue : s.valueIn s.frame text <;> simp [pasted, hvalue, baseLs, target]
      | environment e => simp [pasted]

/-- The text stands for one environment only. -/
theorem Session.Denotes.unique {s : Session ε} {name : Option (NameArg ε)} {e e' : ε}
    (h : s.Denotes name e) (h' : s.Denotes name e') : e = e' := by
  unfold Denotes at h h'
  split at h
  · exact h.symm.trans h'
  · exact Option.some.inj (h.symm.trans h')
  · exact Option.some.inj (h.symm.trans h')
  · exact h.elim
  · exact h.elim

/-- A single visible name is listed. -/
theorem Session.listed_singleton (s : Session ε) {names : ε → List Text} {e : ε} {name : Text}
    {allNames : Bool} (h : names e = [name])
    (hvisible : (allNames || name.head? != some '.') = true) (sorted : Bool) :
    s.listed names e allNames sorted = [name] := by
  have hfilter : (names e).filter (fun name => allNames || name.head? != some '.') = [name] := by
    rw [h, List.filter_singleton, hvisible]
    rfl
  rw [listed, hfilter]
  cases sorted with
  | false => rfl
  | true => exact List.perm_singleton.mp (s.collate_perm [name])

/-- Nothing is listed from an empty environment. -/
theorem Session.listed_nil (s : Session ε) {names : ε → List Text} {e : ε} (h : names e = [])
    (allNames sorted : Bool) : s.listed names e allNames sorted = [] := by
  rw [listed, h, List.filter_nil]
  cases sorted with
  | false => rfl
  | true => exact List.perm_nil.mp (s.collate_perm [])

variable [DecidableEq ε]

/-- `base::ls` without the hidden objects of the global environment. -/
def Session.meant (s : Session ε) (names : ε → List Text) (a : LsArgs ε) : Option (List Text) :=
  (s.target s.parent a).map fun e =>
    if a.allNames = true ∧ e = s.global then unhide (s.listed names e a.allNames a.sorted)
    else s.listed names e a.allNames a.sorted

/-- Where `base::ls` returns, `ls` returns the same names, whatever the environments hold. -/
def Session.Agrees (s : Session ε) (a : LsArgs ε) : Prop :=
  ∀ (names : ε → List Text) (ret : List Text), s.meant names a = some ret → s.ls names a = some ret

/-- A name that is alone in the listed environment shows which environment the text stands
for. -/
theorem Session.Agrees.denotes {s : Session ε} {a : LsArgs ε} (h : s.Agrees a) {e : ε}
    (htarget : s.target s.parent a = some e) : s.Denotes a.name e := by
  let names : ε → List Text := fun x => if x = e then ["x".toList] else []
  have hvisible : (a.allNames || "x".toList.head? != some '.') = true := by
    cases a.allNames <;> rfl
  have hlisted : s.listed names e a.allNames a.sorted = ["x".toList] :=
    s.listed_singleton (if_pos rfl) hvisible a.sorted
  have hshown : unhide ["x".toList] = ["x".toList] := by decide
  have hmeant : s.meant names a = some ["x".toList] := by
    rw [meant, htarget, Option.map_some, hlisted, hshown, ite_self]
  obtain ⟨ret, hcommand, hret⟩ := Option.map_eq_some_iff.mp (h names _ hmeant)
  obtain ⟨e', hdenotes, hlisted'⟩ := command_eq_some.mp hcommand
  have hsame : e' = e := by
    by_contra hother
    rw [s.listed_nil (if_neg hother)] at hlisted'
    have hempty : unhide [] = [] := rfl
    rw [← hlisted', hempty, ite_self] at hret
    simp at hret
  rwa [← hsame]

/-- Two conditions for a list to be empty are one if the lists are. -/
private theorem iff_of_shown {α : Type} {x : α} {p q : Prop} [Decidable p] [Decidable q]
    (h : (if p then [] else [x]) = if q then [] else [x]) : p ↔ q := by
  by_cases hp : p
  · by_cases hq : q
    · exact iff_of_true hp hq
    · simp [hp, hq] at h
  · by_cases hq : q
    · simp [hp, hq] at h
    · exact iff_of_false hp hq

/-- A hidden object shows whether hidden objects are sought. -/
theorem Session.Agrees.global_iff {s : Session ε} {a : LsArgs ε} (h : s.Agrees a) {e : ε}
    (htarget : s.target s.parent a = some e) (hall : a.allNames = true) :
    s.environmentName s.parent = "R_GlobalEnv".toList ↔ e = s.global := by
  let names : ε → List Text := fun _ => [".pbdenv".toList]
  have hlisted : s.listed names e a.allNames a.sorted = [".pbdenv".toList] :=
    s.listed_singleton rfl (by rw [hall, Bool.true_or]) a.sorted
  have hcommand : s.command names a = some [".pbdenv".toList] :=
    command_eq_some.mpr ⟨e, h.denotes htarget, hlisted⟩
  have hhidden : unhide [".pbdenv".toList] = [] := by decide
  have hmeant : s.meant names a = some (if e = s.global then [] else [".pbdenv".toList]) := by
    rw [meant, htarget, Option.map_some, hlisted, hhidden]
    simp only [hall, true_and]
  have hls := h names _ hmeant
  rw [ls, hcommand, Option.map_some, hhidden] at hls
  simp only [hall, true_and, Option.some.injEq] at hls
  exact iff_of_shown hls

/-- `ls` agrees with `base::ls` in every state exactly if the text stands for the environment
that `base::ls` lists and hidden objects are sought where they are. -/
theorem Session.agrees_iff (s : Session ε) (a : LsArgs ε) : s.Agrees a ↔ s.Transparent a := by
  constructor
  · intro hagrees e htarget
    exact ⟨hagrees.denotes htarget, hagrees.global_iff htarget⟩
  · intro htransparent names ret hmeant
    obtain ⟨e, htarget, rfl⟩ := Option.map_eq_some_iff.mp hmeant
    obtain ⟨hdenotes, hglobal⟩ := htransparent e htarget
    have hcommand : s.command names a = some (s.listed names e a.allNames a.sorted) :=
      command_eq_some.mpr ⟨e, hdenotes, rfl⟩
    have hsame : (a.allNames = true ∧ s.environmentName s.parent = "R_GlobalEnv".toList) ↔
        (a.allNames = true ∧ e = s.global) := and_congr_right hglobal
    rw [ls, hcommand, Option.map_some]
    simp only [hsame]

/-- A function that lists its frame and its caller's. -/
def inFunction : Session Bool where
  global := false
  search := [(".GlobalEnv".toList, false)]
  environmentName e := if e then [] else "R_GlobalEnv".toList
  contexts := [true]
  parent := true
  valueIn _ text := some (.attached text)
  collate := id
  collate_perm _ := .refl _

/-- An explicit environment is not the one that is listed. -/
theorem ignored_envir : ¬ ∀ (s : Session Bool) (a : LsArgs Bool), s.Agrees a := by
  intro hall
  have hls := hall inFunction ⟨none, none, some false, false, true⟩
    (fun e => if e then ["local".toList] else ["x".toList]) ["x".toList] (by decide)
  exact absurd hls (by decide)

end PbdZmq.Listing
