import PbdZmq.Models.Listing.Names
import PbdZmq.R.Call

/-!
# The pattern in the command of `ls`

`ls` pastes its arguments into the text of a call of `base::ls` and lets R parse it. The
pattern stands between quotes as it is, so that it comes back changed, or not at all, where
R reads an escape or an early end of the literal. The names are sought where `ls` seeks them
without a pattern.
-/

namespace PbdZmq.Listing

open Call

variable {ε : Type}

/-- A logical as `paste` writes it. -/
def logical (b : Bool) : Text := if b then "TRUE".toList else "FALSE".toList

/-- The command that `ls` builds, `name` being `as.character(name)`. -/
def lsCommand (name : Option Text) (allNames : Bool) (pattern : Option Text) (sorted : Bool) :
    Text :=
  "base::ls(".toList ++ name.elim [] (fun name => name ++ ", ".toList) ++
    ("all.names = ".toList ++ logical allNames ++ ", ".toList) ++
    pattern.elim [] (fun pattern => "pattern = \"".toList ++ pattern ++ "\", ".toList) ++
    ("sorted = ".toList ++ logical sorted ++ ")".toList)

/-- `as.character(name)`, which is an R error for an environment. -/
def NameArg.text : NameArg ε → Option Text
  | .value (.position n) => some (toString n).toList
  | .value (.attached name) => some name
  | .value (.environment _) => none
  | .unevaluated _ => none

/-- What R makes of texts. -/
structure Language where
  /-- The text, pasted with a comma behind `base::ls(`, is read as arguments that stand before
  those behind it, none of them called `pattern`. -/
  reads : Text → Bool
  /-- A number is an argument. -/
  reads_position : ∀ n : Int, reads (toString n).toList = true
  /-- The names that a pattern matches, unless `grep` refuses it. -/
  regexp : Text → Option (Text → Bool)

/-- The arguments that R reads in the command: those of `name` first, if they are read, and then
the others. -/
def Language.readCommand (l : Language) (name : Option Text) (allNames : Bool) (pattern : Text)
    (sorted : Bool) : Except Failure (List Argument) :=
  let others := readCall "base::ls".toList (lsCommand none allNames (some pattern) sorted)
  match name with
  | none => others
  | some text =>
    if l.reads text then others.map (⟨none, .code text⟩ :: ·) else .error .unsupported

/-- The pattern argument that a command passes to `base::ls`, if it parses. What R makes of
other code is left open. -/
def Language.patternArgument (l : Language) (elsewhere : Text → Option Text)
    (name : Option Text) (allNames : Bool) (pattern : Text) (sorted : Bool) : Option Text :=
  match l.readCommand name allNames pattern sorted with
  | .ok args =>
    match args.filter fun a => a.tag = some "pattern".toList with
    | [⟨_, .quoted pattern⟩] => some pattern
    | [⟨_, .code _⟩] => elsewhere (lsCommand name allNames (some pattern) sorted)
    | _ => none
  | .error .syntaxError => none
  | .error .unsupported => elsewhere (lsCommand name allNames (some pattern) sorted)

/-- The pattern argument of the command for some arguments of `ls`, if there is a command. -/
def Language.passed (l : Language) (elsewhere : Text → Option Text) (a : LsArgs ε)
    (pattern : Text) : Option Text :=
  match a.name with
  | none => l.patternArgument elsewhere none a.allNames pattern a.sorted
  | some name => name.text.bind fun text =>
      l.patternArgument elsewhere (some text) a.allNames pattern a.sorted

/-- `ls` of the package with a pattern. -/
def Session.lsMatching (s : Session ε) (l : Language) (elsewhere : Text → Option Text)
    (names : ε → List Text) (a : LsArgs ε) (pattern : Text) : Option (List Text) :=
  (l.passed elsewhere a pattern).bind fun passed =>
    (s.command names a).bind fun all =>
      (l.regexp passed).map fun shown =>
        let ret := all.filter shown
        if a.allNames = true ∧ s.environmentName s.parent = "R_GlobalEnv".toList then unhide ret
        else ret

/-- The name may be listed. -/
def LsArgs.lists (a : LsArgs ε) (name : Text) : Bool := a.allNames || name.head? != some '.'

/-- The name matches and is not hidden. -/
def LsArgs.offers (a : LsArgs ε) (shown : Text → Bool) (hides : Bool) (name : Text) : Bool :=
  shown name && !(a.allNames && hides && isHidden name)

/-- The arguments before the pattern. -/
def leading (name : Option Text) (allNames : Bool) : List Argument :=
  (name.elim [] fun name => [⟨none, .code name⟩]) ++
    [⟨some "all.names".toList, .code (logical allNames)⟩]

/-- The pattern and the argument behind it. -/
def trailing (pattern : Text) (sorted : Bool) : List Argument :=
  [⟨some "pattern".toList, .quoted pattern⟩, ⟨some "sorted".toList, .code (logical sorted)⟩]

/-- The text behind the pattern and its closing quote. -/
def behind (sorted : Bool) : Text :=
  ", ".toList ++ ("sorted = ".toList ++ logical sorted ++ ")".toList)

/-- No quote follows the pattern. -/
theorem quote_notMem_behind (sorted : Bool) : '"' ∉ behind sorted := by cases sorted <;> decide

/-- The text from the pattern on. -/
theorem argumentsText_trailing (pattern : Text) (sorted : Bool) :
    argumentsText (trailing pattern sorted) =
      "pattern".toList ++ " = ".toList ++ '"' :: (pattern ++ '"' :: behind sorted) := by
  have htrailing : argumentsText (trailing pattern sorted) =
      "pattern".toList ++ " = ".toList ++ ('"' :: (pattern ++ ['"'])) ++ ", ".toList ++
        ("sorted = ".toList ++ logical sorted ++ ")".toList) := rfl
  simp only [htrailing, behind, List.append_assoc, List.cons_append, List.nil_append]

/-- The command without a name is the text of a call with these arguments. -/
theorem lsCommand_eq (allNames : Bool) (pattern : Text) (sorted : Bool) :
    lsCommand none allNames (some pattern) sorted =
      "base::ls(".toList ++ argumentsText (leading none allNames ++ trailing pattern sorted) := by
  have hcommand : lsCommand none allNames (some pattern) sorted =
      "base::ls(".toList ++ [] ++
        ("all.names = ".toList ++ logical allNames ++ ", ".toList) ++
        ("pattern".toList ++ " = ".toList ++ ['"'] ++ pattern ++ (['"'] ++ ", ".toList)) ++
        ("sorted = ".toList ++ logical sorted ++ ")".toList) := rfl
  have hargs : argumentsText (leading none allNames ++ trailing pattern sorted) =
      ("all.names = ".toList ++ logical allNames ++ ", ".toList) ++
        argumentsText (trailing pattern sorted) := rfl
  simp only [hcommand, hargs, argumentsText_trailing, behind, List.append_assoc,
    List.cons_append, List.nil_append]

/-- Logicals are constants of R. -/
theorem isExpression_logical (b : Bool) : isExpression (logical b) = true := by
  cases b <;> decide

/-- A logical under a name is read as it was pasted. -/
theorem plain_logical {tag : Text} (h : isName tag = true) (b : Bool) :
    Argument.Plain ⟨some tag, .code (logical b)⟩ :=
  ⟨fun _ htag => Option.mem_some.mp htag ▸ h, isExpression_logical b⟩

/-- The arguments before the pattern are read as they were pasted. -/
theorem leading_plain (allNames : Bool) : ∀ a ∈ leading none allNames, a.Plain := by
  intro a ha
  obtain rfl := List.mem_singleton.mp ha
  exact plain_logical (by decide) allNames

/-- No argument before the pattern has its name. -/
theorem filter_leading (name : Option Text) (allNames : Bool) (more : List Argument) :
    (leading name allNames ++ more).filter (fun a => a.tag = some "pattern".toList) =
      more.filter fun a => a.tag = some "pattern".toList := by
  cases name <;> rfl

/-- The pattern is an argument of its name. -/
theorem filter_pattern (value : Value) (more : List Argument) :
    (Argument.mk (some "pattern".toList) value :: more).filter
        (fun a => a.tag = some "pattern".toList) =
      ⟨some "pattern".toList, value⟩ :: more.filter fun a => a.tag = some "pattern".toList :=
  List.filter_cons_of_pos (decide_eq_true rfl)

/-- The command is read as a call. -/
theorem readCall_lsCommand (allNames : Bool) (pattern : Text) (sorted : Bool) :
    readCall "base::ls".toList (lsCommand none allNames (some pattern) sorted) =
      readArguments (lsCommand none allNames (some pattern) sorted).length
        (argumentsText (leading none allNames ++ trailing pattern sorted)) := by
  have hstart : ("base::ls".toList ++ "(".toList).isPrefixOf
      (lsCommand none allNames (some pattern) sorted) = true := by
    rw [lsCommand_eq]
    exact List.isPrefixOf_iff_prefix.mpr (List.prefix_append _ _)
  have hbehind : (lsCommand none allNames (some pattern) sorted).drop
      ("base::ls".toList.length + 1) =
      argumentsText (leading none allNames ++ trailing pattern sorted) := by
    rw [lsCommand_eq]
    rfl
  rw [readCall, if_pos hstart, hbehind]

/-- The command has fewer arguments than characters. -/
theorem length_args_le (allNames : Bool) (pattern : Text) (sorted : Bool) :
    (leading none allNames).length + 2 ≤
      (lsCommand none allNames (some pattern) sorted).length := by
  have hstart : ("base::ls(".toList).length = 9 := rfl
  rw [lsCommand_eq, List.length_append, hstart]
  simp [leading]
  omega

/-- Where the name is read, the command is read up to the pattern. -/
theorem Language.readCommand_eq {l : Language} {name : Option Text}
    (h : ∀ text ∈ name, l.reads text = true) (allNames : Bool) (pattern : Text) (sorted : Bool) :
    ∃ most, l.readCommand name allNames pattern sorted =
      (readArguments (2 + most) (argumentsText (trailing pattern sorted))).map
        (leading name allNames ++ ·) := by
  obtain ⟨most, hmost⟩ := Nat.exists_eq_add_of_le (length_args_le allNames pattern sorted)
  have hothers : readCall "base::ls".toList (lsCommand none allNames (some pattern) sorted) =
      (readArguments (2 + most) (argumentsText (trailing pattern sorted))).map
        (leading none allNames ++ ·) := by
    rw [readCall_lsCommand, hmost, Nat.add_assoc]
    exact readArguments_append (leading_plain allNames) (List.cons_ne_nil _ _) (2 + most)
  refine ⟨most, ?_⟩
  cases name with
  | none => exact hothers
  | some text =>
    simp only [readCommand, h text rfl, if_true, hothers]
    cases readArguments (2 + most) (argumentsText (trailing pattern sorted)) <;> rfl

/-- A command passes a pattern on exactly if the name is read and the pattern has no backslash
and no quote. -/
theorem Language.patternArgument_iff (l : Language) (name : Option Text) (allNames : Bool)
    (pattern : Text) (sorted : Bool) :
    (∀ elsewhere, l.patternArgument elsewhere name allNames pattern sorted = some pattern) ↔
      (∀ text ∈ name, l.reads text = true) ∧ '\\' ∉ pattern ∧ '"' ∉ pattern := by
  constructor
  · intro hpasses
    have hvalue := hpasses fun _ => none
    have hreads : ∀ text ∈ name, l.reads text = true := by
      rintro text rfl
      by_contra hnot
      simp [patternArgument, readCommand, hnot] at hvalue
    refine ⟨hreads, ?_⟩
    obtain ⟨most, hread⟩ := readCommand_eq hreads allNames pattern sorted
    rw [patternArgument, hread, argumentsText_trailing] at hvalue
    cases hargs : readArguments (2 + most) ("pattern".toList ++ " = ".toList ++
        '"' :: (pattern ++ '"' :: behind sorted)) with
    | error failure =>
      rw [hargs] at hvalue
      cases failure <;> simp [Except.map] at hvalue
    | ok args =>
      obtain ⟨read, rest, more, hscan, rfl⟩ := readArguments_quoted (by decide) hargs
      simp only [hargs, Except.map, filter_leading, filter_pattern] at hvalue
      have hself : read = pattern := by
        cases hmore : more.filter fun a => a.tag = some "pattern".toList with
        | nil =>
          rw [hmore] at hvalue
          exact Option.some.inj hvalue
        | cons a args =>
          rw [hmore] at hvalue
          simp at hvalue
      rw [hself] at hscan
      exact Literal.scanLiteral_self (quote_notMem_behind sorted) hscan
  · rintro ⟨hreads, hslash, hquote⟩ elsewhere
    obtain ⟨most, hread⟩ := readCommand_eq hreads allNames pattern sorted
    have hargs : readArguments (2 + most) (argumentsText (trailing pattern sorted)) =
        .ok (trailing pattern sorted) := by
      have hpattern : Argument.Plain ⟨some "pattern".toList, .quoted pattern⟩ :=
        ⟨fun _ htag => Option.mem_some.mp htag ▸ by decide, hslash, hquote⟩
      have hsorted : Argument.Plain ⟨some "sorted".toList, .code (logical sorted)⟩ :=
        plain_logical (by decide) sorted
      rw [trailing, argumentsText_cons _ (List.cons_ne_nil _ _), Nat.add_comm,
        readArguments_cons hpattern, readArguments_singleton hsorted]
      rfl
    have hfilter : (trailing pattern sorted).filter (fun a => a.tag = some "pattern".toList) =
        [⟨some "pattern".toList, .quoted pattern⟩] := filter_pattern _ _
    simp only [patternArgument, hread, hargs, Except.map, filter_leading, hfilter]

/-- The name is read, unless it is left out. -/
def Language.ReadsName (l : Language) (a : LsArgs ε) : Prop :=
  ∀ name ∈ a.name, ∃ text, name.text = some text ∧ l.reads text = true

/-- `ls` passes a pattern on exactly if the name is read and the pattern has no backslash and no
quote. -/
theorem Language.passed_iff (l : Language) (a : LsArgs ε) (pattern : Text) :
    (∀ elsewhere, l.passed elsewhere a pattern = some pattern) ↔
      l.ReadsName a ∧ '\\' ∉ pattern ∧ '"' ∉ pattern := by
  unfold passed ReadsName
  cases a.name with
  | none =>
    have hcommand := l.patternArgument_iff none a.allNames pattern a.sorted
    simpa using hcommand
  | some name =>
    cases htext : name.text with
    | none => simp [htext]
    | some text =>
      have hcommand := l.patternArgument_iff (some text) a.allNames pattern a.sorted
      simpa [htext] using hcommand

/-- Listed names may be listed. -/
theorem Session.lists_of_mem {s : Session ε} {names : ε → List Text} {e : ε} {a : LsArgs ε}
    {name : Text} (h : name ∈ s.listed names e a.allNames a.sorted) : a.lists name = true := by
  rw [listed] at h
  cases hsorted : a.sorted with
  | false =>
    rw [hsorted] at h
    exact (List.mem_filter.mp h).2
  | true =>
    rw [hsorted, if_pos rfl, (s.collate_perm _).mem_iff] at h
    exact (List.mem_filter.mp h).2

/-- Hiding before or behind the choice by the pattern, the names offered are left. -/
theorem filter_unhide (a : LsArgs ε) (shown : Text → Bool) (p : Prop) [Decidable p]
    (all : List Text) :
    (if a.allNames = true ∧ p then unhide all else all).filter shown =
        all.filter (a.offers shown (decide p)) ∧
      (if a.allNames = true ∧ p then unhide (all.filter shown) else all.filter shown) =
        all.filter (a.offers shown (decide p)) := by
  by_cases hides : a.allNames = true ∧ p
  · have hoffers : a.offers shown (decide p) = fun name => shown name && !isHidden name := by
      funext name
      simp [LsArgs.offers, hides]
    rw [if_pos hides, if_pos hides, hoffers, unhide, unhide, List.filter_filter,
      List.filter_filter]
    exact ⟨rfl, by simp only [Bool.and_comm]⟩
  · have hoffers : a.offers shown (decide p) = shown := by
      funext name
      rw [not_and] at hides
      cases hall : a.allNames with
      | false => simp [LsArgs.offers, hall]
      | true => simp [LsArgs.offers, hides hall]
    rw [if_neg hides, if_neg hides, hoffers]
    exact ⟨rfl, rfl⟩

/-- Where the pattern is passed on, `ls` lists the names offered in the environment for which
the text stands. -/
theorem Session.lsMatching_eq_some {s : Session ε} {l : Language}
    {elsewhere : Text → Option Text} {names : ε → List Text} {a : LsArgs ε}
    {pattern : Text} (h : l.passed elsewhere a pattern = some pattern) {shown : Text → Bool}
    (hshown : l.regexp pattern = some shown) {ret : List Text} :
    s.lsMatching l elsewhere names a pattern = some ret ↔ ∃ e, s.Denotes a.name e ∧
      (s.listed names e a.allNames a.sorted).filter
        (a.offers shown (decide (s.environmentName s.parent = "R_GlobalEnv".toList))) = ret := by
  simp only [lsMatching, h, hshown, Option.bind_some, Option.map_some,
    (filter_unhide a shown _ _).2, Option.bind_eq_some_iff, command_eq_some, Option.some.injEq]
  constructor
  · rintro ⟨all, ⟨e, he, rfl⟩, rfl⟩
    exact ⟨e, he, rfl⟩
  · rintro ⟨e, he, rfl⟩
    exact ⟨_, ⟨e, he, rfl⟩, rfl⟩

variable [DecidableEq ε]

/-- `base::ls` with a pattern, without the hidden objects of the global environment. -/
def Session.meantMatching (s : Session ε) (l : Language) (names : ε → List Text) (a : LsArgs ε)
    (pattern : Text) : Option (List Text) :=
  (s.meant names a).bind fun all => (l.regexp pattern).map all.filter

/-- Whatever R makes of other code and whatever the environments hold, the command passes the
pattern on, and where `base::ls` returns, `ls` returns the same names. -/
structure Session.Selects (s : Session ε) (l : Language) (a : LsArgs ε) (pattern : Text) :
    Prop where
  passes : ∀ elsewhere, l.passed elsewhere a pattern = some pattern
  agrees : ∀ elsewhere names ret, s.meantMatching l names a pattern = some ret →
    s.lsMatching l elsewhere names a pattern = some ret

/-- The command is read, the pattern has nothing to escape, and unless `base::ls` fails, `ls`
offers the same names, of the environment that `base::ls` lists if there are any. -/
structure Session.Forwards (s : Session ε) (l : Language) (a : LsArgs ε) (pattern : Text) :
    Prop where
  reads : l.ReadsName a
  no_backslash : '\\' ∉ pattern
  no_quote : '"' ∉ pattern
  same : ∀ e shown, s.target s.parent a = some e → l.regexp pattern = some shown →
    ∃ e', s.Denotes a.name e' ∧
      (∀ name, a.lists name = true → a.offers shown (decide (e = s.global)) name =
        a.offers shown (decide (s.environmentName s.parent = "R_GlobalEnv".toList)) name) ∧
      (e' = e ∨ ∀ name, a.lists name = true → a.offers shown (decide (e = s.global)) name = false)

/-- `base::ls` lists the names offered in its environment. -/
theorem Session.meantMatching_eq_some {s : Session ε} {l : Language} {names : ε → List Text}
    {a : LsArgs ε} {pattern : Text} {ret : List Text} :
    s.meantMatching l names a pattern = some ret ↔ ∃ e shown, s.target s.parent a = some e ∧
      l.regexp pattern = some shown ∧ (s.listed names e a.allNames a.sorted).filter
        (a.offers shown (decide (e = s.global))) = ret := by
  unfold meantMatching meant
  cases s.target s.parent a with
  | none => simp
  | some e =>
    cases l.regexp pattern with
    | none => simp
    | some shown => simp [(filter_unhide a shown _ _).1]

/-- What `ls` shows of each single name decides which environment it lists and what it hides. -/
theorem Session.Selects.same {s : Session ε} {l : Language} {a : LsArgs ε} {pattern : Text}
    (h : s.Selects l a pattern) {e : ε} {shown : Text → Bool}
    (htarget : s.target s.parent a = some e) (hshown : l.regexp pattern = some shown) :
    ∃ e', s.Denotes a.name e' ∧
      (∀ name, a.lists name = true → a.offers shown (decide (e = s.global)) name =
        a.offers shown (decide (s.environmentName s.parent = "R_GlobalEnv".toList)) name) ∧
      (e' = e ∨ ∀ name, a.lists name = true →
        a.offers shown (decide (e = s.global)) name = false) := by
  have hagree : ∀ names : ε → List Text, ∃ e', s.Denotes a.name e' ∧
      (s.listed names e' a.allNames a.sorted).filter
        (a.offers shown (decide (s.environmentName s.parent = "R_GlobalEnv".toList))) =
      (s.listed names e a.allNames a.sorted).filter
        (a.offers shown (decide (e = s.global))) := by
    intro names
    apply (lsMatching_eq_some (h.passes fun _ => none) hshown).mp
    exact h.agrees _ names _ (meantMatching_eq_some.mpr ⟨e, shown, htarget, hshown, rfl⟩)
  obtain ⟨e', hdenotes, -⟩ := hagree fun _ => []
  refine ⟨e', hdenotes, fun name hname => ?_, ?_⟩
  · obtain ⟨e'', -, heq⟩ := hagree fun _ => [name]
    rw [s.listed_singleton rfl hname, s.listed_singleton rfl hname, List.filter_singleton,
      List.filter_singleton] at heq
    generalize a.offers shown (decide (e = s.global)) name = meant at heq ⊢
    generalize a.offers shown
      (decide (s.environmentName s.parent = "R_GlobalEnv".toList)) name = listed at heq ⊢
    cases meant <;> cases listed <;> simp at heq ⊢
  · by_cases hsame : e' = e
    · exact .inl hsame
    · refine .inr fun name hname => ?_
      obtain ⟨e'', hdenotes', heq⟩ := hagree fun x => if x = e then [name] else []
      obtain rfl := hdenotes.unique hdenotes'
      rw [s.listed_nil (if_neg hsame), s.listed_singleton (if_pos rfl) hname, List.filter_nil,
        List.filter_singleton] at heq
      cases hoffered : a.offers shown (decide (e = s.global)) name with
      | false => rfl
      | true =>
        rw [hoffered] at heq
        simp at heq

/-- With a pattern `ls` passes it on and selects the names that `base::ls` selects exactly if
the name is read, the pattern has no backslash and no quote, and the names that match it are
offered from the same environment. -/
theorem Session.selects_iff (s : Session ε) (l : Language) (a : LsArgs ε) (pattern : Text) :
    s.Selects l a pattern ↔ s.Forwards l a pattern := by
  constructor
  · intro h
    obtain ⟨hreads, hslash, hquote⟩ := (l.passed_iff a pattern).mp h.passes
    exact ⟨hreads, hslash, hquote, fun e shown => h.same⟩
  · intro h
    have hpasses := (l.passed_iff a pattern).mpr ⟨h.reads, h.no_backslash, h.no_quote⟩
    refine ⟨hpasses, fun elsewhere names ret hmeant => ?_⟩
    obtain ⟨e, shown, htarget, hshown, rfl⟩ := meantMatching_eq_some.mp hmeant
    obtain ⟨e', hdenotes, hoffers, hsame⟩ := h.same e shown htarget hshown
    rw [lsMatching_eq_some (hpasses elsewhere) hshown]
    refine ⟨e', hdenotes, ?_⟩
    rcases hsame with rfl | hnone
    · refine List.filter_congr fun name hname => ?_
      exact (hoffers name (lists_of_mem hname)).symm
    · have hleft : (s.listed names e' a.allNames a.sorted).filter (a.offers shown
          (decide (s.environmentName s.parent = "R_GlobalEnv".toList))) = [] := by
        refine List.filter_eq_nil_iff.mpr fun name hname => ?_
        have hlists := lists_of_mem hname
        rw [← hoffers name hlists, hnone name hlists]
        exact Bool.false_ne_true
      have hright : (s.listed names e a.allNames a.sorted).filter
          (a.offers shown (decide (e = s.global))) = [] := by
        refine List.filter_eq_nil_iff.mpr fun name hname => ?_
        rw [hnone name (lists_of_mem hname)]
        exact Bool.false_ne_true
      rw [hleft, hright]

/-- Called from the global environment. -/
def atTopLevel : Session Bool := { inFunction with contexts := [], parent := false }

/-- Every text is read, and a pattern matches the names that start with it. -/
def startingWith : Language where
  reads _ := true
  reads_position _ := rfl
  regexp pattern := some pattern.isPrefixOf

/-- A pattern for the names that start with a dot does not parse, since a backslash before a
dot is no escape. -/
theorem escaped_dot : ¬ ∀ (s : Session Bool) (l : Language) (a : LsArgs Bool) (pattern : Text),
    s.Selects l a pattern := by
  intro hall
  have hvalue := (hall atTopLevel startingWith ⟨none, none, none, true, true⟩ "^\\.".toList).passes
    fun _ => none
  have herror : readCall "base::ls".toList (lsCommand none true (some "^\\.".toList) true) =
      .error .syntaxError := by decide
  rw [Language.passed] at hvalue
  simp only [Language.patternArgument, Language.readCommand, herror] at hvalue
  simp at hvalue

end PbdZmq.Listing
