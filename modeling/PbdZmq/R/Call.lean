import Mathlib.Data.List.TakeWhile
import PbdZmq.R.Literal

/-!
# The text of a call

R parses a call from text. The part of its grammar read here has constants as arguments:
names and numbers, which may be joined by colons, and literals in double quotes. A text
that leaves this part is left to R, while a literal that cannot be scanned is a parse error
in any case.
-/

namespace PbdZmq.Call

/-- A character of names and numbers. -/
def isNameChar (c : Char) : Bool := c.isAlphanum || c = '.' || c = '_'

/-- Words that are no constants. -/
def reserved : List Text :=
  ["if", "else", "repeat", "while", "function", "for", "next", "break", "in"].map String.toList

/-- A name of R, or a named constant. -/
def isName : Text → Bool
  | [] => false
  | '.' :: text => text.all isNameChar && !(text.head?.any Char.isDigit)
  | c :: text => c.isAlpha && text.all isNameChar && !reserved.contains (c :: text)

/-- An integer in decimal. -/
def isNumber (text : Text) : Bool := text != [] && text.all Char.isDigit

/-- A character of names and numbers that are joined by colons. -/
def isWordChar (c : Char) : Bool := isNameChar c || c = ':'

/-- Names and numbers joined by colons. -/
def isExpression (text : Text) : Bool :=
  text.all isWordChar && (text.splitOn ':').all fun part => isName part || isNumber part

/-- A constant that stands as an argument. -/
inductive Value where
  /-- Names and numbers. -/
  | code (text : Text)
  /-- A literal in double quotes. -/
  | quoted (text : Text)
deriving DecidableEq

/-- An argument. -/
structure Argument where
  /-- Its name, if it has one. -/
  tag : Option Text
  value : Value
deriving DecidableEq

/-- Why no call is read. -/
inductive Failure where
  /-- R finds a literal that it cannot scan. -/
  | syntaxError
  /-- The text is none of the calls considered here. -/
  | unsupported
deriving DecidableEq

/-- A constant and the text behind it. -/
def readValue (text : Text) : Except Failure (Value × Text) :=
  if text.head? = some '"' then
    match Literal.scanLiteral (text.drop 1) with
    | some (value, rest) => .ok (.quoted value, rest)
    | none => .error .syntaxError
  else
    let word := text.takeWhile isWordChar
    if isExpression word then .ok (.code word, text.drop word.length)
    else .error .unsupported

/-- An argument and the text behind it. -/
def readArgument (text : Text) : Except Failure (Argument × Text) :=
  let tag := text.takeWhile isNameChar
  let rest := text.dropWhile isNameChar
  if isName tag && " = ".toList.isPrefixOf rest then
    (readValue (rest.drop 3)).map fun r => (⟨some tag, r.1⟩, r.2)
  else (readValue text).map fun r => (⟨none, r.1⟩, r.2)

/-- The arguments up to the closing parenthesis that ends the text. The number bounds how many
are read. -/
def readArguments : Nat → Text → Except Failure (List Argument)
  | 0, _ => .error .unsupported
  | most + 1, text =>
    (readArgument text).bind fun r =>
      if r.2 = ")".toList then .ok [r.1]
      else if ", ".toList.isPrefixOf r.2 then
        (readArguments most (r.2.drop 2)).map (r.1 :: ·)
      else .error .unsupported

/-- The arguments of a call of one function. -/
def readCall (function text : Text) : Except Failure (List Argument) :=
  if (function ++ "(".toList).isPrefixOf text then
    readArguments text.length (text.drop (function.length + 1))
  else .error .unsupported

/-- The text of a constant, as it is pasted. -/
def Value.text : Value → Text
  | .code text => text
  | .quoted text => '"' :: (text ++ ['"'])

/-- The text of an argument, as it is pasted. -/
def Argument.text (a : Argument) : Text :=
  (a.tag.elim [] fun tag => tag ++ " = ".toList) ++ a.value.text

/-- The text of the arguments up to the closing parenthesis. -/
def argumentsText : List Argument → Text
  | [] => ")".toList
  | [a] => a.text ++ ")".toList
  | a :: as => a.text ++ ", ".toList ++ argumentsText as

/-- The constant is read as it was pasted. -/
def Value.Plain : Value → Prop
  | .code text => isExpression text = true
  | .quoted text => '\\' ∉ text ∧ '"' ∉ text

/-- The argument is read as it was pasted. -/
def Argument.Plain (a : Argument) : Prop := (∀ tag ∈ a.tag, isName tag = true) ∧ a.value.Plain

/-- A text of constants ends before the first character that is none of theirs. -/
theorem takeWhile_append_stop {p : Char → Bool} {word rest : Text} {c : Char}
    (hword : ∀ d ∈ word, p d = true) (hc : p c = false) :
    (word ++ c :: rest).takeWhile p = word := by
  rw [List.takeWhile_append_of_pos hword, List.takeWhile_cons_of_neg (by simp [hc]),
    List.append_nil]

/-- What is left is what follows the constants. -/
theorem dropWhile_append_stop {p : Char → Bool} {word rest : Text} {c : Char}
    (hword : ∀ d ∈ word, p d = true) (hc : p c = false) :
    (word ++ c :: rest).dropWhile p = c :: rest := by
  rw [List.dropWhile_append_of_pos hword, List.dropWhile_cons_of_neg (by simp [hc])]

/-- A name has no other characters. -/
theorem isNameChar_of_isName {text : Text} (h : isName text = true) :
    ∀ c ∈ text, isNameChar c = true := by
  intro c hc
  unfold isName at h
  split at h
  · simp at hc
  · rename_i text
    rw [Bool.and_eq_true, List.all_eq_true] at h
    obtain rfl | hc := List.mem_cons.mp hc
    · rfl
    · exact h.1 c hc
  · rename_i d text hdot
    rw [Bool.and_eq_true, Bool.and_eq_true, List.all_eq_true] at h
    obtain rfl | hc := List.mem_cons.mp hc
    · simp [isNameChar, Char.isAlphanum, h.1.1]
    · exact h.1.2 c hc

/-- What follows a constant in a call. -/
def IsStop (c : Char) : Prop := c = ',' ∨ c = ')'

/-- A constant ends where another argument or the end follows. -/
theorem IsStop.not_isWordChar {c : Char} (h : IsStop c) : isWordChar c = false := by
  rcases h with rfl | rfl <;> decide

/-- A pasted expression does not start as a literal. -/
theorem head?_code_ne {text : Text} (h : ∀ d ∈ text, isWordChar d = true) {c : Char}
    (hc : IsStop c) (rest : Text) : (text ++ c :: rest).head? ≠ some '"' := by
  cases text with
  | nil => rcases hc with rfl | rfl <;> simp
  | cons d text =>
    intro hhead
    have hquote : d = '"' := Option.some.inj hhead
    have hword := h d List.mem_cons_self
    rw [hquote] at hword
    exact absurd hword (by decide)

/-- A constant is read up to the character behind it. -/
theorem readValue_text {value : Value} (h : value.Plain) {c : Char} (hc : IsStop c)
    (rest : Text) : readValue (value.text ++ c :: rest) = .ok (value, c :: rest) := by
  cases value with
  | quoted text =>
    have htext : (Value.quoted text).text ++ c :: rest = '"' :: (text ++ '"' :: c :: rest) := by
      simp [Value.text]
    have hhead : ('"' :: (text ++ '"' :: c :: rest)).head? = some '"' := rfl
    rw [htext, readValue, if_pos hhead, List.drop_succ_cons, List.drop_zero,
      Literal.scanLiteral_plain h.1 h.2]
  | code text =>
    have hexpression : isExpression text = true := h
    have hword : ∀ d ∈ text, isWordChar d = true := by
      rw [isExpression, Bool.and_eq_true, List.all_eq_true] at hexpression
      exact hexpression.1
    have htake : (text ++ c :: rest).takeWhile isWordChar = text :=
      takeWhile_append_stop hword hc.not_isWordChar
    rw [Value.text, readValue, if_neg (head?_code_ne hword hc rest), htake]
    simp only [hexpression, if_true, List.drop_left]

/-- The name of an argument is read, and the constant behind it. -/
theorem readArgument_tagged {tag : Text} (h : isName tag = true) (text : Text) :
    readArgument (tag ++ " = ".toList ++ text) =
      (readValue text).map fun r => (⟨some tag, r.1⟩, r.2) := by
  have htake : (tag ++ " = ".toList ++ text).takeWhile isNameChar = tag := by
    rw [List.append_assoc]
    exact takeWhile_append_stop (isNameChar_of_isName h) (by decide)
  have hdrop : (tag ++ " = ".toList ++ text).dropWhile isNameChar = " = ".toList ++ text := by
    rw [List.append_assoc]
    exact dropWhile_append_stop (isNameChar_of_isName h) (by decide)
  have hequal : " = ".toList.isPrefixOf (" = ".toList ++ text) = true :=
    List.isPrefixOf_iff_prefix.mpr (List.prefix_append _ _)
  have hbehind : (" = ".toList ++ text).drop 3 = text := rfl
  rw [readArgument, htake, hdrop]
  simp only [h, hequal, Bool.and_self, if_true, hbehind]

/-- Behind the first word of an expression there is no blank. -/
theorem not_tag_code {text : Text} (h : ∀ d ∈ text, isWordChar d = true) {c : Char}
    (hc : IsStop c) (rest : Text) :
    " = ".toList.isPrefixOf ((text ++ c :: rest).dropWhile isNameChar) = false := by
  induction text with
  | nil => rcases hc with rfl | rfl <;> rfl
  | cons d text ih =>
    rw [List.cons_append, List.dropWhile_cons]
    by_cases hname : isNameChar d = true
    · rw [if_pos hname]
      exact ih fun e he => h e (List.mem_cons_of_mem d he)
    · rw [if_neg hname]
      have hcolon : d = ':' := by
        have hword := h d List.mem_cons_self
        rw [isWordChar, Bool.or_eq_true] at hword
        simpa using hword.resolve_left hname
      rw [hcolon]
      rfl

/-- A constant is not taken for the name of an argument. -/
theorem not_tag_text {value : Value} (h : value.Plain) {c : Char} (hc : IsStop c)
    (rest : Text) :
    " = ".toList.isPrefixOf ((value.text ++ c :: rest).dropWhile isNameChar) = false := by
  cases value with
  | code text =>
    have hexpression : isExpression text = true := h
    rw [isExpression, Bool.and_eq_true, List.all_eq_true] at hexpression
    exact not_tag_code hexpression.1 hc rest
  | quoted text => rfl

/-- An argument is read up to the character behind it. -/
theorem readArgument_text {a : Argument} (h : a.Plain) {c : Char} (hc : IsStop c)
    (rest : Text) : readArgument (a.text ++ c :: rest) = .ok (a, c :: rest) := by
  obtain ⟨tag, value⟩ := a
  obtain ⟨htag, hvalue⟩ := h
  cases tag with
  | some tag =>
    have htext : (Argument.mk (some tag) value).text ++ c :: rest =
        tag ++ " = ".toList ++ (value.text ++ c :: rest) := by simp [Argument.text]
    rw [htext, readArgument_tagged (htag tag rfl), readValue_text hvalue hc]
    rfl
  | none =>
    have htext : (Argument.mk none value).text = value.text := rfl
    rw [htext, readArgument]
    simp only [not_tag_text hvalue hc, Bool.and_false, Bool.false_eq_true, if_false,
      readValue_text hvalue hc]
    rfl

/-- A first argument is read before the others. -/
theorem readArguments_cons {a : Argument} (h : a.Plain) (most : Nat) (text : Text) :
    readArguments (most + 1) (a.text ++ ", ".toList ++ text) =
      (readArguments most text).map (a :: ·) := by
  have htext : a.text ++ ", ".toList ++ text = a.text ++ ',' :: ' ' :: text := by simp
  rw [htext, readArguments, readArgument_text h (Or.inl rfl)]
  rfl

/-- The text of a first argument stands before the text of the others. -/
theorem argumentsText_cons (a : Argument) {args : List Argument} (h : args ≠ []) :
    argumentsText (a :: args) = a.text ++ ", ".toList ++ argumentsText args := by
  cases args with
  | nil => exact absurd rfl h
  | cons b args => rfl

/-- Plain arguments are read before the others. -/
theorem readArguments_append {args : List Argument} (h : ∀ a ∈ args, a.Plain)
    {more : List Argument} (hmore : more ≠ []) (most : Nat) :
    readArguments (args.length + most) (argumentsText (args ++ more)) =
      (readArguments most (argumentsText more)).map (args ++ ·) := by
  induction args with
  | nil =>
    rw [List.length_nil, Nat.zero_add, List.nil_append]
    cases readArguments most (argumentsText more) <;> rfl
  | cons a args ih =>
    obtain ⟨ha, hargs⟩ := List.forall_mem_cons.mp h
    have hmost : (a :: args).length + most = args.length + most + 1 := by
      rw [List.length_cons]
      omega
    rw [List.cons_append, argumentsText_cons a (List.append_ne_nil_of_right_ne_nil _ hmore), hmost,
      readArguments_cons ha, ih hargs]
    cases readArguments most (argumentsText more) <;> rfl

/-- A last plain argument is read up to the end. -/
theorem readArguments_singleton {a : Argument} (h : a.Plain) (most : Nat) :
    readArguments (most + 1) (argumentsText [a]) = .ok [a] := by
  have hend : argumentsText [a] = a.text ++ ')' :: [] := rfl
  rw [hend, readArguments, readArgument_text h (Or.inr rfl)]
  rfl

/-- A pasted literal is read as far as it can be scanned. -/
theorem readArguments_quoted {tag : Text} (h : isName tag = true) {most : Nat}
    {value rest : Text} {args : List Argument}
    (hread : readArguments most (tag ++ " = ".toList ++ '"' :: (value ++ '"' :: rest)) = .ok args) :
    ∃ read rest' more, Literal.scanLiteral (value ++ '"' :: rest) = some (read, rest') ∧
      args = ⟨some tag, .quoted read⟩ :: more := by
  cases most with
  | zero => simp [readArguments] at hread
  | succ most =>
    have hhead : ('"' :: (value ++ '"' :: rest)).head? = some '"' := rfl
    rw [readArguments, readArgument_tagged h, readValue, if_pos hhead, List.drop_succ_cons,
      List.drop_zero] at hread
    cases hscan : Literal.scanLiteral (value ++ '"' :: rest) with
    | none =>
      rw [hscan] at hread
      simp [Except.map, Except.bind] at hread
    | some r =>
      obtain ⟨read, rest'⟩ := r
      rw [hscan] at hread
      simp only [Except.map, Except.bind] at hread
      split at hread
      · exact ⟨read, rest', [], rfl, (Except.ok.inj hread).symm⟩
      · split at hread
        · split at hread
          · simp at hread
          · rename_i more hmore
            exact ⟨read, rest', more, rfl, (Except.ok.inj hread).symm⟩
        · simp at hread

end PbdZmq.Call
