import PbdZmq.Core.Lines

/-!
# String literals in double quotes

The scanner of R takes the text behind an opening quote. A backslash starts an escape of
two or more characters that stands for one, an unknown escape is a parse error, and the
first quote outside an escape ends the literal. No literal is longer than its text, and an
escape makes it shorter.
-/

namespace PbdZmq.Literal

/-- What one character or escape of a literal stands for. -/
inductive Piece where
  /-- A character, itself or by a simple escape. -/
  | plain (c : Char)
  /-- A byte by its octal or hexadecimal value, read in Latin-1. -/
  | byte (n : Nat)
  /-- A character by its code point. -/
  | unicode (c : Char)
deriving DecidableEq

/-- The character of a piece. -/
def Piece.char : Piece → Char
  | .plain c => c
  | .byte n => Char.ofNat (n % 256)
  | .unicode c => c

/-- A byte escape. -/
def Piece.isByte : Piece → Bool
  | .byte _ => true
  | _ => false

/-- A Unicode escape. -/
def Piece.isUnicode : Piece → Bool
  | .unicode _ => true
  | _ => false

/-- An octal digit. -/
def isOctal (c : Char) : Bool := '0' ≤ c && c ≤ '7'

/-- A hexadecimal digit. -/
def isHex (c : Char) : Bool := c.isDigit || ('a' ≤ c && c ≤ 'f') || ('A' ≤ c && c ≤ 'F')

/-- The value of a digit. -/
def digitValue (c : Char) : Nat :=
  if c.isDigit then c.toNat - 48 else if 'a' ≤ c then c.toNat - 87 else c.toNat - 55

/-- The value of some digits. -/
def numberValue (base : Nat) (digits : Text) : Nat :=
  digits.foldl (fun n c => base * n + digitValue c) 0

/-- The escapes of one character. The last four stand for themselves. -/
def simpleEscapes : List (Char × Char) :=
  [('a', Char.ofNat 7), ('b', Char.ofNat 8), ('f', Char.ofNat 12), ('n', '\n'), ('r', '\r'),
    ('t', '\t'), ('v', Char.ofNat 11), ('\\', '\\'), ('"', '"'), (Char.ofNat 39, Char.ofNat 39),
    (Char.ofNat 96, Char.ofNat 96), (' ', ' '), ('\n', '\n')]

/-- A byte in at most `most` digits, and how much of the text it takes. A missing number and a
zero are parse errors. -/
def byteEscape (base most : Nat) (isDigit : Char → Bool) (text : Text) : Option (Piece × Nat) :=
  let digits := (text.takeWhile isDigit).take most
  if numberValue base digits = 0 then none
  else some (.byte (numberValue base digits), digits.length)

/-- A code point in at most `most` digits, perhaps in braces. -/
def unicodeEscape (most : Nat) (text : Text) : Option (Piece × Nat) :=
  let braced := text.head? = some '{'
  let inner := if braced then text.drop 1 else text
  let digits := (inner.takeWhile isHex).take most
  let n := numberValue 16 digits
  if n = 0 ∨ ¬n.isValidChar then none
  else if braced then
    if (inner.drop digits.length).head? = some '}' then
      some (.unicode (Char.ofNat n), digits.length + 2)
    else none
  else some (.unicode (Char.ofNat n), digits.length)

/-- The escape behind a backslash, and how much of the text it takes. -/
def escape : Text → Option (Piece × Nat)
  | [] => none
  | c :: text =>
    if isOctal c then byteEscape 8 3 isOctal (c :: text)
    else if c = 'x' then (byteEscape 16 2 isHex text).map fun e => (e.1, e.2 + 1)
    else if c = 'u' then (unicodeEscape 4 text).map fun e => (e.1, e.2 + 1)
    else if c = 'U' then (unicodeEscape 8 text).map fun e => (e.1, e.2 + 1)
    else (simpleEscapes.find? fun e => e.1 = c).map fun e => (.plain e.2, 1)

/-- The pieces up to the closing quote and the text behind it. The number counts what is left
of an escape that was read. -/
def scan : Nat → Text → Option (List Piece × Text)
  | _, [] => none
  | k + 1, _ :: text => scan k text
  | 0, c :: text =>
    if c = '"' then some ([], text)
    else if c = '\\' then
      (escape text).bind fun e => (scan e.2 text).map fun r => (e.1 :: r.1, r.2)
    else (scan 0 text).map fun r => (.plain c :: r.1, r.2)

/-- The literal behind an opening quote and the text behind its closing quote. Unicode escapes
mix with no byte. -/
def scanLiteral (text : Text) : Option (Text × Text) :=
  (scan 0 text).bind fun r =>
    if r.1.any Piece.isByte && r.1.any Piece.isUnicode then none
    else some (r.1.map Piece.char, r.2)

/-- An escape takes a part of the text behind its backslash. -/
theorem escape_pos {text : Text} {e : Piece × Nat} (h : escape text = some e) : 0 < e.2 := by
  cases text with
  | nil => simp [escape] at h
  | cons c text =>
    rw [escape] at h
    split at h
    · rename_i hoctal
      simp only [byteEscape, List.takeWhile_cons, hoctal, if_true] at h
      split at h
      · simp at h
      · obtain rfl := Option.some.inj h
        simp
    · split at h
      · obtain ⟨e', -, rfl⟩ := Option.map_eq_some_iff.mp h
        exact Nat.succ_pos _
      · split at h
        · obtain ⟨e', -, rfl⟩ := Option.map_eq_some_iff.mp h
          exact Nat.succ_pos _
        · split at h
          · obtain ⟨e', -, rfl⟩ := Option.map_eq_some_iff.mp h
            exact Nat.succ_pos _
          · obtain ⟨e', -, rfl⟩ := Option.map_eq_some_iff.mp h
            exact Nat.one_pos

/-- The text of a literal has a character for each of its pieces, and more for an escape. A
quote within the literal is escaped. -/
theorem scan_eq_some {k : Nat} {text rest : Text} {pieces : List Piece}
    (h : scan k text = some (pieces, rest)) :
    ∃ skipped body, text = skipped ++ body ++ '"' :: rest ∧ skipped.length = k ∧
      pieces.length ≤ body.length ∧
      ('\\' ∈ body ∨ '"' ∈ body → pieces.length < body.length) := by
  induction text generalizing k pieces with
  | nil => simp [scan] at h
  | cons c text ih =>
    cases k with
    | succ k =>
      obtain ⟨skipped, body, rfl, hk, hlength, hescape⟩ := ih (by simpa only [scan] using h)
      exact ⟨c :: skipped, body, rfl, by rw [List.length_cons, hk], hlength, hescape⟩
    | zero =>
      rw [scan] at h
      by_cases hquote : c = '"'
      · rw [if_pos hquote, Option.some.injEq, Prod.mk.injEq] at h
        obtain ⟨rfl, rfl⟩ := h
        exact ⟨[], [], by rw [hquote]; rfl, rfl, le_rfl, by simp⟩
      rw [if_neg hquote] at h
      by_cases hslash : c = '\\'
      · rw [if_pos hslash, Option.bind_eq_some_iff] at h
        obtain ⟨e, he, htail⟩ := h
        obtain ⟨⟨pieces', rest'⟩, hscan, heq⟩ := Option.map_eq_some_iff.mp htail
        obtain ⟨rfl, rfl⟩ := Prod.mk.inj heq
        obtain ⟨skipped, body, rfl, hk, hlength, -⟩ := ih hscan
        have hpos := escape_pos he
        have hshort : (e.1 :: pieces').length < (c :: (skipped ++ body)).length := by
          simp only [List.length_cons, List.length_append]
          omega
        exact ⟨[], c :: (skipped ++ body), rfl, rfl, hshort.le, fun _ => hshort⟩
      · rw [if_neg hslash] at h
        obtain ⟨⟨pieces', rest'⟩, hscan, heq⟩ := Option.map_eq_some_iff.mp h
        obtain ⟨rfl, rfl⟩ := Prod.mk.inj heq
        obtain ⟨skipped, body, rfl, hk, hlength, hescape⟩ := ih hscan
        obtain rfl := List.length_eq_zero_iff.mp hk
        refine ⟨[], c :: body, rfl, rfl, Nat.succ_le_succ hlength, fun hmem => ?_⟩
        rw [List.mem_cons, List.mem_cons, or_iff_right (Ne.symm hslash),
          or_iff_right (Ne.symm hquote)] at hmem
        exact Nat.succ_lt_succ (hescape hmem)

/-- Without quotes and backslashes a text stands for itself. -/
theorem scan_plain {text : Text} (hslash : '\\' ∉ text) (hquote : '"' ∉ text) (rest : Text) :
    scan 0 (text ++ '"' :: rest) = some (text.map Piece.plain, rest) := by
  induction text with
  | nil => rfl
  | cons c text ih =>
    rw [List.mem_cons, not_or] at hslash hquote
    rw [List.cons_append, scan, if_neg (Ne.symm hquote.1), if_neg (Ne.symm hslash.1),
      ih hslash.2 hquote.2, Option.map_some, List.map_cons]

/-- Without quotes and backslashes a literal is read as it was written. -/
theorem scanLiteral_plain {text : Text} (hslash : '\\' ∉ text) (hquote : '"' ∉ text)
    (rest : Text) : scanLiteral (text ++ '"' :: rest) = some (text, rest) := by
  have hbyte : (text.map Piece.plain).any Piece.isByte = false := by
    rw [List.any_map, List.any_eq_false]
    exact fun c _ => Bool.false_ne_true
  have hchars : (text.map Piece.plain).map Piece.char = text := by
    rw [List.map_map]
    exact List.map_id text
  rw [scanLiteral, scan_plain hslash hquote, Option.bind_some, hbyte, Bool.false_and,
    if_neg Bool.false_ne_true, hchars]

/-- A text in quotes is read as it was written only without quotes and backslashes. -/
theorem scanLiteral_self {text rest rest' : Text} (hrest : '"' ∉ rest)
    (h : scanLiteral (text ++ '"' :: rest) = some (text, rest')) :
    '\\' ∉ text ∧ '"' ∉ text := by
  obtain ⟨⟨pieces, rest''⟩, hscan, hvalue⟩ := Option.bind_eq_some_iff.mp h
  have hlength : pieces.length = text.length := by
    split at hvalue
    · simp at hvalue
    · obtain ⟨hchars, -⟩ := Prod.mk.inj (Option.some.inj hvalue)
      rw [← hchars, List.length_map]
  obtain ⟨skipped, body, heq, hk, hle, hescape⟩ := scan_eq_some hscan
  obtain rfl := List.length_eq_zero_iff.mp hk
  rw [List.nil_append] at heq
  have hbody : body = text := by
    obtain ⟨more, htext, hmore⟩ | ⟨more, htext, -⟩ := List.append_eq_append_iff.mp heq
    · cases more with
      | nil => rw [htext, List.append_nil]
      | cons c more =>
        obtain ⟨-, hbehind⟩ := List.cons.inj hmore
        exact absurd (by simp [hbehind]) hrest
    · have hmore : more.length = 0 := by
        rw [htext, List.length_append] at hlength
        omega
      rw [htext, List.length_eq_zero_iff.mp hmore, List.append_nil]
  rw [hbody, hlength] at hescape
  exact not_or.mp fun hmem => absurd (hescape hmem) (lt_irrefl _)

end PbdZmq.Literal
