/-
  BlockScript.Json.Reader

  Reads a JSON text. A reader stands at a rest of the text and either fails at a position or
  returns a value and a rest that is shorter. Besides the standard it accepts `NaN`, `Infinity` and
  `-Infinity`; of a repeated member the first place and the last value count. An escape for half of a
  character that has no other half stops the reader, as no text holds half of a character.
-/
import BlockScript.Json.Basic
import BlockScript.Number.Numeral

namespace BlockScript

namespace Json

/-! ## Failures -/

/-- What a JSON text lacks or has too much, or has and no text holds. -/
inductive Flaw where
  | byteOrderMark
  | noValue
  | noMemberName
  | noColon
  | noComma
  | openText
  | controlCharacter
  | unknownEscape
  | badCodePoint
  | loneHalf
  | extraData
  deriving DecidableEq, Repr

/-- The wording of a flaw. -/
def Flaw.message : Flaw → String
  | byteOrderMark => "Unexpected UTF-8 BOM (decode using utf-8-sig)"
  | noValue => "Expecting value"
  | noMemberName => "Expecting property name enclosed in double quotes"
  | noColon => "Expecting ':' delimiter"
  | noComma => "Expecting ',' delimiter"
  | openText => "Unterminated string starting at"
  | controlCharacter => "Invalid control character at"
  | unknownEscape => "Invalid \\escape"
  | badCodePoint => "Invalid \\uXXXX escape"
  | loneHalf => "Lone surrogate"
  | extraData => "Extra data"

/-- A flaw and the number of characters left of the text where it was found. -/
structure Failure where
  flaw : Flaw
  left : Nat
  deriving DecidableEq, Repr

/-- The result of reading from a rest of the text: a value and a shorter rest. -/
abbrev Step (α : Type) (s : List Char) : Type :=
  Except Failure (α × { rest : List Char // rest.length < s.length })

/-! ## White space, words and numbers -/

/-- White space between tokens. -/
def isSpace (c : Char) : Bool :=
  c = ' ' || c = '\t' || c = '\n' || c = '\r'

/-- The rest behind the white space. -/
def skipSpace (s : List Char) : List Char :=
  s.dropWhile isSpace

theorem length_skipSpace_le (s : List Char) : (skipSpace s).length ≤ s.length :=
  (List.dropWhile_sublist isSpace).length_le

/-- The words that stand for values. -/
def words : List (List Char × Json) := [
  ("null".toList, .null), ("true".toList, .bool true), ("false".toList, .bool false),
  ("NaN".toList, .num (.float .nan)), ("Infinity".toList, .num (.float (.infinity false))),
  ("-Infinity".toList, .num (.float (.infinity true)))]

/-- The characters of a number ahead of a text: sign, whole part, fraction and exponent. -/
structure Lexeme where
  isNegative : Bool
  whole : List Char
  fraction : List Char
  exponent : List Char

/-- The length of a number in the text. -/
def Lexeme.length (x : Lexeme) : Nat :=
  (if x.isNegative then 1 else 0) + x.whole.length
    + (if x.fraction.isEmpty then 0 else x.fraction.length + 1) + x.exponent.length

/-- The exponent ahead of a text with its mark and sign; it has to have a digit. -/
def exponentLexeme : List Char → List Char
  | [] => []
  | mark :: rest =>
    if mark = 'e' || mark = 'E' then
      let (sign, digits) := match rest with
        | '-' :: digits => (['-'], digits)
        | '+' :: digits => (['+'], digits)
        | digits => ([], digits)
      let power := digits.takeWhile Char.isDigit
      if power.isEmpty then [] else mark :: sign ++ power
    else []

/-- The number ahead of a text. The whole part has no leading zero. -/
def lexeme? (s : List Char) : Option Lexeme :=
  let (isNegative, unsigned) := match s with
    | '-' :: rest => (true, rest)
    | rest => (false, rest)
  let whole := match unsigned with
    | '0' :: _ => ['0']
    | digits => digits.takeWhile Char.isDigit
  if whole.isEmpty then none
  else
    let tail := unsigned.drop whole.length
    let fraction := match tail with
      | '.' :: rest => rest.takeWhile Char.isDigit
      | _ => []
    let tail := if fraction.isEmpty then tail else tail.drop (fraction.length + 1)
    some ⟨isNegative, whole, fraction, exponentLexeme tail⟩

/-- The value of a number: an integer unless it has a fraction or an exponent. -/
def Lexeme.value (x : Lexeme) : Number :=
  if x.fraction.isEmpty && x.exponent.isEmpty then
    let n : Int := Numeral.digitsValue x.whole
    .int (if x.isNegative then -n else n)
  else
    let power := (Numeral.exponent? x.exponent).getD 0
    .float (.ofDecimal x.isNegative (Numeral.digitsValue (x.whole ++ x.fraction))
      (power - x.fraction.length))

/-- A word or a number. -/
def readScalar (s : List Char) : Step Json s :=
  match words.find? fun word => word.1.isPrefixOf s with
  | some (word, value) => advance word.length value
  | none =>
    match lexeme? s with
    | some x => advance x.length (.num x.value)
    | none => throw ⟨.noValue, s.length⟩
where
  /-- Passes over a number of characters. -/
  advance (count : Nat) (value : Json) : Step Json s :=
    match s with
    | [] => throw ⟨.noValue, 0⟩
    | _ :: rest =>
      pure (value, ⟨rest.drop (count - 1), by simp only [List.length_drop, List.length_cons]; omega⟩)

/-! ## Texts -/

/-- The number of four hexadecimal digits. -/
def codeUnit? (digits : List Char) : Option Nat :=
  digits.foldlM (fun n c =>
    if c.isDigit then some (16 * n + (c.toNat - 48))
    else if 'a' ≤ c && c ≤ 'f' then some (16 * n + (c.toNat - 87))
    else if 'A' ≤ c && c ≤ 'F' then some (16 * n + (c.toNat - 55))
    else none) 0

/-- The character of an escape with one letter. -/
def escaped? : Char → Option Char
  | '"' => some '"'
  | '\\' => some '\\'
  | '/' => some '/'
  | 'b' => some '\x08'
  | 'f' => some '\x0c'
  | 'n' => some '\n'
  | 'r' => some '\r'
  | 't' => some '\t'
  | _ => none

/-- Whether a code unit is the first half of a pair. -/
def isHighHalf (unit : Nat) : Bool :=
  0xD800 ≤ unit && unit < 0xDC00

/-- Whether a code unit is the second half of a pair. -/
def isLowHalf (unit : Nat) : Bool :=
  0xDC00 ≤ unit && unit < 0xE000

/-- The escape by code units whose digits stand ahead of a text, with the count of characters that
    it takes. A first half joins the second half that follows it; no half has a character alone. -/
def codePoint (s : List Char) : Except Failure (Char × Nat) := do
  if (s.drop 4).isEmpty then throw ⟨.badCodePoint, s.length + 1⟩
  let some unit := codeUnit? (s.take 4) | throw ⟨.badCodePoint, s.length + 1⟩
  match isHighHalf unit, s.drop 4 with
  | true, '\\' :: 'u' :: second =>
    if (second.drop 4).isEmpty then throw ⟨.loneHalf, s.length + 1⟩
    let some unit' := codeUnit? (second.take 4) | throw ⟨.badCodePoint, second.length + 1⟩
    if isLowHalf unit' then
      return (Char.ofNat (0x10000 + (unit - 0xD800) * 0x400 + (unit' - 0xDC00)), 10)
    else throw ⟨.loneHalf, s.length + 1⟩
  | _, _ =>
    if isHighHalf unit || isLowHalf unit then throw ⟨.loneHalf, s.length + 1⟩
    else return (Char.ofNat unit, 4)

/-- The text whose opening quote is just behind the reader. The opening is the rest of the text from
    that quote on; the characters read so far are kept in reverse. -/
def readTextFrom (opening read s : List Char) : Step String s :=
  match s with
  | [] => throw ⟨.openText, opening.length⟩
  | '"' :: rest => pure (String.ofList read.reverse, ⟨rest, by simp⟩)
  | ['\\'] => throw ⟨.openText, opening.length⟩
  | '\\' :: 'u' :: rest =>
    match codePoint rest with
    | .error failure => throw failure
    | .ok (c, count) => do
      let (text, tail) ← readTextFrom opening (c :: read) (rest.drop count)
      pure (text, ⟨tail.1, by have := tail.2; simp only [List.length_drop] at this; simp; omega⟩)
  | '\\' :: letter :: rest =>
    match escaped? letter with
    | none => throw ⟨.unknownEscape, rest.length + 2⟩
    | some c => do
      let (text, tail) ← readTextFrom opening (c :: read) rest
      pure (text, ⟨tail.1, by have := tail.2; simp; omega⟩)
  | c :: rest =>
    if c.toNat < 0x20 then throw ⟨.controlCharacter, rest.length + 1⟩
    else do
      let (text, tail) ← readTextFrom opening (c :: read) rest
      pure (text, ⟨tail.1, by have := tail.2; simp; omega⟩)
termination_by s.length
decreasing_by all_goals simp_wf <;> omega

/-! ## Values -/

/-- Sets a member: a new one goes to the end, a present one keeps its place. -/
def setMember (name : String) (value : Json) : List (String × Json) → List (String × Json)
  | [] => [(name, value)]
  | (n, v) :: rest =>
    if n = name then (n, value) :: rest else (n, v) :: setMember name value rest

mutual

/-- A value. -/
def readValue (s : List Char) : Step Json s :=
  match s with
  | '"' :: rest => do
    let (text, tail) ← readTextFrom s [] rest
    pure (.str text, ⟨tail.1, by have := tail.2; simp; omega⟩)
  | '[' :: rest =>
    match h : skipSpace rest with
    | ']' :: tail =>
      pure (.arr [], ⟨tail, by have := length_skipSpace_le rest; simp [h] at this; simp; omega⟩)
    | items => do
      let (values, tail) ← readItems [] items
      pure (.arr values,
        ⟨tail.1, by have := tail.2; have := length_skipSpace_le rest; simp [h] at *; omega⟩)
  | '{' :: rest =>
    match h : skipSpace rest with
    | '}' :: tail =>
      pure (.obj [], ⟨tail, by have := length_skipSpace_le rest; simp [h] at this; simp; omega⟩)
    | members => do
      let (values, tail) ← readMembers [] members
      pure (.obj values,
        ⟨tail.1, by have := tail.2; have := length_skipSpace_le rest; simp [h] at *; omega⟩)
  | s => readScalar s
termination_by 2 * s.length
decreasing_by all_goals simp_wf; have := length_skipSpace_le rest; simp [h] at *; omega

/-- The items of a list from the next one on, and the closing bracket. -/
def readItems (read : List Json) (s : List Char) : Step (List Json) s := do
  let (value, tail) ← readValue s
  match h : skipSpace tail.1 with
  | ']' :: rest =>
    pure ((value :: read).reverse,
      ⟨rest, by have := tail.2; have := length_skipSpace_le tail.1; simp [h] at *; omega⟩)
  | ',' :: rest => do
    let (values, final) ← readItems (value :: read) (skipSpace rest)
    pure (values, ⟨final.1, by
      have := tail.2; have := final.2; have := length_skipSpace_le tail.1
      have := length_skipSpace_le rest; simp [h] at *; omega⟩)
  | rest => throw ⟨.noComma, rest.length⟩
termination_by 2 * s.length + 1
decreasing_by
  · simp_wf
  · simp_wf
    have := tail.2; have := length_skipSpace_le tail.1; have := length_skipSpace_le rest
    simp [h] at *; omega

/-- The members of an object from the next one on, and the closing brace. -/
def readMembers (read : List (String × Json)) (s : List Char) :
    Step (List (String × Json)) s :=
  match s with
  | '"' :: afterQuote => do
    let (name, afterName) ← readTextFrom s [] afterQuote
    match hcolon : skipSpace afterName.1 with
    | ':' :: afterColon => do
      let (value, tail) ← readValue (skipSpace afterColon)
      match h : skipSpace tail.1 with
      | '}' :: rest =>
        pure (setMember name value read, ⟨rest, by
          have := afterName.2; have := tail.2; have := length_skipSpace_le afterName.1
          have := length_skipSpace_le afterColon; have := length_skipSpace_le tail.1
          simp [h, hcolon] at *; omega⟩)
      | ',' :: rest => do
        let (values, final) ← readMembers (setMember name value read) (skipSpace rest)
        pure (values, ⟨final.1, by
          have := afterName.2; have := tail.2; have := final.2
          have := length_skipSpace_le afterName.1; have := length_skipSpace_le afterColon
          have := length_skipSpace_le tail.1; have := length_skipSpace_le rest
          simp [h, hcolon] at *; omega⟩)
      | rest => throw ⟨.noComma, rest.length⟩
    | rest => throw ⟨.noColon, rest.length⟩
  | _ => throw ⟨.noMemberName, s.length⟩
termination_by 2 * s.length + 1
decreasing_by
  · simp_wf
    have := afterName.2; have := length_skipSpace_le afterName.1
    have := length_skipSpace_le afterColon; simp [hcolon] at *; omega
  · simp_wf
    have := afterName.2; have := tail.2; have := length_skipSpace_le afterName.1
    have := length_skipSpace_le afterColon; have := length_skipSpace_le tail.1
    have := length_skipSpace_le rest; simp [h, hcolon] at *; omega

end

/-! ## Whole texts -/

/-- Where in a text a failure is: its line and column, from one, and its offset, from zero. -/
structure Position where
  line : Nat
  column : Nat
  offset : Nat
  deriving DecidableEq, Repr

/-- The position behind the first `offset` characters. -/
def Position.of (s : List Char) (offset : Nat) : Position :=
  let before := s.take offset
  ⟨before.count '\n' + 1, (before.reverse.takeWhile (· ≠ '\n')).length + 1, offset⟩

/-- Why and where a text is no JSON. -/
structure SyntaxFault where
  flaw : Flaw
  position : Position
  deriving DecidableEq, Repr

/-- The wording of a syntax fault. -/
def SyntaxFault.message (fault : SyntaxFault) : String :=
  fault.flaw.message ++ ": line " ++ toString fault.position.line ++ " column "
    ++ toString fault.position.column ++ " (char " ++ toString fault.position.offset ++ ")"

/-- Reads one value with white space around it. -/
def readDocument (s : List Char) : Except Failure Json := do
  if s.head? = some '\uFEFF' then throw ⟨.byteOrderMark, s.length⟩
  let (value, tail) ← readValue (skipSpace s)
  let rest := skipSpace tail.1
  if rest.isEmpty then return value else throw ⟨.extraData, rest.length⟩

/-- Reads a JSON text. -/
def read (text : String) : Except SyntaxFault Json :=
  let s := text.toList
  match readDocument s with
  | .ok value => .ok value
  | .error failure => .error ⟨failure.flaw, .of s (s.length - failure.left)⟩

end Json

end BlockScript
