/-
  BlockScript.Number.Numeral

  Numerals as people write them: white space around, a sign, digits of any script, underscores
  between digits, a fraction, an exponent, and the names of the values that no digits express.
-/
import BlockScript.Number.Basic
import BlockScript.Text.Blank
import BlockScript.Text.Digit

namespace BlockScript.Numeral

open Text

/-! ## Parts of a numeral -/

/-- The sign ahead of a numeral, true for a minus, and the rest. -/
def splitSign : List Char → Bool × List Char
  | '-' :: rest => (true, rest)
  | '+' :: rest => (false, rest)
  | s => (false, s)

/-- Drops the underscores of a numeral. Each has to stand between two digits. -/
def dropUnderscores : List Char → Option (List Char)
  | [] => some []
  | [c] => if c = '_' then none else some [c]
  | c :: d :: rest =>
    if c = '_' then none
    else if d = '_' then
      match c.isDigit, rest with
      | true, e :: _ =>
        if e.isDigit then (dropUnderscores rest).map (c :: ·) else none
      | _, _ => none
    else (dropUnderscores (d :: rest)).map (c :: ·)

/-- The value of ASCII digits. -/
def digitsValue (digits : List Char) : Nat :=
  digits.foldl (fun n c => 10 * n + (c.toNat - 48)) 0

/-- The value of ASCII digits, of which there has to be one. -/
def natural? (s : List Char) : Option Nat :=
  if !s.isEmpty && s.all Char.isDigit then some (digitsValue s) else none

/-- The text in lower case, for the ASCII letters. -/
def lowerAscii (s : List Char) : String :=
  String.ofList (s.map Char.toLower)

/-! ## Reading -/

/-- An integer without white space around it. -/
def integer? (s : List Char) : Option Int := do
  let (isNegative, digits) := splitSign (← dropUnderscores s)
  let n ← natural? digits
  return if isNegative then -(n : Int) else n

/-- The exponent of a numeral after its mark; nothing at all stands for zero. -/
def exponent? : List Char → Option Int
  | [] => some 0
  | mark :: s =>
    if mark = 'e' || mark = 'E' then
      let (isNegative, digits) := splitSign s
      (natural? digits).map fun n => if isNegative then -(n : Int) else n
    else none

/-- A binary64 number without white space around it. -/
def float? (s : List Char) : Option Binary64 := do
  let (isNegative, body) := splitSign (← dropUnderscores s)
  match lowerAscii body with
  | "nan" => return { Binary64.nan with negative := isNegative }
  | "inf" | "infinity" => return Binary64.infinity isNegative
  | _ =>
    let whole := body.takeWhile Char.isDigit
    let afterWhole := body.dropWhile Char.isDigit
    let (fraction, tail) :=
      match afterWhole with
      | '.' :: rest => (rest.takeWhile Char.isDigit, rest.dropWhile Char.isDigit)
      | rest => ([], rest)
    let digits ← natural? (whole ++ fraction)
    let exponent ← exponent? tail
    return Binary64.ofDecimal isNegative digits (exponent - fraction.length)

/-- White space other than the separators of information, U+001C to U+001F. -/
def isSpacing (c : Char) : Bool :=
  isBlank c && !(0x1C ≤ c.toNat && c.toNat ≤ 0x1F)

/-- The integer that a text writes, spacing around it allowed. -/
def readInteger? (s : String) : Option Int :=
  integer? ((trimOf isSpacing s.toList).map asciiDigit)

/-- The number that a text writes; an empty text writes zero. -/
def read? (s : String) : Option Number :=
  let body := (trim s.toList).map asciiDigit
  if body.isEmpty then some (.int 0)
  else (integer? body).map .int <|> (float? body).map .float

/-! ## Recognising -/

/-- Whether a text is a plain decimal numeral: an optional minus, digits and an optional fraction,
    with white space around. -/
def isPlain (s : String) : Bool :=
  let body := trim s.toList
  let unsigned := match body with
    | '-' :: rest => rest
    | rest => rest
  let whole := unsigned.takeWhile isDigit
  !whole.isEmpty &&
    match unsigned.dropWhile isDigit with
    | [] => true
    | '.' :: fraction => !fraction.isEmpty && fraction.all isDigit
    | _ => false

end BlockScript.Numeral
