/-
  BlockScript.Json.Shown

  How values are shown in messages, ids and texts: names for null and the truth values, quoted
  texts inside lists and objects, shortest numbers.
-/
import BlockScript.Json.Basic
import BlockScript.Text.Lines
import BlockScript.Text.Printable

namespace BlockScript

namespace Text

/-! ## Quoted texts -/

/-- The last `width` hexadecimal digits of a number. -/
def hexDigits : Nat → Nat → List Char
  | 0, _ => []
  | width + 1, n => hexDigits width (n / 16) ++ [Nat.digitChar (n % 16)]

/-- One character of a quoted text. -/
def shownChar (quote c : Char) : List Char :=
  if c = quote || c = '\\' then ['\\', c]
  else if c = '\n' then ['\\', 'n']
  else if c = '\r' then ['\\', 'r']
  else if c = '\t' then ['\\', 't']
  else if isPrintable c then [c]
  else if c.toNat < 0x100 then '\\' :: 'x' :: hexDigits 2 c.toNat
  else if c.toNat < 0x10000 then '\\' :: 'u' :: hexDigits 4 c.toNat
  else '\\' :: 'U' :: hexDigits 8 c.toNat

/-- A text in single quotes, or in double quotes if it holds only single ones. -/
def quoted (s : String) : String :=
  let cs := s.toList
  let quote := if cs.contains '\'' && !cs.contains '"' then '"' else '\''
  String.ofList (quote :: cs.flatMap (shownChar quote) ++ [quote])

end Text

namespace Json

/-! ## Values -/

mutual

/-- A value as it is shown inside other values. -/
def quoted : Json → String
  | null => "None"
  | bool b => if b then "True" else "False"
  | num n => n.shown
  | str s => Text.quoted s
  | arr items => "[" ++ Text.join ", " (quotedItems items) ++ "]"
  | obj members => "\x7b" ++ Text.join ", " (quotedMembers members) ++ "\x7d"

/-- The items of a list as they are shown. -/
def quotedItems : List Json → List String
  | [] => []
  | item :: rest => item.quoted :: quotedItems rest

/-- The members of an object as they are shown. -/
def quotedMembers : List (String × Json) → List String
  | [] => []
  | (name, value) :: rest => (Text.quoted name ++ ": " ++ value.quoted) :: quotedMembers rest

end

/-- A value as it is shown on its own: a text is shown without quotes. -/
def shown : Json → String
  | str s => s
  | v => v.quoted

/-- A value in number position of a script: a number as its numeral, false as zero, and anything
    else as it is shown. -/
def numeral : Json → String
  | num n => n.numeral
  | bool b => if b then "True" else "0"
  | v => v.shown

end Json

end BlockScript
