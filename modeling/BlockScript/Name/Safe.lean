/-
  BlockScript.Name.Safe

  Any text as an identifier: letters, digits and underscores of ASCII, not beginning with a digit.
-/
import BlockScript.Literal

namespace BlockScript.Name

/-- The hexadecimal digit of a number below sixteen, in upper case. -/
def hexDigit (n : Nat) : Char :=
  (Nat.digitChar n).toUpper

/-- A byte as an underscore and two hexadecimal digits. -/
def byteMark (b : UInt8) : List Char :=
  ['_', hexDigit (b.toNat / 16), hexDigit (b.toNat % 16)]

/-- The marks of ASCII that become a plain underscore. -/
def plainMarks : List Char :=
  " ;,/?:@&=+$!*'()#-.~".toList

/-- A character of an identifier: itself, an underscore for a plain mark, and the bytes of its
    encoding for any other character. -/
def safeChar (c : Char) : List Char :=
  if Literal.isWordChar c then [c]
  else if plainMarks.contains c then ['_']
  else (String.utf8EncodeChar c).flatMap byteMark

/-- The identifier of a text. -/
def safe (s : String) : String :=
  if s = "" then "unnamed"
  else
    let chars := s.toList.flatMap safeChar
    match chars with
    | c :: _ => if c.isDigit then "my_" ++ String.ofList chars else String.ofList chars
    | [] => String.ofList chars

end BlockScript.Name
