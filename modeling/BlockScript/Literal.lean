/-
  BlockScript.Literal

  String literals of the script: single quotes around the text, and a backslash ahead of each
  backslash, quote and line feed in it.
-/
import BlockScript.Order
import BlockScript.Text.Blank
import BlockScript.Text.Lines

namespace BlockScript.Literal

open Text

/-! ## Writing -/

/-- One character inside a literal. -/
def escapeChar (c : Char) : List Char :=
  if c = '\\' || c = '\n' || c = '\'' then ['\\', c] else [c]

/-- The literal of a text. -/
def quoteChars (s : List Char) : List Char :=
  '\'' :: (s.flatMap escapeChar ++ ['\''])

/-- The literal of a text. -/
def quote (s : String) : String :=
  String.ofList (quoteChars s.toList)

/-- The sum of the literals of the lines of a text and of the line feeds between them. -/
def quoteLines (s : String) : String :=
  join " + '\\n' +\n" ((lines s.toList).map fun line => String.ofList (quoteChars line))

/-! ## Recognising -/

/-- Whether the characters behind an opening quote end with the closing one, and every other quote
    among them has a backslash just ahead of it. -/
def closes (afterBackslash : Bool) : List Char → Bool
  | [] => false
  | [c] => c = '\''
  | c :: d :: rest =>
    if c = '\'' then afterBackslash && closes false (d :: rest) else closes (c = '\\') (d :: rest)

/-- Whether code is a string literal, white space around it allowed. -/
def isLiteral (code : String) : Bool :=
  match trim code.toList with
  | '\'' :: rest => closes false rest
  | _ => false

/-- An expression that yields a text: a string literal as it is, anything else converted. -/
def forceString (code : String) : String × Order :=
  if isLiteral code then (code, .atomic) else ("String(" ++ code ++ ")", .functionCall)

/-- Whether a character belongs to the words of the script. -/
def isWordChar (c : Char) : Bool :=
  c.isAlphanum || c = '_'

/-- Whether code is one word, perhaps in quotes, so that it may be written twice. -/
def isSimple (code : String) : Bool :=
  let chars := code.toList
  let body := if chars.getLast? = some '\n' then chars.dropLast else chars
  let unquoted := match body with
    | '\'' :: rest => rest
    | rest => rest
  let tail := unquoted.dropWhile isWordChar
  !(unquoted.takeWhile isWordChar).isEmpty && (tail = [] || tail = ['\''])

end BlockScript.Literal
