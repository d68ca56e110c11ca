/-
  BlockScript.Text.Lines

  Lines end at a line feed. This file splits a text into its lines, joins texts with a separator,
  inserts a text after every line feed that another character follows, and unifies the line ends of
  other systems.
-/

namespace BlockScript.Text

/-! ## Splitting and joining -/

/-- The pieces of a text between its separators: one more than there are separators. -/
def splitOn (separator : Char) : List Char → List (List Char)
  | [] => [[]]
  | c :: rest =>
    if c = separator then [] :: splitOn separator rest
    else match splitOn separator rest with
      | piece :: pieces => (c :: piece) :: pieces
      | [] => [[c]]

/-- The lines of a text, without their line feeds. -/
def lines (s : List Char) : List (List Char) :=
  splitOn '\n' s

/-- The texts in their order, the separator between each two. -/
def join (separator : String) : List String → String
  | [] => ""
  | [s] => s
  | s :: t :: rest => s ++ separator ++ join separator (t :: rest)

/-! ## Lines with a prefix -/

/-- Inserts a text after every line feed except one that ends the text. -/
def insertAfterBreaks (insertion : List Char) : List Char → List Char
  | [] => []
  | [c] => [c]
  | c :: d :: rest =>
    if c = '\n' then '\n' :: (insertion ++ insertAfterBreaks insertion (d :: rest))
    else c :: insertAfterBreaks insertion (d :: rest)

/-- Every line of the text behind a prefix; a line feed at the end starts no further line. -/
def prefixed (lead : String) (s : String) : String :=
  lead ++ String.ofList (insertAfterBreaks lead.toList s.toList)

/-! ## Replacing -/

/-- Every occurrence of a pattern, from the left, exchanged for a replacement. The count tells how
    many characters of the last occurrence are still to be passed over. -/
def replaceFrom (pattern replacement : List Char) : Nat → List Char → List Char
  | _, [] => []
  | skip + 1, _ :: rest => replaceFrom pattern replacement skip rest
  | 0, c :: rest =>
    if pattern.isPrefixOf (c :: rest) then
      replacement ++ replaceFrom pattern replacement (pattern.length - 1) rest
    else c :: replaceFrom pattern replacement 0 rest

/-- The text with every occurrence of a non-empty pattern exchanged for a replacement. -/
def replace (s pattern replacement : String) : String :=
  String.ofList (replaceFrom pattern.toList replacement.toList 0 s.toList)

/-! ## Line ends -/

/-- The text with each of its line ends, a carriage return with or without a line feed, as one line
    feed. -/
def unifyLineEnds : List Char → List Char
  | [] => []
  | '\r' :: '\n' :: rest => '\n' :: unifyLineEnds rest
  | '\r' :: rest => '\n' :: unifyLineEnds rest
  | c :: rest => c :: unifyLineEnds rest

end BlockScript.Text
