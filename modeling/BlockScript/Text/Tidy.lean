/-
  BlockScript.Text.Tidy

  The last step of every program text: no empty lines ahead, one line feed at the end, and no
  spaces or tabs before a line feed.
-/
import BlockScript.Text.Blank

namespace BlockScript.Text

/-- Drops the white space ahead of the text up to its last line feed, unless that line feed is the
    very first character. -/
def dropLeadingLines (s : List Char) : List Char :=
  let blanks := s.takeWhile isBlank
  let indentation := (blanks.reverse.takeWhile (· ≠ '\n')).reverse
  if blanks.length < indentation.length + 2 then s
  else indentation ++ s.dropWhile isBlank

/-- Drops the white space that follows the first line feed of the white space at the end. -/
def dropTrailingLines (s : List Char) : List Char :=
  let body := trimRight s
  let blanks := s.drop body.length
  let sameLine := blanks.takeWhile (· ≠ '\n')
  if blanks.length < sameLine.length + 1 then s
  else body ++ sameLine ++ ['\n']

/-- Whether only spaces and tabs stand before the next line feed. -/
def endsLine : List Char → Bool
  | [] => false
  | c :: rest => c = '\n' || ((c = ' ' || c = '\t') && endsLine rest)

/-- Drops the spaces and tabs before every line feed. -/
def dropLineEndBlanks : List Char → List Char
  | [] => []
  | c :: rest =>
    if (c = ' ' || c = '\t') && endsLine rest then dropLineEndBlanks rest
    else c :: dropLineEndBlanks rest

/-- The tidied program text. -/
def tidy (s : String) : String :=
  String.ofList (dropLineEndBlanks (dropTrailingLines (dropLeadingLines s.toList)))

end BlockScript.Text
