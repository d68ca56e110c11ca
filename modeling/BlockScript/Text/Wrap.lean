/-
  BlockScript.Text.Wrap

  Word wrapping. Tabs reach to the next multiple of eight columns, other white space of ASCII is a
  space, and a line takes words as long as they fit. A word is never split.
-/
import BlockScript.Number.Basic
import BlockScript.Text.Blank
import BlockScript.Text.Lines

namespace BlockScript.Text

/-! ## Pieces of a line -/

/-- Spaces in place of tabs, for a text that begins at a column. -/
def expandTabs : Nat → List Char → List Char
  | _, [] => []
  | column, c :: rest =>
    if c = '\t' then
      let width := 8 - column % 8
      List.replicate width ' ' ++ expandTabs (column + width) rest
    else if c = '\n' || c = '\r' then c :: expandTabs 0 rest
    else c :: expandTabs (column + 1) rest

/-- Spaces in place of all white space of ASCII. -/
def spaced (s : List Char) : List Char :=
  (expandTabs 0 s).map fun c => if isAsciiBlank c then ' ' else c

/-- The runs of spaces and the words between them, in their order. -/
def pieces : List Char → List (List Char)
  | [] => []
  | c :: rest =>
    match pieces rest with
    | (d :: more) :: others =>
      if (c = ' ') = (d = ' ') then (c :: d :: more) :: others else [c] :: (d :: more) :: others
    | others => [c] :: others

/-- Whether a piece holds only white space. -/
def isBlankPiece (piece : List Char) : Bool :=
  piece.all isBlank

/-! ## Filling lines -/

/-- The longest line that a number of characters may have, or none for a line without end. -/
abbrev Limit : Type := Option Nat

/-- The limit that a width sets; a width has to be above zero, which NaN is not. -/
def Limit.ofWidth? (width : Number) : Option Limit :=
  if width.isZero || width.ltInt 0 || width.isNaN then none
  else match width with
    | .int n => some (some n.toNat)
    | .float x => some (if x.isFinite then some x.truncate.toNat else none)

/-- Whether a length is within a limit. -/
def Limit.allows (limit : Limit) (length : Nat) : Bool :=
  match limit with
  | some bound => length ≤ bound
  | none => true

/-- The pieces that fit on a line that holds some characters already, and the others. -/
def fitting (limit : Limit) : Nat → List (List Char) → List (List Char) × List (List Char)
  | _, [] => ([], [])
  | used, piece :: rest =>
    if limit.allows (used + piece.length) then
      let (line, others) := fitting limit (used + piece.length) rest
      (piece :: line, others)
    else ([], piece :: rest)

theorem length_fitting_snd_le (limit : Limit) (used : Nat) (ps : List (List Char)) :
    (fitting limit used ps).2.length ≤ ps.length := by
  induction ps generalizing used with
  | nil => simp [fitting]
  | cons p ps ih =>
    rw [fitting]
    split
    · exact Nat.le_succ_of_le (ih _)
    · simp

/-- The pieces of the next line and the others: those that fit, or one that fits on no line. -/
def nextLine (limit : Limit) (ps : List (List Char)) : List (List Char) × List (List Char) :=
  match fitting limit 0 ps with
  | ([], piece :: others) => ([piece], others)
  | split => split

/-- The pieces without a last one that is blank. -/
def dropLastBlank (line : List (List Char)) : List (List Char) :=
  match line.getLast? with
  | some piece => if isBlankPiece piece then line.dropLast else line
  | none => line

theorem length_nextLine_snd_lt (limit : Limit) {ps : List (List Char)} (h : ps ≠ []) :
    (nextLine limit ps).2.length < ps.length := by
  match ps, h with
  | p :: rest, _ =>
    by_cases hp : limit.allows (0 + p.length) = true
    · have := length_fitting_snd_le limit (0 + p.length) rest
      simp only [nextLine, fitting, hp, if_true, List.length_cons]
      omega
    · rw [nextLine, fitting, if_neg hp]
      simp

/-- The pieces from which a line is filled: a line after the first begins with no blank piece. -/
def lineStart (isFirst : Bool) : List (List Char) → List (List Char)
  | [] => []
  | piece :: rest => if !isFirst && isBlankPiece piece then rest else piece :: rest

theorem length_lineStart_le (isFirst : Bool) (ps : List (List Char)) :
    (lineStart isFirst ps).length ≤ ps.length := by
  cases ps with
  | nil => exact Nat.le_refl _
  | cons p rest => simp only [lineStart]; split <;> simp

/-- The lines that the pieces fill. A line that holds only white space is left out. -/
def fill (limit : Limit) (isFirst : Bool) (ps : List (List Char)) : List (List Char) :=
  if lineStart isFirst ps = [] then []
  else
    let line := dropLastBlank (nextLine limit (lineStart isFirst ps)).1
    let others := (nextLine limit (lineStart isFirst ps)).2
    if line = [] then fill limit isFirst others else line.flatten :: fill limit false others
termination_by ps.length
decreasing_by
  all_goals
    have := length_nextLine_snd_lt limit ‹¬ lineStart isFirst ps = []›
    have := length_lineStart_le isFirst ps
    omega

/-- The lines of one line of a text; an empty line stays. -/
def wrapLine (limit : Limit) (line : List Char) : List (List Char) :=
  match fill limit true (pieces (spaced line)) with
  | [] => [[]]
  | filled => filled

/-- The text with its lines wrapped. -/
def wrap (limit : Limit) (s : String) : String :=
  join "\n" (((lines s.toList).flatMap (wrapLine limit)).map String.ofList)

end BlockScript.Text
