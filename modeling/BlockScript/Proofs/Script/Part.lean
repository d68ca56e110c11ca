/-
  BlockScript.Proofs.Script.Part

  The text of a script as a reader sees it at first: string literals, comments, and the characters
  outside of both. In a literal a backslash stands for the character behind it, and a comment runs
  to the end of its line.

  The reader goes from left to right with a mode as its only memory, so two texts one behind the
  other read as the parts of the first and the parts of the second if the first ends outside of
  literals and comments (`Closed`).
-/
import BlockScript.Literal

namespace BlockScript.Script

/-! ## The reader -/

/-- A part of a script. -/
inductive Part where
  /-- A character of code. -/
  | char (c : Char)
  /-- A string literal with the text that it stands for. -/
  | literal (text : List Char)
  | comment
  deriving DecidableEq, Repr

/-- Where the reader stands. -/
inductive Mode where
  | code
  /-- In code, behind a slash that may begin a comment. -/
  | slash
  /-- In a literal, behind the text that it stands for so far. -/
  | literal (read : List Char)
  /-- In a literal, behind a backslash. -/
  | escaped (read : List Char)
  | comment
  /-- Behind a line feed that a literal does not allow. -/
  | broken
  deriving DecidableEq, Repr

/-- The parts that one more character completes, and where the reader stands behind it. -/
def Mode.step : Mode → Char → List Part × Mode
  | .code, c =>
    if c = '\'' then ([], .literal [])
    else if c = '/' then ([], .slash)
    else ([.char c], .code)
  | .slash, c =>
    if c = '/' then ([], .comment)
    else if c = '\'' then ([.char '/'], .literal [])
    else ([.char '/', .char c], .code)
  | .literal read, c =>
    if c = '\'' then ([.literal read], .code)
    else if c = '\\' then ([], .escaped read)
    else if c = '\n' then ([], .broken)
    else ([], .literal (read ++ [c]))
  | .escaped read, c => ([], .literal (read ++ [c]))
  | .comment, c => if c = '\n' then ([.comment, .char '\n'], .code) else ([], .comment)
  | .broken, _ => ([], .broken)

/-- Where the reader stands behind characters. -/
def modeAfter : Mode → List Char → Mode
  | mode, [] => mode
  | mode, c :: rest => modeAfter (mode.step c).2 rest

/-- The parts that characters complete. -/
def partsFrom : Mode → List Char → List Part
  | _, [] => []
  | mode, c :: rest => (mode.step c).1 ++ partsFrom (mode.step c).2 rest

/-- The parts of a text. -/
def parts (s : String) : List Part :=
  partsFrom .code s.toList

/-- Whether a text ends in code: no literal, no comment and no slash is open at its end. -/
def Closed (s : String) : Prop :=
  modeAfter .code s.toList = .code

instance (s : String) : Decidable (Closed s) :=
  inferInstanceAs (Decidable (_ = _))

/-- The text of a literal. -/
def Part.text? : Part → Option (List Char)
  | .literal text => some text
  | _ => none

/-- The texts that the literals of a script stand for, in their order. -/
def literals (s : String) : List String :=
  ((parts s).filterMap Part.text?).map String.ofList

/-! ## One text behind another -/

/-- A script that is not read stays so. -/
theorem modeAfter_broken (s : List Char) : modeAfter .broken s = .broken := by
  induction s with
  | nil => rfl
  | cons c rest ih => exact ih

theorem modeAfter_append (mode : Mode) (s t : List Char) :
    modeAfter mode (s ++ t) = modeAfter (modeAfter mode s) t := by
  induction s generalizing mode with
  | nil => rfl
  | cons c rest ih => exact ih _

theorem partsFrom_append (mode : Mode) (s t : List Char) :
    partsFrom mode (s ++ t) = partsFrom mode s ++ partsFrom (modeAfter mode s) t := by
  induction s generalizing mode with
  | nil => rfl
  | cons c rest ih =>
    rw [List.cons_append, partsFrom, partsFrom, modeAfter, ih, List.append_assoc]

@[simp]
theorem parts_empty : parts "" = [] := rfl

@[simp]
theorem closed_empty : Closed "" := rfl

theorem Closed.append {s t : String} (hs : Closed s) (ht : Closed t) : Closed (s ++ t) := by
  rw [Closed, String.toList_append, modeAfter_append, hs]
  exact ht

/-- Behind a closed text a text reads as it does alone. -/
theorem parts_append {s : String} (hs : Closed s) (t : String) :
    parts (s ++ t) = parts s ++ parts t := by
  rw [parts, String.toList_append, partsFrom_append, hs]
  rfl

theorem literals_append {s : String} (hs : Closed s) (t : String) :
    literals (s ++ t) = literals s ++ literals t := by
  rw [literals, parts_append hs, List.filterMap_append, List.map_append]
  rfl

/-! ## Plain code -/

/-- Whether a character of code stands for itself. -/
def isPlainChar (c : Char) : Bool :=
  c ≠ '\'' && c ≠ '/'

theorem step_code_of_plain {c : Char} (h : isPlainChar c = true) :
    Mode.step .code c = ([.char c], .code) := by
  simp only [isPlainChar, ne_eq, decide_not, Bool.and_eq_true, Bool.not_eq_eq_eq_not, Bool.not_true,
    decide_eq_false_iff_not] at h
  rw [Mode.step, if_neg h.1, if_neg h.2]

theorem modeAfter_of_plain {s : List Char} (h : ∀ c ∈ s, isPlainChar c = true) :
    modeAfter .code s = .code := by
  induction s with
  | nil => rfl
  | cons c rest ih =>
    rw [modeAfter, step_code_of_plain (h c List.mem_cons_self)]
    exact ih fun d hd => h d (List.mem_cons_of_mem c hd)

theorem partsFrom_of_plain {s : List Char} (h : ∀ c ∈ s, isPlainChar c = true) :
    partsFrom .code s = s.map .char := by
  induction s with
  | nil => rfl
  | cons c rest ih =>
    rw [partsFrom, step_code_of_plain (h c List.mem_cons_self), List.map_cons,
      ih fun d hd => h d (List.mem_cons_of_mem c hd)]
    rfl

/-- A text without quotes and slashes is closed. -/
theorem closed_of_plain {s : String} (h : ∀ c ∈ s.toList, isPlainChar c = true) : Closed s :=
  modeAfter_of_plain h

/-- A text without quotes and slashes is its characters. -/
theorem parts_of_plain {s : String} (h : ∀ c ∈ s.toList, isPlainChar c = true) :
    parts s = s.toList.map .char :=
  partsFrom_of_plain h

/-- White space stands for itself. -/
theorem isPlainChar_of_isBlank {c : Char} (h : Text.isBlank c = true) : isPlainChar c = true := by
  rw [isPlainChar, Bool.and_eq_true, decide_eq_true_eq, decide_eq_true_eq]
  constructor
  · rintro rfl
    exact absurd h (by decide)
  · rintro rfl
    exact absurd h (by decide)

/-! ## Quoted texts -/

/-- Inside of a literal, what is written for a character is read as that character. -/
theorem modeAfter_escapeChar (read : List Char) (c : Char) :
    modeAfter (.literal read) (Literal.escapeChar c) = .literal (read ++ [c]) := by
  rw [Literal.escapeChar]
  split
  · rfl
  · rename_i h
    simp only [Bool.or_eq_true, decide_eq_true_eq, not_or] at h
    rw [modeAfter, Mode.step, if_neg h.2, if_neg h.1.1, if_neg h.1.2]
    rfl

theorem partsFrom_escapeChar (read : List Char) (c : Char) :
    partsFrom (.literal read) (Literal.escapeChar c) = [] := by
  rw [Literal.escapeChar]
  split
  · rfl
  · rename_i h
    simp only [Bool.or_eq_true, decide_eq_true_eq, not_or] at h
    rw [partsFrom, Mode.step, if_neg h.2, if_neg h.1.1, if_neg h.1.2]
    rfl

theorem modeAfter_escaped (read s : List Char) :
    modeAfter (.literal read) (s.flatMap Literal.escapeChar) = .literal (read ++ s) := by
  induction s generalizing read with
  | nil => rw [List.append_nil]; rfl
  | cons c rest ih =>
    rw [List.flatMap_cons, modeAfter_append, modeAfter_escapeChar, ih, List.append_assoc]
    rfl

theorem partsFrom_escaped (read s : List Char) :
    partsFrom (.literal read) (s.flatMap Literal.escapeChar) = [] := by
  induction s generalizing read with
  | nil => rfl
  | cons c rest ih =>
    rw [List.flatMap_cons, partsFrom_append, partsFrom_escapeChar, modeAfter_escapeChar, ih]
    rfl

theorem modeAfter_quoteChars (s : List Char) : modeAfter .code (Literal.quoteChars s) = .code := by
  rw [Literal.quoteChars, modeAfter]
  change modeAfter (.literal []) _ = _
  rw [modeAfter_append, modeAfter_escaped]
  rfl

/-- A quoted text reads as one literal, which stands for the text. -/
theorem partsFrom_quoteChars (s : List Char) :
    partsFrom .code (Literal.quoteChars s) = [.literal s] := by
  rw [Literal.quoteChars, partsFrom]
  change [] ++ partsFrom (.literal []) _ = _
  rw [List.nil_append, partsFrom_append, partsFrom_escaped, modeAfter_escaped]
  rfl

theorem closed_quote (s : String) : Closed (Literal.quote s) := by
  rw [Closed, Literal.quote, String.toList_ofList, modeAfter_quoteChars]

theorem parts_quote (s : String) : parts (Literal.quote s) = [.literal s.toList] := by
  rw [parts, Literal.quote, String.toList_ofList, partsFrom_quoteChars]

theorem literals_quote (s : String) : literals (Literal.quote s) = [s] := by
  rw [literals, parts_quote]
  simp [Part.text?]

end BlockScript.Script
