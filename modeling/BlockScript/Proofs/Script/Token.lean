/-
  BlockScript.Proofs.Script.Token

  The words of a script: names, numerals, literals, operators, brackets and other marks. A token
  takes as many characters as it can. A point belongs to a numeral only if a digit follows, so that
  a member of a numeral reads as a numeral, a point and a name.

  Two texts one behind the other read as the tokens of the first and the tokens of the second if no
  token reaches over the seam (`Seam`). A separator on either side of the seam is enough.
-/
import BlockScript.Proofs.Script.Part

namespace BlockScript.Script

/-! ## Tokens -/

/-- The kinds of brackets. -/
inductive Bracket where
  | round
  | square
  | curly
  deriving DecidableEq, Repr

/-- The operator symbols. -/
inductive Symbol where
  | bang
  | plus
  | minus
  | less
  | lessEqual
  | greater
  | greaterEqual
  | equal
  | notEqual
  | and
  | or
  | question
  | colon
  deriving DecidableEq, Repr

/-- A token of a script. -/
inductive Token where
  | word (name : String)
  | numeral (digits : String)
  | literal (text : List Char)
  | symbol (s : Symbol)
  | opening (b : Bracket)
  | closing (b : Bracket)
  /-- Any other character. -/
  | mark (c : Char)
  deriving DecidableEq, Repr

/-! ## The reader -/

/-- Where the reader stands in a numeral. -/
inductive Phase where
  | whole
  /-- Behind a point that the numeral has only if a digit follows. -/
  | point
  | fraction
  /-- Behind the mark of an exponent. -/
  | mark
  /-- Behind the sign of an exponent. -/
  | sign
  | exponent
  deriving DecidableEq, Repr

/-- The token that the reader is in, with what it has of it. -/
inductive Pending where
  | nothing
  | word (read : List Char)
  | numeral (phase : Phase) (read : List Char)
  /-- A character that may be the first of an operator of two. -/
  | symbol (c : Char)
  deriving DecidableEq, Repr

/-- The operator of two characters. -/
def pair? : Char → Char → Option Symbol
  | '!', '=' => some .notEqual
  | '=', '=' => some .equal
  | '<', '=' => some .lessEqual
  | '>', '=' => some .greaterEqual
  | '&', '&' => some .and
  | '|', '|' => some .or
  | _, _ => none

/-- The token of one character. -/
def single (c : Char) : Token :=
  match c with
  | '!' => .symbol .bang
  | '+' => .symbol .plus
  | '-' => .symbol .minus
  | '<' => .symbol .less
  | '>' => .symbol .greater
  | '?' => .symbol .question
  | ':' => .symbol .colon
  | '(' => .opening .round
  | ')' => .closing .round
  | '[' => .opening .square
  | ']' => .closing .square
  | '\x7b' => .opening .curly
  | '\x7d' => .closing .curly
  | c => .mark c

/-- Whether a character may be the first of an operator of two. -/
def startsPair (c : Char) : Bool :=
  c = '!' || c = '=' || c = '<' || c = '>' || c = '&' || c = '|'

/-- Whether the reader passes over a character. -/
def isSpace (c : Char) : Bool :=
  c = ' ' || c = '\t' || c = '\n'

/-- The phase of a numeral behind one more character, if the numeral has it. -/
def Phase.extend? (phase : Phase) (c : Char) : Option Phase :=
  match phase with
  | .whole =>
    if c.isDigit then some .whole
    else if c = '.' then some .point
    else if c = 'e' || c = 'E' then some .mark
    else none
  | .point => if c.isDigit then some .fraction else none
  | .fraction =>
    if c.isDigit then some .fraction
    else if c = 'e' || c = 'E' then some .mark
    else none
  | .mark =>
    if c.isDigit then some .exponent
    else if c = '+' || c = '-' then some .sign
    else none
  | .sign | .exponent => if c.isDigit then some .exponent else none

namespace Pending

/-- The tokens that end where the reader stands. -/
def tokens : Pending → List Token
  | .nothing => []
  | .word read => [.word (String.ofList read)]
  | .numeral .point read => [.numeral (String.ofList read.dropLast), .mark '.']
  | .numeral _ read => [.numeral (String.ofList read)]
  | .symbol c => [single c]

/-- What one more character makes of the token that the reader is in, if it belongs to it. -/
def extend? : Pending → Char → Option (List Token × Pending)
  | .nothing, _ => none
  | .word read, c => if Literal.isWordChar c then some ([], .word (read ++ [c])) else none
  | .numeral phase read, c =>
    (phase.extend? c).map fun phase' => ([], .numeral phase' (read ++ [c]))
  | .symbol d, c => (pair? d c).map fun s => ([.symbol s], .nothing)

/-- What a character begins. -/
def begin (c : Char) : List Token × Pending :=
  if c.isDigit then ([], .numeral .whole [c])
  else if Literal.isWordChar c then ([], .word [c])
  else if startsPair c then ([], .symbol c)
  else if isSpace c then ([], .nothing)
  else ([single c], .nothing)

/-- The tokens that one more part completes, and the token that the reader is in behind it. -/
def step (pending : Pending) : Part → List Token × Pending
  | .char c =>
    match pending.extend? c with
    | some next => next
    | none => (pending.tokens ++ (begin c).1, (begin c).2)
  | .literal text => (pending.tokens ++ [.literal text], .nothing)
  | .comment => (pending.tokens, .nothing)

end Pending

/-- The token that the reader is in behind parts. -/
def pendingAfter : Pending → List Part → Pending
  | pending, [] => pending
  | pending, part :: rest => pendingAfter (pending.step part).2 rest

/-- The tokens of parts. -/
def tokensFrom : Pending → List Part → List Token
  | pending, [] => pending.tokens
  | pending, part :: rest => (pending.step part).1 ++ tokensFrom (pending.step part).2 rest

/-- The tokens of a text. -/
def tokens (s : String) : List Token :=
  tokensFrom .nothing (parts s)

/-! ## Seams -/

/-- Whether parts read behind a token as they do alone. -/
def Pending.Ends (pending : Pending) (ps : List Part) : Prop :=
  tokensFrom pending ps = pending.tokens ++ tokensFrom .nothing ps

theorem tokensFrom_append {pending : Pending} {ps qs : List Part}
    (h : (pendingAfter pending ps).Ends qs) :
    tokensFrom pending (ps ++ qs) = tokensFrom pending ps ++ tokensFrom .nothing qs := by
  induction ps generalizing pending with
  | nil => exact h
  | cons p rest ih => rw [List.cons_append, tokensFrom, tokensFrom, ih h, List.append_assoc]

theorem pendingAfter_append (pending : Pending) (ps qs : List Part) :
    pendingAfter pending (ps ++ qs) = pendingAfter (pendingAfter pending ps) qs := by
  induction ps generalizing pending with
  | nil => rfl
  | cons p rest ih => exact ih _

theorem Pending.ends_nil (pending : Pending) : pending.Ends [] := by
  rw [Ends, tokensFrom, tokensFrom, Pending.tokens, List.append_nil]

theorem Pending.ends_literal (pending : Pending) (text : List Char) (ps : List Part) :
    pending.Ends (.literal text :: ps) := by
  rw [Ends, tokensFrom, tokensFrom, step, step, Pending.tokens, List.append_assoc]
  rfl

/-- A character that does not belong to the token ends it. -/
theorem Pending.ends_of_extend? {pending : Pending} {c : Char} (h : pending.extend? c = none)
    (ps : List Part) : pending.Ends (.char c :: ps) := by
  rw [Ends, tokensFrom, tokensFrom, step, step, h]
  simp only [extend?, Pending.tokens, List.nil_append, List.append_assoc]

theorem Pending.ends_nothing (ps : List Part) : Pending.nothing.Ends ps := by
  rw [Ends, Pending.tokens, List.nil_append]

/-! ## Separators -/

/-- Whether a character belongs to no token but its own. -/
def isSeparator (c : Char) : Bool :=
  [' ', '\n', '(', ')', '[', ']', ',', '?', ':', ';'].contains c

theorem isPlainChar_of_isSeparator {c : Char} (h : isSeparator c = true) :
    isPlainChar c = true := by
  simp only [isSeparator, List.contains_eq_mem, List.mem_cons, List.not_mem_nil, or_false,
    decide_eq_true_eq] at h
  rcases h with rfl | rfl | rfl | rfl | rfl | rfl | rfl | rfl | rfl | rfl <;> rfl

theorem Pending.extend?_separator (pending : Pending) {c : Char} (h : isSeparator c = true) :
    pending.extend? c = none := by
  simp only [isSeparator, List.contains_eq_mem, List.mem_cons, List.not_mem_nil, or_false,
    decide_eq_true_eq] at h
  cases pending with
  | nothing => rfl
  | word read => rcases h with rfl | rfl | rfl | rfl | rfl | rfl | rfl | rfl | rfl | rfl <;> rfl
  | numeral phase read =>
    cases phase <;>
      rcases h with rfl | rfl | rfl | rfl | rfl | rfl | rfl | rfl | rfl | rfl <;> rfl
  | symbol d =>
    rcases h with rfl | rfl | rfl | rfl | rfl | rfl | rfl | rfl | rfl | rfl <;>
      simp [extend?, pair?]

/-- Behind a separator the reader is in no token. -/
theorem Pending.step_separator (pending : Pending) {c : Char} (h : isSeparator c = true) :
    (pending.step (.char c)).2 = .nothing := by
  rw [step, pending.extend?_separator h]
  simp only [isSeparator, List.contains_eq_mem, List.mem_cons, List.not_mem_nil, or_false,
    decide_eq_true_eq] at h
  rcases h with rfl | rfl | rfl | rfl | rfl | rfl | rfl | rfl | rfl | rfl <;> rfl

/-- A point ends a token if no digit follows. -/
theorem Pending.ends_point (pending : Pending) {c : Char} (h : c.isDigit = false)
    (ps : List Part) : pending.Ends (.char '.' :: .char c :: ps) := by
  cases pending with
  | nothing => exact ends_nothing _
  | word read => exact ends_of_extend? rfl _
  | symbol d => exact ends_of_extend? (by simp [extend?, pair?]) _
  | numeral phase read =>
    cases phase with
    | whole =>
      have hextend : Pending.extend? (.numeral .point (read ++ ['.'])) c = none := by
        simp [extend?, Phase.extend?, h]
      have hbegin : Pending.step .nothing (.char '.') = ([.mark '.'], .nothing) := rfl
      have hpoint : Pending.step (.numeral .whole read) (.char '.') =
          ([], .numeral .point (read ++ ['.'])) := rfl
      rw [Ends, tokensFrom, hpoint, tokensFrom, tokensFrom, hbegin, tokensFrom, step, step,
        hextend]
      simp [extend?, Pending.tokens]
    | _ => exact ends_of_extend? rfl _

/-! ## Seams of texts -/

/-- Whether no token reaches over the seam of two texts. -/
def Seam (s t : String) : Prop :=
  (pendingAfter .nothing (parts s)).Ends (parts t)

theorem tokens_append {s t : String} (hs : Closed s) (h : Seam s t) :
    tokens (s ++ t) = tokens s ++ tokens t := by
  rw [tokens, parts_append hs, tokensFrom_append h]
  rfl

theorem parts_of_head {t : String} {c : Char} {rest : List Char} (ht : t.toList = c :: rest)
    (hc : isPlainChar c = true) : parts t = .char c :: partsFrom .code rest := by
  rw [parts, ht, partsFrom, step_code_of_plain hc]
  rfl

/-- A separator ahead of the second text parts two texts. -/
theorem seam_of_head {t : String} {c : Char} {rest : List Char} (ht : t.toList = c :: rest)
    (hc : isSeparator c = true) (s : String) : Seam s t := by
  rw [Seam, parts_of_head ht (isPlainChar_of_isSeparator hc)]
  exact Pending.ends_of_extend? (Pending.extend?_separator _ hc) _

/-- A point ahead of the second text parts two texts if no digit follows it. -/
theorem seam_of_point {t : String} {c : Char} {rest : List Char}
    (ht : t.toList = '.' :: c :: rest) (hdigit : c.isDigit = false) (hc : isPlainChar c = true)
    (s : String) : Seam s t := by
  rw [Seam, parts_of_head ht rfl, partsFrom, step_code_of_plain hc]
  exact Pending.ends_point _ hdigit _

/-- In a closed text a separator at the end is a character of code. -/
theorem pendingAfter_of_last {s : String} {c : Char} {before : List Char} (hs : Closed s)
    (hlast : s.toList = before ++ [c]) (hc : isSeparator c = true)
    (pending : Pending) : pendingAfter pending (parts s) = .nothing := by
  have hplain := isPlainChar_of_isSeparator hc
  simp only [isPlainChar, ne_eq, decide_not, Bool.and_eq_true, Bool.not_eq_eq_eq_not, Bool.not_true,
    decide_eq_false_iff_not] at hplain
  rw [Closed, hlast, modeAfter_append] at hs
  rw [parts, hlast, partsFrom_append, pendingAfter_append, partsFrom, partsFrom, List.append_nil]
  cases hmode : modeAfter .code before with
  | code =>
    rw [step_code_of_plain (isPlainChar_of_isSeparator hc)]
    exact Pending.step_separator _ hc
  | slash =>
    rw [Mode.step, if_neg hplain.2, if_neg hplain.1]
    exact Pending.step_separator _ hc
  | literal read =>
    rw [hmode, modeAfter, modeAfter, Mode.step, if_neg hplain.1] at hs
    split at hs
    · cases hs
    · split at hs <;> cases hs
  | escaped read =>
    rw [hmode] at hs
    exact absurd hs (by simp [modeAfter, Mode.step])
  | comment =>
    rw [Mode.step]
    split
    · exact Pending.step_separator _ rfl
    · rename_i hne
      rw [hmode] at hs
      exact absurd hs (by simp [modeAfter, Mode.step, hne])
  | broken =>
    rw [hmode] at hs
    exact absurd hs (by simp [modeAfter, Mode.step])

/-- Whether characters begin with a separator, or with a point and no digit. -/
def startsApart : List Char → Bool
  | '.' :: c :: _ => !c.isDigit && isPlainChar c
  | c :: _ => isSeparator c
  | [] => false

/-- Whether a text begins with a separator, or with a point and no digit. -/
def StartsApart (t : String) : Prop :=
  startsApart t.toList = true

instance (t : String) : Decidable (StartsApart t) :=
  inferInstanceAs (Decidable (_ = _))

/-- Whether a text ends with a separator. -/
def EndsApart (s : String) : Prop :=
  s.toList.getLast?.any isSeparator = true

instance (s : String) : Decidable (EndsApart s) :=
  inferInstanceAs (Decidable (_ = _))

theorem StartsApart.seam {t : String} (h : StartsApart t) (s : String) : Seam s t := by
  rw [StartsApart, startsApart.eq_def] at h
  split at h
  · rename_i c rest ht
    rw [Bool.and_eq_true, Bool.not_eq_true'] at h
    exact seam_of_point ht h.1 h.2 s
  · rename_i c rest _ ht
    exact seam_of_head ht h s
  · exact absurd h (by simp)

theorem EndsApart.append {t : String} (h : EndsApart t) (s : String) : EndsApart (s ++ t) := by
  rw [EndsApart, String.toList_append, List.getLast?_append]
  rw [EndsApart] at h
  cases hlast : t.toList.getLast? with
  | none =>
    rw [hlast] at h
    exact absurd h (by simp)
  | some c =>
    rw [hlast] at h
    exact h

theorem EndsApart.seam {s : String} (h : EndsApart s) (hs : Closed s) (t : String) :
    Seam s t := by
  rw [EndsApart] at h
  cases hlast : s.toList.getLast? with
  | none =>
    rw [hlast] at h
    exact absurd h (by simp)
  | some c =>
    rw [hlast] at h
    obtain ⟨before, hbefore⟩ := List.getLast?_eq_some_iff.mp hlast
    rw [Seam, pendingAfter_of_last hs hbefore h]
    exact Pending.ends_nothing _

/-- Whether a text can stand behind an exclamation mark without making another operator of it. -/
def Negatable (t : String) : Prop :=
  (parts t).head? ≠ some (.char '=')

instance (t : String) : Decidable (Negatable t) :=
  inferInstanceAs (Decidable (_ ≠ _))

theorem Negatable.append {s t : String} (hclosed : Closed s) (hs : Negatable s)
    (ht : Negatable t) : Negatable (s ++ t) := by
  rw [Negatable, parts_append hclosed, List.head?_append]
  cases hhead : (parts s).head? with
  | none => exact ht
  | some part =>
    rw [Negatable, hhead] at hs
    exact hs

/-- An exclamation mark and the operand behind it are two tokens. -/
theorem seam_bang {t : String} (h : Negatable t) : Seam "!" t := by
  have hpending : pendingAfter .nothing (parts "!") = .symbol '!' := rfl
  rw [Seam, hpending]
  cases hparts : parts t with
  | nil => exact Pending.ends_nil _
  | cons part rest =>
    cases part with
    | literal text => exact Pending.ends_literal _ _ _
    | comment => rfl
    | char c =>
      apply Pending.ends_of_extend?
      have hne : c ≠ '=' := by
        rintro rfl
        exact h (by rw [hparts]; rfl)
      rw [Pending.extend?, pair?.eq_def]
      split <;> simp_all

/-- A minus sign and the operand behind it are two tokens. -/
theorem seam_minus (t : String) : Seam "-" t :=
  Pending.ends_nothing _

end BlockScript.Script
