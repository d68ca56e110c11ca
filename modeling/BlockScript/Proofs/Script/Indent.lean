/-
  BlockScript.Proofs.Script.Indent

  An indent ahead of every line of a script. The script reads as before, except that a line feed in
  a literal has the indent behind it from then on: a literal with a line feed changes at every level
  of nesting, and one without does not.
-/
import BlockScript.Proofs.Script.Part
import BlockScript.Text.Template
import Mathlib.Data.List.Basic

namespace BlockScript.Script

/-! ## Indents -/

/-- Whether a character is one of code and one of a literal, and ends neither a line nor an
    escape. -/
def isInert (c : Char) : Bool :=
  isPlainChar c && c ≠ '\\' && c ≠ '\n'

/-- A text of which no character means anything to the reader. -/
def Inert (lead : List Char) : Prop :=
  ∀ c ∈ lead, isInert c = true

instance (lead : List Char) : Decidable (Inert lead) :=
  decidable_of_iff (lead.all isInert = true) List.all_eq_true

/-- A character, behind a line feed with the indent of the line that it begins. -/
def breakChar (lead : List Char) (c : Char) : List Char :=
  if c = '\n' then '\n' :: lead else [c]

/-- A text with an indent behind every line feed. -/
def indentChars (lead s : List Char) : List Char :=
  s.flatMap (breakChar lead)

/-- A text with an indent behind every line feed. -/
def indentLines (lead : String) (s : String) : String :=
  String.ofList (indentChars lead.toList s.toList)

/-- Ahead of some text every line feed has the indent behind it. -/
theorem insertAfterBreaks_append (lead s : List Char) {t : List Char} (ht : t ≠ []) :
    Text.insertAfterBreaks lead (s ++ t) =
      indentChars lead s ++ Text.insertAfterBreaks lead t := by
  induction s with
  | nil => rfl
  | cons d rest ih =>
    have hcons : ∀ u, u ≠ [] → Text.insertAfterBreaks lead (d :: u) =
        breakChar lead d ++ Text.insertAfterBreaks lead u := by
      intro u hu
      obtain ⟨e, tail, rfl⟩ := List.exists_cons_of_ne_nil hu
      rw [Text.insertAfterBreaks, breakChar]
      by_cases hd : d = '\n'
      · rw [if_pos hd, if_pos hd, List.cons_append]
      · rw [if_neg hd, if_neg hd]
        rfl
    rw [List.cons_append, hcons _ (List.append_ne_nil_of_right_ne_nil rest ht), ih, indentChars,
      indentChars, List.flatMap_cons, List.append_assoc]

/-- Behind every line feed but one at the end of the text stands the indent. -/
theorem insertAfterBreaks_concat (lead s : List Char) (c : Char) :
    Text.insertAfterBreaks lead (s ++ [c]) = indentChars lead s ++ [c] :=
  insertAfterBreaks_append lead s (List.cons_ne_nil c [])

/-! ## The reader -/

/-- Where the reader of an indented text stands. -/
def Mode.indent (lead : List Char) : Mode → Mode
  | .literal read => .literal (indentChars lead read)
  | .escaped read => .escaped (indentChars lead read)
  | mode => mode

/-- The texts of the literals among parts. -/
def texts (ps : List Part) : List (List Char) :=
  ps.filterMap Part.text?

theorem literals_eq_texts (s : String) : literals s = (texts (parts s)).map String.ofList := rfl

theorem texts_append (ps qs : List Part) : texts (ps ++ qs) = texts ps ++ texts qs :=
  List.filterMap_append

/-- Characters of code are no texts. -/
theorem texts_of_chars {ps : List Part} (h : ∀ p ∈ ps, ∃ c, p = .char c) : texts ps = [] := by
  rw [texts, List.filterMap_eq_nil_iff]
  intro p hp
  obtain ⟨c, rfl⟩ := h p hp
  rfl

/-- A part of an indented text: behind a line feed of code stands the indent, and a literal has it
    behind its own line feeds. -/
def Part.indent (lead : List Char) : Part → List Part
  | .char c => (breakChar lead c).map .char
  | .literal text => [.literal (indentChars lead text)]
  | .comment => [.comment]

/-- The texts of the literals of an indented text. -/
theorem texts_indent (lead : List Char) (ps : List Part) :
    texts (ps.flatMap (Part.indent lead)) = (texts ps).map (indentChars lead) := by
  induction ps with
  | nil => rfl
  | cons p rest ih =>
    rw [List.flatMap_cons, texts_append, ih]
    cases p with
    | literal text => rfl
    | comment => rfl
    | char c =>
      have hnone : texts (Part.indent lead (.char c)) = [] := by
        apply texts_of_chars
        intro p hp
        obtain ⟨d, -, rfl⟩ := List.mem_map.mp hp
        exact ⟨d, rfl⟩
      rw [hnone]
      rfl

/-- Inert characters are code, or more of a literal. -/
theorem modeAfter_inert {lead : List Char} (h : Inert lead) :
    modeAfter .code lead = .code ∧ partsFrom .code lead = lead.map .char ∧
      modeAfter .broken lead = .broken ∧ partsFrom .broken lead = [] ∧
      ∀ read, modeAfter (.literal read) lead = .literal (read ++ lead) ∧
        partsFrom (.literal read) lead = [] := by
  induction lead with
  | nil => exact ⟨rfl, rfl, rfl, rfl, fun read => ⟨by rw [List.append_nil]; rfl, rfl⟩⟩
  | cons c rest ih =>
    obtain ⟨hcode, hchars, hbroken, hnone, hliteral⟩ := ih fun d hd => h d (List.mem_cons_of_mem c hd)
    have hc := h c List.mem_cons_self
    simp only [isInert, isPlainChar, Bool.and_eq_true, decide_eq_true_eq] at hc
    obtain ⟨⟨⟨hquote, hslash⟩, hbackslash⟩, hbreak⟩ := hc
    have hstep : Mode.step .code c = ([.char c], .code) := by
      rw [Mode.step, if_neg hquote, if_neg hslash]
    refine ⟨?_, ?_, hbroken, hnone, fun read => ?_⟩
    · rw [modeAfter, hstep]
      exact hcode
    · rw [partsFrom, hstep, hchars]
      rfl
    · have hstep' : Mode.step (.literal read) c = ([], .literal (read ++ [c])) := by
        rw [Mode.step, if_neg hquote, if_neg hbackslash, if_neg hbreak]
      obtain ⟨hmode, hparts⟩ := hliteral (read ++ [c])
      constructor
      · rw [modeAfter, hstep', hmode, List.append_assoc]
        rfl
      · rw [partsFrom, hstep', hparts]
        rfl

theorem indentChars_append (lead s t : List Char) :
    indentChars lead (s ++ t) = indentChars lead s ++ indentChars lead t :=
  List.flatMap_append

theorem breakChar_of_ne (lead : List Char) {c : Char} (h : c ≠ '\n') : breakChar lead c = [c] :=
  if_neg h

theorem indentChars_singleton {lead : List Char} {c : Char} (h : c ≠ '\n') :
    indentChars lead [c] = [c] := by
  rw [indentChars, List.flatMap_singleton, breakChar_of_ne lead h]

theorem indentChars_break (lead : List Char) : indentChars lead ['\n'] = '\n' :: lead := by
  rw [indentChars, List.flatMap_singleton, breakChar, if_pos rfl]

/-- A character that ends no line does to the reader what it does without the indent. -/
theorem step_indent_of_ne (lead : List Char) (mode : Mode) {c : Char} (h : c ≠ '\n') :
    ((mode.indent lead).step c).2 = (mode.step c).2.indent lead ∧
      ((mode.indent lead).step c).1 = (mode.step c).1.flatMap (Part.indent lead) := by
  have hchar : Part.indent lead (.char c) = [.char c] := by
    rw [Part.indent, breakChar_of_ne lead h]
    rfl
  have hslash : Part.indent lead (.char '/') = [.char '/'] := rfl
  cases mode with
  | code | slash =>
    simp only [Mode.indent, Mode.step]
    split
    · exact ⟨rfl, rfl⟩
    · split
      · exact ⟨rfl, rfl⟩
      · exact ⟨rfl, by simp [hchar, hslash]⟩
  | literal read =>
    simp only [Mode.indent, Mode.step]
    split
    · exact ⟨rfl, rfl⟩
    · split
      · exact ⟨rfl, rfl⟩
      · refine ⟨?_, rfl⟩
        show Mode.literal (indentChars lead read ++ [c]) = .literal (indentChars lead (read ++ [c]))
        rw [indentChars_append, indentChars_singleton h]
  | escaped read =>
    simp only [Mode.indent, Mode.step]
    exact ⟨by rw [indentChars_append, indentChars_singleton h], rfl⟩
  | comment =>
    simp only [Mode.indent, Mode.step]
    rw [if_neg h]
    exact ⟨rfl, rfl⟩
  | broken => exact ⟨rfl, rfl⟩

/-- A line feed and the indent behind it are code, more of a literal behind a backslash, or the end
    of a comment. -/
theorem step_indent_break {lead : List Char} (h : Inert lead) (mode : Mode) :
    modeAfter (mode.indent lead) ('\n' :: lead) = (mode.step '\n').2.indent lead ∧
      partsFrom (mode.indent lead) ('\n' :: lead) =
        (mode.step '\n').1.flatMap (Part.indent lead) := by
  obtain ⟨hcode, hchars, hbroken, hnone, hliteral⟩ := modeAfter_inert h
  rw [modeAfter, partsFrom]
  cases mode with
  | code =>
    refine ⟨hcode, ?_⟩
    show .char '\n' :: partsFrom .code lead = .char '\n' :: lead.map .char ++ []
    rw [hchars, List.append_nil]
  | slash =>
    refine ⟨hcode, ?_⟩
    show .char '/' :: .char '\n' :: partsFrom .code lead =
      .char '/' :: .char '\n' :: (lead.map .char ++ [])
    rw [hchars, List.append_nil]
  | comment =>
    refine ⟨hcode, ?_⟩
    show .comment :: .char '\n' :: partsFrom .code lead =
      .comment :: .char '\n' :: (lead.map .char ++ [])
    rw [hchars, List.append_nil]
  | literal read => exact ⟨hbroken, hnone⟩
  | broken => exact ⟨hbroken, hnone⟩
  | escaped read =>
    obtain ⟨hmode, hparts⟩ := hliteral (indentChars lead read ++ ['\n'])
    refine ⟨?_, hparts⟩
    change modeAfter (.literal (indentChars lead read ++ ['\n'])) lead =
      .literal (indentChars lead (read ++ ['\n']))
    rw [hmode, indentChars_append, indentChars_break, List.append_assoc]
    rfl

/-- Where the reader of an indented text stands, and the parts that it read: those of the text, with
    the indent behind their line feeds. -/
theorem read_indentChars {lead : List Char} (h : Inert lead) (s : List Char) (mode : Mode) :
    modeAfter (mode.indent lead) (indentChars lead s) = (modeAfter mode s).indent lead ∧
      partsFrom (mode.indent lead) (indentChars lead s) =
        (partsFrom mode s).flatMap (Part.indent lead) := by
  induction s generalizing mode with
  | nil => exact ⟨rfl, rfl⟩
  | cons c rest ih =>
    have hstep : modeAfter (mode.indent lead) (breakChar lead c) = (mode.step c).2.indent lead ∧
        partsFrom (mode.indent lead) (breakChar lead c) =
          (mode.step c).1.flatMap (Part.indent lead) := by
      rw [breakChar]
      by_cases hc : c = '\n'
      · rw [if_pos hc, hc]
        exact step_indent_break h mode
      · rw [if_neg hc, modeAfter, modeAfter, partsFrom, partsFrom, List.append_nil]
        exact step_indent_of_ne lead mode hc
    obtain ⟨hmode, hparts⟩ := hstep
    obtain ⟨hmode', hparts'⟩ := ih (mode.step c).2
    rw [indentChars, List.flatMap_cons, ← indentChars]
    constructor
    · rw [modeAfter_append, hmode, hmode', modeAfter]
    · rw [partsFrom_append, hparts, hmode, hparts', partsFrom, List.flatMap_append]

/-! ## Prefixed lines -/

/-- A text behind an indent, with the indent ahead of each of its lines. A line feed at the end has no
    indent behind it, so an indent may be missing there. -/
theorem read_prefixed {lead : List Char} (h : Inert lead) {s : List Char}
    (hs : modeAfter .code s = .code) :
    modeAfter .code (lead ++ Text.insertAfterBreaks lead s) = .code ∧
      ∃ missing ⊆ lead.map Part.char,
        partsFrom .code (lead ++ Text.insertAfterBreaks lead s) ++ missing =
          lead.map .char ++ (partsFrom .code s).flatMap (Part.indent lead) := by
  obtain ⟨hcode, hchars, -⟩ := modeAfter_inert h
  rw [modeAfter_append, partsFrom_append, hcode, hchars]
  rcases List.eq_nil_or_concat s with rfl | ⟨before, c, rfl⟩
  · exact ⟨rfl, [], List.nil_subset _, List.append_nil _⟩
  rw [List.concat_eq_append] at hs ⊢
  rw [insertAfterBreaks_concat]
  obtain ⟨hmode, hparts⟩ := read_indentChars h before .code
  change modeAfter .code _ = _ at hmode
  change partsFrom .code _ = _ at hparts
  rw [modeAfter_append, modeAfter, modeAfter] at hs
  rw [modeAfter_append, modeAfter, modeAfter, partsFrom_append, partsFrom, partsFrom,
    List.append_nil, partsFrom_append, partsFrom, partsFrom, List.append_nil, List.flatMap_append,
    hmode, hparts]
  by_cases hc : c = '\n'
  · -- A line feed at the end completes no literal, and has no indent behind it.
    subst hc
    cases hbefore : modeAfter .code before with
    | code | slash | comment =>
      refine ⟨rfl, lead.map .char, List.Subset.refl _, ?_⟩
      simp [Mode.indent, Mode.step, Part.indent, breakChar]
    | literal read | escaped read | broken =>
      rw [hbefore] at hs
      cases hs
  · obtain ⟨hmode', hparts'⟩ := step_indent_of_ne lead (modeAfter .code before) hc
    refine ⟨?_, [], List.nil_subset _, ?_⟩
    · rw [hmode', hs]
      rfl
    · rw [hparts', List.append_nil]

theorem toList_prefixed (lead s : String) :
    (lead ++ String.ofList (Text.insertAfterBreaks lead.toList s.toList)).toList =
      lead.toList ++ Text.insertAfterBreaks lead.toList s.toList := by
  rw [String.toList_append, String.toList_ofList]

theorem closed_prefixed {lead s : String} (h : Inert lead.toList) (hs : Closed s) :
    Closed (lead ++ String.ofList (Text.insertAfterBreaks lead.toList s.toList)) := by
  rw [Closed, toList_prefixed]
  exact (read_prefixed h hs).1

/-- The literals of an indented text are those of the text, with the indent behind their line
    feeds. -/
theorem literals_prefixed {lead s : String} (h : Inert lead.toList) (hs : Closed s) :
    literals (lead ++ String.ofList (Text.insertAfterBreaks lead.toList s.toList)) =
      (literals s).map (indentLines lead) := by
  obtain ⟨-, missing, hmissing, hparts⟩ := read_prefixed h hs
  have hchars : ∀ ps ⊆ lead.toList.map Part.char, texts ps = [] := by
    intro ps hps
    apply texts_of_chars
    intro p hp
    obtain ⟨c, -, rfl⟩ := List.mem_map.mp (hps hp)
    exact ⟨c, rfl⟩
  have htexts := congrArg texts hparts
  rw [texts_append, texts_append, hchars missing hmissing, hchars _ (List.Subset.refl _), texts_indent,
    List.append_nil, List.nil_append] at htexts
  rw [literals_eq_texts, literals_eq_texts, parts, toList_prefixed, htexts, List.map_map,
    List.map_map]
  apply List.map_congr_left
  intro text _
  rw [Function.comp_apply, Function.comp_apply, indentLines, String.toList_ofList]

/-! ## Nesting -/

/-- A text with the indents of a depth of nesting behind every line feed. -/
def nestedLines (lead : String) : Nat → String → String
  | 0, s => s
  | depth + 1, s => indentLines lead (nestedLines lead depth s)

theorem count_indentChars {lead : List Char} (h : '\n' ∉ lead) (s : List Char) :
    (indentChars lead s).count '\n' = s.count '\n' := by
  induction s with
  | nil => rfl
  | cons c rest ih =>
    have hchar : (breakChar lead c).count '\n' = [c].count '\n' := by
      rw [breakChar]
      by_cases hc : c = '\n'
      · rw [if_pos hc, hc, List.count_cons_self, List.count_eq_zero.mpr h]
        rfl
      · rw [if_neg hc]
    rw [indentChars, List.flatMap_cons, List.count_append, hchar, ← indentChars, ih,
      ← List.count_append]
    rfl

theorem length_indentChars (lead s : List Char) :
    (indentChars lead s).length = s.length + s.count '\n' * lead.length := by
  induction s with
  | nil => simp [indentChars]
  | cons c rest ih =>
    rw [indentChars, List.flatMap_cons, List.length_append, ← indentChars, ih, breakChar]
    by_cases hc : c = '\n'
    · rw [if_pos hc, hc, List.count_cons_self, Nat.succ_mul]
      simp only [List.length_cons]
      omega
    · rw [if_neg hc, List.count_cons_of_ne hc]
      simp only [List.length_cons, List.length_nil]
      omega

theorem length_nestedLines {lead : String} (h : '\n' ∉ lead.toList) (depth : Nat) (s : String) :
    (nestedLines lead depth s).toList.count '\n' = s.toList.count '\n' ∧
      (nestedLines lead depth s).toList.length =
        s.toList.length + depth * (s.toList.count '\n' * lead.toList.length) := by
  induction depth with
  | zero => exact ⟨rfl, by rw [Nat.zero_mul]; rfl⟩
  | succ depth ih =>
    obtain ⟨hcount, hlength⟩ := ih
    rw [nestedLines, indentLines, String.toList_ofList]
    constructor
    · rw [count_indentChars h, hcount]
    · rw [length_indentChars, hcount, hlength, Nat.succ_mul]
      omega

theorem indentLines_eq_self {lead s : String} (h : lead = "" ∨ '\n' ∉ s.toList) :
    indentLines lead s = s := by
  have hchar : ∀ c ∈ s.toList, breakChar lead.toList c = [c] := by
    intro c hc
    rw [breakChar]
    by_cases hbreak : c = '\n'
    · rw [if_pos hbreak]
      rcases h with rfl | hnone
      · rw [hbreak]
        rfl
      · exact absurd (hbreak ▸ hc) hnone
    · rw [if_neg hbreak]
  rw [indentLines, indentChars, List.flatMap_congr hchar, List.flatMap_singleton',
    String.ofList_toList]

/-- A text stays as it is at a depth just if it is not nested, or the indent is empty, or it has no
    line feed. -/
theorem nestedLines_eq_iff {lead : String} (h : '\n' ∉ lead.toList) (depth : Nat) (s : String) :
    nestedLines lead depth s = s ↔ depth = 0 ∨ lead = "" ∨ '\n' ∉ s.toList := by
  constructor
  · intro heq
    have hlength := (length_nestedLines h depth s).2
    rw [heq] at hlength
    have hzero : depth * (s.toList.count '\n' * lead.toList.length) = 0 := by omega
    rcases Nat.mul_eq_zero.mp hzero with hdepth | hproduct
    · exact Or.inl hdepth
    · rcases Nat.mul_eq_zero.mp hproduct with hcount | hlead
      · exact Or.inr (Or.inr (List.count_eq_zero.mp hcount))
      · rw [List.length_eq_zero_iff, String.toList_eq_nil_iff] at hlead
        exact Or.inr (Or.inl hlead)
  · rintro (rfl | hstays)
    · rfl
    · induction depth with
      | zero => rfl
      | succ depth ih => rw [nestedLines, ih, indentLines_eq_self hstays]

end BlockScript.Script
