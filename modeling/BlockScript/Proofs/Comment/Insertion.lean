/-
  BlockScript.Proofs.Comment.Insertion

  Texts that differ in comment lines only. A text is annotated by whole lines that are inserted ahead
  of its lines, each of them an indent, two slashes and anything else.

  `Annotated` goes character by character, with a flag for the beginning of a line, so that texts can
  be put together: what follows a text is annotated on its own, and an indent ahead of every line is
  an indent ahead of the comments too. A comment stands only ahead of a line that has something in
  it besides white space; that is how code is annotated, and what clean-ups of white space need. What
  it comes to on the lines of the two texts is `CommentsAmong`.
-/
import BlockScript.Text.Blank
import BlockScript.Text.Lines
import Mathlib.Data.List.Forall2

namespace BlockScript.Text

/-! ## Lines -/

/-- Whether a line is a comment: spaces and tabs, two slashes, and a text. -/
def IsCommentLine (line : List Char) : Prop :=
  ∃ indentation text, line = indentation ++ '/' :: '/' :: text ∧
    (∀ c ∈ indentation, c = ' ' ∨ c = '\t') ∧ '\n' ∉ text

/-- Lines with comment lines inserted among them. -/
inductive CommentsAmong : List (List Char) → List (List Char) → Prop
  | nil : CommentsAmong [] []
  | line (line : List Char) {before after : List (List Char)} (h : CommentsAmong before after) :
      CommentsAmong (line :: before) (line :: after)
  | comment {line : List Char} {before after : List (List Char)} (hline : IsCommentLine line)
      (h : CommentsAmong before after) : CommentsAmong before (line :: after)

/-- Whether the first line of a text has anything but white space in it. -/
def isSolid : List Char → Bool
  | [] => false
  | c :: rest => !isBlank c || (c ≠ '\n' && isSolid rest)

/-- Whether a text that is begun at the start of a line, or not there, leads to the start of one. -/
def atLineStart : Bool → List Char → Bool
  | atStart, [] => atStart
  | _, c :: rest => atLineStart (c = '\n') rest

/-- Spaces and tabs stay in their line. -/
theorem not_mem_of_spaces {lead : List Char} (h : ∀ c ∈ lead, c = ' ' ∨ c = '\t') :
    '\n' ∉ lead := by
  intro hmem
  rcases h _ hmem with h | h <;> exact absurd h (by decide)

theorem IsCommentLine.not_mem {line : List Char} (h : IsCommentLine line) : '\n' ∉ line := by
  obtain ⟨indentation, text, rfl, hindentation, htext⟩ := h
  intro hmem
  rcases List.mem_append.mp hmem with hmem | hmem
  · exact not_mem_of_spaces hindentation hmem
  · simp only [List.mem_cons] at hmem
    rcases hmem with h | h | h
    · exact absurd h (by decide)
    · exact absurd h (by decide)
    · exact htext h

/-- More spaces and tabs ahead of a comment line. -/
theorem IsCommentLine.indent {line lead : List Char} (h : IsCommentLine line)
    (hlead : ∀ c ∈ lead, c = ' ' ∨ c = '\t') : IsCommentLine (lead ++ line) := by
  obtain ⟨indentation, text, rfl, hindentation, htext⟩ := h
  refine ⟨lead ++ indentation, text, (List.append_assoc ..).symm, ?_, htext⟩
  intro c hc
  rcases List.mem_append.mp hc with hc | hc
  · exact hlead c hc
  · exact hindentation c hc

/-- A line has something in it if its first character is something, or its rest has. -/
theorem isSolid_cons_iff {c : Char} {rest : List Char} :
    isSolid (c :: rest) = true ↔ isBlank c = false ∨ c ≠ '\n' ∧ isSolid rest = true := by
  rw [isSolid, Bool.or_eq_true, Bool.and_eq_true, decide_eq_true_eq, Bool.not_eq_true']

theorem isSolid_append {s : List Char} (h : isSolid s = true) (t : List Char) :
    isSolid (s ++ t) = true := by
  induction s with
  | nil => cases h
  | cons c rest ih =>
    rw [List.cons_append, isSolid_cons_iff]
    rcases isSolid_cons_iff.mp h with hc | ⟨hc, hrest⟩
    · exact Or.inl hc
    · exact Or.inr ⟨hc, ih hrest⟩

/-- White space on the same line ahead of a text. -/
theorem isSolid_behind {s lead : List Char} (h : isSolid s = true) (hlead : '\n' ∉ lead) :
    isSolid (lead ++ s) = true := by
  induction lead with
  | nil => exact h
  | cons c rest ih =>
    rw [List.mem_cons, not_or] at hlead
    rw [List.cons_append, isSolid_cons_iff]
    exact Or.inr ⟨Ne.symm hlead.1, ih hlead.2⟩

theorem IsCommentLine.isSolid {line : List Char} (h : IsCommentLine line) (s : List Char) :
    isSolid (line ++ s) = true := by
  obtain ⟨indentation, text, rfl, hindentation, -⟩ := h
  rw [List.append_assoc]
  apply isSolid_behind _ (not_mem_of_spaces hindentation)
  rfl

theorem isSolid_ne_nil {s : List Char} (h : isSolid s = true) : s ≠ [] := by
  rintro rfl
  cases h

theorem atLineStart_append (atStart : Bool) (s t : List Char) :
    atLineStart atStart (s ++ t) = atLineStart (atLineStart atStart s) t := by
  induction s generalizing atStart with
  | nil => rfl
  | cons c rest ih => exact ih _

/-- Where a text with characters leads does not depend on where it is begun. -/
theorem atLineStart_eq {s : List Char} (h : s ≠ []) (atStart atStart' : Bool) :
    atLineStart atStart s = atLineStart atStart' s := by
  cases s with
  | nil => exact absurd rfl h
  | cons c rest => rfl

/-! ## Annotated texts -/

/-- A text and the text with comment lines inserted. The flag tells whether the text is begun at the
    start of a line; elsewhere no comment can be inserted. -/
inductive Annotated : Bool → List Char → List Char → Prop
  | nil (atStart : Bool) : Annotated atStart [] []
  | char {atStart : Bool} {c : Char} {s t : List Char} (h : Annotated (c = '\n') s t) :
      Annotated atStart (c :: s) (c :: t)
  | comment {line s t : List Char} (hline : IsCommentLine line) (hsolid : isSolid s = true)
      (h : Annotated true s t) : Annotated true s (line ++ '\n' :: t)

namespace Annotated

variable {atStart : Bool} {s t s' t' : List Char}

theorem refl (atStart : Bool) (s : List Char) : Annotated atStart s s := by
  induction s generalizing atStart with
  | nil => exact .nil atStart
  | cons c rest ih => exact .char (ih _)

/-- Without a comment ahead the place of the beginning does not matter. -/
theorem weaken (h : Annotated false s t) (atStart : Bool) : Annotated atStart s t := by
  cases h with
  | nil => exact .nil atStart
  | char h => exact .char h

theorem eq_nil_iff (h : Annotated atStart s t) : s = [] ↔ t = [] := by
  cases h with
  | nil => exact Iff.rfl
  | char h => exact ⟨fun h => absurd h (List.cons_ne_nil _ _), fun h => absurd h (List.cons_ne_nil _ _)⟩
  | comment hline hsolid h =>
    constructor
    · exact fun hnil => absurd hnil (isSolid_ne_nil hsolid)
    · exact fun hnil => absurd hnil (List.append_ne_nil_of_right_ne_nil _ (List.cons_ne_nil _ _))

/-- Two annotated texts, the second one begun where the first one ends. -/
theorem append (h : Annotated atStart s t) (h' : Annotated (atLineStart atStart s) s' t') :
    Annotated atStart (s ++ s') (t ++ t') := by
  induction h with
  | nil atStart => exact h'
  | char h ih => exact .char (ih h')
  | comment hline hsolid h ih =>
    have hwhole := Annotated.comment hline (isSolid_append hsolid s') (ih h')
    rwa [List.append_assoc]

/-- An annotated text behind one that has no comments. -/
theorem behind (x : List Char) (h : Annotated (atLineStart atStart x) s t) :
    Annotated atStart (x ++ s) (x ++ t) :=
  (refl atStart x).append h

/-- An annotated text ahead of one that has no comments. -/
theorem ahead (h : Annotated atStart s t) (x : List Char) : Annotated atStart (s ++ x) (t ++ x) :=
  h.append (refl _ x)

end Annotated

/-! ### Comments -/

/-- A text of comment lines, each with a line feed behind it. -/
def IsCommentText (s : List Char) : Prop :=
  ∃ comments : List (List Char), (∀ line ∈ comments, IsCommentLine line) ∧
    s = comments.flatMap (· ++ ['\n'])

theorem isCommentText_nil : IsCommentText [] :=
  ⟨[], fun _ h => absurd h List.not_mem_nil, rfl⟩

theorem IsCommentText.append {s t : List Char} (hs : IsCommentText s) (ht : IsCommentText t) :
    IsCommentText (s ++ t) := by
  obtain ⟨before, hbefore, rfl⟩ := hs
  obtain ⟨after, hafter, rfl⟩ := ht
  refine ⟨before ++ after, ?_, List.flatMap_append.symm⟩
  intro line hline
  rcases List.mem_append.mp hline with hline | hline
  · exact hbefore line hline
  · exact hafter line hline

/-- Behind comment lines a line begins, if they do not go on in one. -/
theorem IsCommentText.ended {s : List Char} (h : IsCommentText s) : atLineStart true s = true := by
  obtain ⟨comments, -, rfl⟩ := h
  induction comments with
  | nil => rfl
  | cons line rest ih =>
    rw [List.flatMap_cons, atLineStart_append, atLineStart_append]
    exact ih

/-- Comments ahead of a text that begins a line with something in it. -/
theorem Annotated.comments {s t text : List Char} (htext : IsCommentText text)
    (hsolid : isSolid s = true) (h : Annotated true s t) : Annotated true s (text ++ t) := by
  obtain ⟨comments, hcomments, rfl⟩ := htext
  induction comments with
  | nil => exact h
  | cons line rest ih =>
    have hrest := ih fun other hother => hcomments other (List.mem_cons_of_mem line hother)
    have hline := Annotated.comment (hcomments line List.mem_cons_self) hsolid hrest
    simpa using hline

/-! ## Indents -/

/-- An indent is inserted behind a line feed that something follows. -/
theorem insertAfterBreaks_cons (lead : List Char) (c : Char) (s : List Char) :
    insertAfterBreaks lead (c :: s) =
      c :: ((if c = '\n' ∧ s ≠ [] then lead else []) ++ insertAfterBreaks lead s) := by
  cases s with
  | nil => simp [insertAfterBreaks]
  | cons d rest =>
    rw [insertAfterBreaks]
    by_cases hc : c = '\n'
    · simp [hc]
    · simp [hc]

/-- A line that others follow stays, and the next one has the indent. -/
theorem insertAfterBreaks_line {lead line s : List Char} (hline : '\n' ∉ line) (hs : s ≠ []) :
    insertAfterBreaks lead (line ++ '\n' :: s) =
      line ++ '\n' :: (lead ++ insertAfterBreaks lead s) := by
  induction line with
  | nil => rw [List.nil_append, insertAfterBreaks_cons, if_pos ⟨rfl, hs⟩, List.nil_append]
  | cons c rest ih =>
    rw [List.mem_cons, not_or] at hline
    have hc : ¬ (c = '\n' ∧ rest ++ '\n' :: s ≠ []) := fun h => hline.1 h.1.symm
    rw [List.cons_append, insertAfterBreaks_cons, if_neg hc, ih hline.2, List.nil_append,
      List.cons_append]

theorem isSolid_insertAfterBreaks {lead s : List Char} (h : isSolid s = true) :
    isSolid (insertAfterBreaks lead s) = true := by
  induction s with
  | nil => cases h
  | cons c rest ih =>
    rw [insertAfterBreaks_cons, isSolid_cons_iff]
    rcases isSolid_cons_iff.mp h with hc | ⟨hc, hrest⟩
    · exact Or.inl hc
    · have hnone : ¬ (c = '\n' ∧ rest ≠ []) := fun h => hc h.1
      rw [if_neg hnone, List.nil_append]
      exact Or.inr ⟨hc, ih hrest⟩

/-- An indent of spaces and tabs goes ahead of every comment too. -/
theorem Annotated.indent {lead s t : List Char} {atStart : Bool}
    (hlead : ∀ c ∈ lead, c = ' ' ∨ c = '\t') (h : Annotated atStart s t) :
    Annotated atStart ((if atStart then lead else []) ++ insertAfterBreaks lead s)
      ((if atStart then lead else []) ++ insertAfterBreaks lead t) := by
  have hbreak : '\n' ∉ lead := not_mem_of_spaces hlead
  induction h with
  | nil atStart => exact .refl _ _
  | @char atStart c s t h ih =>
    apply Annotated.behind
    rw [insertAfterBreaks_cons, insertAfterBreaks_cons]
    apply Annotated.char
    by_cases hc : c = '\n'
    · -- The indent comes behind a line feed on both sides or, if the texts end there, on neither.
      by_cases hs : s = []
      · obtain rfl := h.eq_nil_iff.mp hs
        rw [hs]
        exact .refl _ _
      · have ht : t ≠ [] := fun ht => hs (h.eq_nil_iff.mpr ht)
        rw [if_pos ⟨hc, hs⟩, if_pos ⟨hc, ht⟩]
        simpa [hc] using ih
    · rw [if_neg fun h => hc h.1, if_neg fun h => hc h.1]
      simpa [hc] using ih
  | @comment line s t hline hsolid h ih =>
    have ht : t ≠ [] := fun ht => isSolid_ne_nil hsolid (h.eq_nil_iff.mpr ht)
    rw [if_pos rfl] at ih ⊢
    -- The indent ahead of the comment is inserted with it, the one behind it is that of the line.
    rw [insertAfterBreaks_line hline.not_mem ht, ← List.append_assoc]
    exact .comment (hline.indent hlead) (isSolid_behind (isSolid_insertAfterBreaks hsolid) hbreak) ih

/-! ## The lines of annotated texts -/

theorem lines_break (s : List Char) : lines ('\n' :: s) = [] :: lines s := by
  rw [lines, splitOn, if_pos rfl]
  rfl

/-- A character is put to the first line. -/
theorem lines_char {c : Char} (hc : c ≠ '\n') {s first : List Char} {others : List (List Char)}
    (h : lines s = first :: others) : lines (c :: s) = (c :: first) :: others := by
  rw [lines] at h ⊢
  rw [splitOn, if_neg hc, h]

theorem lines_line {line : List Char} (h : '\n' ∉ line) (s : List Char) :
    lines (line ++ '\n' :: s) = line :: lines s := by
  induction line with
  | nil => exact lines_break s
  | cons c rest ih =>
    rw [List.mem_cons, not_or] at h
    exact lines_char (Ne.symm h.1) (ih h.2)

/-- The lines of an annotated text are those of the text with comment lines among them. If the text
    is not begun at the start of a line, the first line is left alone. -/
theorem Annotated.lines {atStart : Bool} {s t : List Char} (h : Annotated atStart s t) :
    CommentsAmong (lines s) (lines t) ∧ (atStart = false → ∃ first before after,
      Text.lines s = first :: before ∧ Text.lines t = first :: after ∧
        CommentsAmong before after) := by
  induction h with
  | nil atStart =>
    exact ⟨.line [] .nil, fun _ => ⟨[], [], [], rfl, rfl, .nil⟩⟩
  | @char atStart c s t h ih =>
    by_cases hc : c = '\n'
    · subst hc
      rw [lines_break, lines_break]
      exact ⟨.line [] ih.1, fun _ => ⟨[], _, _, rfl, rfl, ih.1⟩⟩
    · -- No comment comes ahead of the rest of the line, so the character goes to both first lines.
      obtain ⟨first, before, after, hs, ht, hrest⟩ := ih.2 (by simpa using hc)
      rw [lines_char hc hs, lines_char hc ht]
      exact ⟨.line _ hrest, fun _ => ⟨_, _, _, rfl, rfl, hrest⟩⟩
  | comment hline hsolid h ih =>
    rw [lines_line hline.not_mem]
    exact ⟨.comment hline ih.1, fun h => absurd h (by decide)⟩

/-! ## Strings -/

/-- A text and the text with comment lines inserted, as strings. -/
def Commented (atStart : Bool) (s t : String) : Prop :=
  Annotated atStart s.toList t.toList

/-- A text that leads to the start of a line leads there behind every other text. -/
theorem atLineStart_behind (s : String) {t : String}
    (h : ∀ atStart, atLineStart atStart t.toList = true) (atStart : Bool) :
    atLineStart atStart (s ++ t).toList = true := by
  rw [String.toList_append, atLineStart_append]
  exact h _

namespace Commented

variable {atStart : Bool} {s t s' t' : String}

theorem refl (atStart : Bool) (s : String) : Commented atStart s s :=
  Annotated.refl atStart s.toList

theorem weaken (h : Commented false s t) (atStart : Bool) : Commented atStart s t :=
  Annotated.weaken h atStart

theorem eq_empty_iff (h : Commented atStart s t) : s = "" ↔ t = "" := by
  rw [← String.toList_eq_nil_iff, ← String.toList_eq_nil_iff]
  exact Annotated.eq_nil_iff h

theorem append (h : Commented atStart s t) (h' : Commented (atLineStart atStart s.toList) s' t') :
    Commented atStart (s ++ s') (t ++ t') := by
  rw [Commented, String.toList_append, String.toList_append]
  exact Annotated.append h h'

/-- Behind a text that has no comments. -/
theorem behind (x : String) (h : Commented (atLineStart atStart x.toList) s t) :
    Commented atStart (x ++ s) (x ++ t) :=
  (refl atStart x).append h

/-- Ahead of a text that has no comments. -/
theorem ahead (h : Commented atStart s t) (x : String) : Commented atStart (s ++ x) (t ++ x) :=
  h.append (refl _ x)

/-- Comments ahead of a text that has something in its first line. -/
theorem comments {text : String} (htext : IsCommentText text.toList)
    (hsolid : isSolid s.toList = true) (h : Commented true s t) : Commented true s (text ++ t) := by
  rw [Commented, String.toList_append]
  exact Annotated.comments htext hsolid h

/-- Joined texts. If comments may be ahead of each, the separator has to lead to a new line. -/
theorem join {separator : String} {before after : List String}
    (hseparator : atStart = true → ∀ b, atLineStart b separator.toList = true)
    (h : List.Forall₂ (Commented atStart) before after) :
    Commented atStart (Text.join separator before) (Text.join separator after) := by
  induction h with
  | nil => exact refl atStart ""
  | @cons first first' rest rest' hfirst hrest ih =>
    cases hrest with
    | nil => exact hfirst
    | cons hsecond hmore =>
      apply Commented.append (hfirst.ahead separator)
      cases atStart with
      | false => exact ih.weaken _
      | true =>
        rw [String.toList_append, atLineStart_append, hseparator rfl]
        exact ih

end Commented

end BlockScript.Text
