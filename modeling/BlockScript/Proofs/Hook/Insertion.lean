/-
  BlockScript.Proofs.Hook.Insertion

  Texts that differ in whole lines that are inserted on one side. Unlike comments such lines go ahead
  of code and behind it, so it is kept in view where a text stands in its line, and whether there is
  something in the line before it: behind the last line feed of a text that ends in white space
  nothing may be inserted, for a clean-up of white space would not leave the rest alone.

  `Inserted` goes character by character, so that texts can be put together and indented. What it
  comes to on the lines of the two texts is `LinesInserted`.
-/
import BlockScript.Proofs.Comment.LineEnd

namespace BlockScript.Text

/-! ## Places in a line -/

/-- Where a text stands in its line. -/
inductive LinePlace where
  /-- Behind white space that begins the line. -/
  | blank
  /-- At the start of a line. -/
  | start
  /-- At the start of a line, and there is something in the line before. -/
  | fresh
  /-- Behind something in the line. -/
  | firm
  deriving DecidableEq, Repr

namespace LinePlace

/-- The place behind a character. -/
def step (place : LinePlace) (c : Char) : LinePlace :=
  match place with
  | .firm => if c = '\n' then .fresh else .firm
  | .blank | .start | .fresh => if c = '\n' then .start else if isBlank c then .blank else .firm

/-- The place behind a text. -/
def after (place : LinePlace) (s : List Char) : LinePlace :=
  s.foldl step place

/-- Whether a place is at the start of a line. -/
def isLineStart : LinePlace → Bool
  | .start | .fresh => true
  | .blank | .firm => false

/-- Where lines can be inserted at one place, they can be at another one. -/
inductive Below : LinePlace → LinePlace → Prop
  | refl (place : LinePlace) : Below place place
  | blank (place : LinePlace) : Below .blank place
  | start : Below .start .fresh

theorem after_append (place : LinePlace) (s t : List Char) :
    place.after (s ++ t) = (place.after s).after t :=
  List.foldl_append

theorem Below.step {place place' : LinePlace} (h : place.Below place') (c : Char) :
    (place.step c).Below (place'.step c) := by
  cases h with
  | refl => exact .refl _
  | start => exact .refl _
  | blank =>
    cases place' with
    | blank | start | fresh => exact .refl _
    | firm =>
      -- Behind something in the line white space is as good as anything else.
      rw [LinePlace.step, LinePlace.step]
      split
      · exact .start
      · split
        · exact .blank _
        · exact .refl _

theorem isLineStart_step (place : LinePlace) (c : Char) :
    (place.step c).isLineStart = decide (c = '\n') := by
  by_cases hc : c = '\n'
  · subst hc
    cases place <;> rfl
  · rw [decide_eq_false hc]
    cases place <;> simp only [step, if_neg hc]
    case firm => rfl
    all_goals split <;> rfl

theorem isLineStart_after (place : LinePlace) (s : List Char) :
    (place.after s).isLineStart = atLineStart place.isLineStart s := by
  induction s generalizing place with
  | nil => rfl
  | cons c rest ih =>
    show ((place.step c).after rest).isLineStart = atLineStart (decide (c = '\n')) rest
    rw [ih, isLineStart_step]

/-- A place at the start of a line is no worse than any other such place. -/
theorem below_of_isLineStart {place : LinePlace} (h : place.isLineStart = true) :
    Below .start place := by
  cases place with
  | blank | firm => cases h
  | start => exact .refl _
  | fresh => exact .start

/-- At the start of a line it does not matter what is in the line before. -/
theorem step_eq {place place' : LinePlace} (h : place ≠ .firm) (h' : place' ≠ .firm) (c : Char) :
    place.step c = place'.step c := by
  cases place <;> cases place' <;> first | rfl | exact absurd rfl h | exact absurd rfl h'

theorem after_blanks {place : LinePlace} (h : place ≠ .firm) {s : List Char}
    (hs : ∀ c ∈ s, c = ' ' ∨ c = '\t') : place.after s ≠ .firm := by
  induction s generalizing place with
  | nil => exact h
  | cons c rest ih =>
    have hstep : place.step c = LinePlace.blank.step c := step_eq h (by decide) c
    show (place.step c).after rest ≠ .firm
    apply ih _ fun d hd => hs d (List.mem_cons_of_mem c hd)
    rw [hstep]
    rcases hs c List.mem_cons_self with rfl | rfl <;> decide

end LinePlace

/-! ## Inserted lines -/

/-- Lines that go into a text together, each of them with a property; there is something in the first
    of them and in the last. -/
structure IsInsertion (P : List Char → Prop) (ls : List (List Char)) : Prop where
  lines : ∀ l ∈ ls, P l ∧ '\n' ∉ l
  first : ∃ first rest, ls = first :: rest ∧ isSolid first = true
  last : ∃ front last, ls = front ++ [last] ∧ isSolid last = true

/-- Lines with other lines among them that have a property. -/
inductive LinesInserted (P : List Char → Prop) : List (List Char) → List (List Char) → Prop
  | nil : LinesInserted P [] []
  | line (line : List Char) {before after : List (List Char)} (h : LinesInserted P before after) :
      LinesInserted P (line :: before) (line :: after)
  | inserted {line : List Char} {before after : List (List Char)} (hline : P line)
      (h : LinesInserted P before after) : LinesInserted P before (line :: after)

/-- A text and the text with lines inserted, begun at a place. Lines go in behind a line that has
    something in it, or ahead of one at the start of a line. -/
inductive Inserted (P : List Char → Prop) : LinePlace → List Char → List Char → Prop
  | nil (place : LinePlace) : Inserted P place [] []
  | char {place : LinePlace} {c : Char} {s t : List Char} (h : Inserted P (place.step c) s t) :
      Inserted P place (c :: s) (c :: t)
  | insert {place : LinePlace} {ls : List (List Char)} {s t : List Char} (hls : IsInsertion P ls)
      (hplace : place = .fresh ∨ place = .start ∧ isSolid s = true) (h : Inserted P place s t) :
      Inserted P place s (marked [] ls ++ t)

theorem marked_ne_nil {x : List Char} {ls : List (List Char)} (h : ls ≠ []) : marked x ls ≠ [] := by
  obtain ⟨l, rest, rfl⟩ := List.exists_cons_of_ne_nil h
  rw [marked_cons]
  exact List.append_ne_nil_of_right_ne_nil _ (List.cons_ne_nil _ _)

theorem marked_append (x : List Char) (ls ms : List (List Char)) :
    marked x (ls ++ ms) = marked x ls ++ marked x ms :=
  List.flatMap_append

namespace IsInsertion

variable {P Q : List Char → Prop} {ls ms : List (List Char)}

theorem ne_nil (h : IsInsertion P ls) : ls ≠ [] := by
  obtain ⟨first, rest, rfl, -⟩ := h.first
  exact List.cons_ne_nil first rest

theorem append (hls : IsInsertion P ls) (hms : IsInsertion P ms) : IsInsertion P (ls ++ ms) where
  lines l hl := (List.mem_append.mp hl).elim (hls.lines l) (hms.lines l)
  first := by
    obtain ⟨first, rest, rfl, hfirst⟩ := hls.first
    exact ⟨first, rest ++ ms, rfl, hfirst⟩
  last := by
    obtain ⟨front, last, rfl, hlast⟩ := hms.last
    exact ⟨ls ++ front, last, (List.append_assoc ..).symm, hlast⟩

theorem mono (h : IsInsertion P ls) (hP : ∀ l, P l → Q l) : IsInsertion Q ls :=
  ⟨fun l hl => ⟨hP l (h.lines l hl).1, (h.lines l hl).2⟩, h.first, h.last⟩

/-- A change of every line that keeps what is in it. -/
theorem map (h : IsInsertion P ls) {f : List Char → List Char}
    (hf : ∀ l, P l → '\n' ∉ l → Q (f l) ∧ '\n' ∉ f l)
    (hsolid : ∀ l, isSolid l = true → isSolid (f l) = true) : IsInsertion Q (ls.map f) where
  lines l hl := by
    obtain ⟨l', hl', rfl⟩ := List.mem_map.mp hl
    obtain ⟨hP, hfeed⟩ := h.lines l' hl'
    exact hf l' hP hfeed
  first := by
    obtain ⟨first, rest, rfl, hfirst⟩ := h.first
    exact ⟨f first, rest.map f, rfl, hsolid first hfirst⟩
  last := by
    obtain ⟨front, last, rfl, hlast⟩ := h.last
    exact ⟨front.map f, f last, List.map_append, hsolid last hlast⟩

/-- There is something in the first line of the text. -/
theorem isSolid (h : IsInsertion P ls) (s : List Char) : isSolid (marked [] ls ++ s) = true := by
  obtain ⟨first, rest, rfl, hfirst⟩ := h.first
  rw [marked_cons, List.append_assoc]
  exact isSolid_append hfirst _

end IsInsertion

namespace Inserted

variable {P Q : List Char → Prop} {place place' : LinePlace} {s t s' t' : List Char}

theorem refl (place : LinePlace) (s : List Char) : Inserted P place s s := by
  induction s generalizing place with
  | nil => exact .nil place
  | cons c rest ih => exact .char (ih _)

theorem weaken (h : Inserted P place s t) (hplace : place.Below place') : Inserted P place' s t := by
  induction h generalizing place' with
  | nil => exact .nil place'
  | char h ih => exact .char (ih (hplace.step _))
  | insert hls hallowed h ih =>
    apply Inserted.insert hls _ (ih hplace)
    rcases hallowed with rfl | ⟨rfl, hsolid⟩
    · cases hplace
      exact Or.inl rfl
    · cases hplace with
      | refl => exact Or.inr ⟨rfl, hsolid⟩
      | start => exact Or.inl rfl

/-- Only behind a line with something in it lines can be inserted into no text. -/
theorem eq_nil_iff (h : Inserted P place s t) (hplace : place ≠ .fresh) : s = [] ↔ t = [] := by
  cases h with
  | nil => exact Iff.rfl
  | char h =>
    exact ⟨fun h => absurd h (List.cons_ne_nil _ _), fun h => absurd h (List.cons_ne_nil _ _)⟩
  | insert hls hallowed h =>
    obtain ⟨-, hsolid⟩ := hallowed.resolve_left hplace
    constructor
    · exact fun hnil => absurd hnil (isSolid_ne_nil hsolid)
    · exact fun hnil => absurd hnil (List.append_ne_nil_of_left_ne_nil (marked_ne_nil hls.ne_nil) _)

/-- Two texts with lines inserted, the second one begun where the first one ends. -/
theorem append (h : Inserted P place s t) (h' : Inserted P (place.after s) s' t') :
    Inserted P place (s ++ s') (t ++ t') := by
  induction h with
  | nil => exact h'
  | char h ih => exact .char (ih h')
  | insert hls hallowed h ih =>
    rw [List.append_assoc]
    exact .insert hls (hallowed.imp_right fun h => ⟨h.1, isSolid_append h.2 s'⟩) (ih h')

/-- Behind a text that stays as it is. -/
theorem behind (x : List Char) (h : Inserted P (place.after x) s t) :
    Inserted P place (x ++ s) (x ++ t) :=
  (refl place x).append h

/-- Lines behind a text that ends in a line with something in it. -/
theorem insert_behind {ls : List (List Char)} (h : Inserted P place s t)
    (hplace : place.after s = .fresh) (hls : IsInsertion P ls) :
    Inserted P place s (t ++ marked [] ls) := by
  have hmore : Inserted P (place.after s) [] (marked [] ls ++ []) :=
    .insert hls (Or.inl hplace) (.nil _)
  simpa using h.append hmore

end Inserted

/-! ## Indents -/

/-- An indent ahead of every line of a text, and of the first one if the text is begun at the start of
    it. -/
def indentFrom (atStart : Bool) (lead s : List Char) : List Char :=
  (if atStart = true ∧ s ≠ [] then lead else []) ++ insertAfterBreaks lead s

theorem indentFrom_cons (atStart : Bool) (lead : List Char) (c : Char) (s : List Char) :
    indentFrom atStart lead (c :: s) =
      (if atStart then lead else []) ++ c :: indentFrom (c = '\n') lead s := by
  rw [indentFrom, insertAfterBreaks_cons, indentFrom]
  simp only [ne_eq, reduceCtorEq, not_false_eq_true, and_true, decide_eq_true_eq]

theorem indentFrom_nil (atStart : Bool) (lead : List Char) : indentFrom atStart lead [] = [] := by
  rw [indentFrom, if_neg fun h => h.2 rfl]
  rfl

/-- The indent of a line goes ahead of it, and the next line has its own. -/
theorem indentFrom_line {lead line : List Char} (h : '\n' ∉ line) (s : List Char) :
    indentFrom true lead (line ++ '\n' :: s) = lead ++ line ++ '\n' :: indentFrom true lead s := by
  have hrest : ∀ atStart, indentFrom atStart lead (line ++ '\n' :: s) =
      (if atStart then lead else []) ++ (line ++ '\n' :: indentFrom true lead s) := by
    induction line with
    | nil =>
      intro atStart
      rw [List.nil_append, indentFrom_cons]
      rfl
    | cons c rest ih =>
      rw [List.mem_cons, not_or] at h
      have hc : decide (c = '\n') = false := decide_eq_false (Ne.symm h.1)
      intro atStart
      rw [List.cons_append, indentFrom_cons, ih h.2, hc]
      rfl
  rw [hrest, if_pos rfl, List.append_assoc]

/-- Lines with line feeds behind them get an indent each. -/
theorem indentFrom_marked {lead : List Char} {ls : List (List Char)} (h : ∀ l ∈ ls, '\n' ∉ l)
    (s : List Char) : indentFrom true lead (marked [] ls ++ s) =
      marked [] (ls.map (lead ++ ·)) ++ indentFrom true lead s := by
  induction ls with
  | nil => rfl
  | cons l rest ih =>
    have hrest := ih fun l' hl' => h l' (List.mem_cons_of_mem l hl')
    rw [List.map_cons, marked_cons, marked_cons, List.nil_append, List.nil_append, List.append_assoc,
      List.cons_append, indentFrom_line (h l List.mem_cons_self), hrest]
    simp

theorem isSolid_indentFrom {atStart : Bool} {lead s : List Char} (hlead : '\n' ∉ lead)
    (h : isSolid s = true) : isSolid (indentFrom atStart lead s) = true := by
  rw [indentFrom]
  split
  · exact isSolid_behind (isSolid_insertAfterBreaks h) hlead
  · exact isSolid_insertAfterBreaks h

/-- An indented text ends where the text does. -/
theorem atLineStart_indentFrom {lead s : List Char} (hs : s ≠ []) (atStart : Bool) :
    atLineStart atStart (indentFrom atStart lead s) = atLineStart atStart s := by
  induction s generalizing atStart with
  | nil => exact absurd rfl hs
  | cons c rest ih =>
    rw [indentFrom_cons, atLineStart_append]
    show atLineStart (decide (c = '\n')) (indentFrom (c = '\n') lead rest) =
      atLineStart (decide (c = '\n')) rest
    cases rest with
    | nil => rw [indentFrom_nil]
    | cons d more => exact ih (List.cons_ne_nil d more) _

variable {P : List Char → Prop}

/-- An indent of spaces and tabs goes ahead of every line that is inserted too. -/
theorem Inserted.indent {place : LinePlace} {lead s t : List Char} (h : Inserted P place s t)
    (hlead : ∀ c ∈ lead, c = ' ' ∨ c = '\t') (hP : ∀ l, P l → P (lead ++ l)) :
    Inserted P place (indentFrom place.isLineStart lead s)
      (indentFrom place.isLineStart lead t) := by
  have hbreak : '\n' ∉ lead := not_mem_of_spaces hlead
  induction h with
  | nil place =>
    rw [indentFrom_nil]
    exact .nil place
  | @char place c s t h ih =>
    rw [indentFrom_cons, indentFrom_cons, ← place.isLineStart_step c]
    apply Inserted.behind
    apply Inserted.char
    cases hstart : place.isLineStart with
    | false => exact ih
    | true =>
      -- Behind the indent the character leads where it led without it.
      have hplace : place ≠ .firm := by
        rintro rfl
        cases hstart
      rw [if_pos rfl, LinePlace.step_eq (LinePlace.after_blanks hplace hlead) hplace]
      exact ih
  | @insert place ls s t hls hallowed h ih =>
    have hstart : place.isLineStart = true := by
      rcases hallowed with rfl | ⟨rfl, -⟩ <;> rfl
    rw [hstart] at ih ⊢
    rw [indentFrom_marked fun l hl => (hls.lines l hl).2]
    apply Inserted.insert _ _ ih
    · apply hls.map
      · intro l hl hfeed
        rw [List.mem_append, not_or]
        exact ⟨hP l hl, hbreak, hfeed⟩
      · exact fun l hl => isSolid_behind hl hbreak
    · exact hallowed.imp_right fun h => ⟨h.1, isSolid_indentFrom hbreak h.2⟩

/-! ## The lines of the two texts -/

theorem LinesInserted.append {ls before after : List (List Char)} (hls : ∀ l ∈ ls, P l)
    (h : LinesInserted P before after) : LinesInserted P before (ls ++ after) := by
  induction ls with
  | nil => exact h
  | cons l rest ih =>
    have hrest := ih fun l' hl' => hls l' (List.mem_cons_of_mem l hl')
    exact .inserted (hls l List.mem_cons_self) hrest

theorem LinesInserted.sublist {before after : List (List Char)} (h : LinesInserted P before after) :
    before.Sublist after := by
  induction h with
  | nil => exact .slnil
  | line line h ih => exact ih.cons_cons line
  | @inserted line before after hline h ih => exact ih.cons line

/-- The lines of lines with line feeds behind them, and of what follows. -/
theorem lines_marked_append {ls : List (List Char)} (h : ∀ l ∈ ls, '\n' ∉ l) (s : List Char) :
    lines (marked [] ls ++ s) = ls ++ lines s := by
  induction ls with
  | nil => rfl
  | cons l rest ih =>
    rw [marked_cons, List.nil_append, List.append_assoc, List.cons_append,
      lines_line (h l List.mem_cons_self), ih fun l' hl' => h l' (List.mem_cons_of_mem l hl'),
      List.cons_append]

/-- The lines of a text with lines inserted are those of the text with such lines among them. If the
    text is not begun at the start of a line, the first line is left alone. -/
theorem Inserted.lines {place : LinePlace} {s t : List Char} (h : Inserted P place s t) :
    LinesInserted P (lines s) (lines t) ∧ (place.isLineStart = false → ∃ first before after,
      Text.lines s = first :: before ∧ Text.lines t = first :: after ∧
        LinesInserted P before after) := by
  induction h with
  | nil place => exact ⟨.line [] .nil, fun _ => ⟨[], [], [], rfl, rfl, .nil⟩⟩
  | @char place c s t h ih =>
    by_cases hc : c = '\n'
    · subst hc
      rw [lines_break, lines_break]
      exact ⟨.line [] ih.1, fun _ => ⟨[], _, _, rfl, rfl, ih.1⟩⟩
    · -- Nothing is inserted ahead of the rest of the line: the character goes to both first lines.
      have hstep : (place.step c).isLineStart = false := by
        rw [place.isLineStart_step, decide_eq_false hc]
      obtain ⟨first, before, after, hs, ht, hrest⟩ := ih.2 hstep
      rw [lines_char hc hs, lines_char hc ht]
      exact ⟨.line _ hrest, fun _ => ⟨_, _, _, rfl, rfl, hrest⟩⟩
  | insert hls hallowed h ih =>
    rw [lines_marked_append fun l hl => (hls.lines l hl).2]
    constructor
    · exact ih.1.append fun l hl => (hls.lines l hl).1
    · intro hplace
      rcases hallowed with rfl | ⟨rfl, -⟩ <;> cases hplace

/-! ## Strings -/

/-- A text and the text with lines inserted, as strings. -/
def Extended (P : List Char → Prop) (place : LinePlace) (s t : String) : Prop :=
  Inserted P place s.toList t.toList

/-- A text that can be inserted: whole lines, or nothing. -/
def IsInsertText (P : List Char → Prop) (s : String) : Prop :=
  s = "" ∨ ∃ ls, IsInsertion P ls ∧ s.toList = marked [] ls

/-- Whether there is something in the last line of a text, and a line feed at its end. -/
def EndsFresh (s : String) : Prop :=
  ∀ place : LinePlace, place.after s.toList = .fresh

theorem isInsertText_empty : IsInsertText P "" :=
  Or.inl rfl

theorem IsInsertText.mono {Q : List Char → Prop} {s : String} (h : IsInsertText P s)
    (hP : ∀ l, P l → Q l) : IsInsertText Q s :=
  h.imp_right fun ⟨ls, hls, hs⟩ => ⟨ls, hls.mono hP, hs⟩

theorem IsInsertText.append {s t : String} (hs : IsInsertText P s) (ht : IsInsertText P t) :
    IsInsertText P (s ++ t) := by
  rcases hs with rfl | ⟨ls, hls, hs⟩
  · rwa [String.empty_append]
  · rcases ht with rfl | ⟨ms, hms, ht⟩
    · rw [String.append_empty]
      exact Or.inr ⟨ls, hls, hs⟩
    · refine Or.inr ⟨ls ++ ms, hls.append hms, ?_⟩
      rw [String.toList_append, hs, ht, marked_append]

theorem EndsFresh.behind {t : String} (h : EndsFresh t) (s : String) : EndsFresh (s ++ t) := by
  intro place
  rw [String.toList_append, LinePlace.after_append]
  exact h _

theorem EndsFresh.ended {s : String} (h : EndsFresh s) : atLineStart true s.toList = true := by
  have hstart := LinePlace.start.isLineStart_after s.toList
  rw [h] at hstart
  exact hstart.symm

namespace Extended

variable {place place' : LinePlace} {s t s' t' text : String}

theorem refl (place : LinePlace) (s : String) : Extended P place s s :=
  Inserted.refl place s.toList

theorem weaken (h : Extended P place s t) (hplace : place.Below place') : Extended P place' s t :=
  Inserted.weaken h hplace

theorem eq_empty_iff (h : Extended P .start s t) : s = "" ↔ t = "" := by
  rw [← String.toList_eq_nil_iff, ← String.toList_eq_nil_iff]
  exact Inserted.eq_nil_iff h (by decide)

theorem append (h : Extended P place s t) (h' : Extended P (place.after s.toList) s' t') :
    Extended P place (s ++ s') (t ++ t') := by
  rw [Extended, String.toList_append, String.toList_append]
  exact Inserted.append h h'

/-- Behind a text that stays as it is. -/
theorem behind (x : String) (h : Extended P (place.after x.toList) s t) :
    Extended P place (x ++ s) (x ++ t) :=
  (refl place x).append h

/-- Ahead of a text that stays as it is. -/
theorem ahead (h : Extended P place s t) (x : String) : Extended P place (s ++ x) (t ++ x) :=
  h.append (refl _ x)

/-- Lines ahead of a text with something in its first line. -/
theorem insert_ahead (h : Extended P place s t) (htext : IsInsertText P text)
    (hplace : place.isLineStart = true) (hsolid : isSolid s.toList = true) :
    Extended P place s (text ++ t) := by
  rcases htext with rfl | ⟨ls, hls, htext⟩
  · rwa [String.empty_append]
  · rw [Extended, String.toList_append, htext]
    apply Inserted.insert hls _ h
    cases place with
    | blank | firm => cases hplace
    | start => exact Or.inr ⟨rfl, hsolid⟩
    | fresh => exact Or.inl rfl

/-- Lines behind a text with something in its last line. -/
theorem insert_behind (h : Extended P place s t) (htext : IsInsertText P text)
    (hplace : place.after s.toList = .fresh) : Extended P place s (t ++ text) := by
  rcases htext with rfl | ⟨ls, hls, htext⟩
  · rwa [String.append_empty]
  · rw [Extended, String.toList_append, htext]
    exact Inserted.insert_behind h hplace hls

/-- Joined texts, if behind the separator lines can be inserted as ahead of each text. -/
theorem join {separator : String} {before after : List String}
    (hseparator : ∀ place' : LinePlace, place.Below (place'.after separator.toList))
    (h : List.Forall₂ (Extended P place) before after) :
    Extended P place (Text.join separator before) (Text.join separator after) := by
  induction h with
  | nil => exact refl place ""
  | @cons first first' rest rest' hfirst hrest ih =>
    cases hrest with
    | nil => exact hfirst
    | cons hsecond hmore =>
      apply Extended.append (hfirst.ahead separator)
      rw [String.toList_append, LinePlace.after_append]
      exact ih.weaken (hseparator _)

end Extended

end BlockScript.Text
