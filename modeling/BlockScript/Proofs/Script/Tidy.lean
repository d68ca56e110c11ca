/-
  BlockScript.Proofs.Script.Tidy

  The last step of every program text leaves the literals alone. What it drops is white space of
  code or of a comment: a literal ends in a quote, and a line feed in it stands right behind a
  backslash.
-/
import BlockScript.Proofs.Script.Indent
import BlockScript.Text.Tidy

namespace BlockScript.Script

open Text

/-- Whether two texts lead the reader to code by the same literals. -/
def SameLiterals (s t : List Char) : Prop :=
  modeAfter .code t = .code ∧ texts (partsFrom .code t) = texts (partsFrom .code s)

/-! ## White space -/

/-- Plain code has no literals. -/
theorem texts_of_plain {s : List Char} (h : ∀ c ∈ s, isPlainChar c = true) :
    texts (partsFrom .code s) = [] := by
  rw [partsFrom_of_plain h]
  induction s with
  | nil => rfl
  | cons c rest ih => exact ih fun d hd => h d (List.mem_cons_of_mem c hd)

/-! ## The beginning -/

/-- White space ahead of a text is code. -/
theorem sameLiterals_of_plain {blanks blanks' s : List Char} (h : ∀ c ∈ blanks, isPlainChar c = true)
    (h' : ∀ c ∈ blanks', isPlainChar c = true) (hs : modeAfter .code (blanks ++ s) = .code) :
    SameLiterals (blanks ++ s) (blanks' ++ s) := by
  rw [modeAfter_append, modeAfter_of_plain h] at hs
  constructor
  · rw [modeAfter_append, modeAfter_of_plain h', hs]
  · rw [partsFrom_append, partsFrom_append, texts_append, texts_append, texts_of_plain h,
      texts_of_plain h', modeAfter_of_plain h, modeAfter_of_plain h']

theorem sameLiterals_dropLeadingLines {s : List Char} (hs : modeAfter .code s = .code) :
    SameLiterals s (dropLeadingLines s) := by
  have hblanks : ∀ c ∈ s.takeWhile isBlank, isPlainChar c = true :=
    fun c hc => isPlainChar_of_isBlank (List.all_eq_true.mp List.all_takeWhile c hc)
  simp only [dropLeadingLines]
  split
  · exact ⟨hs, rfl⟩
  · have hsplit : SameLiterals (s.takeWhile isBlank ++ s.dropWhile isBlank)
        (((s.takeWhile isBlank).reverse.takeWhile (· ≠ '\n')).reverse ++ s.dropWhile isBlank) := by
      refine sameLiterals_of_plain hblanks ?_ (by rwa [List.takeWhile_append_dropWhile])
      intro c hc
      have hmem := (List.takeWhile_sublist _).mem (List.mem_reverse.mp hc)
      exact hblanks c (List.mem_reverse.mp hmem)
    rwa [List.takeWhile_append_dropWhile] at hsplit

/-! ## The end -/

/-- White space does not end a literal. -/
theorem modeAfter_literal_of_blanks {blanks : List Char} (h : ∀ c ∈ blanks, isBlank c = true)
    (read : List Char) : modeAfter (.literal read) blanks ≠ .code := by
  induction blanks generalizing read with
  | nil =>
    intro h
    cases h
  | cons c rest ih =>
    have hc := h c List.mem_cons_self
    have hquote : c ≠ '\'' := by
      rintro rfl
      exact absurd hc (by decide)
    have hbackslash : c ≠ '\\' := by
      rintro rfl
      exact absurd hc (by decide)
    rw [modeAfter, Mode.step, if_neg hquote, if_neg hbackslash]
    split
    · rw [modeAfter_broken]
      intro h
      cases h
    · exact ih (fun d hd => h d (List.mem_cons_of_mem c hd)) _

/-- White space behind a line feed that leads to code is code. -/
theorem code_of_blanks {mode : Mode} {blanks : List Char} (hblanks : ∀ c ∈ blanks, isBlank c = true)
    (h : modeAfter (mode.step '\n').2 blanks = .code) : (mode.step '\n').2 = .code := by
  cases mode with
  | code | slash | comment => rfl
  | literal read | broken =>
    change modeAfter .broken blanks = .code at h
    rw [modeAfter_broken] at h
    cases h
  | escaped read => exact absurd h (modeAfter_literal_of_blanks hblanks _)

/-- White space behind a line feed at the end of a text is code. -/
theorem sameLiterals_of_blanks {before blanks : List Char} (hblanks : ∀ c ∈ blanks, isBlank c = true)
    (hs : modeAfter .code (before ++ '\n' :: blanks) = .code) :
    SameLiterals (before ++ '\n' :: blanks) (before ++ ['\n']) := by
  rw [modeAfter_append, modeAfter] at hs
  have hcode := code_of_blanks hblanks hs
  constructor
  · rw [modeAfter_append, modeAfter, hcode]
    rfl
  · have hplain := texts_of_plain fun c hc => isPlainChar_of_isBlank (hblanks c hc)
    rw [partsFrom_append, partsFrom_append, partsFrom, partsFrom, partsFrom, hcode, List.append_nil,
      texts_append, texts_append, texts_append, hplain, List.append_nil]

theorem exists_trimRight (s : List Char) :
    ∃ blanks, s = trimRight s ++ blanks ∧ ∀ c ∈ blanks, isBlank c = true := by
  refine ⟨(s.reverse.takeWhile isBlank).reverse, ?_, ?_⟩
  · rw [trimRight, trimRightOf, ← List.reverse_append, List.takeWhile_append_dropWhile,
      List.reverse_reverse]
  · exact fun c hc => List.all_eq_true.mp List.all_takeWhile c (List.mem_reverse.mp hc)

/-- Characters up to a line feed, unless there is none. -/
theorem exists_break {s : List Char} (h : ¬ s.length < (s.takeWhile (· ≠ '\n')).length + 1) :
    ∃ rest, s = s.takeWhile (· ≠ '\n') ++ '\n' :: rest := by
  have hsplit := List.takeWhile_append_dropWhile (p := (· ≠ '\n')) (l := s)
  cases hrest : s.dropWhile (· ≠ '\n') with
  | nil =>
    rw [hrest, List.append_nil] at hsplit
    rw [hsplit] at h
    omega
  | cons c rest =>
    have hc := List.head?_dropWhile_not (· ≠ '\n') s
    rw [hrest] at hc hsplit
    have hbreak : c = '\n' := by simpa using hc
    rw [hbreak] at hsplit
    exact ⟨rest, hsplit.symm⟩

theorem sameLiterals_dropTrailingLines {s : List Char} (hs : modeAfter .code s = .code) :
    SameLiterals s (dropTrailingLines s) := by
  obtain ⟨blanks, hsplit, hblanks⟩ := exists_trimRight s
  have hdrop : s.drop (trimRight s).length = blanks :=
    (congrArg (List.drop (trimRight s).length) hsplit).trans List.drop_left
  simp only [dropTrailingLines, hdrop]
  split
  · exact ⟨hs, rfl⟩
  · rename_i hlength
    obtain ⟨rest, hrest⟩ := exists_break hlength
    have hmem : ∀ c ∈ rest, isBlank c = true := by
      intro c hc
      apply hblanks c
      rw [hrest]
      exact List.mem_append_right _ (List.mem_cons_of_mem _ hc)
    have hwhole : s = (trimRight s ++ blanks.takeWhile (· ≠ '\n')) ++ '\n' :: rest := by
      rw [List.append_assoc, ← hrest, ← hsplit]
    rw [hwhole] at hs
    have h := sameLiterals_of_blanks hmem hs
    rwa [← hwhole] at h

/-! ## Line ends -/

/-- Where only spaces and tabs stand before a line feed, only the line feed is left. -/
theorem exists_of_endsLine {s : List Char} (h : endsLine s = true) :
    ∃ rest, dropLineEndBlanks s = '\n' :: dropLineEndBlanks rest := by
  induction s with
  | nil => cases h
  | cons c rest ih =>
    rw [endsLine, Bool.or_eq_true, decide_eq_true_eq, Bool.and_eq_true] at h
    rcases h with rfl | ⟨hblank, hrest⟩
    · exact ⟨rest, by rw [dropLineEndBlanks, if_neg (by simp)]⟩
    · obtain ⟨tail, htail⟩ := ih hrest
      refine ⟨tail, ?_⟩
      rw [dropLineEndBlanks, if_pos (by rw [hblank, hrest]; rfl), htail]

/-- In a literal there is no white space before a line feed. -/
theorem broken_of_endsLine {s : List Char} (h : endsLine s = true) (read : List Char) :
    modeAfter (.literal read) s = .broken := by
  induction s generalizing read with
  | nil => cases h
  | cons c rest ih =>
    rw [endsLine, Bool.or_eq_true, decide_eq_true_eq, Bool.and_eq_true] at h
    rcases h with rfl | ⟨hblank, hrest⟩
    · exact modeAfter_broken rest
    · rw [Bool.or_eq_true, decide_eq_true_eq, decide_eq_true_eq] at hblank
      rcases hblank with rfl | rfl <;> exact ih hrest _

/-- Dropping the white space before line feeds leaves the literals of a text that is read to its
    end. -/
theorem texts_dropLineEndBlanks {mode : Mode} {s : List Char} (h : modeAfter mode s ≠ .broken) :
    texts (partsFrom mode (dropLineEndBlanks s)) = texts (partsFrom mode s) := by
  induction s generalizing mode with
  | nil => rfl
  | cons c rest ih =>
    rw [modeAfter] at h
    rw [dropLineEndBlanks, partsFrom, texts_append, ← ih h]
    split
    · rename_i hdrop
      rw [Bool.and_eq_true, Bool.or_eq_true, decide_eq_true_eq, decide_eq_true_eq] at hdrop
      obtain ⟨hblank, hends⟩ := hdrop
      obtain ⟨tail, htail⟩ := exists_of_endsLine hends
      rw [htail]
      cases mode with
      | code | slash | comment => rcases hblank with rfl | rfl <;> rfl
      | literal read | escaped read =>
        rcases hblank with rfl | rfl <;> exact absurd (broken_of_endsLine hends _) h
      | broken => exact absurd (modeAfter_broken rest) h
    · rw [partsFrom, texts_append]

/-! ## The whole step -/

/-- A tidied text has the literals of the text. -/
theorem literals_tidy {s : String} (hs : Closed s) : literals (tidy s) = literals s := by
  obtain ⟨hcode, hlead⟩ := sameLiterals_dropLeadingLines hs
  obtain ⟨hcode', htail⟩ := sameLiterals_dropTrailingLines hcode
  have hends : modeAfter .code (dropTrailingLines (dropLeadingLines s.toList)) ≠ .broken := by
    rw [hcode']
    intro h
    cases h
  rw [literals_eq_texts, literals_eq_texts, parts, tidy, String.toList_ofList,
    texts_dropLineEndBlanks hends, htail, hlead, parts]

end BlockScript.Script
