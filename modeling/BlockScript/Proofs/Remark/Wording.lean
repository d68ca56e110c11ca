/-
  BlockScript.Proofs.Remark.Wording

  Texts that are the same but for the wording of comments. `Reworded` goes character by character and
  comment by comment and counts the comments: what is related are two texts and the comments in the
  one, each with the comment in its place in the other. So nothing is lost or doubled where texts are
  put together, indented or tidied.

  A comment is a whole text here. Its lines are one behind the other, all with the same indent, and
  there may be more of them in the one text than in the other.
-/
import BlockScript.Proofs.Hook.Tidy
import Mathlib.Algebra.Order.Group.Multiset

namespace BlockScript.Text

/-! ## Comments in a text -/

/-- Lines one behind the other, each with a line feed behind it; the first one goes where it stands,
    the others go behind an indent. -/
def linesAt (indent : List Char) : List (List Char) → List Char
  | [] => []
  | line :: rest => line ++ '\n' :: marked indent rest

/-- A line of a comment as rules write it. -/
def commentLine (line : List Char) : List Char :=
  "// ".toList ++ line

/-- A line of a comment as it is in a tidied text: the spaces and tabs at its end are dropped. -/
def tidiedCommentLine (line : List Char) : List Char :=
  trimRightOf isSpace (commentLine line)

/-- A comment at an indent, with its lines written in some way. -/
def commentAt (write : List Char → List Char) (indent : List Char) (comment : String) : List Char :=
  linesAt indent ((lines comment.toList).map write)

/-- Two texts that are the same but for the wording of comments, with the comments of the two. -/
inductive Reworded (write : List Char → List Char) :
    Multiset (String × String) → List Char → List Char → Prop
  | nil : Reworded write 0 [] []
  | char {comments : Multiset (String × String)} {s t : List Char} (c : Char)
      (h : Reworded write comments s t) : Reworded write comments (c :: s) (c :: t)
  | comment {comments : Multiset (String × String)} {s t : List Char} (indent : List Char)
      (before after : String) (h : Reworded write comments s t) :
      Reworded write ((before, after) ::ₘ comments) (commentAt write indent before ++ s)
        (commentAt write indent after ++ t)

/-! ### Lines -/

/-- Lines behind a mark are the lines with the mark, at no indent. -/
theorem marked_eq_linesAt (x : List Char) (ls : List (List Char)) :
    marked x ls = linesAt [] (ls.map (x ++ ·)) := by
  cases ls with
  | nil => rfl
  | cons line rest =>
    rw [marked_cons, List.map_cons, linesAt, marked, marked, List.flatMap_map]
    rfl

/-- The comment lines of a text are a comment at no indent. -/
theorem marked_comment (comment : String) :
    marked "// ".toList (lines comment.toList) = commentAt commentLine [] comment :=
  marked_eq_linesAt _ _

/-- A comment ends in one of its lines, with a line feed behind it. -/
theorem exists_commentAt (write : List Char → List Char) (indent : List Char) (comment : String) :
    ∃ front, ∃ last ∈ lines comment.toList,
      commentAt write indent comment = front ++ (write last ++ ['\n']) := by
  obtain ⟨first, others, hlines⟩ := exists_lines comment.toList
  rw [commentAt, hlines, List.map_cons, linesAt]
  rcases List.eq_nil_or_concat others with rfl | ⟨front, last, rfl⟩
  · exact ⟨[], first, List.mem_cons_self, rfl⟩
  · have hmem : last ∈ first :: front.concat last :=
      List.mem_cons_of_mem first (by rw [List.concat_eq_append]; exact List.mem_concat_self)
    refine ⟨write first ++ '\n' :: (marked indent (front.map write) ++ indent), last, hmem, ?_⟩
    rw [List.concat_eq_append, List.map_append, marked_append]
    simp [marked]

theorem commentAt_ne_nil (write : List Char → List Char) (indent : List Char) (comment : String) :
    commentAt write indent comment ≠ [] := by
  obtain ⟨front, last, -, hcomment⟩ := exists_commentAt write indent comment
  rw [hcomment, ← List.append_assoc]
  exact List.append_ne_nil_of_right_ne_nil _ (List.cons_ne_nil _ _)

/-! ## Texts that are put together -/

namespace Reworded

variable {write : List Char → List Char} {comments comments' : Multiset (String × String)}
  {s t s' t' : List Char}

theorem refl (s : List Char) : Reworded write 0 s s := by
  induction s with
  | nil => exact .nil
  | cons c rest ih => exact .char c ih

theorem eq_nil_iff (h : Reworded write comments s t) : s = [] ↔ t = [] := by
  cases h with
  | nil => exact Iff.rfl
  | char => exact iff_of_false (List.cons_ne_nil _ _) (List.cons_ne_nil _ _)
  | comment =>
    have hne : ∀ indent comment u, commentAt write indent comment ++ u ≠ [] :=
      fun indent comment u =>
        List.append_ne_nil_of_left_ne_nil (commentAt_ne_nil write indent comment) u
    exact iff_of_false (hne _ _ _) (hne _ _ _)

theorem append (h : Reworded write comments s t) (h' : Reworded write comments' s' t') :
    Reworded write (comments + comments') (s ++ s') (t ++ t') := by
  induction h with
  | nil => rwa [zero_add]
  | char c _ ih => exact .char c ih
  | comment indent before after _ ih =>
    have hcomment := Reworded.comment indent before after ih
    rwa [← List.append_assoc, ← List.append_assoc, ← Multiset.cons_add] at hcomment

/-- A text that is the same on both sides goes ahead. -/
theorem behind (x : List Char) (h : Reworded write comments s t) :
    Reworded write comments (x ++ s) (x ++ t) := by
  have hsame : Reworded write 0 x x := .refl x
  have happend := hsame.append h
  rwa [zero_add] at happend

/-- A text that is the same on both sides goes behind. -/
theorem ahead (h : Reworded write comments s t) (x : List Char) :
    Reworded write comments (s ++ x) (t ++ x) := by
  have happend := h.append (refl x)
  rwa [add_zero] at happend

end Reworded

/-! ## Indents -/

/-- A text with another one behind every line feed. -/
def spread (lead : List Char) (s : List Char) : List Char :=
  s.flatMap fun c => if c = '\n' then '\n' :: lead else [c]

theorem spread_append (lead s t : List Char) :
    spread lead (s ++ t) = spread lead s ++ spread lead t :=
  List.flatMap_append

theorem spread_of_not_mem {s : List Char} (h : '\n' ∉ s) (lead : List Char) : spread lead s = s := by
  induction s with
  | nil => rfl
  | cons c rest ih =>
    rw [List.mem_cons, not_or] at h
    rw [spread, List.flatMap_cons, if_neg (Ne.symm h.1), ← spread, ih h.2, List.singleton_append]

/-- Ahead of some text every line feed gets the insertion. -/
theorem insertAfterBreaks_append (lead s : List Char) {t : List Char} (ht : t ≠ []) :
    insertAfterBreaks lead (s ++ t) = spread lead s ++ insertAfterBreaks lead t :=
  Script.insertAfterBreaks_append lead s ht

/-- A line feed at the end gets no insertion. -/
theorem insertAfterBreaks_break (lead body : List Char) :
    insertAfterBreaks lead (body ++ ['\n']) ++ lead = spread lead (body ++ ['\n']) := by
  rw [insertAfterBreaks_append lead body (List.cons_ne_nil _ _), spread_append, List.append_assoc]
  simp [insertAfterBreaks, spread]

theorem spread_marked (lead x : List Char) {ls : List (List Char)} (hls : ∀ l ∈ ls, '\n' ∉ l) :
    lead ++ spread lead (marked x ls) = marked (lead ++ spread lead x) ls ++ lead := by
  induction ls with
  | nil => simp [marked, spread]
  | cons line rest ih =>
    have hline := spread_of_not_mem (hls line List.mem_cons_self) lead
    have hrest := ih fun l hl => hls l (List.mem_cons_of_mem line hl)
    have hbreak : spread lead ('\n' :: marked x rest) =
        '\n' :: (lead ++ spread lead (marked x rest)) := by
      simp [spread]
    rw [marked_cons, spread_append, spread_append, hline, hbreak, hrest, marked_cons]
    simp only [List.append_assoc, List.cons_append]

/-- An indent of lines is one ahead of every line, and one behind the last line feed. -/
theorem spread_linesAt (lead x : List Char) {ls : List (List Char)} (hls : ∀ l ∈ ls, '\n' ∉ l)
    (hne : ls ≠ []) : spread lead (linesAt x ls) = linesAt (lead ++ spread lead x) ls ++ lead := by
  cases ls with
  | nil => exact absurd rfl hne
  | cons line rest =>
    have hline := spread_of_not_mem (hls line List.mem_cons_self) lead
    have hrest := spread_marked lead x fun l hl => hls l (List.mem_cons_of_mem line hl)
    have hbreak : spread lead ('\n' :: marked x rest) =
        '\n' :: (lead ++ spread lead (marked x rest)) := by
      simp [spread]
    rw [linesAt, spread_append, hline, hbreak, hrest, linesAt, List.append_assoc, List.cons_append]

theorem not_mem_commentLine {line : List Char} (h : '\n' ∉ line) : '\n' ∉ commentLine line := by
  rw [commentLine, List.mem_append, not_or]
  exact ⟨by decide, h⟩

/-- The lines of a comment have no line feeds in them. -/
theorem not_mem_of_mem_commentLines {comment : String} {l : List Char}
    (h : l ∈ (lines comment.toList).map commentLine) : '\n' ∉ l := by
  obtain ⟨line, hline, rfl⟩ := List.mem_map.mp h
  exact not_mem_commentLine (not_mem_of_mem_lines hline)

theorem commentLines_ne_nil (write : List Char → List Char) (comment : String) :
    (lines comment.toList).map write ≠ [] := by
  obtain ⟨first, others, hlines⟩ := exists_lines comment.toList
  rw [hlines]
  exact List.cons_ne_nil _ _

/-- An indented comment is a comment at a deeper indent, with the indent of what follows behind it. -/
theorem insertAfterBreaks_commentAt (lead x : List Char) (comment : String) (s : List Char) :
    insertAfterBreaks lead (commentAt commentLine x comment ++ s) =
      commentAt commentLine (lead ++ spread lead x) comment ++
        ((if s = [] then [] else lead) ++ insertAfterBreaks lead s) := by
  have hspread : spread lead (commentAt commentLine x comment) =
      commentAt commentLine (lead ++ spread lead x) comment ++ lead :=
    spread_linesAt lead x (fun _ => not_mem_of_mem_commentLines) (commentLines_ne_nil _ _)
  by_cases hs : s = []
  · -- Nothing follows, so there is no indent behind the last line feed.
    obtain ⟨front, last, -, hcomment⟩ := exists_commentAt commentLine x comment
    have hlast := insertAfterBreaks_break lead (front ++ commentLine last)
    rw [List.append_assoc, ← hcomment, hspread] at hlast
    rw [hs, List.append_nil, List.append_cancel_right hlast, if_pos rfl, insertAfterBreaks]
    simp
  · rw [insertAfterBreaks_append _ _ hs, hspread, if_neg hs, List.append_assoc]

theorem Reworded.indent {comments : Multiset (String × String)} {s t : List Char}
    (h : Reworded commentLine comments s t) (lead : List Char) :
    Reworded commentLine comments (insertAfterBreaks lead s) (insertAfterBreaks lead t) := by
  induction h with
  | nil => exact .nil
  | @char comments s t c h ih =>
    simp only [insertAfterBreaks_cons, ne_eq, h.eq_nil_iff]
    exact .char c (ih.behind _)
  | @comment comments s t x before after h ih =>
    rw [insertAfterBreaks_commentAt, insertAfterBreaks_commentAt]
    simp only [h.eq_nil_iff]
    exact .comment _ before after (ih.behind _)

/-! ## The clean-up of white space -/

/-- A comment begins with a slash. -/
theorem exists_commentAt_slash (indent : List Char) (comment : String) :
    ∃ rest, commentAt commentLine indent comment = '/' :: rest := by
  obtain ⟨first, others, hlines⟩ := exists_lines comment.toList
  rw [commentAt, hlines]
  exact ⟨_, rfl⟩

/-! ### The beginning -/

/-- Two texts that differ in comments have the same white space ahead. -/
theorem Reworded.blanks_ahead {comments : Multiset (String × String)} {s t : List Char}
    (h : Reworded commentLine comments s t) :
    s.takeWhile isBlank = t.takeWhile isBlank ∧
      Reworded commentLine comments (s.dropWhile isBlank) (t.dropWhile isBlank) := by
  induction h with
  | nil => exact ⟨rfl, .nil⟩
  | @char comments s t c h ih =>
    by_cases hc : isBlank c = true
    · rw [List.takeWhile_cons_of_pos hc, List.takeWhile_cons_of_pos hc, List.dropWhile_cons_of_pos hc,
        List.dropWhile_cons_of_pos hc, ih.1]
      exact ⟨rfl, ih.2⟩
    · rw [List.takeWhile_cons_of_neg hc, List.takeWhile_cons_of_neg hc, List.dropWhile_cons_of_neg hc,
        List.dropWhile_cons_of_neg hc]
      exact ⟨rfl, .char c h⟩
  | @comment comments s t indent before after h ih =>
    have hwhole := Reworded.comment indent before after h
    obtain ⟨rest, hrest⟩ := exists_commentAt_slash indent before
    obtain ⟨rest', hrest'⟩ := exists_commentAt_slash indent after
    have hslash : ¬ isBlank '/' = true := by decide
    rw [hrest, hrest', List.cons_append, List.cons_append] at hwhole ⊢
    rw [List.takeWhile_cons_of_neg hslash, List.takeWhile_cons_of_neg hslash,
      List.dropWhile_cons_of_neg hslash, List.dropWhile_cons_of_neg hslash]
    exact ⟨rfl, hwhole⟩

theorem Reworded.dropLeadingLines {comments : Multiset (String × String)} {s t : List Char}
    (h : Reworded commentLine comments s t) :
    Reworded commentLine comments (dropLeadingLines s) (dropLeadingLines t) := by
  obtain ⟨hblanks, hrest⟩ := h.blanks_ahead
  simp only [Text.dropLeadingLines, hblanks]
  split
  · exact h
  · exact hrest.behind _

/-! ### The end -/

/-- A comment is not white space. -/
theorem all_isBlank_commentAt (indent : List Char) (comment : String) (s : List Char) :
    (commentAt commentLine indent comment ++ s).all isBlank = false := by
  obtain ⟨rest, hrest⟩ := exists_commentAt_slash indent comment
  have hslash : isBlank '/' = false := by decide
  rw [hrest, List.cons_append, List.all_cons, hslash, Bool.false_and]

/-- Two texts that differ in comments are both white space, or neither is. -/
theorem Reworded.all_isBlank {comments : Multiset (String × String)} {s t : List Char}
    (h : Reworded commentLine comments s t) : s.all isBlank = t.all isBlank := by
  induction h with
  | nil => rfl
  | char c _ ih => rw [List.all_cons, List.all_cons, ih]
  | comment => rw [all_isBlank_commentAt, all_isBlank_commentAt]

/-- In white space there is no comment. -/
theorem Reworded.comments_eq_zero {comments : Multiset (String × String)} {s t : List Char}
    (h : Reworded commentLine comments s t) (hs : s.all isBlank = true) : comments = 0 := by
  induction h with
  | nil => rfl
  | char c _ ih =>
    rw [List.all_cons, Bool.and_eq_true] at hs
    exact ih hs.2
  | comment =>
    rw [all_isBlank_commentAt] at hs
    cases hs

/-- A comment is left whole, whatever is behind it. -/
theorem dropTrailingLines_commentAt (indent : List Char) (comment : String) (s : List Char) :
    dropTrailingLines (commentAt commentLine indent comment ++ s) =
      commentAt commentLine indent comment ++
        if s.all isBlank = true then [] else dropTrailingLines s := by
  by_cases hs : s.all isBlank = true
  · obtain ⟨front, last, hlast, hcomment⟩ := exists_commentAt commentLine indent comment
    have hline : '\n' ∉ commentLine last := not_mem_commentLine (not_mem_of_mem_lines hlast)
    have hsolid : (commentLine last ++ '\n' :: s).all isBlank = false := by
      have hslash : isBlank '/' = false := by decide
      show ('/' :: ('/' :: ' ' :: last ++ '\n' :: s)).all isBlank = false
      rw [List.all_cons, hslash, Bool.false_and]
    rw [if_pos hs, List.append_nil, hcomment, List.append_assoc, List.append_assoc,
      List.singleton_append, dropTrailingLines_behind _ hsolid, dropTrailingLines_line hline hs]
  · rw [if_neg hs, dropTrailingLines_behind _ (Bool.eq_false_iff.mpr hs)]

theorem Reworded.dropTrailingLines {comments : Multiset (String × String)} {s t : List Char}
    (h : Reworded commentLine comments s t) :
    Reworded commentLine comments (dropTrailingLines s) (dropTrailingLines t) := by
  induction h with
  | nil => exact .nil
  | @char comments s t c h ih =>
    rw [dropTrailingLines_cons, dropTrailingLines_cons, ← h.all_isBlank]
    split
    · rename_i hend
      rw [h.comments_eq_zero hend.2]
      exact .refl _
    · exact .char c ih
  | @comment comments s t indent before after h ih =>
    rw [dropTrailingLines_commentAt, dropTrailingLines_commentAt, ← h.all_isBlank]
    split
    · rename_i hblank
      rw [h.comments_eq_zero hblank]
      exact .comment indent before after .nil
    · exact .comment indent before after ih

/-! ### Line ends -/

/-- Two texts that differ in comments have the same ends of lines, up to the first comment. -/
theorem Reworded.endsLine_eq {comments : Multiset (String × String)} {s t : List Char}
    (h : Reworded commentLine comments s t) : endsLine s = endsLine t := by
  induction h with
  | nil => rfl
  | char c _ ih => rw [endsLine, endsLine, ih]
  | comment indent before after =>
    obtain ⟨rest, hrest⟩ := exists_commentAt_slash indent before
    obtain ⟨rest', hrest'⟩ := exists_commentAt_slash indent after
    rw [hrest, hrest']
    rfl

/-- What is dropped ahead of a slash does not depend on what follows. -/
theorem exists_dropLineEndBlanks_slash (x : List Char) :
    ∃ x', ∀ s, dropLineEndBlanks (x ++ '/' :: s) = x' ++ dropLineEndBlanks ('/' :: s) := by
  have hends : ∀ y s : List Char, endsLine (y ++ '/' :: s) = endsLine (y ++ ['/']) := by
    intro y s
    induction y with
    | nil => rfl
    | cons c rest ih => rw [List.cons_append, List.cons_append, endsLine, endsLine, ih]
  induction x with
  | nil => exact ⟨[], fun _ => rfl⟩
  | cons c rest ih =>
    obtain ⟨x', hx'⟩ := ih
    by_cases hdrop : ((decide (c = ' ') || decide (c = '\t')) && endsLine (rest ++ ['/'])) = true
    · refine ⟨x', fun s => ?_⟩
      rw [List.cons_append, dropLineEndBlanks, hends, if_pos hdrop, hx']
    · refine ⟨c :: x', fun s => ?_⟩
      rw [List.cons_append, dropLineEndBlanks, hends, if_neg hdrop, hx', List.cons_append]

/-- Every line of a comment loses the spaces and tabs at its end. -/
theorem exists_dropLineEndBlanks_commentAt (indent : List Char) : ∃ indent', ∀ comment s,
    dropLineEndBlanks (commentAt commentLine indent comment ++ s) =
      commentAt tidiedCommentLine indent' comment ++ dropLineEndBlanks s := by
  obtain ⟨indent', hindent⟩ := exists_dropLineEndBlanks_slash indent
  have hline : ∀ {line : List Char}, '\n' ∉ line → ∀ s,
      dropLineEndBlanks (commentLine line ++ '\n' :: s) =
        tidiedCommentLine line ++ '\n' :: dropLineEndBlanks s :=
    fun h s => dropLineEndBlanks_line (not_mem_commentLine h) s
  have hmarked : ∀ {ls : List (List Char)}, (∀ l ∈ ls, '\n' ∉ l) → ∀ s,
      dropLineEndBlanks (marked indent (ls.map commentLine) ++ s) =
        marked indent' (ls.map tidiedCommentLine) ++ dropLineEndBlanks s := by
    intro ls hls s
    induction ls with
    | nil => rfl
    | cons l rest ih =>
      have hl := hline (hls l List.mem_cons_self) (marked indent (rest.map commentLine) ++ s)
      have hslash : ∀ u, commentLine l ++ u = '/' :: ('/' :: ' ' :: l ++ u) := fun u => rfl
      rw [List.map_cons, List.map_cons, marked_cons, marked_cons, List.append_assoc,
        List.append_assoc, List.cons_append, hslash, hindent, ← hslash, hl,
        ih fun l' hl' => hls l' (List.mem_cons_of_mem l hl')]
      simp only [List.append_assoc, List.cons_append]
  refine ⟨indent', fun comment s => ?_⟩
  obtain ⟨first, others, hlines⟩ := exists_lines comment.toList
  have hfeeds : ∀ l ∈ first :: others, '\n' ∉ l := fun l hl => not_mem_of_mem_lines (hlines ▸ hl)
  rw [commentAt, commentAt, hlines, List.map_cons, List.map_cons, linesAt, linesAt,
    List.append_assoc, List.cons_append, hline (hfeeds first List.mem_cons_self),
    hmarked fun l hl => hfeeds l (List.mem_cons_of_mem first hl), List.append_assoc,
    List.cons_append]

theorem Reworded.dropLineEndBlanks {comments : Multiset (String × String)} {s t : List Char}
    (h : Reworded commentLine comments s t) :
    Reworded tidiedCommentLine comments (dropLineEndBlanks s) (dropLineEndBlanks t) := by
  induction h with
  | nil => exact .nil
  | @char comments s t c h ih =>
    rw [Text.dropLineEndBlanks, Text.dropLineEndBlanks, h.endsLine_eq]
    split
    · exact ih
    · exact .char c ih
  | @comment comments s t indent before after h ih =>
    obtain ⟨indent', hindent⟩ := exists_dropLineEndBlanks_commentAt indent
    rw [hindent, hindent]
    exact .comment indent' before after ih

/-- Tidied texts are the same but for the wording of comments, the spaces and tabs at the ends of
    which are dropped. -/
theorem Reworded.tidy {comments : Multiset (String × String)} {s t : String}
    (h : Reworded commentLine comments s.toList t.toList) :
    Reworded tidiedCommentLine comments (Text.tidy s).toList (Text.tidy t).toList := by
  rw [Text.tidy, Text.tidy, String.toList_ofList, String.toList_ofList]
  exact h.dropLeadingLines.dropTrailingLines.dropLineEndBlanks

/-! ## Strings -/

/-- Two texts with comments as rules write them, the same but for the wording of these. -/
def Retold (comments : Multiset (String × String)) (s t : String) : Prop :=
  Reworded commentLine comments s.toList t.toList

namespace Retold

variable {comments comments' : Multiset (String × String)} {s t s' t' : String}

theorem refl (s : String) : Retold 0 s s :=
  Reworded.refl s.toList

theorem eq_empty_iff (h : Retold comments s t) : s = "" ↔ t = "" := by
  rw [← String.toList_eq_nil_iff, ← String.toList_eq_nil_iff]
  exact Reworded.eq_nil_iff h

theorem append (h : Retold comments s t) (h' : Retold comments' s' t') :
    Retold (comments + comments') (s ++ s') (t ++ t') := by
  rw [Retold, String.toList_append, String.toList_append]
  exact Reworded.append h h'

theorem behind (x : String) (h : Retold comments s t) : Retold comments (x ++ s) (x ++ t) := by
  rw [Retold, String.toList_append, String.toList_append]
  exact Reworded.behind x.toList h

theorem ahead (h : Retold comments s t) (x : String) : Retold comments (s ++ x) (t ++ x) := by
  rw [Retold, String.toList_append, String.toList_append]
  exact Reworded.ahead h x.toList

/-- Texts of which every line is put behind an indent. An indent that is no template fails on both
    sides. -/
theorem prefixLines (h : Retold comments s t) (lead : String) :
    (∃ fault, prefixLines s lead = .error fault ∧ prefixLines t lead = .error fault) ∨
      ∃ s' t', prefixLines s lead = .ok s' ∧ prefixLines t lead = .ok t' ∧
        Retold comments s' t' := by
  rw [Text.prefixLines, Text.prefixLines]
  cases expand lead.toList with
  | error fault => exact Or.inl ⟨fault, rfl, rfl⟩
  | ok insertion =>
    refine Or.inr ⟨_, _, rfl, rfl, ?_⟩
    apply Retold.behind
    rw [Retold, String.toList_ofList, String.toList_ofList]
    exact Reworded.indent h insertion

end Retold

/-! ## Lists of texts -/

/-- Two lists item by item, with the comments of all items together. -/
inductive Apportioned {α β : Type} (Q : Multiset (String × String) → α → β → Prop) :
    Multiset (String × String) → List α → List β → Prop
  | nil : Apportioned Q 0 [] []
  | cons {comments comments' : Multiset (String × String)} {a : α} {b : β} {as : List α}
      {bs : List β} (h : Q comments a b) (hrest : Apportioned Q comments' as bs) :
      Apportioned Q (comments + comments') (a :: as) (b :: bs)

theorem Retold.join {comments : Multiset (String × String)} {before after : List String}
    (h : Apportioned Retold comments before after) (separator : String) :
    Retold comments (Text.join separator before) (Text.join separator after) := by
  induction h with
  | nil => exact refl ""
  | cons hfirst hrest ih =>
    cases hrest with
    | nil =>
      rw [add_zero]
      exact hfirst
    | cons => exact (hfirst.ahead separator).append ih

end BlockScript.Text
