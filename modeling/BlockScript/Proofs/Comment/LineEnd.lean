/-
  BlockScript.Proofs.Comment.LineEnd

  Comment lines and the line ends of the script. A line of a program ends at a line feed, and also at
  a carriage return, a line separator or a paragraph separator; a carriage return with a line feed
  behind it is one line end. The marks of comments go behind line feeds alone.

  So a comment of which a line has another line end in it goes on behind that end without a mark.
  The lines of a comment are followed from its text to the program, at every depth of nesting, and it
  is told which lines of the program begin in the middle of them.
-/
import BlockScript.Proofs.Comment.Lines

namespace BlockScript

namespace Text

/-! ## Line ends -/

/-- The line ends of scripts as line feeds. -/
def unified (s : List Char) : List Char :=
  (unifyLineEnds s).map fun c => if c = '\u2028' || c = '\u2029' then '\n' else c

/-- The lines of a text, as a reader of scripts takes them. -/
def scriptLines (s : List Char) : List (List Char) :=
  lines (unified s)

/-- Whether a text has no line end but line feeds. -/
def IsFeedOnly (s : List Char) : Prop :=
  ∀ c ∈ s, c ≠ '\r' ∧ c ≠ '\u2028' ∧ c ≠ '\u2029'

theorem unified_cons {c : Char} (hc : c ≠ '\r') (s : List Char) :
    unified (c :: s) = (if c = '\u2028' || c = '\u2029' then '\n' else c) :: unified s := by
  have hunify : unifyLineEnds (c :: s) = c :: unifyLineEnds s := by
    cases s <;> simp [unifyLineEnds, hc]
  rw [unified, hunify, List.map_cons]
  rfl

/-- Text without line ends stays as it is, and so do line feeds. -/
theorem unified_append {x : List Char} (hx : IsFeedOnly x) (s : List Char) :
    unified (x ++ s) = x ++ unified s := by
  induction x with
  | nil => rfl
  | cons c rest ih =>
    obtain ⟨hreturn, hline, hparagraph⟩ := hx c List.mem_cons_self
    rw [List.cons_append, unified_cons hreturn, ih fun d hd => hx d (List.mem_cons_of_mem c hd)]
    simp [hline, hparagraph]

/-- A carriage return is a line end, with a line feed behind it or without one. -/
theorem unified_return (s : List Char) :
    unified ('\r' :: '\n' :: s) = '\n' :: unified s ∧
      (s.head? ≠ some '\n' → unified ('\r' :: s) = '\n' :: unified s) := by
  refine ⟨by simp [unified, unifyLineEnds], fun hs => ?_⟩
  cases s with
  | nil => rfl
  | cons d rest =>
    have hd : d ≠ '\n' := fun hd => hs (by rw [hd]; rfl)
    simp [unified, unifyLineEnds, hd]

/-- What comes behind a line feed does not matter for what comes ahead. -/
theorem exists_unified (l : List Char) :
    ∃ u, ∀ t, unified (l ++ '\n' :: t) = u ++ '\n' :: unified t := by
  -- Induction on two characters at once, for the sake of the line end that has two.
  induction l using List.twoStepInduction with
  | nil => exact ⟨[], fun t => unified_cons (by decide) t⟩
  | singleton c =>
    by_cases hc : c = '\r'
    · rw [hc]
      exact ⟨[], fun t => (unified_return t).1⟩
    · refine ⟨[if c = '\u2028' || c = '\u2029' then '\n' else c], fun t => ?_⟩
      show unified (c :: '\n' :: t) = _
      rw [unified_cons hc, unified_cons (by decide)]
      rfl
  | cons_cons c d rest ih ih' =>
    obtain ⟨u, hu⟩ := ih
    obtain ⟨u', hu'⟩ := ih' d
    by_cases hc : c = '\r'
    · by_cases hd : d = '\n'
      · refine ⟨'\n' :: u, fun t => ?_⟩
        show unified (c :: d :: (rest ++ '\n' :: t)) = _
        rw [hc, hd, (unified_return _).1, hu]
        rfl
      · refine ⟨'\n' :: u', fun t => ?_⟩
        have hnext : (d :: rest ++ '\n' :: t).head? ≠ some '\n' := fun h => hd (Option.some.inj h)
        show unified (c :: (d :: rest ++ '\n' :: t)) = _
        rw [hc, (unified_return _).2 hnext, hu']
        rfl
    · refine ⟨(if c = '\u2028' || c = '\u2029' then '\n' else c) :: u', fun t => ?_⟩
      show unified (c :: (d :: rest ++ '\n' :: t)) = _
      rw [unified_cons hc, hu']
      rfl

/-! ## Lines -/

/-- Every text has a first line. -/
theorem exists_lines (s : List Char) : ∃ first others, lines s = first :: others :=
  List.exists_cons_of_ne_nil (Script.splitOn_ne_nil '\n' s)

/-- The lines of two texts with a line feed between them. -/
theorem lines_append (s t : List Char) : lines (s ++ '\n' :: t) = lines s ++ lines t := by
  induction s with
  | nil => exact lines_break t
  | cons c rest ih =>
    by_cases hc : c = '\n'
    · rw [hc, List.cons_append, lines_break, lines_break, ih, List.cons_append]
    · obtain ⟨first, others, hlines⟩ := exists_lines rest
      rw [List.cons_append, lines_char hc hlines, List.cons_append]
      apply lines_char hc
      rw [ih, hlines, List.cons_append]

/-- A text without line feeds goes ahead of the first line. -/
theorem lines_behind {x : List Char} (hx : '\n' ∉ x) {s first : List Char}
    {others : List (List Char)} (h : lines s = first :: others) :
    lines (x ++ s) = (x ++ first) :: others := by
  induction x with
  | nil => exact h
  | cons c rest ih =>
    rw [List.mem_cons, not_or] at hx
    exact lines_char (Ne.symm hx.1) (ih hx.2)

/-- The only line of a text without line feeds is the text. -/
theorem lines_of_not_mem {s : List Char} (h : '\n' ∉ s) : lines s = [s] := by
  have hnil : lines [] = [[]] := rfl
  have hlines := lines_behind h hnil
  rwa [List.append_nil] at hlines

/-- The lines of a text are free of line feeds. -/
theorem not_mem_of_mem_lines {s line : List Char} (h : line ∈ lines s) : '\n' ∉ line := by
  induction s generalizing line with
  | nil =>
    rw [List.mem_singleton.mp h]
    exact List.not_mem_nil
  | cons c rest ih =>
    by_cases hc : c = '\n'
    · rw [hc, lines_break] at h
      rcases List.mem_cons.mp h with rfl | h
      · exact List.not_mem_nil
      · exact ih h
    · obtain ⟨first, others, hlines⟩ := exists_lines rest
      have hcons : lines (c :: rest) = (c :: first) :: others := lines_char hc hlines
      have hmem : ∀ l ∈ first :: others, '\n' ∉ l := fun l hl => ih (hlines ▸ hl)
      rw [hcons] at h
      rcases List.mem_cons.mp h with rfl | h
      · rw [List.mem_cons, not_or]
        exact ⟨Ne.symm hc, hmem first List.mem_cons_self⟩
      · exact hmem line (List.mem_cons_of_mem first h)

/-- So they are of other line ends, if the text is. -/
theorem IsFeedOnly.line {s line : List Char} (hs : IsFeedOnly s) (h : line ∈ lines s) :
    IsFeedOnly line := by
  intro c hc
  have hwhole := Script.mem_joinLines h hc
  rw [Script.joinLines_lines] at hwhole
  exact hs c hwhole

/-- What a reader of scripts takes for lines of their own behind the first one, in one line of a
    text. -/
def laterLines (l : List Char) : List (List Char) :=
  (scriptLines (l ++ ['\n'])).dropLast.tail

/-- Where a line has no other line end, nothing of it is taken for another line. -/
theorem laterLines_of_isFeedOnly {l : List Char} (h : IsFeedOnly l) (hl : '\n' ∉ l) :
    laterLines l = [] := by
  have hlines : scriptLines (l ++ ['\n']) = [l, []] := by
    rw [scriptLines, unified_append h]
    exact lines_line hl []
  rw [laterLines, hlines]
  rfl

/-- A reader of scripts takes a line behind a mark for one line with the mark, and for the later lines
    of the line without one. -/
theorem scriptLines_line {x : List Char} (hx : IsFeedOnly x) (hfeed : '\n' ∉ x) (l : List Char) :
    ∃ first, '\n' ∉ first ∧ ∀ t, scriptLines (x ++ l ++ '\n' :: t) =
      (x ++ first) :: laterLines l ++ scriptLines t := by
  obtain ⟨u, hu⟩ := exists_unified l
  obtain ⟨first, others, hlines⟩ := exists_lines u
  have hlater : laterLines l = others := by
    rw [laterLines, scriptLines, hu, lines_append, hlines]
    show (first :: (others ++ [[]])).dropLast.tail = others
    rw [← List.cons_append, List.dropLast_concat]
    rfl
  refine ⟨first, not_mem_of_mem_lines (hlines ▸ List.mem_cons_self), fun t => ?_⟩
  rw [hlater, ← lines_behind hfeed hlines, scriptLines, List.append_assoc, unified_append hx, hu,
    ← List.append_assoc, lines_append, scriptLines]

/-! ## Wrapped lines -/

/-- The pieces of a line are the line. -/
theorem flatten_pieces (s : List Char) : (pieces s).flatten = s := by
  induction s with
  | nil => rfl
  | cons c rest ih =>
    rw [pieces]
    split
    · rename_i d more others hpieces
      rw [hpieces] at ih
      split
      · rw [← ih]
        rfl
      · rw [← ih]
        rfl
    · rw [List.flatten_cons, ih]
      rfl

/-- The pieces that fit and the others are all pieces. -/
theorem fitting_append (limit : Limit) (used : Nat) (ps : List (List Char)) :
    (fitting limit used ps).1 ++ (fitting limit used ps).2 = ps := by
  induction ps generalizing used with
  | nil => rfl
  | cons piece rest ih =>
    rw [fitting]
    split
    · exact congrArg (piece :: ·) (ih _)
    · rfl

theorem nextLine_append (limit : Limit) (ps : List (List Char)) :
    (nextLine limit ps).1 ++ (nextLine limit ps).2 = ps := by
  have hsplit := fitting_append limit 0 ps
  rw [nextLine]
  split
  · rename_i piece others hfitting
    rw [hfitting] at hsplit
    exact hsplit
  · exact hsplit

theorem lineStart_subset (isFirst : Bool) (ps : List (List Char)) : lineStart isFirst ps ⊆ ps := by
  cases ps with
  | nil => exact List.Subset.refl []
  | cons piece rest =>
    rw [lineStart]
    split
    · exact List.subset_cons_self piece rest
    · exact List.Subset.refl _

theorem dropLastBlank_subset (line : List (List Char)) : dropLastBlank line ⊆ line := by
  rw [dropLastBlank]
  split
  · split
    · exact List.dropLast_subset line
    · exact List.Subset.refl line
  · exact List.Subset.refl line

/-- No character is made up where lines are filled. -/
theorem mem_of_mem_fill {limit : Limit} {isFirst : Bool} {ps : List (List Char)} {line : List Char}
    (h : line ∈ fill limit isFirst ps) {c : Char} (hc : c ∈ line) : c ∈ ps.flatten := by
  have hpiece : ∀ {qs : List (List Char)} {isFirst ps}, qs ⊆ lineStart isFirst ps → c ∈ qs.flatten →
      c ∈ ps.flatten := by
    intro qs isFirst ps hqs hmem
    obtain ⟨piece, hpiece, hc⟩ := List.mem_flatten.mp hmem
    exact List.mem_flatten.mpr ⟨piece, lineStart_subset _ _ (hqs hpiece), hc⟩
  have hsplit := fun isFirst ps => nextLine_append limit (lineStart isFirst ps)
  induction isFirst, ps using fill.induct limit with
  | case1 isFirst ps hstart =>
    rw [fill, if_pos hstart] at h
    exact absurd h List.not_mem_nil
  | case2 isFirst ps hstart filled others hfilled ih =>
    rw [fill, if_neg hstart] at h
    dsimp only at h
    rw [if_pos hfilled] at h
    have hothers : others ⊆ lineStart isFirst ps := by
      rw [← hsplit isFirst ps]
      exact List.subset_append_right _ _
    exact hpiece hothers (ih h)
  | case3 isFirst ps hstart filled others hfilled ih =>
    rw [fill, if_neg hstart] at h
    dsimp only at h
    rw [if_neg hfilled] at h
    rcases List.mem_cons.mp h with rfl | h
    · have hline : filled ⊆ lineStart isFirst ps := by
        rw [← hsplit isFirst ps]
        exact List.Subset.trans (dropLastBlank_subset _) (List.subset_append_left _ _)
      exact hpiece hline hc
    · have hothers : others ⊆ lineStart isFirst ps := by
        rw [← hsplit isFirst ps]
        exact List.subset_append_right _ _
      exact hpiece hothers (ih h)

/-- Where tabs are expanded, spaces come in. -/
theorem mem_of_mem_expandTabs {column : Nat} {s : List Char} {c : Char}
    (h : c ∈ expandTabs column s) : c = ' ' ∨ c ∈ s := by
  induction s generalizing column with
  | nil => exact absurd h List.not_mem_nil
  | cons d rest ih =>
    rw [expandTabs] at h
    split at h
    · rcases List.mem_append.mp h with h | h
      · exact Or.inl (List.eq_of_mem_replicate h)
      · exact (ih h).imp_right (List.mem_cons_of_mem d)
    · split at h
      all_goals
        rcases List.mem_cons.mp h with rfl | h
        · exact Or.inr List.mem_cons_self
        · exact (ih h).imp_right (List.mem_cons_of_mem d)

/-- A wrapped line has spaces, and of the line what is no white space of ASCII. -/
theorem mem_of_mem_wrapLine {limit : Limit} {line l : List Char} (h : l ∈ wrapLine limit line)
    {c : Char} (hc : c ∈ l) : c = ' ' ∨ c ∈ line ∧ isAsciiBlank c = false := by
  rw [wrapLine] at h
  split at h
  · rw [List.mem_singleton.mp h] at hc
    exact absurd hc List.not_mem_nil
  · have hspaced := mem_of_mem_fill h hc
    rw [flatten_pieces] at hspaced
    obtain ⟨d, hd, rfl⟩ := List.mem_map.mp hspaced
    by_cases hblank : isAsciiBlank d = true
    · exact Or.inl (if_pos hblank)
    · rw [if_neg hblank]
      rcases mem_of_mem_expandTabs hd with rfl | hd
      · exact Or.inl rfl
      · exact Or.inr ⟨hd, Bool.eq_false_iff.mpr hblank⟩

/-- A wrapped text has line feeds, spaces, and of the text what is no white space of ASCII. -/
theorem mem_of_mem_wrap {limit : Limit} {s : String} {c : Char} (h : c ∈ (wrap limit s).toList) :
    c = '\n' ∨ c = ' ' ∨ c ∈ s.toList ∧ isAsciiBlank c = false := by
  rw [wrap, Script.toList_join_ofList] at h
  rcases Script.eq_or_mem_of_mem_joinLines h with rfl | ⟨l, hl, hc⟩
  · exact Or.inl rfl
  · obtain ⟨line, hline, hl⟩ := List.mem_flatMap.mp hl
    refine Or.inr ((mem_of_mem_wrapLine hl hc).imp_right fun hmem => ⟨?_, hmem.2⟩)
    have hwhole := Script.mem_joinLines hline hmem.1
    rwa [Script.joinLines_lines] at hwhole

/-- Where a comment is wrapped, a line separator or a paragraph separator stays as it is, and no other
    line end but line feeds. -/
theorem isFeedOnly_wrap {limit : Limit} {s : String} (hline : '\u2028' ∉ s.toList)
    (hparagraph : '\u2029' ∉ s.toList) : IsFeedOnly (wrap limit s).toList := by
  intro c hc
  have hcases := mem_of_mem_wrap hc
  refine ⟨?_, ?_, ?_⟩
  · rintro rfl
    rcases hcases with h | h | ⟨-, h⟩ <;> exact absurd h (by decide)
  · rintro rfl
    rcases hcases with h | h | ⟨h, -⟩
    · exact absurd h (by decide)
    · exact absurd h (by decide)
    · exact hline h
  · rintro rfl
    rcases hcases with h | h | ⟨h, -⟩
    · exact absurd h (by decide)
    · exact absurd h (by decide)
    · exact hparagraph h

/-! ## Marked lines -/

/-- Lines behind a text, with a line feed behind each. -/
def marked (x : List Char) (ls : List (List Char)) : List Char :=
  ls.flatMap fun l => x ++ l ++ ['\n']

theorem marked_cons (x l : List Char) (ls : List (List Char)) :
    marked x (l :: ls) = x ++ l ++ '\n' :: marked x ls := by
  simp [marked]

/-- A mark behind every line feed but one at the end is a mark ahead of every line. -/
theorem marked_lines (x s : List Char) :
    x ++ insertAfterBreaks x (s ++ ['\n']) = marked x (lines s) := by
  induction s with
  | nil => simp [lines, splitOn, marked, insertAfterBreaks]
  | cons c rest ih =>
    have hne : rest ++ ['\n'] ≠ [] := List.append_ne_nil_of_right_ne_nil _ (List.cons_ne_nil _ _)
    rw [List.cons_append, insertAfterBreaks_cons]
    by_cases hc : c = '\n'
    · rw [if_pos ⟨hc, hne⟩, ih, hc, lines_break, marked_cons, List.append_nil]
    · -- The character goes to the first line, which is behind the mark on both sides.
      obtain ⟨first, others, hlines⟩ := exists_lines rest
      rw [hlines, marked_cons, List.append_assoc] at ih
      rw [if_neg fun h => hc h.1, List.nil_append, List.append_cancel_left ih, lines_char hc hlines,
        marked_cons]
      simp

/-- An indent of marked lines is a part of their marks, where code follows them. -/
theorem indent_marked (lead : List Char) {x code : List Char} (hx : '\n' ∉ x) {ls : List (List Char)}
    (hls : ∀ l ∈ ls, '\n' ∉ l) (hcode : code ≠ []) :
    lead ++ insertAfterBreaks lead (marked x ls ++ code) =
      marked (lead ++ x) ls ++ (lead ++ insertAfterBreaks lead code) := by
  induction ls with
  | nil => rfl
  | cons l rest ih =>
    have hline : '\n' ∉ x ++ l := by
      rw [List.mem_append, not_or]
      exact ⟨hx, hls l List.mem_cons_self⟩
    have hne : marked x rest ++ code ≠ [] := List.append_ne_nil_of_right_ne_nil _ hcode
    rw [marked_cons, marked_cons, List.append_assoc, List.cons_append, insertAfterBreaks_line hline hne,
      ih fun l' hl' => hls l' (List.mem_cons_of_mem l hl')]
    simp

/-- The lines of marked lines, and nothing behind the last line feed. -/
theorem lines_marked {x : List Char} (hx : '\n' ∉ x) {ls : List (List Char)}
    (hls : ∀ l ∈ ls, '\n' ∉ l) : lines (marked x ls) = ls.map (x ++ ·) ++ [[]] := by
  induction ls with
  | nil => rfl
  | cons l rest ih =>
    have hline : '\n' ∉ x ++ l := by
      rw [List.mem_append, not_or]
      exact ⟨hx, hls l List.mem_cons_self⟩
    rw [marked_cons, lines_line hline, ih fun l' hl' => hls l' (List.mem_cons_of_mem l hl')]
    rfl

/-- A reader of scripts takes all of marked lines for comments if it does so with what it takes for
    later lines of them. -/
theorem forall_isCommentLine_marked {indentation : List Char}
    (hindentation : ∀ c ∈ indentation, c = ' ' ∨ c = '\t') (ls : List (List Char)) :
    (∀ line ∈ (scriptLines (marked (indentation ++ "// ".toList) ls)).dropLast, IsCommentLine line) ↔
      ∀ l ∈ ls, ∀ line ∈ laterLines l, IsCommentLine line := by
  have hchars : ∀ c ∈ indentation ++ "// ".toList, c = ' ' ∨ c = '\t' ∨ c = '/' := by
    intro c hc
    rcases List.mem_append.mp hc with hc | hc
    · exact (hindentation c hc).imp_right Or.inl
    · have hmark : c = '/' ∨ c = '/' ∨ c = ' ' := by simpa using hc
      tauto
  have hmark : IsFeedOnly (indentation ++ "// ".toList) ∧ '\n' ∉ indentation ++ "// ".toList := by
    constructor
    · intro c hc
      rcases hchars c hc with rfl | rfl | rfl <;> decide
    · intro hc
      rcases hchars _ hc with h | h | h <;> exact absurd h (by decide)
  have hbody : ∃ body, scriptLines (marked (indentation ++ "// ".toList) ls) = body ++ [[]] ∧
      ((∀ line ∈ body, IsCommentLine line) ↔
        ∀ l ∈ ls, ∀ line ∈ laterLines l, IsCommentLine line) := by
    induction ls with
    | nil => exact ⟨[], rfl, by simp⟩
    | cons l rest ih =>
      obtain ⟨body, hbody, hiff⟩ := ih
      obtain ⟨first, hfirst, hline⟩ := scriptLines_line hmark.1 hmark.2 l
      have hcomment : IsCommentLine (indentation ++ "// ".toList ++ first) := by
        refine ⟨indentation, ' ' :: first, by simp, hindentation, ?_⟩
        rw [List.mem_cons, not_or]
        exact ⟨by decide, hfirst⟩
      refine ⟨((indentation ++ "// ".toList) ++ first) :: laterLines l ++ body, ?_, ?_⟩
      · rw [marked_cons, hline, hbody, ← List.append_assoc]
      · simp only [List.cons_append, List.forall_mem_cons, List.forall_mem_append, hcomment, true_and,
          hiff]
  obtain ⟨body, hbody, hiff⟩ := hbody
  rw [hbody, List.dropLast_concat, hiff]

end Text

end BlockScript
