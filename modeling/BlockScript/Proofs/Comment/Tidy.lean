/-
  BlockScript.Proofs.Comment.Tidy

  The clean-up of white space leaves an annotated text annotated. Empty lines ahead of the text are
  the same with and without comments, because a comment stands only ahead of a line with something in
  it; so is the white space behind the last such line. Spaces and tabs at the end of a line are
  dropped from comment lines too, which stay comment lines.
-/
import BlockScript.Proofs.Comment.Insertion
import BlockScript.Text.Tidy
import Mathlib.Data.List.TakeWhile

namespace BlockScript.Text

variable {atStart : Bool} {s t : List Char}

/-! ## Line ends -/

/-- Away from the start of a line no comment comes before the next line feed. -/
theorem Annotated.endsLine_eq (h : Annotated atStart s t) :
    atStart = false → endsLine s = endsLine t := by
  induction h with
  | nil => exact fun _ => rfl
  | @char atStart c s t h ih =>
    intro _
    rw [endsLine, endsLine]
    by_cases hc : c = '\n'
    · simp [hc]
    · rw [ih (by simpa using hc)]
  | comment => exact fun h => absurd h (by decide)

/-- The line feed at the end of a line stays, behind some of the line. -/
theorem exists_dropLineEndBlanks_line {line : List Char} (h : '\n' ∉ line) (s : List Char) :
    ∃ kept, dropLineEndBlanks (line ++ '\n' :: s) = kept ++ '\n' :: dropLineEndBlanks s ∧
      '\n' ∉ kept := by
  induction line with
  | nil => exact ⟨[], by simp [dropLineEndBlanks], List.not_mem_nil⟩
  | cons c rest ih =>
    rw [List.mem_cons, not_or] at h
    obtain ⟨kept, hkept, hnone⟩ := ih h.2
    rw [List.cons_append, dropLineEndBlanks]
    split
    · exact ⟨kept, hkept, hnone⟩
    · refine ⟨c :: kept, by rw [hkept, List.cons_append], ?_⟩
      rw [List.mem_cons, not_or]
      exact ⟨h.1, hnone⟩

theorem endsLine_append_slash {indentation : List Char}
    (h : ∀ c ∈ indentation, c = ' ' ∨ c = '\t') (s : List Char) :
    endsLine (indentation ++ '/' :: s) = false := by
  induction indentation with
  | nil => simp [endsLine]
  | cons c rest ih =>
    rw [List.cons_append, endsLine, ih fun d hd => h d (List.mem_cons_of_mem c hd)]
    rcases h c List.mem_cons_self with rfl | rfl <;> rfl

/-- The indent ahead of something stays. -/
theorem dropLineEndBlanks_append_slash {indentation : List Char}
    (h : ∀ c ∈ indentation, c = ' ' ∨ c = '\t') (s : List Char) :
    dropLineEndBlanks (indentation ++ '/' :: s) = indentation ++ dropLineEndBlanks ('/' :: s) := by
  induction indentation with
  | nil => rfl
  | cons c rest ih =>
    have hrest : ∀ d ∈ rest, d = ' ' ∨ d = '\t' := fun d hd => h d (List.mem_cons_of_mem c hd)
    rw [List.cons_append, dropLineEndBlanks, endsLine_append_slash hrest, Bool.and_false,
      if_neg Bool.false_ne_true, ih hrest, List.cons_append]

theorem dropLineEndBlanks_slash (s : List Char) :
    dropLineEndBlanks ('/' :: s) = '/' :: dropLineEndBlanks s := by
  rw [dropLineEndBlanks, if_neg (by simp)]

/-- A comment line loses spaces and tabs at its end at most. -/
theorem IsCommentLine.dropLineEndBlanks {line : List Char} (h : IsCommentLine line)
    (s : List Char) : ∃ kept, Text.dropLineEndBlanks (line ++ '\n' :: s) =
      kept ++ '\n' :: Text.dropLineEndBlanks s ∧ IsCommentLine kept := by
  obtain ⟨indentation, text, rfl, hindentation, htext⟩ := h
  obtain ⟨kept, hkept, hnone⟩ := exists_dropLineEndBlanks_line htext s
  refine ⟨indentation ++ '/' :: '/' :: kept, ?_, indentation, kept, rfl, hindentation, hnone⟩
  rw [List.append_assoc, List.cons_append, List.cons_append,
    dropLineEndBlanks_append_slash hindentation, dropLineEndBlanks_slash, dropLineEndBlanks_slash,
    hkept, List.append_assoc, List.cons_append, List.cons_append]

theorem isSolid_dropLineEndBlanks (h : isSolid s = true) :
    isSolid (dropLineEndBlanks s) = true := by
  induction s with
  | nil => cases h
  | cons c rest ih =>
    rw [isSolid_cons_iff] at h
    rw [dropLineEndBlanks]
    split
    · rename_i hdrop
      -- What is dropped is a space or a tab, so it is the rest that has something in it.
      rw [Bool.and_eq_true, Bool.or_eq_true, decide_eq_true_eq, decide_eq_true_eq] at hdrop
      rcases h with hc | ⟨-, hrest⟩
      · rcases hdrop.1 with rfl | rfl <;> exact absurd hc (by decide)
      · exact ih hrest
    · rw [isSolid_cons_iff]
      rcases h with hc | ⟨hc, hrest⟩
      · exact Or.inl hc
      · exact Or.inr ⟨hc, ih hrest⟩

theorem Annotated.dropLineEndBlanks (h : Annotated atStart s t) :
    Annotated atStart (dropLineEndBlanks s) (dropLineEndBlanks t) := by
  induction h with
  | nil atStart => exact .nil atStart
  | @char atStart c s t h ih =>
    rw [Text.dropLineEndBlanks, Text.dropLineEndBlanks]
    by_cases hc : c = ' ' ∨ c = '\t'
    · have hbreak : decide (c = '\n') = false := by
        rcases hc with rfl | rfl <;> decide
      rw [hbreak] at ih
      rw [h.endsLine_eq hbreak]
      split
      · exact ih.weaken atStart
      · apply Annotated.char
        rwa [hbreak]
    · have hkeep : (decide (c = ' ') || decide (c = '\t')) = false := by
        simpa using hc
      rw [hkeep]
      exact .char ih
  | comment hline hsolid h ih =>
    obtain ⟨kept, hkept, hcomment⟩ := hline.dropLineEndBlanks _
    rw [hkept]
    exact .comment hcomment (isSolid_dropLineEndBlanks hsolid) ih

/-! ## The beginning -/

theorem not_mem_takeWhile_of_isSolid (h : isSolid s = true) : '\n' ∉ s.takeWhile isBlank := by
  induction s with
  | nil => cases h
  | cons c rest ih =>
    rw [List.takeWhile_cons]
    split
    · rename_i hblank
      rcases isSolid_cons_iff.mp h with hc | ⟨hc, hrest⟩
      · rw [hblank] at hc
        cases hc
      · rw [List.mem_cons, not_or]
        exact ⟨Ne.symm hc, ih hrest⟩
    · exact List.not_mem_nil

/-- A text has the same lines of white space ahead with comments and without. -/
theorem Annotated.blankLines (h : Annotated atStart s t) :
    ('\n' ∉ s.takeWhile isBlank ∧ '\n' ∉ t.takeWhile isBlank) ∨
      ∃ front s' t', s = front ++ '\n' :: s' ∧ t = front ++ '\n' :: t' ∧
        (∀ c ∈ front, isBlank c = true) ∧ '\n' ∉ s'.takeWhile isBlank ∧
        '\n' ∉ t'.takeWhile isBlank ∧ Annotated true s' t' := by
  induction h with
  | nil => exact Or.inl ⟨List.not_mem_nil, List.not_mem_nil⟩
  | @char atStart c s t h ih =>
    by_cases hblank : isBlank c = true
    · rcases ih with ⟨hs, ht⟩ | ⟨front, s', t', rfl, rfl, hfront, hrest⟩
      · by_cases hc : c = '\n'
        · subst hc
          exact Or.inr ⟨[], s, t, rfl, rfl, fun _ h => absurd h List.not_mem_nil, hs, ht, h⟩
        · rw [List.takeWhile_cons_of_pos hblank, List.takeWhile_cons_of_pos hblank, List.mem_cons,
            List.mem_cons, not_or, not_or]
          exact Or.inl ⟨⟨Ne.symm hc, hs⟩, Ne.symm hc, ht⟩
      · refine Or.inr ⟨c :: front, s', t', rfl, rfl, ?_, hrest⟩
        intro d hd
        rcases List.mem_cons.mp hd with rfl | hd
        · exact hblank
        · exact hfront d hd
    · rw [List.takeWhile_cons_of_neg hblank, List.takeWhile_cons_of_neg hblank]
      exact Or.inl ⟨List.not_mem_nil, List.not_mem_nil⟩
  | comment hline hsolid h ih =>
    exact Or.inl ⟨not_mem_takeWhile_of_isSolid hsolid,
      not_mem_takeWhile_of_isSolid (hline.isSolid _)⟩

theorem forall_ne_of_not_mem_reverse {line : List Char} (h : '\n' ∉ line) :
    ∀ c ∈ line.reverse, decide (c ≠ '\n') = true := by
  intro c hc
  rw [decide_eq_true_eq]
  rintro rfl
  exact h (List.mem_reverse.mp hc)

theorem takeWhile_reverse_of_not_mem {indentation : List Char} (h : '\n' ∉ indentation)
    (front : List Char) :
    ((front ++ '\n' :: indentation).reverse.takeWhile (· ≠ '\n')).reverse = indentation := by
  rw [List.reverse_append, List.reverse_cons, List.append_assoc,
    List.takeWhile_append_of_pos (forall_ne_of_not_mem_reverse h)]
  simp

/-- Lines of white space are dropped, unless there is but one and that is empty. -/
theorem dropLeadingLines_blanks {front : List Char} (hfront : ∀ c ∈ front, isBlank c = true)
    (hs : '\n' ∉ s.takeWhile isBlank) :
    dropLeadingLines (front ++ '\n' :: s) = if front = [] then '\n' :: s else s := by
  have hblank : ∀ c ∈ front ++ ['\n'], isBlank c = true := by
    intro c hc
    rcases List.mem_append.mp hc with hc | hc
    · exact hfront c hc
    · rw [List.mem_singleton.mp hc]
      rfl
  have hsplit : front ++ '\n' :: s = (front ++ ['\n']) ++ s := by simp
  have htake : (front ++ '\n' :: s).takeWhile isBlank = front ++ '\n' :: s.takeWhile isBlank := by
    rw [hsplit, List.takeWhile_append_of_pos hblank]
    simp
  have hdrop : (front ++ '\n' :: s).dropWhile isBlank = s.dropWhile isBlank := by
    rw [hsplit, List.dropWhile_append_of_pos hblank]
  simp only [dropLeadingLines, htake, hdrop, takeWhile_reverse_of_not_mem hs,
    List.takeWhile_append_dropWhile, List.length_append, List.length_cons]
  cases front with
  | nil => simp
  | cons c rest =>
    rw [if_neg (by simp only [List.length_cons]; omega), if_neg (List.cons_ne_nil c rest)]

/-- A text without such lines stays. -/
theorem dropLeadingLines_eq_self (hs : '\n' ∉ s.takeWhile isBlank) : dropLeadingLines s = s := by
  have hwhole := List.takeWhile_eq_self_iff.mpr (forall_ne_of_not_mem_reverse hs)
  simp only [dropLeadingLines, hwhole, List.reverse_reverse]
  rw [if_pos (by omega)]

theorem Annotated.dropLeadingLines (h : Annotated true s t) :
    Annotated true (dropLeadingLines s) (dropLeadingLines t) := by
  rcases h.blankLines with ⟨hs, ht⟩ | ⟨front, s', t', rfl, rfl, hfront, hs, ht, hrest⟩
  · rw [dropLeadingLines_eq_self hs, dropLeadingLines_eq_self ht]
    exact h
  · rw [dropLeadingLines_blanks hfront hs, dropLeadingLines_blanks hfront ht]
    split
    · exact .char hrest
    · exact hrest

/-! ## The end -/

/-- A text that does not end in white space. -/
def IsFirm (s : List Char) : Prop :=
  ∀ h : s ≠ [], isBlank (s.getLast h) = false

theorem isFirm_append {x : List Char} (h : IsFirm s) (hs : s ≠ []) : IsFirm (x ++ s) := by
  intro hne
  rw [List.getLast_append_of_ne_nil hne hs]
  exact h hs

theorem isSolid_of_append_blanks {blanks : List Char} (hblanks : ∀ c ∈ blanks, isBlank c = true)
    (h : isSolid (s ++ blanks) = true) : isSolid s = true := by
  induction s with
  | nil =>
    induction blanks with
    | nil => exact h
    | cons c rest ih =>
      rcases isSolid_cons_iff.mp h with hc | ⟨-, hrest⟩
      · rw [hblanks c List.mem_cons_self] at hc
        cases hc
      · exact ih (fun d hd => hblanks d (List.mem_cons_of_mem c hd)) hrest
  | cons c rest ih =>
    rw [isSolid_cons_iff]
    rcases isSolid_cons_iff.mp h with hc | ⟨hc, hrest⟩
    · exact Or.inl hc
    · exact Or.inr ⟨hc, ih hrest⟩

/-- White space behind a text is the same with comments and without. -/
theorem Annotated.blanks_behind (h : Annotated atStart s t) :
    ∃ s' t' blanks, s = s' ++ blanks ∧ t = t' ++ blanks ∧ (∀ c ∈ blanks, isBlank c = true) ∧
      IsFirm s' ∧ IsFirm t' ∧ Annotated atStart s' t' := by
  have hnil : IsFirm [] := fun h => absurd rfl h
  induction h with
  | nil atStart =>
    exact ⟨[], [], [], rfl, rfl, fun _ h => absurd h List.not_mem_nil, hnil, hnil, .nil atStart⟩
  | @char atStart c s t h ih =>
    obtain ⟨s', t', blanks, rfl, rfl, hblanks, hs, ht, hrest⟩ := ih
    by_cases hempty : s' = []
    · obtain rfl := hrest.eq_nil_iff.mp hempty
      subst hempty
      by_cases hc : isBlank c = true
      · refine ⟨[], [], c :: blanks, rfl, rfl, ?_, hnil, hnil, .nil atStart⟩
        intro d hd
        rcases List.mem_cons.mp hd with rfl | hd
        · exact hc
        · exact hblanks d hd
      · have hfirm : IsFirm [c] := fun _ => by simpa using hc
        exact ⟨[c], [c], blanks, rfl, rfl, hblanks, hfirm, hfirm, .refl atStart [c]⟩
    · have hempty' : t' ≠ [] := fun h => hempty (hrest.eq_nil_iff.mpr h)
      exact ⟨c :: s', c :: t', blanks, rfl, rfl, hblanks, isFirm_append (x := [c]) hs hempty,
        isFirm_append (x := [c]) ht hempty', .char hrest⟩
  | @comment line s t hline hsolid h ih =>
    obtain ⟨s', t', blanks, rfl, rfl, hblanks, hs, ht, hrest⟩ := ih
    have hsolid' : isSolid s' = true := isSolid_of_append_blanks hblanks hsolid
    have hempty : t' ≠ [] := fun h => isSolid_ne_nil hsolid' (hrest.eq_nil_iff.mpr h)
    refine ⟨s', line ++ '\n' :: t', blanks, rfl, by simp, hblanks, hs, ?_,
      .comment hline hsolid' hrest⟩
    have hfirm : IsFirm ((line ++ ['\n']) ++ t') := isFirm_append ht hempty
    simpa using hfirm

theorem trimRight_append_blanks {blanks : List Char} (hblanks : ∀ c ∈ blanks, isBlank c = true)
    (hs : IsFirm s) : trimRight (s ++ blanks) = s := by
  have hdrop : (blanks.reverse ++ s.reverse).dropWhile isBlank = s.reverse.dropWhile isBlank :=
    List.dropWhile_append_of_pos fun c hc => hblanks c (List.mem_reverse.mp hc)
  rw [trimRight, trimRightOf, List.reverse_append, hdrop]
  rcases List.eq_nil_or_concat s with rfl | ⟨front, c, rfl⟩
  · rfl
  · have hc : isBlank c = false := by
      have hlast := hs (by simp)
      simpa using hlast
    simp [hc]

/-- Of the white space behind a text its first line is left. -/
theorem dropTrailingLines_append {blanks : List Char} (hblanks : ∀ c ∈ blanks, isBlank c = true)
    (hs : IsFirm s) : dropTrailingLines (s ++ blanks) = s ++
      if blanks.length < (blanks.takeWhile (· ≠ '\n')).length + 1 then blanks
      else blanks.takeWhile (· ≠ '\n') ++ ['\n'] := by
  simp only [dropTrailingLines, trimRight_append_blanks hblanks hs, List.drop_left]
  split
  · rfl
  · rw [List.append_assoc]

theorem Annotated.dropTrailingLines (h : Annotated atStart s t) :
    Annotated atStart (dropTrailingLines s) (dropTrailingLines t) := by
  obtain ⟨s', t', blanks, rfl, rfl, hblanks, hs, ht, hrest⟩ := h.blanks_behind
  rw [dropTrailingLines_append hblanks hs, dropTrailingLines_append hblanks ht]
  exact hrest.ahead _

/-! ## The whole step -/

/-- A text that is tidied stays annotated. -/
theorem Annotated.tidy {s t : String} (h : Annotated true s.toList t.toList) :
    Annotated true (tidy s).toList (tidy t).toList := by
  rw [Text.tidy, Text.tidy, String.toList_ofList, String.toList_ofList]
  exact h.dropLeadingLines.dropTrailingLines.dropLineEndBlanks

end BlockScript.Text
