/-
  BlockScript.Proofs.Hook.Tidy

  The clean-up of white space on texts that differ in inserted lines. White space ahead of a text is
  the same on both sides, because lines go in ahead of a line with something in it; behind the last
  such line the side with insertions keeps these, and both keep one line feed. From an inserted line
  the spaces and tabs at its end are dropped.
-/
import BlockScript.Proofs.Comment.Tidy
import BlockScript.Proofs.Hook.Insertion

namespace BlockScript.Text

variable {P : List Char → Prop} {place : LinePlace} {s t : List Char}

/-! ## Line ends -/

/-- The characters that are dropped at the end of a line. -/
def isSpace (c : Char) : Bool :=
  c = ' ' || c = '\t'

theorem isSpace_iff {c : Char} : isSpace c = true ↔ c = ' ' ∨ c = '\t' := by
  rw [isSpace, Bool.or_eq_true, decide_eq_true_eq, decide_eq_true_eq]

/-- A first character is dropped from the end of a text if all the others are. -/
theorem trimRightOf_cons (isMargin : Char → Bool) (c : Char) (s : List Char) :
    trimRightOf isMargin (c :: s) =
      if isMargin c = true ∧ trimRightOf isMargin s = [] then [] else c :: trimRightOf isMargin s := by
  have hempty : trimRightOf isMargin s = [] ↔ s.reverse.dropWhile isMargin = [] := by
    rw [trimRightOf, List.reverse_eq_nil_iff]
  have hcons : trimRightOf isMargin (c :: s) = (if (s.reverse.dropWhile isMargin).isEmpty then
      [c].dropWhile isMargin else s.reverse.dropWhile isMargin ++ [c]).reverse := by
    rw [trimRightOf, List.reverse_cons, List.dropWhile_append]
  rw [hcons]
  by_cases hs : trimRightOf isMargin s = []
  · rw [if_pos (List.isEmpty_iff.mpr (hempty.mp hs)), hs]
    by_cases hc : isMargin c = true
    · rw [if_pos ⟨hc, rfl⟩, List.dropWhile_cons_of_pos hc]
      rfl
    · rw [if_neg fun h => hc h.1, List.dropWhile_cons_of_neg hc]
      rfl
  · rw [if_neg fun h => hs (hempty.mpr (List.isEmpty_iff.mp h)), if_neg fun h => hs h.2,
      List.reverse_append]
    rfl

/-- What is dropped are characters of the class, and they were at the end. -/
theorem exists_trimRightOf (isMargin : Char → Bool) (s : List Char) :
    ∃ margin, s = trimRightOf isMargin s ++ margin ∧ ∀ c ∈ margin, isMargin c = true := by
  refine ⟨(s.reverse.takeWhile isMargin).reverse, ?_, ?_⟩
  · rw [trimRightOf, ← List.reverse_append, List.takeWhile_append_dropWhile, List.reverse_reverse]
  · exact fun c hc => List.mem_takeWhile_imp (List.mem_reverse.mp hc)

theorem endsLine_line {line : List Char} (h : '\n' ∉ line) (s : List Char) :
    endsLine (line ++ '\n' :: s) = true ↔ trimRightOf isSpace line = [] := by
  induction line with
  | nil => exact ⟨fun _ => rfl, fun _ => rfl⟩
  | cons c rest ih =>
    rw [List.mem_cons, not_or] at h
    have hc : decide (c = '\n') = false := decide_eq_false (Ne.symm h.1)
    rw [List.cons_append, endsLine, hc, Bool.false_or, Bool.and_eq_true, ih h.2, trimRightOf_cons,
      isSpace]
    split
    · rename_i hdrop
      exact ⟨fun _ => rfl, fun _ => hdrop⟩
    · rename_i hkeep
      exact ⟨fun hdrop => absurd hdrop hkeep, fun h => absurd h (List.cons_ne_nil _ _)⟩

/-- A line loses the spaces and tabs at its end. -/
theorem dropLineEndBlanks_line {line : List Char} (h : '\n' ∉ line) (s : List Char) :
    dropLineEndBlanks (line ++ '\n' :: s) =
      trimRightOf isSpace line ++ '\n' :: dropLineEndBlanks s := by
  induction line with
  | nil => simp [dropLineEndBlanks, trimRightOf]
  | cons c rest ih =>
    rw [List.mem_cons, not_or] at h
    have hdrop : ((decide (c = ' ') || decide (c = '\t')) && endsLine (rest ++ '\n' :: s)) = true ↔
        isSpace c = true ∧ trimRightOf isSpace rest = [] := by
      rw [Bool.and_eq_true, endsLine_line h.2, isSpace]
    rw [List.cons_append, dropLineEndBlanks, ih h.2, trimRightOf_cons]
    by_cases hspace : isSpace c = true ∧ trimRightOf isSpace rest = []
    · rw [if_pos (hdrop.mpr hspace), if_pos hspace, hspace.2]
    · rw [if_neg fun h => hspace (hdrop.mp h), if_neg hspace, List.cons_append]

theorem dropLineEndBlanks_marked {ls : List (List Char)} (h : ∀ l ∈ ls, '\n' ∉ l) (s : List Char) :
    dropLineEndBlanks (marked [] ls ++ s) =
      marked [] (ls.map (trimRightOf isSpace)) ++ dropLineEndBlanks s := by
  induction ls with
  | nil => rfl
  | cons l rest ih =>
    rw [List.map_cons, marked_cons, marked_cons, List.nil_append, List.nil_append, List.append_assoc,
      List.cons_append, dropLineEndBlanks_line (h l List.mem_cons_self),
      ih fun l' hl' => h l' (List.mem_cons_of_mem l hl'), List.append_assoc, List.cons_append]

/-- Something in a line is left without the spaces and tabs at its end. -/
theorem isSolid_trimRightOf {line : List Char} (h : isSolid line = true) :
    isSolid (trimRightOf isSpace line) = true := by
  obtain ⟨margin, hline, hmargin⟩ := exists_trimRightOf isSpace line
  rw [hline] at h
  apply isSolid_of_append_blanks _ h
  intro c hc
  rcases isSpace_iff.mp (hmargin c hc) with rfl | rfl <;> rfl

theorem not_mem_trimRightOf {line : List Char} (h : '\n' ∉ line) :
    '\n' ∉ trimRightOf isSpace line := by
  obtain ⟨margin, hline, -⟩ := exists_trimRightOf isSpace line
  rw [hline] at h
  exact fun hmem => h (List.mem_append_left margin hmem)

/-- Away from the start of a line nothing comes before the next line feed. -/
theorem Inserted.endsLine_eq (h : Inserted P place s t) :
    place.isLineStart = false → endsLine s = endsLine t := by
  induction h with
  | nil => exact fun _ => rfl
  | @char place c s t h ih =>
    intro _
    rw [endsLine, endsLine]
    by_cases hc : c = '\n'
    · rw [decide_eq_true hc, Bool.true_or, Bool.true_or]
    · have hstep : (place.step c).isLineStart = false := by
        rw [place.isLineStart_step, decide_eq_false hc]
      rw [ih hstep]
  | insert hls hallowed h =>
    intro hplace
    rcases hallowed with rfl | ⟨rfl, -⟩ <;> cases hplace

/-- A space or a tab leads to a place where no more can be inserted. -/
theorem LinePlace.step_below {c : Char} (hc : isSpace c = true) (place : LinePlace) :
    (place.step c).Below place := by
  rcases isSpace_iff.mp hc with rfl | rfl
  all_goals
    cases place with
    | blank | start | fresh => exact .blank _
    | firm => exact .refl _

theorem Inserted.dropLineEndBlanks (h : Inserted P place s t)
    (hP : ∀ l, P l → P (trimRightOf isSpace l)) :
    Inserted P place (dropLineEndBlanks s) (dropLineEndBlanks t) := by
  induction h with
  | nil place => exact .nil place
  | @char place c s t h ih =>
    rw [Text.dropLineEndBlanks, Text.dropLineEndBlanks]
    by_cases hc : isSpace c = true
    · -- What decides whether the character is dropped is the same on both sides.
      have hfeed : c ≠ '\n' := by
        rintro rfl
        cases hc
      have hstep : (place.step c).isLineStart = false := by
        rw [place.isLineStart_step, decide_eq_false hfeed]
      rw [h.endsLine_eq hstep]
      split
      · exact ih.weaken (LinePlace.step_below hc place)
      · exact .char ih
    · have hkeep : ∀ rest : List Char, ¬ ((decide (c = ' ') || decide (c = '\t')) &&
          endsLine rest) = true := by
        intro rest h
        exact hc (Bool.and_eq_true_iff.mp h).1
      rw [if_neg (hkeep s), if_neg (hkeep t)]
      exact .char ih
  | insert hls hallowed h ih =>
    rw [dropLineEndBlanks_marked fun l hl => (hls.lines l hl).2]
    apply Inserted.insert _ _ ih
    · exact hls.map (fun l hl hfeed => ⟨hP l hl, not_mem_trimRightOf hfeed⟩)
        fun l => isSolid_trimRightOf
    · exact hallowed.imp_right fun h => ⟨h.1, isSolid_dropLineEndBlanks h.2⟩

/-! ## The beginning -/

/-- A text has the same lines of white space ahead with lines inserted and without. -/
theorem Inserted.blankLines (h : Inserted P place s t) (hplace : place = .blank ∨ place = .start) :
    ('\n' ∉ s.takeWhile isBlank ∧ '\n' ∉ t.takeWhile isBlank) ∨
      ∃ front s' t', s = front ++ '\n' :: s' ∧ t = front ++ '\n' :: t' ∧
        (∀ c ∈ front, isBlank c = true) ∧ '\n' ∉ s'.takeWhile isBlank ∧
        '\n' ∉ t'.takeWhile isBlank ∧ Inserted P .start s' t' := by
  induction h with
  | nil => exact Or.inl ⟨List.not_mem_nil, List.not_mem_nil⟩
  | @char place c s t h ih =>
    by_cases hblank : isBlank c = true
    · have hstep : place.step c = if c = '\n' then .start else .blank := by
        rcases hplace with rfl | rfl <;> simp [LinePlace.step, hblank]
      rw [hstep] at h ih
      have hnext : (if c = '\n' then LinePlace.start else .blank) = .blank ∨
          (if c = '\n' then LinePlace.start else .blank) = .start := by
        split
        · exact Or.inr rfl
        · exact Or.inl rfl
      rcases ih hnext with ⟨hs, ht⟩ | ⟨front, s', t', rfl, rfl, hfront, hrest⟩
      · by_cases hc : c = '\n'
        · subst hc
          exact Or.inr ⟨[], s, t, rfl, rfl, fun _ h => absurd h List.not_mem_nil, hs, ht, h⟩
        · rw [List.takeWhile_cons_of_pos hblank, List.takeWhile_cons_of_pos hblank, List.mem_cons,
            List.mem_cons, not_or, not_or]
          exact Or.inl ⟨⟨Ne.symm hc, hs⟩, Ne.symm hc, ht⟩
      · exact Or.inr ⟨c :: front, s', t', rfl, rfl, List.forall_mem_cons.mpr ⟨hblank, hfront⟩, hrest⟩
    · rw [List.takeWhile_cons_of_neg hblank, List.takeWhile_cons_of_neg hblank]
      exact Or.inl ⟨List.not_mem_nil, List.not_mem_nil⟩
  | insert hls hallowed h ih =>
    -- At the start of the text lines go ahead of a line with something in it.
    rcases hallowed with rfl | ⟨rfl, hsolid⟩
    · rcases hplace with h | h <;> cases h
    · exact Or.inl ⟨not_mem_takeWhile_of_isSolid hsolid, not_mem_takeWhile_of_isSolid (hls.isSolid _)⟩

theorem Inserted.dropLeadingLines (h : Inserted P .start s t) :
    Inserted P .start (dropLeadingLines s) (dropLeadingLines t) := by
  rcases h.blankLines (Or.inr rfl) with ⟨hs, ht⟩ | ⟨front, s', t', rfl, rfl, hfront, hs, ht, hrest⟩
  · rw [dropLeadingLines_eq_self hs, dropLeadingLines_eq_self ht]
    exact h
  · rw [dropLeadingLines_blanks hfront hs, dropLeadingLines_blanks hfront ht]
    split
    · exact .char hrest
    · exact hrest

/-! ## The end -/

theorem trimRight_eq_nil_iff : trimRight s = [] ↔ s.all isBlank = true := by
  rw [trimRight, trimRightOf, List.reverse_eq_nil_iff, List.dropWhile_eq_nil_iff, List.all_eq_true]
  simp only [List.mem_reverse]

/-- A line feed ends the text if only white space follows it. -/
theorem dropTrailingLines_cons (c : Char) (s : List Char) :
    dropTrailingLines (c :: s) =
      if c = '\n' ∧ s.all isBlank = true then ['\n'] else c :: dropTrailingLines s := by
  have hcons : trimRight (c :: s) =
      if isBlank c = true ∧ trimRight s = [] then [] else c :: trimRight s :=
    trimRightOf_cons isBlank c s
  by_cases hblank : isBlank c = true ∧ trimRight s = []
  · rw [if_pos hblank] at hcons
    simp only [dropTrailingLines, hcons, hblank.2, ← trimRight_eq_nil_iff, and_true,
      List.length_nil, List.drop_zero, List.nil_append]
    by_cases hc : c = '\n'
    · rw [if_pos hc, hc]
      simp
    · rw [if_neg hc, List.takeWhile_cons_of_pos (by simpa using hc)]
      simp only [List.length_cons]
      split
      · rename_i hshort
        rw [if_pos (by omega)]
      · rename_i hlong
        rw [if_neg (by omega)]
        rfl
  · have hkeep : ¬ (c = '\n' ∧ s.all isBlank = true) := by
      rintro ⟨rfl, hs⟩
      exact hblank ⟨rfl, trimRight_eq_nil_iff.mpr hs⟩
    rw [if_neg hblank] at hcons
    rw [if_neg hkeep]
    simp only [dropTrailingLines, hcons, List.length_cons, List.drop_succ_cons]
    split <;> rfl

theorem isSolid_dropTrailingLines (h : isSolid s = true) : isSolid (dropTrailingLines s) = true := by
  induction s with
  | nil => cases h
  | cons c rest ih =>
    rw [isSolid_cons_iff] at h
    rw [dropTrailingLines_cons]
    split
    · rename_i hend
      -- A line feed has nothing ahead of it in its line.
      rcases h with hc | ⟨hc, -⟩
      · rw [hend.1] at hc
        cases hc
      · exact absurd hend.1 hc
    · rw [isSolid_cons_iff]
      exact h.imp_right fun h => ⟨h.1, ih h.2⟩

theorem all_eq_false_of_isSolid (h : isSolid s = true) : s.all isBlank = false := by
  induction s with
  | nil => cases h
  | cons c rest ih =>
    rw [List.all_cons, Bool.and_eq_false_iff]
    exact (isSolid_cons_iff.mp h).imp_right fun h => ih h.2

/-- A text that something follows stays. -/
theorem dropTrailingLines_behind (x : List Char) (h : s.all isBlank = false) :
    dropTrailingLines (x ++ s) = x ++ dropTrailingLines s := by
  induction x with
  | nil => rfl
  | cons c rest ih =>
    have hrest : (rest ++ s).all isBlank = false := by
      rw [List.all_append, h, Bool.and_false]
    rw [List.cons_append, dropTrailingLines_cons, hrest, if_neg fun h => Bool.false_ne_true h.2, ih,
      List.cons_append]

/-- Of a line and the white space behind it the line and its line feed are left. -/
theorem dropTrailingLines_line {line : List Char} (h : '\n' ∉ line) (hs : s.all isBlank = true) :
    dropTrailingLines (line ++ '\n' :: s) = line ++ ['\n'] := by
  induction line with
  | nil => rw [List.nil_append, dropTrailingLines_cons, if_pos ⟨rfl, hs⟩, List.nil_append]
  | cons c rest ih =>
    rw [List.mem_cons, not_or] at h
    rw [List.cons_append, dropTrailingLines_cons, if_neg fun hc => h.1 hc.1.symm, ih h.2,
      List.cons_append]

theorem IsInsertion.all_eq_false {ls : List (List Char)} (h : IsInsertion P ls) (s : List Char) :
    (marked [] ls ++ s).all isBlank = false :=
  all_eq_false_of_isSolid (h.isSolid s)

/-- So are lines that are inserted at the end of a text. -/
theorem IsInsertion.dropTrailingLines {ls : List (List Char)} (h : IsInsertion P ls)
    (hs : s.all isBlank = true) : dropTrailingLines (marked [] ls ++ s) = marked [] ls := by
  obtain ⟨front, last, rfl, hlast⟩ := h.last
  have hfeed : '\n' ∉ last :=
    (h.lines last (List.mem_append_right front List.mem_cons_self)).2
  have hsolid : (last ++ '\n' :: s).all isBlank = false :=
    all_eq_false_of_isSolid (isSolid_append hlast _)
  have hmarked : marked [] (front ++ [last]) = marked [] front ++ (last ++ ['\n']) := by
    rw [marked_append, marked_cons]
    rfl
  rw [hmarked, List.append_assoc, List.append_assoc, List.singleton_append,
    dropTrailingLines_behind _ hsolid, dropTrailingLines_line hfeed hs]

/-- All of a text is left where lines are inserted. -/
theorem Inserted.all_eq_false (h : Inserted P place s t) (hs : s.all isBlank = false) :
    t.all isBlank = false := by
  induction h with
  | nil => exact hs
  | char h ih =>
    rw [List.all_cons, Bool.and_eq_false_iff] at hs ⊢
    exact hs.imp_right ih
  | insert hls hallowed h ih => exact hls.all_eq_false _

/-- Into white space nothing is inserted, unless at its beginning. -/
theorem Inserted.eq_of_blank (h : Inserted P place s t) (hs : s.all isBlank = true)
    (hplace : place = .blank ∨ place = .start) : t = s := by
  induction h with
  | nil => rfl
  | @char place c s t h ih =>
    rw [List.all_cons, Bool.and_eq_true] at hs
    have hstep : place.step c = .blank ∨ place.step c = .start := by
      rcases hplace with rfl | rfl
      all_goals
        simp only [LinePlace.step, hs.1]
        split
        · exact Or.inr rfl
        · exact Or.inl rfl
    rw [ih hs.2 hstep]
  | insert hls hallowed h ih =>
    rcases hallowed with rfl | ⟨rfl, hsolid⟩
    · rcases hplace with h | h <;> cases h
    · rw [all_eq_false_of_isSolid hsolid] at hs
      cases hs

/-- What is inserted at the beginning of white space is what is left of the whole. -/
theorem Inserted.dropTrailingLines_blank (h : Inserted P place s t) (hs : s.all isBlank = true)
    (hplace : place.isLineStart = true) (ht : t.all isBlank = false) :
    Inserted P place [] (dropTrailingLines t) := by
  induction h with
  | nil =>
    rw [hs] at ht
    cases ht
  | @char place c s t h ih =>
    have hsame : Inserted P .start (c :: s) (c :: t) := by
      apply Inserted.char
      rwa [LinePlace.step_eq (by decide) (show place ≠ .firm by rintro rfl; cases hplace)]
    rw [hsame.eq_of_blank hs (Or.inr rfl), hs] at ht
    cases ht
  | @insert place ls s t hls hallowed h ih =>
    obtain rfl : place = .fresh := by
      apply hallowed.resolve_right
      rintro ⟨-, hsolid⟩
      rw [all_eq_false_of_isSolid hsolid] at hs
      cases hs
    cases hrest : t.all isBlank with
    | true =>
      rw [hls.dropTrailingLines hrest, ← List.append_nil (marked [] ls)]
      exact .insert hls (Or.inl rfl) (.nil .fresh)
    | false =>
      rw [dropTrailingLines_behind _ hrest]
      exact .insert hls (Or.inl rfl) (ih hs hplace hrest)

theorem Inserted.dropTrailingLines (h : Inserted P place s t)
    (hs : place = .fresh → s.all isBlank = false) :
    Inserted P place (dropTrailingLines s) (dropTrailingLines t) := by
  induction h with
  | nil place => exact .nil place
  | @char place c s t h ih =>
    rw [dropTrailingLines_cons, dropTrailingLines_cons]
    by_cases hend : c = '\n' ∧ s.all isBlank = true
    · -- The text ends in this line feed, and what is inserted behind it is kept.
      rw [if_pos hend]
      obtain ⟨rfl, hblank⟩ := hend
      split
      · exact .refl place _
      · rename_i hmore
        have ht : t.all isBlank = false := by simpa using hmore
        have hstart : (place.step '\n').isLineStart = true := by
          rw [place.isLineStart_step]
          rfl
        exact .char (h.dropTrailingLines_blank hblank hstart ht)
    · rw [if_neg hend]
      have hsolid : c = '\n' → s.all isBlank = false := by
        intro hc
        rw [Bool.eq_false_iff]
        exact fun hblank => hend ⟨hc, hblank⟩
      split
      · rename_i hend'
        rw [h.all_eq_false (hsolid hend'.1)] at hend'
        cases hend'.2
      · apply Inserted.char
        apply ih
        intro hfresh
        -- Only a line feed leads to the start of a line.
        have hstart := place.isLineStart_step c
        rw [hfresh] at hstart
        exact hsolid (of_decide_eq_true hstart.symm)
  | @insert place ls s t hls hallowed h ih =>
    have hsolid : s.all isBlank = false := by
      rcases hallowed with hfresh | ⟨-, hsolid⟩
      · exact hs hfresh
      · exact all_eq_false_of_isSolid hsolid
    rw [dropTrailingLines_behind _ (h.all_eq_false hsolid)]
    apply Inserted.insert hls _ (ih hs)
    exact hallowed.imp_right fun h => ⟨h.1, isSolid_dropTrailingLines h.2⟩

/-! ## The whole step -/

/-- Tidied texts differ in lines of the sort that is inserted, if dropping spaces and tabs at the end
    of a line keeps the sort. -/
theorem Inserted.tidy {s t : String} (h : Inserted P .start s.toList t.toList)
    (hP : ∀ l, P l → P (trimRightOf isSpace l)) :
    Inserted P .start (tidy s).toList (tidy t).toList := by
  have hnot : LinePlace.start = .fresh → (Text.dropLeadingLines s.toList).all isBlank = false := by
    intro h
    cases h
  rw [Text.tidy, Text.tidy, String.toList_ofList, String.toList_ofList]
  exact (h.dropLeadingLines.dropTrailingLines hnot).dropLineEndBlanks hP

end BlockScript.Text
