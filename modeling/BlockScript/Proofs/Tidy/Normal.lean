/-
  BlockScript.Proofs.Tidy.Normal

  The last step of every program text as a function of texts. It drops white space and nothing else,
  a second run of it has nothing left to do, and a literal comes through it as it is if a backslash
  stands ahead of each of its line feeds.

  The three parts of the step run one behind the other. Each of them is told by what it leaves: no
  lines of white space ahead, no lines of white space behind, no spaces or tabs ahead of a line feed.
  The later parts keep what the earlier ones left, so all three hold of a tidied text.
-/
import BlockScript.Proofs.Comment.LineEnd
import BlockScript.Proofs.Hook.Tidy

namespace BlockScript.Text

variable {s t u : List Char}

/-! ## Thinned texts -/

/-- The second text is the first one without some of its white space. -/
inductive Thinned : List Char → List Char → Prop
  | nil : Thinned [] []
  | keep (c : Char) {s t : List Char} (h : Thinned s t) : Thinned (c :: s) (c :: t)
  | drop {c : Char} (hc : isBlank c = true) {s t : List Char} (h : Thinned s t) : Thinned (c :: s) t

namespace Thinned

theorem refl (s : List Char) : Thinned s s := by
  induction s with
  | nil => exact .nil
  | cons c rest ih => exact .keep c ih

theorem trans (h : Thinned s t) (h' : Thinned t u) : Thinned s u := by
  induction h generalizing u with
  | nil => exact h'
  | keep c h ih =>
    cases h' with
    | keep _ h' => exact .keep c (ih h')
    | drop hc h' => exact .drop hc (ih h')
  | drop hc h ih => exact .drop hc (ih h')

/-- White space ahead of a text can go. -/
theorem behind {blanks : List Char} (hblanks : ∀ c ∈ blanks, isBlank c = true) (h : Thinned s t) :
    Thinned (blanks ++ s) t := by
  induction blanks with
  | nil => exact h
  | cons c rest ih =>
    rw [List.forall_mem_cons] at hblanks
    exact .drop hblanks.1 (ih hblanks.2)

/-- White space alone can go as a whole. -/
theorem of_blank (hs : s.all isBlank = true) : Thinned s [] := by
  rw [← List.append_nil s]
  exact behind (List.all_eq_true.mp hs) .nil

/-- No more and no less than white space is left of white space. -/
theorem all_eq (h : Thinned s t) : t.all isBlank = s.all isBlank := by
  induction h with
  | nil => rfl
  | keep c h ih => rw [List.all_cons, List.all_cons, ih]
  | drop hc h ih => rw [List.all_cons, hc, Bool.true_and, ih]

end Thinned

/-! ## No lines of white space ahead -/

/-- A text without lines of white space ahead, but for one that is empty. -/
def IsLed (s : List Char) : Prop :=
  '\n' ∉ s.takeWhile isBlank ∨ ∃ t, s = '\n' :: t ∧ '\n' ∉ t.takeWhile isBlank

/-- What is dropped at the beginning is white space, and no lines of it are left. -/
theorem exists_dropLeadingLines (s : List Char) :
    ∃ front, s = front ++ dropLeadingLines s ∧ (∀ c ∈ front, isBlank c = true) ∧
      IsLed (dropLeadingLines s) := by
  -- A text with nothing inserted is split at the last line feed of the white space ahead.
  rcases (Annotated.refl true s).blankLines with ⟨hs, -⟩ | ⟨front, s', t', rfl, -, hfront, hs', -⟩
  · rw [dropLeadingLines_eq_self hs]
    exact ⟨[], rfl, List.forall_mem_nil _, Or.inl hs⟩
  · rw [dropLeadingLines_blanks hfront hs']
    split
    · rename_i hempty
      subst hempty
      exact ⟨[], rfl, List.forall_mem_nil _, Or.inr ⟨s', rfl, hs'⟩⟩
    · refine ⟨front ++ ['\n'], by simp, ?_, Or.inl hs'⟩
      intro c hc
      rcases List.mem_append.mp hc with hc | hc
      · exact hfront c hc
      · rw [List.mem_singleton.mp hc]
        rfl

theorem thinned_dropLeadingLines (s : List Char) : Thinned s (dropLeadingLines s) := by
  obtain ⟨front, hs, hfront, -⟩ := exists_dropLeadingLines s
  have h := Thinned.behind hfront (.refl (dropLeadingLines s))
  rwa [← hs] at h

theorem IsLed.dropLeadingLines_eq (h : IsLed s) : dropLeadingLines s = s := by
  rcases h with hs | ⟨t, rfl, ht⟩
  · exact dropLeadingLines_eq_self hs
  · exact dropLeadingLines_blanks (List.forall_mem_nil _) ht

/-- Line feeds ahead of a text that does not begin with white space. -/
theorem dropLeadingLines_breaks (h : '\n' ∉ s.takeWhile isBlank) (n : Nat) :
    dropLeadingLines (List.replicate (n + 1) '\n' ++ '\n' :: s) = s := by
  have hfront : ∀ c ∈ List.replicate (n + 1) '\n', isBlank c = true := by
    intro c hc
    rw [List.eq_of_mem_replicate hc]
    rfl
  rw [dropLeadingLines_blanks hfront h, if_neg (by simp)]

/-- The white space ahead of a text that is cut is part of what was there. -/
theorem not_mem_takeWhile_of_append (h : '\n' ∉ (s ++ t).takeWhile isBlank) :
    '\n' ∉ s.takeWhile isBlank := by
  rw [List.takeWhile_append] at h
  split at h
  · exact fun hmem => h (List.mem_append_left _ ((List.takeWhile_prefix isBlank).subset hmem))
  · exact h

/-! ## No lines of white space behind -/

theorem ne_break_of_isBlank_eq_false {c : Char} (hc : isBlank c = false) : c ≠ '\n' := by
  rintro rfl
  cases hc

theorem dropTrailingLines_cons_of_isBlank_eq_false {c : Char} (hc : isBlank c = false)
    (s : List Char) : dropTrailingLines (c :: s) = c :: dropTrailingLines s := by
  rw [dropTrailingLines_cons, if_neg fun hend => ne_break_of_isBlank_eq_false hc hend.1]

/-- The end of a text is cut off behind a line feed, or it stays. -/
theorem exists_dropTrailingLines (s : List Char) :
    ∃ blanks, s = dropTrailingLines s ++ blanks ∧ ∀ c ∈ blanks, isBlank c = true := by
  induction s with
  | nil => exact ⟨[], rfl, fun _ h => absurd h List.not_mem_nil⟩
  | cons c rest ih =>
    rw [dropTrailingLines_cons]
    split
    · rename_i h
      exact ⟨rest, by rw [h.1]; rfl, List.all_eq_true.mp h.2⟩
    · obtain ⟨blanks, hrest, hblanks⟩ := ih
      exact ⟨blanks, by rw [List.cons_append, ← hrest], hblanks⟩

theorem thinned_dropTrailingLines (s : List Char) : Thinned s (dropTrailingLines s) := by
  induction s with
  | nil => exact .nil
  | cons c rest ih =>
    rw [dropTrailingLines_cons]
    split
    · rename_i h
      rw [h.1]
      exact .keep '\n' (.of_blank h.2)
    · exact .keep c ih

theorem IsLed.dropTrailingLines (h : IsLed s) : IsLed (dropTrailingLines s) := by
  -- What is left is the beginning of the text, so the white space ahead is that of the text.
  have hcut : ∀ {t : List Char}, '\n' ∉ t.takeWhile isBlank →
      '\n' ∉ (Text.dropTrailingLines t).takeWhile isBlank := by
    intro t ht
    obtain ⟨blanks, htext, -⟩ := exists_dropTrailingLines t
    rw [htext] at ht
    exact not_mem_takeWhile_of_append ht
  rcases h with hs | ⟨t, rfl, ht⟩
  · exact Or.inl (hcut hs)
  · rw [dropTrailingLines_cons]
    split
    · exact Or.inr ⟨[], rfl, List.not_mem_nil⟩
    · exact Or.inr ⟨_, rfl, hcut ht⟩

/-! ## No spaces or tabs ahead of a line feed -/

/-- A text with no spaces or tabs ahead of a line feed. -/
def IsTrimmed (s : List Char) : Prop :=
  s.IsChain fun c d => d = '\n' → isSpace c = false

theorem isBlank_of_isSpace {c : Char} (h : isSpace c = true) : isBlank c = true := by
  rcases isSpace_iff.mp h with rfl | rfl <;> rfl

theorem endsLine_cons (c : Char) (s : List Char) :
    endsLine (c :: s) = (decide (c = '\n') || (isSpace c && endsLine s)) := rfl

theorem dropLineEndBlanks_cons (c : Char) (s : List Char) :
    dropLineEndBlanks (c :: s) =
      if (isSpace c && endsLine s) = true then dropLineEndBlanks s else c :: dropLineEndBlanks s := rfl

theorem isSpace_eq_false {c : Char} (hc : isBlank c = false) : isSpace c = false :=
  Bool.eq_false_iff.mpr fun h => Bool.eq_false_iff.mp hc (isBlank_of_isSpace h)

theorem dropLineEndBlanks_cons_of_isBlank_eq_false {c : Char} (hc : isBlank c = false)
    (s : List Char) : dropLineEndBlanks (c :: s) = c :: dropLineEndBlanks s := by
  rw [dropLineEndBlanks_cons, isSpace_eq_false hc, Bool.false_and, if_neg Bool.false_ne_true]

theorem thinned_dropLineEndBlanks (s : List Char) : Thinned s (dropLineEndBlanks s) := by
  induction s with
  | nil => exact .nil
  | cons c rest ih =>
    rw [dropLineEndBlanks_cons]
    split
    · rename_i h
      exact .drop (isBlank_of_isSpace (Bool.and_eq_true_iff.mp h).1) ih
    · exact .keep c ih

/-- A line that is trimmed begins with a line feed only if it had nothing but spaces and tabs. -/
theorem endsLine_of_head? (h : (dropLineEndBlanks s).head? = some '\n') : endsLine s = true := by
  induction s with
  | nil => cases h
  | cons c rest ih =>
    rw [dropLineEndBlanks_cons] at h
    rw [endsLine_cons, Bool.or_eq_true]
    split at h
    · rename_i hdrop
      exact Or.inr hdrop
    · exact Or.inl (decide_eq_true (Option.some.inj h))

theorem isTrimmed_dropLineEndBlanks (s : List Char) : IsTrimmed (dropLineEndBlanks s) := by
  induction s with
  | nil => exact .nil
  | cons c rest ih =>
    rw [dropLineEndBlanks_cons]
    split
    · exact ih
    · rename_i hkeep
      refine List.isChain_cons.mpr ⟨?_, ih⟩
      rintro d hd rfl
      rw [endsLine_of_head? hd, Bool.and_true] at hkeep
      exact Bool.eq_false_iff.mpr hkeep

/-- Where a trimmed text comes to a line feed, no space or tab is on the way. -/
theorem IsTrimmed.endsLine_eq {c : Char} (h : IsTrimmed (c :: s)) (hc : isSpace c = true) :
    endsLine s = false := by
  induction s generalizing c with
  | nil => rfl
  | cons d rest ih =>
    obtain ⟨hd, hrest⟩ := List.isChain_cons_cons.mp h
    rw [endsLine_cons, Bool.or_eq_false_iff, Bool.and_eq_false_iff]
    constructor
    · rw [decide_eq_false_iff_not]
      intro hbreak
      rw [hd hbreak] at hc
      cases hc
    · cases hspace : isSpace d with
      | false => exact Or.inl rfl
      | true => exact Or.inr (ih hrest hspace)

theorem IsTrimmed.dropLineEndBlanks_eq (h : IsTrimmed s) : dropLineEndBlanks s = s := by
  induction s with
  | nil => rfl
  | cons c rest ih =>
    have hkeep : ¬ (isSpace c && endsLine rest) = true := by
      rw [Bool.and_eq_true]
      rintro ⟨hspace, hends⟩
      rw [h.endsLine_eq hspace] at hends
      cases hends
    rw [dropLineEndBlanks_cons, if_neg hkeep, ih (List.isChain_cons.mp h).2]

/-- White space ahead of something, without a line feed in it, stays. -/
theorem not_mem_takeWhile_dropLineEndBlanks (h : '\n' ∉ s.takeWhile isBlank) :
    '\n' ∉ (dropLineEndBlanks s).takeWhile isBlank := by
  induction s with
  | nil => exact List.not_mem_nil
  | cons c rest ih =>
    by_cases hblank : isBlank c = true
    · rw [List.takeWhile_cons_of_pos hblank, List.mem_cons, not_or] at h
      rw [dropLineEndBlanks_cons]
      split
      · exact ih h.2
      · rw [List.takeWhile_cons_of_pos hblank, List.mem_cons, not_or]
        exact ⟨h.1, ih h.2⟩
    · rw [dropLineEndBlanks_cons_of_isBlank_eq_false (Bool.eq_false_iff.mpr hblank),
        List.takeWhile_cons_of_neg hblank]
      exact List.not_mem_nil

theorem IsLed.dropLineEndBlanks (h : IsLed s) : IsLed (dropLineEndBlanks s) := by
  rcases h with hs | ⟨t, rfl, ht⟩
  · exact Or.inl (not_mem_takeWhile_dropLineEndBlanks hs)
  · exact Or.inr ⟨_, rfl, not_mem_takeWhile_dropLineEndBlanks ht⟩

/-- To trim lines leaves no more to cut off at the end. -/
theorem dropTrailingLines_dropLineEndBlanks (s : List Char) :
    dropTrailingLines (dropLineEndBlanks (dropTrailingLines s)) =
      dropLineEndBlanks (dropTrailingLines s) := by
  induction s with
  | nil => rfl
  | cons c rest ih =>
    rw [dropTrailingLines_cons]
    split
    · rfl
    · rename_i hend
      rw [dropLineEndBlanks_cons]
      split
      · exact ih
      · -- White space is white space still, so the cut is at the same line feed.
        have hall : (dropLineEndBlanks (dropTrailingLines rest)).all isBlank = rest.all isBlank :=
          ((thinned_dropTrailingLines rest).trans (thinned_dropLineEndBlanks _)).all_eq
        rw [dropTrailingLines_cons, hall, if_neg hend, ih]

/-! ## Tidied texts -/

theorem toList_tidy (s : String) :
    (tidy s).toList = dropLineEndBlanks (dropTrailingLines (dropLeadingLines s.toList)) := by
  rw [tidy, String.toList_ofList]

theorem thinned_tidy (s : String) : Thinned s.toList (tidy s).toList := by
  rw [toList_tidy]
  exact (thinned_dropLeadingLines _).trans
    ((thinned_dropTrailingLines _).trans (thinned_dropLineEndBlanks _))

theorem isTrimmed_tidy (s : String) : IsTrimmed (tidy s).toList := by
  rw [toList_tidy]
  exact isTrimmed_dropLineEndBlanks _

theorem dropTrailingLines_tidy (s : String) : dropTrailingLines (tidy s).toList = (tidy s).toList := by
  rw [toList_tidy]
  exact dropTrailingLines_dropLineEndBlanks _

theorem isLed_tidy (s : String) : IsLed (tidy s).toList := by
  obtain ⟨-, -, -, hled⟩ := exists_dropLeadingLines s.toList
  rw [toList_tidy]
  exact hled.dropTrailingLines.dropLineEndBlanks

/-- A second run has nothing left to do. -/
theorem tidy_tidy (s : String) : tidy (tidy s) = tidy s := by
  apply String.toList_injective
  rw [toList_tidy (tidy s), (isLed_tidy s).dropLeadingLines_eq, dropTrailingLines_tidy,
    (isTrimmed_tidy s).dropLineEndBlanks_eq]

/-! ## Literals -/

/-- Ahead of every line feed of a text there is a backslash. -/
def EscapesBreaks (s : List Char) : Prop :=
  ∀ front back, s = front ++ '\n' :: back → front.getLast? = some '\\'

theorem EscapesBreaks.isTrimmed (h : EscapesBreaks s) : IsTrimmed s := by
  rw [IsTrimmed, List.isChain_iff_forall_rel_of_append_cons_cons]
  rintro c d front back rfl rfl
  have hlast := h (front ++ [c]) back (by simp)
  rw [List.getLast?_append, List.getLast?_singleton, Option.some_or] at hlast
  rw [Option.some.inj hlast]
  rfl

/-- In front of something besides white space a text is trimmed as it is alone. -/
theorem dropLineEndBlanks_append {c : Char} (hc : isBlank c = false) (s t : List Char) :
    dropLineEndBlanks (s ++ c :: t) = dropLineEndBlanks s ++ c :: dropLineEndBlanks t := by
  have hbreak : decide (c = '\n') = false := decide_eq_false (ne_break_of_isBlank_eq_false hc)
  have hends : ∀ s, endsLine (s ++ c :: t) = endsLine s := by
    intro s
    induction s with
    | nil =>
      rw [List.nil_append, endsLine_cons, hbreak, isSpace_eq_false hc]
      rfl
    | cons d rest ih => rw [List.cons_append, endsLine_cons, endsLine_cons, ih]
  induction s with
  | nil => exact dropLineEndBlanks_cons_of_isBlank_eq_false hc t
  | cons d rest ih =>
    rw [List.cons_append, dropLineEndBlanks_cons, dropLineEndBlanks_cons, hends, ih]
    split <;> rfl

/-- White space ahead of a text ends ahead of what is no white space in it. -/
theorem exists_of_append_eq {front before after : List Char} {c : Char}
    (hfront : ∀ d ∈ front, isBlank d = true) (hc : isBlank c = false)
    (h : front ++ s = before ++ c :: after) : ∃ kept, before = front ++ kept ∧ s = kept ++ c :: after := by
  rcases List.append_eq_append_iff.mp h with ⟨kept, hbefore, hs⟩ | ⟨more, rfl, hs⟩
  · exact ⟨kept, hbefore, hs⟩
  · cases more with
    | nil => exact ⟨[], by simp, hs.symm⟩
    | cons d more =>
      obtain ⟨rfl, -⟩ := List.cons.inj hs
      rw [hfront c (by simp)] at hc
      cases hc

/-- A literal with a backslash ahead of each of its line feeds comes through as it is, and what is
    around it comes through without some of its white space. -/
theorem tidy_literal {s : String} {mark : Char} (hmark : isBlank mark = false)
    {before inner after : List Char} (hinner : EscapesBreaks inner)
    (hs : s.toList = before ++ mark :: (inner ++ mark :: after)) :
    ∃ before' after', (tidy s).toList = before' ++ mark :: (inner ++ mark :: after') ∧
      Thinned before before' ∧ Thinned after after' := by
  obtain ⟨front, htext, hfront, -⟩ := exists_dropLeadingLines s.toList
  obtain ⟨kept, rfl, hkept⟩ := exists_of_append_eq hfront hmark (htext.symm.trans hs)
  have hsolid : (mark :: after).all isBlank = false := by rw [List.all_cons, hmark, Bool.false_and]
  have hassoc : kept ++ mark :: (inner ++ mark :: after) =
      (kept ++ mark :: inner) ++ mark :: after := by simp
  refine ⟨dropLineEndBlanks kept, dropLineEndBlanks (dropTrailingLines after), ?_, ?_, ?_⟩
  · -- The marks are no white space: nothing reaches over them, from either side.
    rw [toList_tidy, hkept, hassoc, dropTrailingLines_behind _ hsolid,
      dropTrailingLines_cons_of_isBlank_eq_false hmark, dropLineEndBlanks_append hmark, dropLineEndBlanks_append hmark,
      hinner.isTrimmed.dropLineEndBlanks_eq, List.append_assoc, List.cons_append]
  · exact .behind hfront (thinned_dropLineEndBlanks kept)
  · exact (thinned_dropTrailingLines after).trans (thinned_dropLineEndBlanks _)

/-! ## The two ends -/

/-- A line feed that only white space follows is the last character. -/
theorem eq_nil_of_dropTrailingLines_eq {front back : List Char}
    (h : dropTrailingLines (front ++ '\n' :: back) = front ++ '\n' :: back)
    (hback : back.all isBlank = true) : back = [] := by
  induction front with
  | nil =>
    rw [List.nil_append, dropTrailingLines_cons, if_pos ⟨rfl, hback⟩] at h
    exact (List.cons.inj h).2.symm
  | cons c rest ih =>
    rw [List.cons_append, dropTrailingLines_cons] at h
    split at h
    · exact absurd (List.cons.inj h).2 (by simp)
    · exact ih (List.cons.inj h).2

theorem getLast?_dropTrailingLines (h : s.getLast? = some '\n') :
    (dropTrailingLines s).getLast? = some '\n' := by
  induction s with
  | nil => cases h
  | cons c rest ih =>
    rw [dropTrailingLines_cons]
    split
    · rfl
    · rename_i hmore
      cases rest with
      | nil => exact absurd ⟨Option.some.inj h, rfl⟩ hmore
      | cons d rest =>
        rw [List.getLast?_cons_cons] at h
        rw [List.getLast?_cons, ih h]
        rfl

theorem getLast?_dropLineEndBlanks (h : s.getLast? = some '\n') :
    (dropLineEndBlanks s).getLast? = some '\n' := by
  induction s with
  | nil => cases h
  | cons c rest ih =>
    rw [dropLineEndBlanks_cons]
    cases rest with
    | nil =>
      rw [if_neg (by rw [endsLine, Bool.and_false]; exact Bool.false_ne_true)]
      exact h
    | cons d rest =>
      rw [List.getLast?_cons_cons] at h
      split
      · exact ih h
      · rw [List.getLast?_cons, ih h]
        rfl

/-- No line of a trimmed text that ends in a line feed ends in a space or a tab. -/
theorem IsTrimmed.forall_lines (h : IsTrimmed s) (hlast : ∀ c, s.getLast? = some c → isSpace c = false) :
    ∀ line ∈ lines s, ∀ c, line.getLast? = some c → isSpace c = false := by
  induction s with
  | nil =>
    rintro line hline c hc
    rw [List.mem_singleton.mp hline] at hc
    cases hc
  | cons d rest ih =>
    obtain ⟨hd, hrest⟩ := List.isChain_cons.mp h
    have hlast' : ∀ c, rest.getLast? = some c → isSpace c = false := by
      intro c hc
      apply hlast
      rw [List.getLast?_cons, hc]
      rfl
    have hlines := ih hrest hlast'
    by_cases hbreak : d = '\n'
    · rw [hbreak, lines_break, List.forall_mem_cons]
      exact ⟨fun c hc => absurd hc (by simp), hlines⟩
    · obtain ⟨first, others, hsplit⟩ := exists_lines rest
      rw [hsplit, List.forall_mem_cons] at hlines
      rw [lines_char hbreak hsplit, List.forall_mem_cons]
      refine ⟨fun c hc => ?_, hlines.2⟩
      rw [List.getLast?_cons] at hc
      cases hfirst : first.getLast? with
      | some last =>
        rw [hfirst] at hc
        exact hlines.1 c (by rw [hfirst]; exact hc)
      | none =>
        -- The line is this one character: the text ends here, or a line feed is next.
        rw [hfirst] at hc
        obtain rfl : d = c := Option.some.inj hc
        cases rest with
        | nil => exact hlast d rfl
        | cons e rest =>
          apply hd e rfl
          by_contra hmore
          obtain ⟨first', others', hsplit'⟩ := exists_lines rest
          rw [lines_char hmore hsplit'] at hsplit
          rw [← (List.cons.inj hsplit).1] at hfirst
          simp at hfirst

end BlockScript.Text
