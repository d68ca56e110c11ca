/-
  BlockScript.Proofs.Comment.Words

  Wrapped comments have the words of their text, and fit. Words are the runs of characters between
  white space. A line is cut into pieces such that of two neighbours one is a gap of spaces, so any
  stretch of pieces has the words of its pieces; what is left out where lines are filled is blank.
  A line is longer than the width only if it is one piece that is no gap.
-/
import BlockScript.Proofs.Comment.LineEnd
import Mathlib.Data.List.Chain

namespace BlockScript.Text

/-! ## Words -/

/-- The words of a text: its longest runs without white space, in their order. -/
def words (s : List Char) : List (List Char) :=
  (s.splitOnP isBlank).filter (· ≠ [])

theorem words_nil : words [] = [] :=
  rfl

/-- White space ends a word. -/
theorem words_append_cons (s : List Char) {c : Char} (hc : isBlank c = true) (t : List Char) :
    words (s ++ c :: t) = words s ++ words t := by
  rw [words, List.splitOnP_append_cons s t hc, List.filter_append]
  rfl

theorem words_blanks_append {blanks : List Char} (h : ∀ c ∈ blanks, isBlank c = true)
    (s : List Char) : words (blanks ++ s) = words s := by
  induction blanks with
  | nil => rfl
  | cons c rest ih =>
    have hrest := ih fun d hd => h d (List.mem_cons_of_mem c hd)
    have hc := words_append_cons [] (h c List.mem_cons_self) (rest ++ s)
    rwa [words_nil, List.nil_append, List.nil_append, hrest] at hc

theorem words_of_blanks {blanks : List Char} (h : ∀ c ∈ blanks, isBlank c = true) :
    words blanks = [] := by
  have happend := words_blanks_append h []
  rwa [List.append_nil, words_nil] at happend

/-- White space between two texts keeps their words apart. -/
theorem words_append_blanks_append (s : List Char) {blanks : List Char} (hne : blanks ≠ [])
    (h : ∀ c ∈ blanks, isBlank c = true) (t : List Char) :
    words (s ++ (blanks ++ t)) = words s ++ words t := by
  obtain ⟨c, rest, rfl⟩ := List.exists_cons_of_ne_nil hne
  rw [List.cons_append, words_append_cons s (h c List.mem_cons_self),
    words_blanks_append fun d hd => h d (List.mem_cons_of_mem c hd)]

/-! ## White space of a line -/

theorem splitOnP_blanks_append {blanks : List Char} (h : ∀ c ∈ blanks, isBlank c = true)
    (s : List Char) :
    (blanks ++ s).splitOnP isBlank = List.replicate blanks.length [] ++ s.splitOnP isBlank := by
  induction blanks with
  | nil => rfl
  | cons c rest ih =>
    rw [List.cons_append, List.splitOnP_cons_eq_if_modifyHead, if_pos (h c List.mem_cons_self),
      ih fun d hd => h d (List.mem_cons_of_mem c hd)]
    rfl

/-- Spaces in place of other white space of ASCII do not change what stands up to the first white
    space, and the words behind it. -/
theorem exists_splitOnP_spaced (column : Nat) (s : List Char) : ∃ first others others',
    s.splitOnP isBlank = first :: others ∧
    ((expandTabs column s).map fun c => if isAsciiBlank c then ' ' else c).splitOnP isBlank =
      first :: others' ∧
    others'.filter (· ≠ []) = others.filter (· ≠ []) := by
  have hspace : isBlank ' ' = true := by decide
  have hsame : ∀ c, isBlank (if isAsciiBlank c then ' ' else c) = isBlank c := by
    intro c
    split
    · rename_i hc
      rw [isBlank_of_isAsciiBlank hc, hspace]
    · rfl
  induction s generalizing column with
  | nil => exact ⟨[], [], [], rfl, rfl, rfl⟩
  | cons c rest ih =>
    -- One character in place of one: it is white space in both texts, or it goes ahead of both.
    have hstep : ∀ column', ∃ first others others',
        (c :: rest).splitOnP isBlank = first :: others ∧
        ((c :: expandTabs column' rest).map fun c =>
          if isAsciiBlank c then ' ' else c).splitOnP isBlank = first :: others' ∧
        others'.filter (· ≠ []) = others.filter (· ≠ []) := by
      intro column'
      obtain ⟨first, others, others', hfirst, hspaced, hwords⟩ := ih column'
      rw [List.map_cons, List.splitOnP_cons_eq_if_modifyHead, List.splitOnP_cons_eq_if_modifyHead,
        hsame, hfirst, hspaced]
      by_cases hc : isBlank c = true
      · rw [if_pos hc, if_pos hc]
        exact ⟨[], first :: others, first :: others', rfl, rfl, by
          rw [List.filter_cons, List.filter_cons, hwords]⟩
      · rw [if_neg hc, if_neg hc]
        have hascii : ¬ isAsciiBlank c = true := fun h => hc (isBlank_of_isAsciiBlank h)
        rw [if_neg hascii]
        exact ⟨c :: first, others, others', rfl, rfl, hwords⟩
    rw [expandTabs]
    split
    · rename_i hc
      obtain ⟨first, others, others', hfirst, hspaced, hwords⟩ :=
        ih (column + (8 - column % 8))
      obtain ⟨width, hwidth⟩ : ∃ width, 8 - column % 8 = width + 1 := ⟨7 - column % 8, by omega⟩
      have hblanks : ∀ d ∈ List.replicate (width + 1) ' ', isBlank d = true := by
        intro d hd
        rw [List.eq_of_mem_replicate hd]
        exact hspace
      have htab : isBlank c = true := by
        rw [hc]
        decide
      rw [hwidth] at hspaced ⊢
      dsimp only
      rw [List.map_append, List.map_replicate, if_pos (by decide), splitOnP_blanks_append hblanks,
        List.splitOnP_cons_eq_if_modifyHead, if_pos htab, hfirst, hspaced, List.length_replicate]
      refine ⟨[], first :: others, List.replicate width [] ++ first :: others', rfl, rfl, ?_⟩
      rw [List.filter_append, List.filter_replicate_of_neg (by simp), List.nil_append,
        List.filter_cons, List.filter_cons, hwords]
    · split
      · exact hstep 0
      · exact hstep (column + 1)

/-- Spaces in place of other white space of ASCII leave the words. -/
theorem words_spaced (s : List Char) : words (spaced s) = words s := by
  obtain ⟨first, others, others', hfirst, hspaced, hwords⟩ := exists_splitOnP_spaced 0 s
  rw [words, words, spaced, hfirst, hspaced, List.filter_cons, List.filter_cons, hwords]

/-! ## Pieces -/

/-- A run of spaces between words. -/
def IsGap (piece : List Char) : Prop :=
  ∀ c ∈ piece, c = ' '

theorem IsGap.isBlank {piece : List Char} (h : IsGap piece) : ∀ c ∈ piece, isBlank c = true := by
  intro c hc
  rw [h c hc]
  decide

/-- Pieces that are gaps or have no space, such that of two neighbours one is a gap. -/
structure Parted (ps : List (List Char)) : Prop where
  piece : ∀ p ∈ ps, p ≠ [] ∧ (IsGap p ∨ ' ' ∉ p)
  chain : ps.IsChain fun p q => IsGap p ∨ IsGap q

namespace Parted

variable {ps qs : List (List Char)}

theorem nil : Parted [] :=
  ⟨fun _ h => absurd h List.not_mem_nil, List.IsChain.nil⟩

theorem of_infix (h : Parted ps) (hpart : qs <:+: ps) : Parted qs :=
  ⟨fun p hp => h.piece p (hpart.subset hp), h.chain.infix hpart⟩

/-- The words of pieces are those of each piece. -/
theorem words_flatten (h : Parted ps) : words ps.flatten = ps.flatMap words := by
  induction ps with
  | nil => rfl
  | cons p rest ih =>
    have hrest := ih (h.of_infix (List.suffix_cons p rest).isInfix)
    rw [List.flatten_cons, List.flatMap_cons]
    by_cases hp : IsGap p
    · rw [words_blanks_append hp.isBlank, words_of_blanks hp.isBlank, hrest]
      rfl
    · cases rest with
      | nil => rw [List.flatten_nil, List.append_nil, List.flatMap_nil, List.append_nil]
      | cons q more =>
        -- The next piece is a gap, so it ends the last word of the piece.
        have hq : IsGap q := (List.isChain_cons_cons.mp h.chain).1.resolve_left hp
        have hne := (h.piece q (List.mem_cons_of_mem p List.mem_cons_self)).1
        rw [List.flatten_cons, words_blanks_append hq.isBlank] at hrest
        rw [List.flatten_cons, words_append_blanks_append p hne hq.isBlank, hrest]

end Parted

/-- The pieces of a line. -/
theorem parted_pieces (s : List Char) : Parted (pieces s) := by
  induction s with
  | nil => exact Parted.nil
  | cons c rest ih =>
    have hgap : c = ' ' → IsGap [c] := fun hc d hd => (List.mem_singleton.mp hd).trans hc
    have hsingle : [c] ≠ [] ∧ (IsGap [c] ∨ ' ' ∉ [c]) := by
      refine ⟨List.cons_ne_nil c [], ?_⟩
      by_cases hc : c = ' '
      · exact Or.inl (hgap hc)
      · exact Or.inr fun h => hc (List.mem_singleton.mp h).symm
    rw [pieces]
    split
    · rename_i d more others hpieces
      rw [hpieces] at ih
      have hfirst := (ih.piece (d :: more) List.mem_cons_self).2
      have hspace : d = ' ' → IsGap (d :: more) :=
        fun hd => hfirst.resolve_right fun h => h (hd ▸ List.mem_cons_self)
      split
      · rename_i hsame
        -- The character makes the first piece longer, which stays what it is.
        have hmore : IsGap (d :: more) → IsGap (c :: d :: more) := by
          intro h
          have hc : c = ' ' := hsame.mpr (h d List.mem_cons_self)
          exact List.forall_mem_cons.mpr ⟨hc, h⟩
        refine ⟨List.forall_mem_cons.mpr ⟨⟨List.cons_ne_nil c _, ?_⟩, ?_⟩, ?_⟩
        · refine hfirst.imp hmore fun h => ?_
          rw [List.mem_cons, not_or]
          refine ⟨fun hc => ?_, h⟩
          have hd : d = ' ' := hsame.mp hc.symm
          exact h (hd ▸ List.mem_cons_self)
        · exact fun p hp => ih.piece p (List.mem_cons_of_mem _ hp)
        · cases others with
          | nil => exact List.IsChain.singleton _
          | cons q others =>
            obtain ⟨hnext, hothers⟩ := List.isChain_cons_cons.mp ih.chain
            exact List.isChain_cons_cons.mpr ⟨hnext.imp_left hmore, hothers⟩
      · rename_i hother
        refine ⟨List.forall_mem_cons.mpr ⟨hsingle, ih.piece⟩,
          List.isChain_cons_cons.mpr ⟨?_, ih.chain⟩⟩
        by_cases hc : c = ' '
        · exact Or.inl (hgap hc)
        · refine Or.inr (hspace (by_contra fun hd => hother ?_))
          rw [eq_false hc, eq_false hd]
    · rename_i others hnone
      cases hpieces : pieces rest with
      | nil => exact ⟨fun p hp => List.mem_singleton.mp hp ▸ hsingle, List.IsChain.singleton _⟩
      | cons p others =>
        rw [hpieces] at ih
        obtain ⟨d, more, rfl⟩ :=
          List.exists_cons_of_ne_nil (ih.piece p List.mem_cons_self).1
        exact absurd hpieces (hnone d more others)

/-! ## Filled lines -/

theorem isBlank_of_isBlankPiece {p : List Char} (h : isBlankPiece p = true) :
    ∀ c ∈ p, isBlank c = true :=
  List.all_eq_true.mp h

/-- What is left out at the beginning of a line is blank. -/
theorem exists_lineStart (isFirst : Bool) (ps : List (List Char)) :
    ∃ left, ps = left ++ lineStart isFirst ps ∧ left.flatMap words = [] := by
  cases ps with
  | nil => exact ⟨[], rfl, rfl⟩
  | cons p rest =>
    rw [lineStart]
    split
    · rename_i hblank
      rw [Bool.and_eq_true] at hblank
      refine ⟨[p], rfl, ?_⟩
      rw [List.flatMap_singleton, words_of_blanks (isBlank_of_isBlankPiece hblank.2)]
    · exact ⟨[], rfl, rfl⟩

/-- What is left out at the end of a line is blank. -/
theorem exists_dropLastBlank (line : List (List Char)) :
    ∃ left, line = dropLastBlank line ++ left ∧ left.flatMap words = [] := by
  rw [dropLastBlank]
  split
  · rename_i p hlast
    split
    · rename_i hblank
      refine ⟨[p], (List.dropLast_append_getLast? p hlast).symm, ?_⟩
      rw [List.flatMap_singleton, words_of_blanks (isBlank_of_isBlankPiece hblank)]
    · exact ⟨[], (List.append_nil line).symm, rfl⟩
  · exact ⟨[], (List.append_nil line).symm, rfl⟩

variable {limit : Limit}

/-- The pieces of the next line are pieces in a row, and with the others they have all words. -/
theorem nextLine_parts (limit : Limit) (isFirst : Bool) (ps : List (List Char)) :
    dropLastBlank (nextLine limit (lineStart isFirst ps)).1 <:+: ps ∧
    (nextLine limit (lineStart isFirst ps)).2 <:+ ps ∧
    ps.flatMap words = (dropLastBlank (nextLine limit (lineStart isFirst ps)).1).flatMap words ++
      (nextLine limit (lineStart isFirst ps)).2.flatMap words := by
  obtain ⟨left, hleft, hleftWords⟩ := exists_lineStart isFirst ps
  obtain ⟨right, hright, hrightWords⟩ :=
    exists_dropLastBlank (nextLine limit (lineStart isFirst ps)).1
  have hsplit := nextLine_append limit (lineStart isFirst ps)
  generalize nextLine limit (lineStart isFirst ps) = split at *
  have hps : ps = left ++ (dropLastBlank split.1 ++ right ++ split.2) := by
    rw [← hright, hsplit]
    exact hleft
  refine ⟨⟨left, right ++ split.2, ?_⟩, ⟨left ++ (dropLastBlank split.1 ++ right), ?_⟩, ?_⟩
  · conv_rhs => rw [hps]
    simp only [List.append_assoc]
  · conv_rhs => rw [hps]
    simp only [List.append_assoc]
  · conv_lhs => rw [hps]
    rw [List.flatMap_append, List.flatMap_append, List.flatMap_append, hleftWords, hrightWords,
      List.append_nil, List.nil_append]

/-- The lines that pieces fill have the words of the pieces. -/
theorem words_fill {isFirst : Bool} {ps : List (List Char)} (h : Parted ps) :
    (fill limit isFirst ps).flatMap words = ps.flatMap words := by
  induction isFirst, ps using fill.induct limit with
  | case1 isFirst ps hstart =>
    obtain ⟨left, hleft, hwords⟩ := exists_lineStart isFirst ps
    rw [hstart, List.append_nil] at hleft
    rw [fill, if_pos hstart, hleft, hwords]
    rfl
  | case2 isFirst ps hstart filled others hfilled ih =>
    obtain ⟨-, hothers, hwords⟩ := nextLine_parts limit isFirst ps
    have hfill : fill limit isFirst ps = fill limit isFirst others := by
      rw [fill, if_neg hstart]
      exact if_pos hfilled
    have hblank : (dropLastBlank (nextLine limit (lineStart isFirst ps)).1).flatMap words = [] :=
      congrArg (List.flatMap words) hfilled
    rw [hfill, ih (h.of_infix hothers.isInfix), hwords, hblank]
    rfl
  | case3 isFirst ps hstart filled others hfilled ih =>
    obtain ⟨hline, hothers, hwords⟩ := nextLine_parts limit isFirst ps
    have hfill : fill limit isFirst ps = filled.flatten :: fill limit false others := by
      rw [fill, if_neg hstart]
      exact if_neg hfilled
    rw [hfill, List.flatMap_cons, ih (h.of_infix hothers.isInfix), (h.of_infix hline).words_flatten,
      hwords]

/-! ## The width -/

variable {bound : Nat}

theorem length_fitting (used : Nat) (h : used ≤ bound) (ps : List (List Char)) :
    used + (fitting (some bound) used ps).1.flatten.length ≤ bound := by
  induction ps generalizing used with
  | nil => exact h
  | cons p rest ih =>
    rw [fitting]
    split
    · rename_i hfits
      have hrest := ih (used + p.length) (of_decide_eq_true hfits)
      rw [List.flatten_cons, List.length_append]
      omega
    · exact h

/-- The next line is within the width, or it is one piece. -/
theorem nextLine_fits (bound : Nat) (ps : List (List Char)) :
    (nextLine (some bound) ps).1.flatten.length ≤ bound ∨
      ∃ p, (nextLine (some bound) ps).1 = [p] := by
  have hfits := length_fitting 0 (Nat.zero_le bound) ps
  rw [nextLine]
  split
  · rename_i p others hfitting
    exact Or.inr ⟨p, rfl⟩
  · exact Or.inl (by omega)

/-- A line of pieces that is longer than the width is one of the pieces, and no gap. -/
theorem of_bound_lt_length {isFirst : Bool} {ps : List (List Char)} (h : Parted ps)
    (hlong : bound <
      (dropLastBlank (nextLine (some bound) (lineStart isFirst ps)).1).flatten.length) :
    ' ' ∉ (dropLastBlank (nextLine (some bound) (lineStart isFirst ps)).1).flatten := by
  obtain ⟨hpart, -, -⟩ := nextLine_parts (some bound) isFirst ps
  obtain ⟨right, hright, -⟩ :=
    exists_dropLastBlank (nextLine (some bound) (lineStart isFirst ps)).1
  rcases nextLine_fits bound (lineStart isFirst ps) with hfits | ⟨p, hp⟩
  · rw [hright, List.flatten_append, List.length_append] at hfits
    omega
  · rw [hp] at hpart hlong ⊢
    by_cases hblank : isBlankPiece p = true
    · simp [dropLastBlank, hblank] at hlong
    · have hline : dropLastBlank [p] = [p] := by simp [dropLastBlank, hblank]
      rw [hline] at hpart ⊢
      rw [List.flatten_singleton]
      refine (h.piece p (hpart.subset (List.mem_singleton_self p))).2.resolve_left fun hgap => ?_
      exact hblank (List.all_eq_true.mpr hgap.isBlank)

theorem not_mem_of_mem_fill {isFirst : Bool} {ps : List (List Char)} (h : Parted ps)
    {line : List Char} (hmem : line ∈ fill (some bound) isFirst ps) (hlong : bound < line.length) :
    ' ' ∉ line := by
  induction isFirst, ps using fill.induct (some bound) with
  | case1 isFirst ps hstart =>
    rw [fill, if_pos hstart] at hmem
    exact absurd hmem List.not_mem_nil
  | case2 isFirst ps hstart filled others hfilled ih =>
    obtain ⟨-, hothers, -⟩ := nextLine_parts (some bound) isFirst ps
    have hfill : fill (some bound) isFirst ps = fill (some bound) isFirst others := by
      rw [fill, if_neg hstart]
      exact if_pos hfilled
    exact ih (h.of_infix hothers.isInfix) (hfill ▸ hmem)
  | case3 isFirst ps hstart filled others hfilled ih =>
    obtain ⟨-, hothers, -⟩ := nextLine_parts (some bound) isFirst ps
    have hfill : fill (some bound) isFirst ps =
        filled.flatten :: fill (some bound) false others := by
      rw [fill, if_neg hstart]
      exact if_neg hfilled
    rw [hfill] at hmem
    rcases List.mem_cons.mp hmem with rfl | hmem
    · exact of_bound_lt_length h hlong
    · exact ih (h.of_infix hothers.isInfix) hmem

/-! ## Wrapped texts -/

/-- What one line of a text is wrapped to: one line at least, with the words of the line, and only
    a single run of characters without white space of ASCII is longer than the width. -/
structure Wraps (bound : Nat) (line : List Char) (group : List (List Char)) : Prop where
  ne_nil : group ≠ []
  words : group.flatMap words = words line
  width : ∀ l ∈ group, bound < l.length → ∀ c ∈ l, isAsciiBlank c = false

theorem wraps_wrapLine (bound : Nat) (line : List Char) :
    Wraps bound line (wrapLine (some bound) line) := by
  have hparted := parted_pieces (spaced line)
  have hwords : (fill (some bound) true (pieces (spaced line))).flatMap Text.words
      = Text.words line := by
    rw [words_fill hparted, ← hparted.words_flatten, flatten_pieces, words_spaced]
  have hblank : ∀ {l}, l ∈ wrapLine (some bound) line → ' ' ∉ l →
      ∀ c ∈ l, isAsciiBlank c = false := by
    intro l hl hspace c hc
    rcases mem_of_mem_wrapLine hl hc with rfl | ⟨-, h⟩
    · exact absurd hc hspace
    · exact h
  rw [wrapLine] at hblank ⊢
  split at hblank
  · rename_i hnone
    rw [hnone] at hwords
    refine ⟨List.cons_ne_nil [] [], hwords, fun l hl hlong => ?_⟩
    rw [List.mem_singleton.mp hl] at hlong
    exact absurd hlong (Nat.not_lt_zero bound)
  · rename_i hfilled
    exact ⟨fun h => hfilled h, hwords,
      fun l hl hlong => hblank hl (not_mem_of_mem_fill hparted hl hlong)⟩

/-- The lines of lines that are joined are the lines. -/
theorem lines_joinLines {ls : List (List Char)} (hne : ls ≠ []) (h : ∀ l ∈ ls, '\n' ∉ l) :
    lines (Script.joinLines ls) = ls := by
  induction ls with
  | nil => exact absurd rfl hne
  | cons l rest ih =>
    have hl : lines l = [l] := lines_of_not_mem (h l List.mem_cons_self)
    by_cases hrest : rest = []
    · rw [hrest]
      exact hl
    · rw [Script.joinLines_cons hrest, lines_append, hl,
        ih hrest fun l' hl' => h l' (List.mem_cons_of_mem l hl')]
      rfl

/-- The lines of a wrapped text are those of each line of the text. -/
theorem lines_wrap (limit : Limit) (s : String) :
    lines (wrap limit s).toList = (lines s.toList).flatMap (wrapLine limit) := by
  obtain ⟨first, others, hlines⟩ := exists_lines s.toList
  rw [wrap, Script.toList_join_ofList]
  apply lines_joinLines
  · rw [hlines, List.flatMap_cons, wrapLine]
    split <;> simp_all
  · intro l hl hfeed
    obtain ⟨line, -, hmem⟩ := List.mem_flatMap.mp hl
    rcases mem_of_mem_wrapLine hmem hfeed with h | ⟨-, h⟩
    · exact absurd h (by decide)
    · exact absurd h (by decide)

end BlockScript.Text

namespace BlockScript.Site

open Text (lines words isAsciiBlank Wraps)

/-- A text is wrapped for every width above zero. Each of its lines gives one line or more; these
    have the words of the line, in their order and whole, and one that is longer than the width is
    a single run of characters without white space of ASCII. -/
theorem wrapped_lines (text : String) {width : Int} (h : 1 ≤ width) :
    ∃ out, wrapped text (.int width) = .ok out ∧ ∃ groups,
      lines out.toList = groups.flatten ∧
      List.Forall₂ (fun line group => group ≠ [] ∧ group.flatMap words = words line ∧
        ∀ l ∈ group, width < l.length → ∀ c ∈ l, isAsciiBlank c = false)
        (lines text.toList) groups := by
  have hlimit : Text.Limit.ofWidth? (.int width) = some (some width.toNat) := by
    have hzero : ¬ width = 0 := by omega
    have hneg : ¬ width < 0 := by omega
    simp [Text.Limit.ofWidth?, Number.isZero, Number.ltInt, Number.isNaN, hzero, hneg]
  refine ⟨Text.wrap (some width.toNat) text, ?_,
    (lines text.toList).map (Text.wrapLine (some width.toNat)), ?_, ?_⟩
  · rw [wrapped, hlimit]
    rfl
  · rw [Text.lines_wrap, List.flatMap_def]
  · rw [List.forall₂_map_right_iff, List.forall₂_same]
    intro line _
    have hwraps := Text.wraps_wrapLine width.toNat line
    refine ⟨hwraps.ne_nil, hwraps.words, fun l hl hlong => hwraps.width l hl ?_⟩
    omega

/-- A line is wrapped at a space, a long word stays whole, and an empty line stays. -/
theorem wrapped_lines_long :
    (1 : Int) ≤ 4 ∧ wrapped "a  bb cccccc\n\nd" (.int 4) = .ok "a\nbb\ncccccc\n\nd" ∧
      ∃ groups : List (List (List Char)),
        lines "a\nbb\ncccccc\n\nd".toList = groups.flatten ∧ groups.length = 3 := by
  obtain ⟨out, hout, groups, hlines, hgroups⟩ :=
    wrapped_lines "a  bb cccccc\n\nd" (show (1 : Int) ≤ 4 by decide)
  have hwrapped : wrapped "a  bb cccccc\n\nd" (.int 4) = .ok "a\nbb\ncccccc\n\nd" := by
    with_unfolding_all rfl
  obtain rfl := Except.ok.inj (hwrapped.symm.trans hout)
  exact ⟨by decide, hwrapped, groups, hlines, hgroups.length_eq.symm⟩

end BlockScript.Site
