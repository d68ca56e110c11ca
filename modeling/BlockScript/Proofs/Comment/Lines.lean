/-
  BlockScript.Proofs.Comment.Lines

  What goes ahead of the code of a block are comment lines, each with a line feed behind it: the
  comment of the block, wrapped, and the comments of everything in its value slots. Under settings
  that are accepted nothing of this can fail, as long as comments are texts.
-/
import BlockScript.Proofs.Comment.Insertion
import BlockScript.Proofs.Comment.Width
import BlockScript.Proofs.Literal.Input

namespace BlockScript

/-! ## Behind the mark -/

namespace Text

theorem isCommentLine_mark : IsCommentLine "// ".toList :=
  ⟨[], [' '], rfl, fun _ h => absurd h List.not_mem_nil, by decide⟩

theorem IsCommentLine.ahead {line : List Char} (h : IsCommentLine line) {c : Char} (hc : c ≠ '\n') :
    IsCommentLine (line ++ [c]) := by
  obtain ⟨indentation, text, rfl, hindentation, htext⟩ := h
  refine ⟨indentation, text ++ [c], by simp, hindentation, ?_⟩
  rw [List.mem_append, List.mem_singleton, not_or]
  exact ⟨htext, Ne.symm hc⟩

theorem IsCommentLine.isCommentText {line : List Char} (h : IsCommentLine line) :
    IsCommentText (line ++ ['\n']) :=
  ⟨[line], List.forall_mem_singleton.mpr h, by simp⟩

/-- The rest of a text behind the mark goes on with a comment line that is begun already. -/
theorem IsCommentLine.continued {line : List Char} (h : IsCommentLine line) (s : List Char) :
    IsCommentText (line ++ insertAfterBreaks "// ".toList (s ++ ['\n'])) := by
  -- The begun line grows with the text, until a line feed ends it and the mark begins the next one.
  induction s generalizing line with
  | nil => exact h.isCommentText
  | cons c rest ih =>
    have hrest : rest ++ ['\n'] ≠ [] := List.append_ne_nil_of_right_ne_nil _ (List.cons_ne_nil _ _)
    rw [List.cons_append, insertAfterBreaks_cons]
    by_cases hc : c = '\n'
    · have hnext := h.isCommentText.append (ih isCommentLine_mark)
      rw [if_pos ⟨hc, hrest⟩, hc]
      simpa using hnext
    · have hmore := ih (h.ahead hc)
      rw [if_neg fun h => hc h.1]
      simpa using hmore

end Text

namespace Site

open Text

/-- A text that ends with a line feed, behind the mark of comment lines. -/
theorem isCommentText_commentLines (s : String) : IsCommentText (commentLines (s ++ "\n")).toList := by
  have htext : (commentLines (s ++ "\n")).toList =
      "// ".toList ++ insertAfterBreaks "// ".toList (s.toList ++ ['\n']) := by
    simp [commentLines, prefixed]
  rw [htext]
  exact isCommentLine_mark.continued s.toList

/-- What goes ahead of code as comments are comment lines. -/
theorem commentLaw : CommentLaw (fun _ => True) fun text => IsCommentText text.toList := by
  apply CommentLaw.of_forall isCommentText_nil
  · intro s t hs ht
    rw [String.toList_append]
    exact hs.append ht
  · exact isCommentText_commentLines

end Site

/-! ## The comments of a block -/

/-- Whether the comment of a block is a text, if there is one. -/
def Head.HasTextComment (head : Head) : Prop :=
  head.comment = .null ∨ ∃ text, head.comment = .str text

namespace Site

open Text
open Gen (Meets)

variable {o : Options} {site : Site}

theorem ownComment_meets (hwrap : Options.IsColumn o.commentWrap)
    (hcomment : site.head.HasTextComment) (p : Pass) :
    Meets o site.ownComment p fun text q => q = p ∧ IsCommentText text.toList := by
  rw [ownComment]
  rcases hcomment with hnone | ⟨text, htext⟩
  · rw [hnone]
    exact Meets.pure ⟨rfl, isCommentText_nil⟩
  · rw [htext]
    split
    · exact Meets.pure ⟨rfl, isCommentText_nil⟩
    · obtain ⟨width, limit, hwidth, hlimit⟩ := exists_limit_of_isColumn hwrap
      have hwrapped : wrapped text width = .ok (wrap limit text) := by
        rw [wrapped, hlimit]
        rfl
      have hoptions : Meets o Gen.options p fun options q => options = o ∧ q = p :=
        ⟨o, p, rfl, rfl, rfl⟩
      apply hoptions.bind
      rintro _ q ⟨rfl, rfl⟩
      rw [hwidth, Gen.lift_ok, pure_bind, hwrapped, Gen.lift_ok, pure_bind]
      exact Meets.pure ⟨rfl, isCommentText_commentLines _⟩

/-- The comments of a block and of everything nested in it can be collected. -/
theorem exists_nestedComments {b : Block} (h : ∀ c ∈ b.nested, c.head.HasTextComment) :
    ∃ text, nestedComments b = .ok text := by
  have htexts : ∀ comments : List Json, (∀ c ∈ comments, ∃ text, c = .str text) →
      ∃ texts, comments.mapM commentText = .ok texts := by
    intro comments hcomments
    induction comments with
    | nil => exact ⟨[], rfl⟩
    | cons c rest ih =>
      obtain ⟨texts, hrest⟩ := ih fun d hd => hcomments d (List.mem_cons_of_mem c hd)
      obtain ⟨text, rfl⟩ := hcomments c List.mem_cons_self
      refine ⟨text :: texts, ?_⟩
      rw [List.mapM_cons, hrest]
      rfl
  obtain ⟨texts, hrun⟩ := htexts b.nestedComments (by
    intro comment hcomment
    obtain ⟨hmem, htruthy⟩ := List.mem_filter.mp hcomment
    obtain ⟨c, hc, rfl⟩ := List.mem_map.mp hmem
    rcases h c hc with hnone | htext
    · rw [hnone] at htruthy
      cases htruthy
    · exact htext)
  rw [nestedComments, hrun]
  exact ⟨_, rfl⟩

/-- So can those of inputs. -/
theorem exists_inputComments {slots : List (String × Option Input)}
    (h : ∀ input ∈ slots.filterMap (·.2), ∀ c ∈ input.block.nested, c.head.HasTextComment) :
    ∃ text, inputComments slots = .ok text := by
  rw [inputComments]
  generalize slots.filterMap (·.2) = inputs at h
  have hlines : ∃ texts, (inputs.mapM fun input => nestedComments input.block) = .ok texts := by
    induction inputs with
    | nil => exact ⟨[], rfl⟩
    | cons input rest ih =>
      obtain ⟨texts, hrun⟩ := ih fun i hi => h i (List.mem_cons_of_mem input hi)
      obtain ⟨text, hfirst⟩ := exists_nestedComments (h input List.mem_cons_self)
      refine ⟨text :: texts, ?_⟩
      rw [List.mapM_cons, hfirst, hrun]
      rfl
  obtain ⟨texts, hrun⟩ := hlines
  rw [hrun]
  exact ⟨_, rfl⟩

/-! ### Some comment -/

theorem commentLines_ne_empty (s : String) : commentLines s ≠ "" := by
  intro h
  have hmark : ("// " : String) = "" := (String.append_eq_empty_iff.mp h).1
  exact absurd hmark (by decide)

/-- A block in which there is a comment has a text of comments. -/
theorem nestedComments_ne_empty {b : Block} {text : String} (h : b.nestedComments ≠ [])
    (htext : nestedComments b = .ok text) : text ≠ "" := by
  rw [nestedComments] at htext
  cases hm : b.nestedComments.mapM commentText with
  | error fault =>
    rw [hm] at htext
    cases htext
  | ok texts =>
    rw [hm] at htext
    obtain rfl := Except.ok.inj htext
    obtain ⟨comment, hcomment⟩ := List.exists_mem_of_ne_nil _ h
    obtain ⟨t, ht, -⟩ := exists_of_mem_forall₂ (forall₂_of_mapM hm) comment hcomment
    cases texts with
    | nil => exact absurd ht List.not_mem_nil
    | cons first rest =>
      -- Behind every text there is a line feed.
      have hfeed : ∀ s, first ++ "\n" ++ s ≠ "" := by
        intro s hempty
        have hlast := (String.append_eq_empty_iff.mp (String.append_eq_empty_iff.mp hempty).1).2
        exact absurd hlast (by decide)
      cases rest <;> exact hfeed _

/-- If there is a comment in an input of a block, its inputs have comment lines. -/
theorem inputComments_ne_empty {slots : List (String × Option Input)} {input : Input} {text : String}
    (hinput : input ∈ slots.filterMap (·.2)) (h : input.block.nestedComments ≠ [])
    (htext : inputComments slots = .ok text) : text ≠ "" := by
  rw [inputComments] at htext
  cases hm : (slots.filterMap (·.2)).mapM fun input => nestedComments input.block with
  | error fault =>
    rw [hm] at htext
    cases htext
  | ok texts =>
    rw [hm] at htext
    obtain rfl := Except.ok.inj htext
    obtain ⟨t, ht, hrun⟩ := exists_of_mem_forall₂ (forall₂_of_mapM hm) input hinput
    have hlines : inputComments.commentLines' t ≠ "" := by
      rw [inputComments.commentLines', if_neg (nestedComments_ne_empty h hrun)]
      exact commentLines_ne_empty t
    have hjoin : ∀ ts : List String, inputComments.commentLines' t ∈ ts → String.join ts ≠ "" := by
      intro ts hmem hempty
      induction ts with
      | nil => exact absurd hmem List.not_mem_nil
      | cons s rest ih =>
        rw [String.join_cons, String.append_eq_empty_iff] at hempty
        rcases List.mem_cons.mp hmem with heq | hmem
        · exact hlines (heq.trans hempty.1)
        · exact ih hmem hempty.2
    exact hjoin _ (List.mem_map_of_mem ht)

/-- A block that is not plugged into another one has comments ahead, if it has a comment or there is
    one in an input. -/
theorem comments_ne_empty {I : Pass → Prop} (hinline : site.isInline = false)
    (h : site.head.comment.isTruthy = true ∨
      ∃ input ∈ site.values.filterMap (·.2), input.block.nestedComments ≠ []) :
    Gen.Allows o I site.comments fun text => text ≠ "" := by
  have hwhole : ∀ {s t : String}, s ≠ "" ∨ t ≠ "" → s ++ t ≠ "" := by
    intro s t hst hempty
    rw [String.append_eq_empty_iff] at hempty
    exact hst.elim (· hempty.1) (· hempty.2)
  rw [comments, hinline, if_neg Bool.false_ne_true]
  rcases h with hcomment | ⟨input, hinput, hnested⟩
  · have hown : Gen.Allows o I site.ownComment fun text => text ≠ "" := by
      rw [ownComment, hcomment]
      split
      · rename_i hnot
        cases hnot
      · split
        · apply Gen.Allows.options.bind
          intro options _
          apply Gen.Allows.lifted.bind
          intro width _
          apply Gen.Allows.lifted.bind
          exact fun wrapped _ => .pure (commentLines_ne_empty _)
        · exact .throw _
    apply hown.bind
    intro own howned
    exact Gen.Allows.lifted.bind fun rest _ => .pure (hwhole (Or.inl howned))
  · apply (commentLaw.ownComment_allows fun _ _ _ => trivial).bind
    intro own _
    apply Gen.Allows.lifted.bind
    exact fun rest hrest => .pure (hwhole (Or.inr (inputComments_ne_empty hinput hnested hrest)))

/-- The comments ahead of the code of a block are comment lines, and leave the pass alone. -/
theorem comments_meets (hwrap : Options.IsColumn o.commentWrap)
    (hcomment : site.head.HasTextComment)
    (hvalues : ∀ input ∈ site.values.filterMap (·.2), ∀ c ∈ input.block.nested,
      c.head.HasTextComment) (p : Pass) :
    Meets o site.comments p fun text q => q = p ∧ IsCommentText text.toList := by
  rw [comments]
  split
  · exact Meets.pure ⟨rfl, isCommentText_nil⟩
  · apply (ownComment_meets hwrap hcomment p).bind
    rintro own q ⟨rfl, hown⟩
    obtain ⟨rest, hrun⟩ := exists_inputComments hvalues
    have hrest := commentLaw.inputComments (fun _ _ _ _ _ _ => trivial) hrun
    rw [hrun, Gen.lift_ok, pure_bind]
    refine Meets.pure ⟨rfl, ?_⟩
    rw [String.toList_append]
    exact hown.append hrest

end Site

end BlockScript
