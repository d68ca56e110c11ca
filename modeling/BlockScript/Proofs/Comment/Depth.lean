/-
  BlockScript.Proofs.Comment.Depth

  The comment lines ahead of the code of a block, at every depth of nesting. At line feeds every one of
  them begins with the mark behind its indentation, whatever is in the comments. A reader of scripts
  knows more line ends: it takes all of the lines for comments just if it does so with what it takes
  for later lines of a line of a comment, and there is no such thing if the own comment of the block
  has no line separator and no paragraph separator, and a comment in its value slots has neither these
  nor a carriage return.
-/
import BlockScript.Proofs.Comment.LineEnd
import BlockScript.Session

namespace BlockScript

open Text (lines scriptLines laterLines marked IsCommentLine IsFeedOnly)

/-! ## Nested text -/

namespace Text

/-- A text at a depth of nesting: behind the indent of a chain for each level. -/
def atDepth (lead : String) : Nat → String → Except Fault String
  | 0, s => pure s
  | n + 1, s => do prefixLines (← atDepth lead n s) lead

/-- The indentation at a depth of nesting. -/
def indentation (lead : String) (n : Nat) : List Char :=
  (List.replicate n lead.toList).flatten

theorem blank_indentation {lead : String} (hlead : ∀ c ∈ lead.toList, c = ' ' ∨ c = '\t') (n : Nat) :
    ∀ c ∈ indentation lead n, c = ' ' ∨ c = '\t' := by
  intro c hc
  obtain ⟨l, hl, hc⟩ := List.mem_flatten.mp hc
  exact hlead c ((List.eq_of_mem_replicate hl) ▸ hc)

theorem insertAfterBreaks_ne_nil {s : List Char} (h : s ≠ []) (lead : List Char) :
    insertAfterBreaks lead s ≠ [] := by
  obtain ⟨c, rest, rfl⟩ := List.exists_cons_of_ne_nil h
  rw [insertAfterBreaks_cons]
  exact List.cons_ne_nil _ _

/-- Marked lines stay apart from the code behind them, and get the indents of all levels. -/
theorem atDepth_marked {lead : String} (hlead : ∀ c ∈ lead.toList, c = ' ' ∨ c = '\t') {x : List Char}
    (hx : '\n' ∉ x) {ls : List (List Char)} (hls : ∀ l ∈ ls, '\n' ∉ l) {text code : String}
    (htext : text.toList = marked x ls) (hcode : code ≠ "") (n : Nat) :
    ∃ ahead rest, atDepth lead n (text ++ code) = .ok (ahead ++ rest) ∧
      atDepth lead n code = .ok rest ∧ rest ≠ "" ∧
      ahead.toList = marked (indentation lead n ++ x) ls := by
  have hinert : Script.Inert lead.toList := by
    intro c hc
    rcases hlead c hc with rfl | rfl <;> rfl
  induction n with
  | zero => exact ⟨text, code, rfl, rfl, hcode, htext⟩
  | succ n ih =>
    obtain ⟨ahead, rest, hrun, hrest, hne, hahead⟩ := ih
    have hbreak : '\n' ∉ indentation lead n ++ x := by
      rw [List.mem_append, not_or]
      exact ⟨not_mem_of_spaces (blank_indentation hlead n), hx⟩
    have hchars : rest.toList ≠ [] := fun h => hne (String.toList_injective h)
    refine ⟨String.ofList (marked (lead.toList ++ (indentation lead n ++ x)) ls),
      lead ++ String.ofList (insertAfterBreaks lead.toList rest.toList), ?_, ?_, ?_, ?_⟩
    · rw [atDepth, hrun]
      show prefixLines (ahead ++ rest) lead = _
      rw [Script.prefixLines_of_inert hinert, String.toList_append, hahead]
      congr 1
      apply String.toList_injective
      have hindent := indent_marked lead.toList hbreak hls hchars
      simpa using hindent
    · rw [atDepth, hrest]
      exact Script.prefixLines_of_inert hinert rest
    · intro hempty
      have hnil := congrArg String.toList hempty
      rw [String.toList_append, String.toList_ofList] at hnil
      exact insertAfterBreaks_ne_nil hchars _ (List.append_eq_nil_iff.mp hnil).2
    · rw [String.toList_ofList, indentation, indentation, List.replicate_succ, List.flatten_cons,
        List.append_assoc]

end Text

/-! ## The lines of comments -/

namespace Block

/-- A line of the comment of a block, which is wrapped. -/
def IsOwnLine (b : Block) (l : List Char) : Prop :=
  ∃ comment limit, b.head.comment = .str comment ∧ l ∈ lines (Text.wrap limit comment).toList

/-- Whether a block is in a value slot of another one, or below a block that is. -/
def InValues (b c : Block) : Prop :=
  ∃ d ∈ connected b.values, c ∈ d.nested

/-- A line of a comment in the value slots of a block, which is taken as it is. -/
def IsInputLine (b : Block) (l : List Char) : Prop :=
  ∃ c, b.InValues c ∧ ∃ comment, c.head.comment = .str comment ∧ l ∈ lines comment.toList

/-- Whether no comment of a block has a line end but line feeds that is written. -/
structure HasFeedOnlyComments (b : Block) : Prop where
  own : ∀ comment, b.head.comment = .str comment →
    '\u2028' ∉ comment.toList ∧ '\u2029' ∉ comment.toList
  inputs : ∀ c, b.InValues c → ∀ comment, c.head.comment = .str comment → IsFeedOnly comment.toList

end Block

/-- Comment lines are the marked lines of the texts that they come from. -/
theorem commentLaw_marked (T : List Char → Prop) :
    CommentLaw (fun s => ∀ l ∈ lines s.toList, T l) fun text =>
      ∃ ls, (∀ l ∈ ls, T l ∧ '\n' ∉ l) ∧ text.toList = marked "// ".toList ls where
  empty := ⟨[], fun _ h => absurd h List.not_mem_nil, rfl⟩
  append := by
    rintro s t ⟨ls, hls, hs⟩ ⟨ls', hls', ht⟩
    refine ⟨ls ++ ls', ?_, ?_⟩
    · rw [List.forall_mem_append]
      exact ⟨hls, hls'⟩
    · rw [String.toList_append, hs, ht, marked, marked, marked, List.flatMap_append]
  commentLines := by
    intro s hs
    refine ⟨lines s.toList, fun l hl => ⟨hs l hl, Text.not_mem_of_mem_lines hl⟩, ?_⟩
    rw [← Text.marked_lines]
    simp [Site.commentLines, Text.prefixed]
  join := by
    intro s t hs ht
    have hlines : lines (s ++ "\n" ++ t).toList = lines s.toList ++ lines t.toList := by
      rw [← Text.lines_append]
      simp
    rw [hlines, List.forall_mem_append]
    exact ⟨hs, ht⟩

namespace Block

/-- The lines of the comments ahead of the code of a block, at every depth. -/
theorem comments_atDepth (b : Block) (attached : Bool) {o : Options} {p q : Pass} {text : String}
    (h : (b.site attached).comments o p = .ok text q) :
    ∃ ls : List (List Char), (∀ l ∈ ls, b.IsOwnLine l ∨ b.IsInputLine l) ∧
      (∀ lead : String, (∀ c ∈ lead.toList, c = ' ' ∨ c = '\t') → ∀ n code, code ≠ "" →
        ∃ ahead rest, Text.atDepth lead n (text ++ code) = .ok (ahead ++ rest) ∧
          Text.atDepth lead n code = .ok rest ∧
          lines ahead.toList = ls.map ((Text.indentation lead n ++ "// ".toList) ++ ·) ++ [[]] ∧
          ((∀ line ∈ (scriptLines ahead.toList).dropLast, IsCommentLine line) ↔
            ∀ l ∈ ls, ∀ line ∈ laterLines l, IsCommentLine line)) ∧
      (b.HasFeedOnlyComments → ∀ l ∈ ls, laterLines l = []) := by
  have hlaw := commentLaw_marked fun l => b.IsOwnLine l ∨ b.IsInputLine l
  have hallows : Gen.Allows o (fun _ => True) (b.site attached).comments fun text =>
      ∃ ls : List (List Char), (∀ l ∈ ls, (b.IsOwnLine l ∨ b.IsInputLine l) ∧ '\n' ∉ l) ∧
        text.toList = marked "// ".toList ls := by
    apply hlaw.comments_allows
    · intro comment limit hcomment l hl
      exact Or.inl ⟨comment, limit, hcomment, hl⟩
    · intro input hinput c hc comment hcomment l hl
      obtain ⟨name, hname⟩ := mem_of_mem_inputs hinput
      have hmem : input.block ∈ connected b.values := List.mem_filterMap.mpr ⟨_, hname, rfl⟩
      exact Or.inr ⟨c, ⟨_, hmem, hc⟩, comment, hcomment, hl⟩
  obtain ⟨-, ls, hls, htext⟩ := hallows p text q trivial h
  have hfeeds : ∀ l ∈ ls, '\n' ∉ l := fun l hl => (hls l hl).2
  refine ⟨ls, fun l hl => (hls l hl).1, ?_, ?_⟩
  · intro lead hlead n code hcode
    obtain ⟨ahead, rest, hrun, hrest, -, hahead⟩ :=
      Text.atDepth_marked hlead (by decide) hfeeds htext hcode n
    have hblank := Text.blank_indentation hlead n
    refine ⟨ahead, rest, hrun, hrest, ?_, ?_⟩
    · have hbreak : '\n' ∉ Text.indentation lead n ++ "// ".toList := by
        rw [List.mem_append, not_or]
        exact ⟨Text.not_mem_of_spaces hblank, by decide⟩
      rw [hahead, Text.lines_marked hbreak hfeeds]
    · rw [hahead, Text.forall_isCommentLine_marked hblank]
  · intro hcomments l hl
    have hfeedOnly : IsFeedOnly l := by
      rcases (hls l hl).1 with ⟨comment, limit, hcomment, hline⟩ | ⟨c, hc, comment, hcomment, hline⟩
      · obtain ⟨hseparator, hparagraph⟩ := hcomments.own comment hcomment
        exact (Text.isFeedOnly_wrap hseparator hparagraph).line hline
      · exact (hcomments.inputs c hc comment hcomment).line hline
    exact Text.laterLines_of_isFeedOnly hfeedOnly (hfeeds l hl)

end Block

/-! ### Line ends in comments -/

/-- A text with a comment. -/
def textWith (comment : String) : Block :=
  .mk ⟨.value .text, "text", [(.str "TEXT", .str "a")], .str comment, .bool true, true, []⟩ [] [] none

/-- A print of a text, with a comment of its own and one on the text. -/
def printedWith (own nested : String) : Block :=
  .mk ⟨.statement .print, "print", [], .str own, .bool false, true, []⟩
    [("TEXT", some (textWith nested))] [] none

/-- In a wrapped comment a carriage return is a space. -/
theorem comments_printedWith :
    ((printedWith "a\rb" "c\nd").site false).comments .default (.idle (.new [] none)) =
      .ok "// a b\n// c\n// d\n" (.idle (.new [] none)) := by
  with_unfolding_all rfl

theorem hasFeedOnlyComments_printedWith : (printedWith "a\rb" "c\nd").HasFeedOnlyComments where
  own := by
    intro comment hcomment
    obtain rfl := Json.str.inj hcomment
    decide
  inputs := by
    rintro c ⟨d, hd, hc⟩ comment hcomment
    obtain rfl : d = textWith "c\nd" := List.mem_singleton.mp hd
    have hnested : (textWith "c\nd").nested = [textWith "c\nd"] := by
      simp [textWith, Block.nested, Block.nestedInSlots]
    rw [hnested] at hc
    obtain rfl : c = textWith "c\nd" := List.mem_singleton.mp hc
    obtain rfl : "c\nd" = comment := Json.str.inj hcomment
    intro e he
    have hchar : e = 'c' ∨ e = '\n' ∨ e = 'd' := by simpa using he
    rcases hchar with rfl | rfl | rfl <;> decide

theorem comments_atDepth_printedWith :
    (printedWith "a\rb" "c\nd").HasFeedOnlyComments ∧
    ((printedWith "a\rb" "c\nd").site false).comments .default (.idle (.new [] none)) =
      .ok "// a b\n// c\n// d\n" (.idle (.new [] none)) ∧
    ∃ ahead rest, Text.atDepth "  " 2 ("// a b\n// c\n// d\n" ++ "x();\n") = .ok (ahead ++ rest) ∧
      ∀ line ∈ (scriptLines ahead.toList).dropLast, IsCommentLine line := by
  obtain ⟨ls, -, hdepth, hnone⟩ :=
    (printedWith "a\rb" "c\nd").comments_atDepth false comments_printedWith
  have hblank : ∀ c ∈ "  ".toList, c = ' ' ∨ c = '\t' := by
    intro c hc
    have hspace : c = ' ' ∨ c = ' ' := by simpa using hc
    tauto
  obtain ⟨ahead, rest, hrun, -, -, hiff⟩ := hdepth "  " hblank 2 "x();\n" (by decide)
  refine ⟨hasFeedOnlyComments_printedWith, comments_printedWith, ahead, rest, hrun, hiff.mpr ?_⟩
  intro l hl line hline
  rw [hnone hasFeedOnlyComments_printedWith l hl] at hline
  exact absurd hline List.not_mem_nil

/-- A carriage return in the comment of a value, and a line separator in the comment of a statement,
    end a line of the script, and the rest of the comment has no mark. -/
theorem scriptLines_printedWith :
    (∃ text q, ((printedWith "" "b\rc").site false).comments .default (.idle (.new [] none)) =
        .ok text q ∧ ∃ line ∈ (scriptLines text.toList).dropLast, ¬ IsCommentLine line) ∧
    (∃ text q, ((printedWith "b\u2028c" "").site false).comments .default (.idle (.new [] none)) =
        .ok text q ∧ ∃ line ∈ (scriptLines text.toList).dropLast, ¬ IsCommentLine line) ∧
    (Workspace.mk [] [printedWith "" "b\rc"] .default).programText .default =
      .ok "// b\rc\nwindow.alert('a');\n" := by
  have hnot : ¬ IsCommentLine ['c'] := by
    rintro ⟨indentation, text, heq, hindentation, -⟩
    cases indentation with
    | nil => exact absurd (List.cons.inj heq).1 (by decide)
    | cons d rest =>
      obtain rfl := (List.cons.inj heq).1
      exact absurd (hindentation 'c' List.mem_cons_self) (by decide)
  refine ⟨⟨"// b\rc\n", _, by with_unfolding_all rfl, ['c'], by decide, hnot⟩,
    ⟨"// b\u2028c\n", _, by with_unfolding_all rfl, ['c'], by decide, hnot⟩, ?_⟩
  with_unfolding_all rfl

end BlockScript
