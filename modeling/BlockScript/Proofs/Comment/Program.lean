/-
  BlockScript.Proofs.Comment.Program

  Programs with and without comments. The lines of a program with comments are those of the program
  without them, and comment lines between them; a workspace that fails does so with and without its
  comments. There is one exception: the code that follows a value that nothing holds goes on in the
  line of the value, and so does a comment ahead of that code.
-/
import BlockScript.Proofs.Comment.Block
import BlockScript.Proofs.Comment.Tidy
import BlockScript.Proofs.Session.Isolation

namespace BlockScript

open Text (Commented CommentsAmong IsCommentLine)
open Gen (Lockstep)

/-! ## Main text -/

section
variable {o : Options} {lead : String}

/-- The line of a block that nothing holds; a block without code has none on either side. -/
theorem Block.topLevelLine_lockstep (ho : o.IsBare lead) {b : Block} (h : b.IsRegularTree)
    (hb : b.Corresponds o) :
    Lockstep Pass.Matches o b.uncommented.topLevelLine b.topLevelLine
      (Option.Rel (Commented true)) := by
  have houtput : b.uncommented.head.hasOutput = b.head.hasOutput := by
    rw [head_uncommented]
    rfl
  have hline : ∀ {s t : String}, Commented true s t →
      Lockstep Pass.Matches o
        (if s = "" then pure none
          else if b.head.hasOutput then do
            return some (← (b.uncommented.site false).withHooks (statementOfValue s))
          else pure (some s))
        (if t = "" then pure none
          else if b.head.hasOutput then do
            return some (← (b.site false).withHooks (statementOfValue t))
          else pure (some t))
        (Option.Rel (Commented true)) := by
    intro s t hst
    -- Comments do not change whether there is any code.
    by_cases hempty : s = ""
    · rw [if_pos hempty, if_pos (hst.eq_empty_iff.mp hempty)]
      exact .pure .none
    · rw [if_neg hempty, if_neg fun ht => hempty (hst.eq_empty_iff.mpr ht)]
      split
      · apply (withHooks_lockstep ho h _ _).bind
        rintro _ _ ⟨rfl, rfl⟩
        exact .pure (.some (hst.ahead ";\n"))
      · exact .pure (.some hst)
  rw [topLevelLine, topLevelLine, houtput]
  apply (hb false true (Or.inl rfl)).bind
  intro code code' hcode
  cases hcode with
  | statement hst => exact hline hst
  | expression order hst => exact hline hst

/-- The main text has comment lines between its lines. -/
theorem mainText_lockstep (ho : o.IsBare lead) {blocks : List Block}
    (h : ∀ b ∈ blocks, b.IsRegularTree ∧ b.Corresponds o) :
    Lockstep Pass.Matches o (Session.mainText (blocks.map Block.uncommented))
      (Session.mainText blocks) (Commented true) := by
  have hfeed : ∀ atStart, Text.atLineStart atStart "\n".toList = true := by decide
  rw [Session.mainText, Session.mainText, List.mapM_map]
  apply (Lockstep.mapM fun b hb => b.topLevelLine_lockstep ho (h b hb).1 (h b hb).2).bind
  rintro lines lines' ⟨-, hlines⟩
  exact .pure (.join (fun _ => hfeed) (List.rel_filterMap (fun _ _ h => h) hlines))

/-- The end of a pass: the definitions ahead of the main text. -/
theorem finish_lockstep {s t : String} (h : Commented true s t) :
    Lockstep Pass.Matches o (Gen.onPass fun p => p.finish s) (Gen.onPass fun p => p.finish t)
      (Commented true) := by
  have hfeeds : ∀ atStart, Text.atLineStart atStart "\n\n".toList = true := by decide
  apply Gen.finish_abreast (Commented.refl true)
  intro ds es hdefinitions
  have hjoin : Commented true (Text.join "\n\n" ds) (Text.join "\n\n" es) :=
    .join (fun _ => hfeeds) hdefinitions
  apply (hjoin.ahead "\n\n\n").append
  rw [String.toList_append, Text.atLineStart_append]
  exact h

end

/-! ## Programs -/

namespace Workspace

/-- The workspace without the comments of its blocks. -/
def uncommented (w : Workspace) : Workspace :=
  { w with blocks := w.blocks.map Block.uncommented }

/-- From a workspace of regular blocks, under settings without hooks and with an indent of spaces and
    tabs, comes the same fault with and without comments, or a program of which the lines are those of
    the program without comments, with comment lines among them. No comment may be ahead of the code
    that follows a value that nothing holds. -/
theorem programText_comments {w : Workspace} {o : Options} {lead : String} (ho : o.IsBare lead)
    (h : ∀ b ∈ w.blocks, b.IsRegularTree)
    (hjoined : ∀ b ∈ w.blocks, b.kind.isValue = true → b.head.enabled = true →
      ∀ c, b.next = some c → c.StartsBare) :
    (∃ fault, w.uncommented.programText o = .error fault ∧ w.programText o = .error fault) ∨
      ∃ bare out, w.uncommented.programText o = .ok bare ∧ w.programText o = .ok out ∧
        CommentsAmong (Text.lines bare.toList) (Text.lines out.toList) := by
  have hblocks : ∀ b ∈ w.blocks, b.IsRegularTree ∧ b.Corresponds o :=
    fun b hb => ⟨h b hb, b.corresponds ho (h b hb) (hjoined b hb)⟩
  have hvariables : (NameTable.new reservedWords o.variablePrefix?).variablePrefix? = some "" := by
    rw [NameTable.new, Options.variablePrefix?, ho.variablePrefix]
  let start : Pass := .start (.new reservedWords o.variablePrefix?) w.variableNames
  have hstart : start.Matches start :=
    ⟨rfl, rfl, rfl, rfl, .nil, (Pass.Reachable.start hvariables w.variableNames).named⟩
  have hprogram : Lockstep Pass.Matches o (Session.program w.uncommented) (Session.program w)
      (Commented true) :=
    (mainText_lockstep ho hblocks).bind fun s t hst => finish_lockstep hst
  have hboth := hprogram start start hstart
  have hbare : w.uncommented.programText o =
      Session.answer (Session.program w.uncommented o start) := w.uncommented.programText_eq o
  have hout : w.programText o = Session.answer (Session.program w o start) := w.programText_eq o
  rw [hbare, hout]
  generalize Session.program w.uncommented o start = result, Session.program w o start = result'
    at hboth
  cases hboth with
  | error fault => exact Or.inl ⟨fault, rfl, rfl⟩
  | ok _ hst => exact Or.inr ⟨_, _, rfl, rfl, (Text.Annotated.tidy hst).lines.1⟩

end Workspace

/-! ## Comments in every place -/

/-- A statement that assigns zero to a variable, with a comment or none and what follows it. -/
def remarkedAssignment (name : String) (comment : Json) (next : Option Block) : Block :=
  .mk ⟨.statement .assign, "set", [(.str "VAR", .str name)], comment, .bool false, true, []⟩ [] [] next

/-- A conditional with a comment, with one on its condition and one in its branch. -/
def remarkedConditional : Block :=
  .mk ⟨.statement .conditional, "if", [], .str "When?", .bool false, true, []⟩
    [("IF0", some (.mk ⟨.value .boolean, "true", [(.str "BOOL", .str "TRUE")], .str "always",
      .bool true, true, []⟩ [] [] none))]
    [("DO0", some (remarkedAssignment "y" (.str "then") none))] none

/-- A variable and a chain of statements behind it. -/
def remarkedVariable (next : Block) : Block :=
  .mk ⟨.value .getVariable, "get", [(.str "VAR", .str "x")], .null, .bool true, true, []⟩ [] []
    (some next)

/-- Comments on a conditional, on its condition, in its branch, and in a chain behind a value. -/
def remarked : Workspace :=
  ⟨[], [remarkedConditional, remarkedVariable
    (remarkedAssignment "y" .null (some (remarkedAssignment "z" (.str "last") none)))], .default⟩

set_option maxRecDepth 1000 in
theorem programText_remarked : remarked.programText .default = .ok
    ("// When?\n// always\nif (true) \x7b\n  // then\n  y = 0;\n\x7d\n\nxy = 0;\n" ++
      "// last\nz = 0;\n;\n") := by
  with_unfolding_all rfl

theorem programText_unremarked : remarked.uncommented.programText .default = .ok
    "if (true) \x7b\n  y = 0;\n\x7d\n\nxy = 0;\nz = 0;\n;\n" := by
  with_unfolding_all rfl

theorem Options.isBare_default : Options.default.IsBare "  " where
  statementPrefix := rfl
  statementSuffix := rfl
  loopTrap := rfl
  indent := rfl
  blank c hc := Or.inl (by simpa using hc)
  variablePrefix := rfl
  commentWrap := ⟨rfl, rfl⟩

theorem isRegularTree_remarkedAssignment (name : String) {comment : Json} {next : Option Block}
    (hcomment : comment = .null ∨ ∃ text, comment = .str text)
    (hnext : ∀ c ∈ next, c.kind.isValue = false ∧ c.IsRegularTree) :
    (remarkedAssignment name comment next).IsRegularTree := by
  apply Block.isRegularTree_mk
  case houtput => rfl
  case hcomment => exact hcomment
  case hvalues => exact fun c hc => absurd hc List.not_mem_nil
  case hstatements => exact fun c hc => absurd hc List.not_mem_nil
  case hnext => exact hnext
  case hprocedure => rintro (h | h) <;> cases h

/-- An assignment that nothing follows. -/
theorem isRegularTree_lastAssignment (name : String) {comment : Json}
    (hcomment : comment = .null ∨ ∃ text, comment = .str text) :
    (remarkedAssignment name comment none).IsRegularTree :=
  isRegularTree_remarkedAssignment name hcomment fun c hc => absurd hc (Option.not_mem_none c)

theorem isRegularTree_remarkedConditional : remarkedConditional.IsRegularTree := by
  have hnone : ∀ c ∈ (none : Option Block), c.kind.isValue = false ∧ c.IsRegularTree :=
    fun c hc => absurd hc (Option.not_mem_none c)
  apply Block.isRegularTree_mk
  case houtput => rfl
  case hcomment => exact Or.inr ⟨_, rfl⟩
  case hvalues =>
    intro c hc
    obtain rfl := List.mem_singleton.mp hc
    refine ⟨rfl, rfl, ?_⟩
    apply Block.isRegularTree_mk
    case houtput => rfl
    case hcomment => exact Or.inr ⟨_, rfl⟩
    case hvalues => exact fun c hc => absurd hc List.not_mem_nil
    case hstatements => exact fun c hc => absurd hc List.not_mem_nil
    case hnext => exact hnone
    case hprocedure => rintro (h | h) <;> cases h
  case hstatements =>
    intro c hc
    obtain rfl := List.mem_singleton.mp hc
    exact ⟨rfl, isRegularTree_lastAssignment "y" (Or.inr ⟨_, rfl⟩)⟩
  case hnext => exact hnone
  case hprocedure => rintro (h | h) <;> cases h

theorem isRegularTree_remarkedVariable {next : Block} (hkind : next.kind.isValue = false)
    (hnext : next.IsRegularTree) : (remarkedVariable next).IsRegularTree := by
  apply Block.isRegularTree_mk
  case houtput => rfl
  case hcomment => exact Or.inl rfl
  case hvalues => exact fun c hc => absurd hc List.not_mem_nil
  case hstatements => exact fun c hc => absurd hc List.not_mem_nil
  case hnext =>
    intro c hc
    obtain rfl := Option.some.inj hc
    exact ⟨hkind, hnext⟩
  case hprocedure => rintro (h | h) <;> cases h

theorem isRegularTree_of_mem_remarked : ∀ b ∈ remarked.blocks, b.IsRegularTree := by
  have hlast : (remarkedAssignment "z" (.str "last") none).IsRegularTree :=
    isRegularTree_lastAssignment "z" (Or.inr ⟨_, rfl⟩)
  have hchain : (remarkedAssignment "y" .null
      (some (remarkedAssignment "z" (.str "last") none))).IsRegularTree := by
    apply isRegularTree_remarkedAssignment "y" (Or.inl rfl)
    intro c hc
    obtain rfl := Option.some.inj hc
    exact ⟨rfl, hlast⟩
  intro b hb
  rcases List.mem_cons.mp hb with rfl | hb
  · exact isRegularTree_remarkedConditional
  · obtain rfl := List.mem_singleton.mp hb
    exact isRegularTree_remarkedVariable rfl hchain

/-- The chain behind the value begins without a comment, so its comments have lines of their own. -/
theorem programText_comments_remarked :
    (∀ b ∈ remarked.blocks, b.kind.isValue = true → b.head.enabled = true →
      ∀ c, b.next = some c → c.StartsBare) ∧
    CommentsAmong
      (Text.lines "if (true) \x7b\n  y = 0;\n\x7d\n\nxy = 0;\nz = 0;\n;\n".toList)
      (Text.lines ("// When?\n// always\nif (true) \x7b\n  // then\n  y = 0;\n\x7d\n\nxy = 0;\n" ++
        "// last\nz = 0;\n;\n").toList) := by
  have hjoined : ∀ b ∈ remarked.blocks, b.kind.isValue = true → b.head.enabled = true →
      ∀ c, b.next = some c → c.StartsBare := by
    intro b hb hvalue _ c hc
    rcases List.mem_cons.mp hb with rfl | hb
    · cases hvalue
    · obtain rfl := List.mem_singleton.mp hb
      obtain rfl := Option.some.inj hc
      exact .enabled rfl rfl fun name d hd => absurd hd List.not_mem_nil
  refine ⟨hjoined, ?_⟩
  rcases Workspace.programText_comments Options.isBare_default isRegularTree_of_mem_remarked hjoined
    with ⟨fault, -, hfault⟩ | ⟨bare, out, hbare, hout, hlines⟩
  · rw [programText_remarked] at hfault
    cases hfault
  · rw [programText_unremarked] at hbare
    rw [programText_remarked] at hout
    rw [← Except.ok.inj hbare, ← Except.ok.inj hout] at hlines
    exact hlines

/-! ## A comment in the line of a value -/

/-- A value that nothing holds, and behind it a statement that has a comment. -/
def remarkedBehindValue : Workspace :=
  ⟨[], [remarkedVariable (remarkedAssignment "y" (.str "c") none)], .default⟩

/-- The comment goes on in the line of the value and takes the rest of the line with it. -/
theorem programText_remarkedBehindValue :
    Options.default.IsBare "  " ∧ (∀ b ∈ remarkedBehindValue.blocks, b.IsRegularTree) ∧
    remarkedBehindValue.uncommented.programText .default = .ok "xy = 0;\n;\n" ∧
    remarkedBehindValue.programText .default = .ok "x// c\ny = 0;\n;\n" ∧
    ¬ CommentsAmong (Text.lines "xy = 0;\n;\n".toList)
      (Text.lines "x// c\ny = 0;\n;\n".toList) := by
  refine ⟨Options.isBare_default, ?_, ?_, ?_, ?_⟩
  · intro b hb
    obtain rfl := List.mem_singleton.mp hb
    exact isRegularTree_remarkedVariable rfl (isRegularTree_lastAssignment "y" (Or.inr ⟨_, rfl⟩))
  · with_unfolding_all rfl
  · with_unfolding_all rfl
  · -- The first line is neither that of the program without comments nor a comment.
    have hbare : Text.lines "xy = 0;\n;\n".toList =
        "xy = 0;".toList :: Text.lines ";\n".toList := by decide
    have hout : Text.lines "x// c\ny = 0;\n;\n".toList =
        "x// c".toList :: Text.lines "y = 0;\n;\n".toList := by decide
    rw [hbare, hout]
    intro h
    cases h with
    | comment hline =>
      obtain ⟨indentation, text, heq, hindentation, -⟩ := hline
      have hx : "x// c".toList = ['x', '/', '/', ' ', 'c'] := rfl
      rw [hx] at heq
      cases indentation with
      | nil => exact absurd (List.cons.inj heq).1 (by decide)
      | cons c rest =>
        obtain rfl : 'x' = c := (List.cons.inj heq).1
        exact absurd (hindentation 'x' List.mem_cons_self) (by decide)

end BlockScript
