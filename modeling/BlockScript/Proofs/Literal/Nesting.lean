/-
  BlockScript.Proofs.Literal.Nesting

  The literals of a program. A text block at a depth of nesting contributes its text with as many
  indents behind each of its line feeds, because the indent of a chain goes ahead of every line of
  it, also of a line that begins within a literal. So a text survives nesting if it has no line feed,
  and one with a line feed is another text at every depth unless the indent is empty.
-/
import BlockScript.Proofs.Literal.Statement
import BlockScript.Proofs.Session.Isolation

namespace BlockScript

open Script
open Gen (Gives)

variable {F : Frame} {o : Options}

/-! ## Lines of the main text -/

namespace Block

/-- The line of a block that nothing holds carries the texts of the block; a block without a line
    has none. -/
theorem topLevelLine_gives (ho : o.IsPlain F.variableLead F.lead) {b : Block}
    (hb : b.Delivers F o) (p : Pass) :
    Gives F o b.topLevelLine p fun r line => (∀ q, b.Runs q → q.IsDefined r) ∧
      Script.Carries (b.Contributes F.lead) (line.getD "") := by
  have hline : ∀ (text : String) (p' : Pass), Script.Carries (b.Contributes F.lead) text →
      Gives F o (if text = "" then pure none
        else if b.head.hasOutput then do
          return some (← (b.site false).withHooks (statementOfValue text))
        else pure (some text)) p' fun _ line =>
          Script.Carries (b.Contributes F.lead) (line.getD "") := by
    intro text p' htext
    split
    · rename_i hempty
      rw [hempty] at htext
      exact Gives.pure fun r _ => htext
    · split
      · refine (Gives.of_allows (withHooks_allows ho _ _)).bind fun line p'' _ hline => ?_
        obtain rfl := hline p'' (.refl p'')
        exact Gives.pure fun r _ _ => htext.ahead (by decide)
      · exact Gives.pure fun r _ => htext
  refine (hb false p).bind fun code p' _ hcode => ?_
  have htext := (hcode p' (.refl p')).1
  cases code with
  | statement text => exact (hline text p' htext).mono fun r line h hrule => ⟨hrule.2, h⟩
  | expression text order => exact (hline text p' htext).mono fun r line h hrule => ⟨hrule.2, h⟩

end Block

/-- The main text carries the texts of all blocks. -/
theorem mainText_gives (ho : o.IsPlain F.variableLead F.lead) {blocks : List Block}
    (hblocks : ∀ b ∈ blocks, b.Delivers F o) (p : Pass) :
    Gives F o (Session.mainText blocks) p fun r text =>
      (∀ b ∈ blocks, ∀ q, b.Runs q → q.IsDefined r) ∧
      Carries (fun s => ∃ b ∈ blocks, b.Contributes F.lead s) text := by
  refine (Gives.mapM fun b hb p => b.topLevelLine_gives ho (hblocks b hb) p).bind
    fun lines p' _ _ => ?_
  refine Gives.pure fun r _ hlines => ?_
  obtain ⟨hdefined, hcarries⟩ := (List.forall₂_and_left _ _).mp hlines
  refine ⟨hdefined, ?_⟩
  obtain ⟨hclosed, hmem⟩ := carries_forall₂ (List.forall₂_map_right_iff.mpr hcarries)
  have hfeed : Closed "\n" := by decide
  refine (carries_join hfeed fun t ht => ?_).mono ?_
  · obtain ⟨line, hline, rfl⟩ := List.mem_filterMap.mp ht
    exact hclosed t (List.mem_map.mpr ⟨some t, hline, rfl⟩)
  · rintro s ⟨b, hb, hs⟩
    obtain ⟨t, ht, hmem⟩ := hmem b hb s hs
    obtain ⟨line, hline, rfl⟩ := List.mem_map.mp ht
    cases line with
    | none => exact absurd hmem List.not_mem_nil
    | some t => exact ⟨t, List.mem_filterMap.mpr ⟨some t, hline, rfl⟩, hmem⟩

/-! ## Programs -/

/-- What a run over a workspace is about. -/
def Workspace.frame (w : Workspace) (variableLead lead : String) : Frame where
  variableLead := variableLead
  lead := lead
  occurs q := q.registers = true ∧ ∃ b ∈ w.blocks, q.Within b

/-- The literals of a program are those of its definitions and of its main text. -/
theorem mem_literals_program {definitions : List String} {text s : String}
    (hdefinitions : ∀ d ∈ definitions, Closed d) (htext : Closed text) :
    s ∈ literals (Text.tidy (Text.join "\n\n" definitions ++ "\n\n\n" ++ text)) ↔
      s ∈ literals (Text.join "\n\n" definitions) ∨ s ∈ literals text := by
  have hfeeds : Closed "\n\n" := by decide
  have hgap : Closed "\n\n\n" := by decide
  have hnone : literals "\n\n\n" = [] := by decide
  have hjoin := closed_join hfeeds hdefinitions
  rw [literals_tidy ((hjoin.append hgap).append htext), literals_append (hjoin.append hgap),
    literals_append hjoin, hnone, List.append_nil, List.mem_append]

/-- In every program of a workspace without hooks, a text block at a depth contributes the literal of
    its text with as many indents behind each line feed: within a block that nothing holds, and within
    the procedure that is defined under the name of one that is run. That is the text itself just if
    the depth is zero, the indent is empty, or the text has no line feed. -/
theorem nested_literals {w : Workspace} {variableLead lead out : String}
    (ho : o.IsPlain variableLead lead) (hrun : w.programText o = .ok out) :
    (∀ b ∈ w.blocks, b.registers = false → ∀ depth s, b.Holds depth s →
      nestedLines lead depth s ∈ literals out) ∧
    (∀ b ∈ w.blocks, ∀ q, b.Runs q → ∃ q' : Block, (∃ b' ∈ w.blocks, q'.Within b') ∧
      q'.registers = true ∧
      Text.lower (q'.head.field "NAME").shown = Text.lower (q.head.field "NAME").shown ∧
      ∀ depth s, q'.Holds depth s → nestedLines lead depth s ∈ literals out) ∧
    ∀ depth s, nestedLines lead depth s = s ↔ depth = 0 ∨ lead = "" ∨ '\n' ∉ s.toList := by
  obtain ⟨text, p, hmain, rfl⟩ := exists_mainText hrun
  let F := w.frame variableLead lead
  have hoF : o.IsPlain F.variableLead F.lead := ho
  have hdelivers : ∀ b ∈ w.blocks, b.Delivers F o := fun b hb =>
    Block.delivers hoF b fun q hq hregisters => ⟨hregisters, b, hb, hq⟩
  have hprefix : (NameTable.new reservedWords o.variablePrefix?).variablePrefix? =
      some variableLead := by
    rw [NameTable.new, Options.variablePrefix?, ho.variablePrefix]
  have hstart := Pass.Fair.start (F := F) (.new reservedWords o.variablePrefix?) hprefix
    w.variableNames
  obtain ⟨hfair, -, hgives⟩ := mainText_gives hoF hdelivers _ hstart text p hmain
  obtain ⟨hdefined, htext⟩ := hgives p (.refl p)
  have hdefinitions : ∀ d ∈ p.definitions.texts, Closed d := by
    intro d hd
    obtain ⟨entry, hentry, rfl⟩ := List.mem_map.mp hd
    exact hfair.closed entry hentry
  refine ⟨?_, ?_, ?_⟩
  · intro b hb hregisters depth s hs
    rw [mem_literals_program hdefinitions htext.closed]
    exact Or.inr (htext.mem _ ⟨b, hb, hregisters, depth, s, hs, rfl⟩)
  · intro b hb q hq
    obtain ⟨q', ⟨hregisters, hoccurs⟩, hname, d, hd, hcarries⟩ :=
      hfair.exists_definition (hdefined b hb q hq)
    refine ⟨q', hoccurs, hregisters, (NameTable.memoKey_inj.mp hname).1, fun depth s hs => ?_⟩
    rw [mem_literals_program hdefinitions htext.closed]
    have hfeeds : Closed "\n\n" := by decide
    exact Or.inl ((carries_join hfeeds hdefinitions).mem _
      ⟨d, hd, hcarries.mem _ ⟨depth, s, hs, rfl⟩⟩)
  · intro depth s
    exact nestedLines_eq_iff (fun hmem => absurd (ho.inert _ hmem) (by decide)) depth s

/-! ## A text in a branch -/

/-- A statement that prints a text. -/
def printed (s : String) : Block :=
  .mk ⟨.statement .print, "print", [], .null, .null, true, []⟩
    [("TEXT", some (.mk ⟨.value .text, "text", [(.str "TEXT", .str s)], .null, .bool true, true, []⟩
      [] [] none))] [] none

/-- A conditional with a branch that prints a text. -/
def printedInBranch (s : String) : Block :=
  .mk ⟨.statement .conditional, "if", [], .null, .null, true, []⟩ [] [("DO0", some (printed s))] none

/-- A procedure that prints a text. -/
def printedInProcedure (s : String) : Block :=
  .mk ⟨.statement .procedure, "define", [(.str "NAME", .str "f")], .null, .null, true, []⟩
    [] [("STACK", some (printed s))] none

/-- A text with a line feed in a branch, and one without in a procedure. -/
def brokenInBranch : Workspace :=
  ⟨[], [printedInProcedure "a", printedInBranch "a\nb"], .default⟩

def brokenInBranchText : String :=
  "function f() \x7b\n  window.alert('a');\n\x7d\n\n\n" ++
    "if (false) \x7b\n  window.alert('a\\\n  b');\n\x7d\n"

theorem programText_brokenInBranch :
    brokenInBranch.programText .default = .ok brokenInBranchText := by
  with_unfolding_all rfl

theorem Options.isPlain_default : Options.default.IsPlain "" "  " where
  statementPrefix := rfl
  statementSuffix := rfl
  loopTrap := rfl
  indent := rfl
  inert := by decide
  variablePrefix := rfl
  closed := by decide

theorem holds_printed (s : String) : (printed s).Holds 0 s :=
  .value rfl List.mem_cons_self rfl rfl (.text rfl rfl)

theorem holds_printedInBranch (s : String) : (printedInBranch s).Holds 1 s := by
  have hslots : ((printedInBranch s).site false).chainSlots = ["DO0"] := by
    with_unfolding_all rfl
  exact .chain rfl (hslots ▸ List.mem_cons_self) rfl rfl (holds_printed s)

theorem nested_literals_brokenInBranch :
    "a\n  b" ∈ literals brokenInBranchText ∧
    ∃ q' : Block, (∃ b' ∈ brokenInBranch.blocks, q'.Within b') ∧ q'.registers = true ∧
      Text.lower (q'.head.field "NAME").shown = "f" ∧
      ∀ depth s, q'.Holds depth s → nestedLines "  " depth s ∈ literals brokenInBranchText := by
  obtain ⟨hmain, hdefined, -⟩ :=
    nested_literals Options.isPlain_default programText_brokenInBranch
  have hbranch : printedInBranch "a\nb" ∈ brokenInBranch.blocks :=
    List.mem_cons_of_mem _ List.mem_cons_self
  have hprocedure : printedInProcedure "a" ∈ brokenInBranch.blocks := List.mem_cons_self
  exact ⟨hmain _ hbranch rfl 1 "a\nb" (holds_printedInBranch "a\nb"),
    hdefined _ hprocedure _ (.self rfl)⟩

/-- The text of the branch is not among the literals of the program: its second line has the indent
    of the branch ahead of it. -/
theorem not_mem_literals_brokenInBranch :
    printedInBranch "a\nb" ∈ brokenInBranch.blocks ∧ (printedInBranch "a\nb").Holds 1 "a\nb" ∧
    brokenInBranch.programText .default = .ok brokenInBranchText ∧
    literals brokenInBranchText = ["a", "a\n  b"] ∧ "a\nb" ∉ literals brokenInBranchText := by
  have hliterals : literals brokenInBranchText = ["a", "a\n  b"] := by decide
  refine ⟨List.mem_cons_of_mem _ List.mem_cons_self, holds_printedInBranch "a\nb",
    programText_brokenInBranch, hliterals, ?_⟩
  rw [hliterals]
  decide

end BlockScript
