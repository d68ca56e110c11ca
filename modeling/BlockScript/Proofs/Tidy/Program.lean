/-
  BlockScript.Proofs.Tidy.Program

  Tidied programs. Without hooks and without a prefix for variables a program of placed blocks is
  empty, or it begins with something besides white space and ends with one line feed, and no line of
  it ends with a space or a tab. Neither the indent nor the guard of loops matters for this, because
  both stand inside a definition or a body.
-/
import BlockScript.Proofs.Session.Isolation
import BlockScript.Proofs.Tidy.Flush
import BlockScript.Proofs.Tidy.Normal

namespace BlockScript

namespace Text

/-! ## The ends of a text -/

/-- A text that begins with something besides white space, ends with one line feed, and has no line
    that ends with a space or a tab. -/
structure IsClean (s : String) : Prop where
  begun : ∃ c rest, s.toList = c :: rest ∧ isBlank c = false
  ended : ∃ front, s.toList = front ++ ['\n'] ∧ front.getLast? ≠ some '\n'
  trimmed : ∀ line ∈ lines s.toList, line.getLast? ≠ some ' ' ∧ line.getLast? ≠ some '\t'

/-- The last character of text of whole lines. -/
theorem getLast?_of_atLineStart {s : List Char} (h : atLineStart false s = true) :
    s.getLast? = some '\n' := by
  induction s with
  | nil => cases h
  | cons c rest ih =>
    cases rest with
    | nil => exact congrArg some (of_decide_eq_true h)
    | cons d rest =>
      rw [List.getLast?_cons_cons]
      exact ih h

theorem FlushLines.getLast? {s : String} (h : FlushLines s) : s.toList.getLast? = some '\n' := by
  obtain ⟨c, rest, hs, hc⟩ := begun_iff.mp h.begun
  apply getLast?_of_atLineStart
  rw [← h.ended]
  exact atLineStart_eq (by rw [hs]; exact List.cons_ne_nil c rest) false true

/-- Whole lines are clean when they are tidied. -/
theorem FlushLines.isClean_tidy {s : String} (h : FlushLines s) : IsClean (tidy s) := by
  obtain ⟨c, rest, hs, hc⟩ := begun_iff.mp h.begun
  have hblank : isBlank c ≠ true := Bool.eq_false_iff.mp hc
  -- No lines are dropped ahead of the text, and its first character stays.
  have hled : dropLeadingLines s.toList = s.toList := by
    apply dropLeadingLines_eq_self
    rw [hs, List.takeWhile_cons_of_neg hblank]
    exact List.not_mem_nil
  have hlast : (tidy s).toList.getLast? = some '\n' := by
    rw [toList_tidy, hled]
    exact getLast?_dropLineEndBlanks (getLast?_dropTrailingLines h.getLast?)
  constructor
  case begun =>
    refine ⟨c, dropLineEndBlanks (dropTrailingLines rest), ?_, hc⟩
    rw [toList_tidy, hled, hs, dropTrailingLines_cons_of_isBlank_eq_false hc,
      dropLineEndBlanks_cons_of_isBlank_eq_false hc]
  case ended =>
    obtain ⟨front, hfront⟩ := List.getLast?_eq_some_iff.mp hlast
    refine ⟨front, hfront, fun hmore => ?_⟩
    -- A second line feed ahead of the last one would have been the last one.
    obtain ⟨before, rfl⟩ := List.getLast?_eq_some_iff.mp hmore
    have hsame := dropTrailingLines_tidy s
    rw [hfront, List.append_assoc, List.singleton_append] at hsame
    exact absurd (eq_nil_of_dropTrailingLines_eq hsame rfl) (List.cons_ne_nil _ _)
  case trimmed =>
    have hend : ∀ c, (tidy s).toList.getLast? = some c → isSpace c = false := by
      intro c hc
      rw [hlast] at hc
      rw [← Option.some.inj hc]
      rfl
    intro line hline
    have hchars := (isTrimmed_tidy s).forall_lines hend line hline
    constructor
    · intro hchar
      exact absurd (hchars ' ' hchar) (by decide)
    · intro hchar
      exact absurd (hchars '\t' hchar) (by decide)

/-- Of line feeds ahead of a text that is flush nothing is left. -/
theorem IsFlush.tidy_breaks {s : String} (h : IsFlush s) : tidy ("\n\n\n" ++ s) = tidy s := by
  have hnone : '\n' ∉ s.toList.takeWhile isBlank := by
    rcases h with rfl | h
    · exact List.not_mem_nil
    · exact not_mem_takeWhile_of_isSolid h.begun.solid
  have hbreaks : dropLeadingLines ("\n\n\n" ++ s).toList = s.toList := by
    rw [String.toList_append]
    exact dropLeadingLines_breaks hnone 1
  rw [tidy, tidy, hbreaks, dropLeadingLines_eq_self hnone]

end Text

open Text (Begun FlushLines IsFlush IsClean)

/-! ## Programs -/

/-- Definitions ahead of a main text that is flush, with empty lines between all of them. -/
theorem Text.flush_program {texts : List String} (htexts : ∀ text ∈ texts, Begun text) {main : String}
    (hmain : IsFlush main) :
    tidy (join "\n\n" texts ++ "\n\n\n" ++ main) = "" ∨
      IsClean (tidy (join "\n\n" texts ++ "\n\n\n" ++ main)) := by
  have hbreaks : ∀ atStart, atLineStart atStart "\n\n\n".toList = true := by decide
  cases texts with
  | nil =>
    rw [join, String.empty_append, hmain.tidy_breaks]
    rcases hmain with rfl | hlines
    · exact Or.inl rfl
    · exact Or.inr hlines.isClean_tidy
  | cons first rest =>
    have hbegun := (htexts first List.mem_cons_self).join "\n\n" rest
    exact Or.inr ((hbegun.flushLines hbreaks).append hmain).isClean_tidy

/-- A program of placed blocks is empty or clean. -/
theorem Workspace.isClean_programText {w : Workspace} {o : Options} {out : String}
    (hbefore : o.statementPrefix.isTruthy = false) (hbehind : o.statementSuffix.isTruthy = false)
    (hvariables : o.variablePrefix = .str "") (hplaced : ∀ b ∈ w.blocks, b.IsPlacedTree)
    (hout : w.programText o = .ok out) : out = "" ∨ IsClean out := by
  obtain ⟨main, p, hrun, rfl⟩ := exists_mainText hout
  have hlead : o.variablePrefix? = some "" := by rw [Options.variablePrefix?, hvariables]
  have hstart : (Pass.start (.new reservedWords o.variablePrefix?) w.variableNames).Named (some "") :=
    (Pass.Reachable.start hlead _).named
  obtain ⟨-, hmain⟩ := Session.mainText_flush hbefore hbehind hplaced _ _ _ hstart hrun
  have hbegun : Pass.DefinesBegun (some "")
      (.start (.new reservedWords o.variablePrefix?) w.variableNames) :=
    ⟨hstart, fun entry hentry => absurd hentry List.not_mem_nil⟩
  obtain ⟨hdefinitions, -⟩ := Session.mainText_defines (some "") w.blocks o _ _ _ hbegun hrun
  apply Text.flush_program _ hmain
  exact List.forall_mem_map.mpr hdefinitions.begun

/-- The clean-up of program texts is harmless. A second run changes nothing, and only white space is
    dropped. What is between two marks, such as the quotes of a literal, comes through as it is if a
    backslash stands directly ahead of each of its line feeds, and what is around it comes through
    without some of its white space. And a program of placed blocks without hooks and without a prefix
    for variables is empty or clean, whatever its indent is. -/
theorem tidy_harmless :
    (∀ s, Text.tidy (Text.tidy s) = Text.tidy s) ∧
    (∀ s, Text.Thinned s.toList (Text.tidy s).toList) ∧
    (∀ (s : String) (mark : Char) (before inner after : List Char), Text.isBlank mark = false →
      Text.EscapesBreaks inner → s.toList = before ++ mark :: (inner ++ mark :: after) →
      ∃ before' after', (Text.tidy s).toList = before' ++ mark :: (inner ++ mark :: after') ∧
        Text.Thinned before before' ∧ Text.Thinned after after') ∧
    ∀ (w : Workspace) (o : Options) (out : String),
      o.statementPrefix.isTruthy = false → o.statementSuffix.isTruthy = false →
      o.variablePrefix = .str "" → (∀ b ∈ w.blocks, b.IsPlacedTree) →
      w.programText o = .ok out → out = "" ∨ IsClean out :=
  ⟨Text.tidy_tidy, Text.thinned_tidy,
    fun _ _ _ _ _ hmark hinner hs => Text.tidy_literal hmark hinner hs,
    fun _ _ _ hbefore hbehind hvariables hplaced hout =>
      Workspace.isClean_programText hbefore hbehind hvariables hplaced hout⟩

/-- A text that is shown, with a comment on it that ends in spaces. -/
def remarkedPrint : Workspace where
  variableNames := []
  blocks := [.mk ⟨.statement .print, "print", [], .null, .bool false, true, []⟩
    [("TEXT", some (.mk
      ⟨.value .text, "text", [(.str "TEXT", .str "a")], .str "aside  ", .bool true, true, []⟩ [] []
      none))] [] none]
  options := .default

theorem isPlacedTree_remarkedPrint : ∀ b ∈ remarkedPrint.blocks, b.IsPlacedTree := by
  have hnil : ∀ {P : Block → Prop}, ∀ c ∈ Block.connected [], P c :=
    fun _ hc => absurd hc List.not_mem_nil
  have hnone : ∀ {P : Block → Prop}, ∀ c ∈ (none : Option Block), P c :=
    fun c hc => absurd hc (Option.not_mem_none c)
  intro b hb
  obtain rfl := List.mem_singleton.mp hb
  apply Block.isPlacedTree_mk rfl _ hnil hnone
  intro c hc
  obtain rfl := List.mem_singleton.mp hc
  exact ⟨rfl, rfl, Block.isPlacedTree_mk rfl hnil hnil hnone⟩

/-- A literal of two lines comes through between the white space that is dropped, and of the comment
    the spaces at its end are. -/
theorem tidy_harmless_remarkedPrint :
    Text.tidy "\n\nx = 'a \\\n'; \n" = "x = 'a \\\n';\n" ∧
    (∃ before' after', (Text.tidy "\n\nx = 'a \\\n'; \n").toList =
      before' ++ '\'' :: ("a \\\n".toList ++ '\'' :: after')) ∧
    remarkedPrint.programText .default = .ok "// aside\nwindow.alert('a');\n" ∧
    IsClean "// aside\nwindow.alert('a');\n" := by
  obtain ⟨-, -, hliteral, hprogram⟩ := tidy_harmless
  have hout : remarkedPrint.programText .default = .ok "// aside\nwindow.alert('a');\n" := by
    with_unfolding_all rfl
  have hescapes : Text.EscapesBreaks "a \\\n".toList := by
    intro front back h
    -- The line feed is the last one of four characters.
    rcases front with _ | ⟨c, _ | ⟨d, _ | ⟨e, _ | ⟨f, rest⟩⟩⟩⟩ <;> simp at h
    obtain ⟨-, -, rfl, -⟩ := h
    rfl
  obtain ⟨before', after', htext, -, -⟩ := hliteral "\n\nx = 'a \\\n'; \n" '\'' "\n\nx = ".toList
    "a \\\n".toList "; \n".toList rfl hescapes rfl
  have hclean := hprogram remarkedPrint .default _ rfl rfl rfl isPlacedTree_remarkedPrint hout
  exact ⟨by decide, ⟨before', after', htext⟩, hout, hclean.resolve_left (by decide)⟩

end BlockScript
