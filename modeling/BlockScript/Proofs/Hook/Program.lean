/-
  BlockScript.Proofs.Hook.Program

  Programs without hooks and with them. The lines of a program with hooks are those of the program
  without them, with lines of the hooks among them; a workspace that fails does so with and without
  hooks. There is one exception: the code that follows a value that nothing holds goes on in the line
  of the value, and so does a hook ahead of that code.
-/
import BlockScript.Proofs.Hook.Block

namespace BlockScript

open Text (LinePlace Extended LinesInserted EndsFresh Solid)
open Gen (Abreast)

/-! ## Main text -/

section
variable {o : Options} {lead : String} {ids : String → Prop}

/-- Of the places where the hook ahead of a statement has a line of its own, one is below the
    others. -/
theorem Options.exists_below_admitted (o : Options) :
    ∃ place, o.Admits place ∧ ∀ place', o.Admits place' → place.Below place' := by
  cases hnamed : o.statementPrefix.isTruthy with
  | false => exact ⟨.blank, Or.inr hnamed, fun place' _ => .blank place'⟩
  | true =>
    refine ⟨.start, Or.inl rfl, ?_⟩
    rintro place' (rfl | hfalse)
    · exact .refl _
    · rw [hnamed] at hfalse
      cases hfalse

/-- The line of a block that nothing holds; a block without code has none on either side. -/
theorem Block.lineOf_abreast (ho : o.IsHooked lead) {b : Block} (hid : ids b.head.id)
    {s t : String}
    (htext : ∀ place, o.Admits place → o.Hooked lead ids place s t) (hs : s = "" ∨ Solid s) :
    Abreast (Pass.Hooked o lead ids) o.unhooked o (b.lineOf s) (b.lineOf t)
      (Option.Rel (o.Hooked lead ids .start)) := by
  have hstart := htext .start (Or.inl rfl)
  rw [lineOf, lineOf]
  -- Hooks do not change whether there is any code.
  by_cases hempty : s = ""
  · rw [if_pos hempty, if_pos (hstart.eq_empty_iff.mp hempty)]
    exact .pure .none
  · rw [if_neg hempty, if_neg fun ht => hempty (hstart.eq_empty_iff.mpr ht)]
    have hsolid := hs.resolve_left hempty
    split
    · have hplaced : (b.site false).kind.placesHooks = false →
          Solid (statementOfValue s) ∧ EndsFresh (statementOfValue s) :=
        fun _ => ⟨hsolid.append ";\n", endsFresh_semicolon.behind s⟩
      apply (Site.withHooks_abreast ho hid (fun place hplace => (htext place hplace).ahead ";\n")
        hplaced).bind
      rintro _ t' ⟨rfl, ht'⟩
      exact .pure (.some (ht' .start (Or.inl rfl)))
    · exact .pure (.some hstart)

theorem Block.topLevelLine_abreast (ho : o.IsHooked lead) {b : Block} (hid : ids b.head.id)
    (hb : b.IsInstrumented o lead ids) :
    Abreast (Pass.Hooked o lead ids) o.unhooked o b.topLevelLine b.topLevelLine
      (Option.Rel (o.Hooked lead ids .start)) := by
  obtain ⟨place, hplace, hbelow⟩ := o.exists_below_admitted
  rw [topLevelLine_eq]
  apply (hb false place (Or.inl hplace)).bind
  intro code code' hcode
  cases hcode with
  | statement hst hlines =>
    exact lineOf_abreast ho hid (fun place' h => hst.weaken (hbelow place' h))
      (hlines.imp_right fun h => h.solid)
  | expression order hst hsolid =>
    exact lineOf_abreast ho hid (fun place' h => hst.weaken (hbelow place' h)) (Or.inr hsolid)

/-- The main text has lines of hooks among its lines. -/
theorem mainText_abreast (ho : o.IsHooked lead) {blocks : List Block}
    (h : ∀ b ∈ blocks, ids b.head.id ∧ b.IsInstrumented o lead ids) :
    Abreast (Pass.Hooked o lead ids) o.unhooked o (Session.mainText blocks)
      (Session.mainText blocks) (o.Hooked lead ids .start) := by
  have hfeed : ∀ place : LinePlace, LinePlace.Below .start (place.after "\n".toList) := by
    intro place
    exact LinePlace.below_of_isLineStart (place.isLineStart_after _)
  rw [Session.mainText]
  apply (Abreast.mapM fun b hb => b.topLevelLine_abreast ho (h b hb).1 (h b hb).2).bind
  rintro lines lines' ⟨-, hlines⟩
  exact .pure (.join hfeed (List.rel_filterMap (fun _ _ h => h) hlines))

/-- The end of a pass: the definitions ahead of the main text. -/
theorem finish_abreast {s t : String} (h : o.Hooked lead ids .start s t) :
    Abreast (Pass.Hooked o lead ids) o.unhooked o (Gen.onPass fun p => p.finish s)
      (Gen.onPass fun p => p.finish t) (o.Hooked lead ids .start) := by
  have hfeeds : ∀ place : LinePlace, LinePlace.Below .start (place.after "\n\n".toList) :=
    fun place => LinePlace.below_of_isLineStart (place.isLineStart_after _)
  apply Gen.finish_abreast (Extended.refl .start)
  intro ds es hdefinitions
  have hjoin : o.Hooked lead ids .start (Text.join "\n\n" ds) (Text.join "\n\n" es) :=
    .join hfeeds hdefinitions
  apply (hjoin.ahead "\n\n\n").append
  apply h.weaken
  apply LinePlace.below_of_isLineStart
  rw [String.toList_append, LinePlace.after_append, LinePlace.isLineStart_after]
  rfl

end

/-! ## Programs -/

namespace Workspace

/-- Whether a block of the workspace has an id. -/
def HasId (w : Workspace) (id : String) : Prop :=
  ∃ b ∈ w.blocks, ∃ c, Block.Within c b ∧ c.head.id = id

/-- From a workspace of hookable blocks comes the same fault without hooks and with hooks, or a
    program of which the lines are those of the program without hooks, with indented lines of hooks
    among them. If there is a hook ahead of statements, what follows a value that nothing holds has to
    begin a line of its own. -/
theorem programText_hooks {w : Workspace} {o : Options} {lead : String} (ho : o.IsHooked lead)
    (h : ∀ b ∈ w.blocks, b.IsHookableTree o)
    (hjoined : ∀ b ∈ w.blocks, b.kind.isValue = true → b.head.enabled = true →
      o.statementPrefix.isTruthy = false ∨ ∀ c, b.next = some c → c.StartsApart) :
    (∃ fault, w.programText o.unhooked = .error fault ∧ w.programText o = .error fault) ∨
      ∃ bare out, w.programText o.unhooked = .ok bare ∧ w.programText o = .ok out ∧
        LinesInserted (o.IsHookLine lead w.HasId) (Text.lines bare.toList)
          (Text.lines out.toList) := by
  have hids : ∀ b ∈ w.blocks, ∀ c, Block.Within c b → w.HasId c.head.id :=
    fun b hb c hc => ⟨b, hb, c, hc, rfl⟩
  have hblocks : ∀ b ∈ w.blocks, w.HasId b.head.id ∧ b.IsInstrumented o lead w.HasId :=
    fun b hb => ⟨hids b hb b .self, b.instrumented ho (h b hb) (hids b hb) (hjoined b hb)⟩
  have hvariables : (NameTable.new reservedWords o.variablePrefix?).variablePrefix? = some "" := by
    rw [NameTable.new, Options.variablePrefix?, ho.variablePrefix]
  have hprogram : Abreast (Pass.Hooked o lead w.HasId) o.unhooked o (Session.program w)
      (Session.program w) (o.Hooked lead w.HasId .start) :=
    (mainText_abreast ho hblocks).bind fun s t hst => finish_abreast hst
  rcases programText_abreast hprogram (.start hvariables w.variableNames) with
    hfault | ⟨s, t, hs, ht, hst⟩
  · exact Or.inl hfault
  · have htidy := Text.Inserted.tidy hst fun _ => Options.IsHookLine.trimmed
    exact Or.inr ⟨_, _, hs, ht, htidy.lines.1⟩

end Workspace

/-! ## Hooks in every place -/

/-- An assignment of zero. -/
def tracedAssignment : Block :=
  .mk ⟨.statement .assign, "set", [(.str "VAR", .str "y")], .null, .bool false, true, []⟩ [] [] none

/-- A variable and what follows it. -/
def tracedVariable (next : Option Block) : Block :=
  .mk ⟨.value .getVariable, "get", [(.str "VAR", .str "x")], .null, .bool true, true, []⟩ [] [] next

/-- A procedure with a body and a value to return. -/
def tracedFunction : Block :=
  .mk ⟨.statement .function, "f", [(.str "NAME", .str "f")], .null, .bool false, true, []⟩
    [("RETURN", some (tracedVariable none))] [("STACK", some tracedAssignment)] none

/-- A variable that nothing holds, and a procedure behind it. -/
def traced : Workspace :=
  ⟨[], [tracedVariable (some tracedFunction)], .default⟩

/-- Hooks ahead of statements and behind them, and at the top of procedures. -/
def tracedOptions : Options :=
  { Options.default with
    statementPrefix := .str "a(%1);\n", statementSuffix := .str "b(%1);\n",
    loopTrap := .str "t(%1);\n" }

set_option maxRecDepth 2000 in
theorem programText_traced : traced.programText tracedOptions =
    .ok ("function f() \x7b\n  a('f');\n  b('f');\n  t('f');\n  a('set');\n  y = 0;\n" ++
      "  b('set');\n  a('f');\n  b('f');\n  return x;\n\x7d\n\n\na('get');\nx;\nb('get');\n") := by
  with_unfolding_all rfl

theorem programText_untraced : traced.programText tracedOptions.unhooked =
    .ok "function f() \x7b\n  y = 0;\n  return x;\n\x7d\n\n\nx;\n" := by
  with_unfolding_all rfl

/-- A line with something in it is a hook. -/
theorem isHook_line (line : String) (hsolid : Text.isSolid line.toList = true)
    (hline : '\n' ∉ line.toList) : (Json.str (line ++ "\n")).IsHook := by
  refine Or.inr ⟨_, rfl, [line.toList], ?_, ?_⟩
  · intro l hl
    obtain rfl := List.mem_singleton.mp hl
    exact ⟨hsolid, hline⟩
  · rw [String.toList_append, Text.marked_cons, List.nil_append]
    rfl

theorem isHooked_traced : tracedOptions.IsHooked "  " where
  hook setting hsetting := by
    rcases List.mem_cons.mp hsetting with rfl | hsetting
    · exact isHook_line "a(%1);" (by decide) (by decide)
    rcases List.mem_cons.mp hsetting with rfl | hsetting
    · exact isHook_line "b(%1);" (by decide) (by decide)
    · obtain rfl := List.mem_singleton.mp hsetting
      exact isHook_line "t(%1);" (by decide) (by decide)
  indent := rfl
  blank c hc := Or.inl (by simpa using hc)
  variablePrefix := rfl

section
variable {o : Options}

theorem isHookableTree_tracedAssignment : tracedAssignment.IsHookableTree o := by
  apply Block.isHookableTree_mk
  case hself => exact ⟨fun _ => rfl, fun _ => rfl⟩
  case houtput => rfl
  case hvalues => exact fun c hc => absurd hc List.not_mem_nil
  case hstatements => exact fun c hc => absurd hc List.not_mem_nil
  case hnext => exact fun c hc => absurd hc (Option.not_mem_none c)

theorem isHookableTree_tracedVariable {next : Option Block}
    (hnext : ∀ c ∈ next, c.kind.isValue = false ∧ c.IsHookableTree o) :
    (tracedVariable next).IsHookableTree o := by
  apply Block.isHookableTree_mk
  case hself =>
    refine ⟨?_, fun _ => rfl⟩
    rintro (h | h) <;> cases h
  case houtput => rfl
  case hvalues => exact fun c hc => absurd hc List.not_mem_nil
  case hstatements => exact fun c hc => absurd hc List.not_mem_nil
  case hnext => exact hnext

theorem isHookableTree_tracedFunction : tracedFunction.IsHookableTree o := by
  apply Block.isHookableTree_mk
  case hself => exact ⟨fun _ => rfl, fun _ => rfl⟩
  case houtput => rfl
  case hvalues =>
    intro c hc
    obtain rfl := List.mem_singleton.mp hc
    exact ⟨rfl, rfl, isHookableTree_tracedVariable fun c hc => absurd hc (Option.not_mem_none c)⟩
  case hstatements =>
    intro c hc
    obtain rfl := List.mem_singleton.mp hc
    exact ⟨rfl, isHookableTree_tracedAssignment⟩
  case hnext => exact fun c hc => absurd hc (Option.not_mem_none c)

end

/-- Behind the value there is a procedure, which leaves nothing there; so the hooks have lines of
    their own, also those in the procedure. -/
theorem programText_hooks_traced :
    tracedOptions.IsHooked "  " ∧ (∀ b ∈ traced.blocks, b.IsHookableTree tracedOptions) ∧
    (∀ b ∈ traced.blocks, b.kind.isValue = true → b.head.enabled = true →
      tracedOptions.statementPrefix.isTruthy = false ∨ ∀ c, b.next = some c → c.StartsApart) ∧
    LinesInserted (tracedOptions.IsHookLine "  " traced.HasId)
      (Text.lines "function f() \x7b\n  y = 0;\n  return x;\n\x7d\n\n\nx;\n".toList)
      (Text.lines ("function f() \x7b\n  a('f');\n  b('f');\n  t('f');\n  a('set');\n  y = 0;\n" ++
        "  b('set');\n  a('f');\n  b('f');\n  return x;\n\x7d\n\n\na('get');\nx;\nb('get');\n"
        ).toList) := by
  have htrees : ∀ b ∈ traced.blocks, b.IsHookableTree tracedOptions := by
    intro b hb
    obtain rfl := List.mem_singleton.mp hb
    apply isHookableTree_tracedVariable
    rintro _ ⟨⟩
    exact ⟨rfl, isHookableTree_tracedFunction⟩
  have hjoined : ∀ b ∈ traced.blocks, b.kind.isValue = true → b.head.enabled = true →
      tracedOptions.statementPrefix.isTruthy = false ∨ ∀ c, b.next = some c → c.StartsApart := by
    intro b hb _ _
    obtain rfl := List.mem_singleton.mp hb
    right
    rintro _ ⟨⟩
    exact .procedure rfl (Or.inl rfl)
  refine ⟨isHooked_traced, htrees, hjoined, ?_⟩
  rcases Workspace.programText_hooks isHooked_traced htrees hjoined with
    ⟨fault, -, hfault⟩ | ⟨bare, out, hbare, hout, hlines⟩
  · rw [programText_traced] at hfault
    cases hfault
  · rw [programText_untraced] at hbare
    rw [programText_traced] at hout
    rw [← Except.ok.inj hbare, ← Except.ok.inj hout] at hlines
    exact hlines

/-! ## A hook in the line of a value -/

/-- A variable that nothing holds, and an assignment behind it. -/
def tracedBehindValue : Workspace :=
  ⟨[], [tracedVariable (some tracedAssignment)], .default⟩

/-- A hook ahead of statements only. -/
def tracedAheadOptions : Options :=
  { Options.default with statementPrefix := .str "a(%1);\n" }

/-- The hook of the assignment goes on in the line of the value, and the assignment is in a line of
    its own. -/
theorem programText_tracedBehindValue :
    tracedAheadOptions.IsHooked "  " ∧
    (∀ b ∈ tracedBehindValue.blocks, b.IsHookableTree tracedAheadOptions) ∧
    tracedBehindValue.programText tracedAheadOptions.unhooked = .ok "xy = 0;\n;\n" ∧
    tracedBehindValue.programText tracedAheadOptions =
      .ok "a('get');\nxa('set');\ny = 0;\n;\n" ∧
    ¬ LinesInserted (tracedAheadOptions.IsHookLine "  " tracedBehindValue.HasId)
      (Text.lines "xy = 0;\n;\n".toList)
      (Text.lines "a('get');\nxa('set');\ny = 0;\n;\n".toList) := by
  refine ⟨?_, ?_, ?_, ?_, ?_⟩
  · constructor
    case hook =>
      intro setting hsetting
      rcases List.mem_cons.mp hsetting with rfl | hsetting
      · exact isHook_line "a(%1);" (by decide) (by decide)
      · have hnull : setting = .null := by
          simpa [tracedAheadOptions, Options.default] using hsetting
        exact Or.inl (hnull ▸ rfl)
    case indent => rfl
    case blank => exact fun c hc => Or.inl (by simpa using hc)
    case variablePrefix => rfl
  · intro b hb
    obtain rfl := List.mem_singleton.mp hb
    apply isHookableTree_tracedVariable
    rintro _ ⟨⟩
    exact ⟨rfl, isHookableTree_tracedAssignment⟩
  · with_unfolding_all rfl
  · with_unfolding_all rfl
  · -- The line of the program without hooks is missing.
    intro h
    have hline : "xy = 0;".toList ∈ Text.lines "xy = 0;\n;\n".toList := by decide
    exact absurd (h.sublist.subset hline) (by decide)

end BlockScript
