/-
  BlockScript.Proofs.Remark.Program

  The comments of a program. Two workspaces that are the same but for the wording of comments come to
  programs that are so, too: every comment of every block has a place of its own in the text, and what
  is around these places does not depend on the wording. So no comment is lost, and none is written
  twice.
-/
import BlockScript.Proofs.Remark.Block

namespace BlockScript

open Gen (Conveyed Conveys)
open Text (Apportioned Reworded Retold tidiedCommentLine)

/-! ## Cargo of many blocks -/

namespace Block

variable {o : Options} {l l' : List Block}

/-- The names that come with blocks are those of the procedures among them. -/
theorem fst_cargo (h : List.Forall₂ Rewords l l') : (cargo o l l').1 =
    ((l.filter fun b => b.kind.definesProcedure).map fun b =>
      Text.lower (b.head.field "NAME").shown : List String) := by
  induction h with
  | nil => rfl
  | @cons b b' rest rest' hfirst hrest ih =>
    rw [cargo_cons, Prod.fst_add, ih, nameOf, List.filter_cons]
    cases b.kind.definesProcedure with
    | false => exact zero_add _
    | true => exact Multiset.singleton_add _ _

/-- The comments that come with blocks are those ahead of their code. -/
theorem snd_cargo (h : List.Forall₂ Rewords l l') : (cargo o l l').2 =
    ((l.flatMap (remarksAhead o)).zip (l'.flatMap (remarksAhead o)) : List (String × String)) := by
  induction h with
  | nil => rfl
  | @cons b b' rest rest' hfirst hrest ih =>
    rw [cargo_cons, Prod.snd_add, ih, bothAhead, List.flatMap_cons, List.flatMap_cons,
      List.zip_append (hfirst.length_remarksAhead o), Multiset.coe_add]

theorem length_flatMap_remarksAhead (h : List.Forall₂ Rewords l l') :
    (l.flatMap (remarksAhead o)).length = (l'.flatMap (remarksAhead o)).length := by
  induction h with
  | nil => rfl
  | cons hfirst _ ih =>
    rw [List.flatMap_cons, List.flatMap_cons, List.length_append, List.length_append,
      hfirst.length_remarksAhead o, ih]

theorem forall₂_flatMap_standing (h : List.Forall₂ Rewords l l') :
    List.Forall₂ Rewords (l.flatMap standing) (l'.flatMap standing) := by
  induction h with
  | nil => exact .nil
  | cons hfirst _ ih =>
    rw [List.flatMap_cons, List.flatMap_cons]
    exact List.rel_append hfirst.standing ih

/-- What comes with trees is what comes with the blocks on their own in them. -/
theorem sum_cargo (h : List.Forall₂ Rewords l l') :
    (List.zipWith (fun b b' => cargo o b.standing b'.standing) l l').sum =
      cargo o (l.flatMap standing) (l'.flatMap standing) := by
  induction h with
  | nil => rfl
  | cons hfirst _ ih =>
    rw [List.zipWith_cons_cons, List.sum_cons, ih, List.flatMap_cons, List.flatMap_cons,
      cargo_append hfirst.standing.length_eq]

end Block

/-! ## Main text -/

namespace Text

/-- Two lines, or none on either side, that are the same but for the wording of comments. -/
def LineRetold (comments : Multiset (String × String)) : Option String → Option String → Prop
  | some s, some t => Retold comments s t
  | none, none => comments = 0
  | _, _ => False

/-- Where there is no text there are no comments. -/
theorem Retold.eq_zero {comments : Multiset (String × String)} {t : String}
    (h : Retold comments "" t) : comments = 0 :=
  Reworded.comments_eq_zero h rfl

/-- Lines that are left out have no comments. -/
theorem Apportioned.filterMap {comments : Multiset (String × String)}
    {lines lines' : List (Option String)} (h : Apportioned LineRetold comments lines lines') :
    Apportioned Retold comments (lines.filterMap fun line => line)
      (lines'.filterMap fun line => line) := by
  induction h with
  | nil => exact .nil
  | @cons first rest line line' lines lines' hfirst _ ih =>
    cases line <;> cases line'
    case none.none =>
      obtain rfl : first = 0 := hfirst
      rwa [zero_add]
    case some.some => exact .cons hfirst ih
    all_goals exact hfirst.elim

end Text

namespace Block

variable {o : Options} {b b' : Block}

/-- The line of a block that nothing holds. -/
theorem lineOf_conveys (h : b.Rewords b') (hb : b.IsPlacedTree)
    {given : Multiset (String × String)} {s t : String} (htext : Retold given s t) :
    Conveys o (b.lineOf s) (b'.lineOf t) (0, given) Text.LineRetold := by
  have houtput : b.head.hasOutput = b'.head.hasOutput := (h.alike hb false).hasOutput
  rw [lineOf, lineOf, ← houtput]
  by_cases hempty : s = ""
  · rw [if_pos hempty, if_pos (htext.eq_empty_iff.mp hempty)]
    exact .pure (hempty ▸ htext).eq_zero
  · rw [if_neg hempty, if_neg (mt htext.eq_empty_iff.mpr hempty)]
    split
    · apply (withHooks_conveys h hb false (htext.ahead ";\n")).bind_last
      exact fun given s t hline => .pure hline
    · exact Conveys.pure htext

/-- A tree that nothing holds conveys what comes with it. -/
theorem topLevelLine_conveys (h : b.Rewords b') (hb : b.IsOrderlyTree) :
    Conveys o b.topLevelLine b'.topLevelLine (cargo o b.standing b'.standing) Text.LineRetold := by
  have hinline : (b.site false).isInline = false := Bool.and_false _
  rw [topLevelLine_eq, topLevelLine_eq]
  apply (codeConveys h hb false hinline).bind_last
  intro given code code' hcode
  cases hcode with
  | statement htext => exact lineOf_conveys h hb.isPlacedTree htext
  | expression order htext => exact lineOf_conveys h hb.isPlacedTree htext

end Block

/-- The main text has the comments that are not in definitions. -/
theorem mainText_conveys {o : Options} {blocks blocks' : List Block}
    (h : List.Forall₂ Block.Rewords blocks blocks') (hblocks : ∀ b ∈ blocks, b.IsOrderlyTree) :
    Conveys o (Session.mainText blocks) (Session.mainText blocks')
      (Block.cargo o (blocks.flatMap Block.standing) (blocks'.flatMap Block.standing)) Retold := by
  have hlines : List.Forall₂ (fun b b' => Conveys o b.topLevelLine b'.topLevelLine
      (Block.cargo o b.standing b'.standing) Text.LineRetold) blocks blocks' := by
    refine ((List.forall₂_and_left _ _).mpr ⟨fun b hb => hb, h⟩).imp ?_
    rintro b b' ⟨hb, hrewords⟩
    exact Block.topLevelLine_conveys hrewords (hblocks b hb)
  rw [Session.mainText, Session.mainText, ← Block.sum_cargo h]
  apply (Conveys.mapM hlines).bind_last
  exact fun given lines lines' hall => .pure (Retold.join hall.filterMap "\n")

/-! ## Programs -/

/-- At the end of a pass the definitions go ahead of the main text, with the comments in them. -/
theorem Gen.finish_retold {I : Pass → Prop} {o : Options} {names : Multiset String}
    {kept given : Multiset (String × String)} {p q : Pass} (h : p.Laden I (names, kept) q)
    {s t : String} (htext : Retold given s t) :
    (∃ fault, Session.answer (Gen.onPass (fun p => p.finish s) o p) = .error fault ∧
        Session.answer (Gen.onPass (fun q => q.finish t) o q) = .error fault) ∨
      ∃ s' t', Session.answer (Gen.onPass (fun p => p.finish s) o p) = .ok (Text.tidy s') ∧
        Session.answer (Gen.onPass (fun q => q.finish t) o q) = .ok (Text.tidy t') ∧
        Retold (kept + given) s' t' := by
  have hactive : p.isActive = q.isActive := by rw [Pass.isActive, Pass.isActive, h.stage]
  by_cases hp : p.isActive = true
  · rw [onPass_apply _ hp, onPass_apply _ (hactive ▸ hp), Pass.finish, Pass.finish, h.stage]
    by_cases hfinished : q.stage = .finished
    · rw [if_pos hfinished, if_pos hfinished]
      exact Or.inl ⟨.passFinished, rfl, rfl⟩
    · rw [if_neg hfinished, if_neg hfinished]
      refine Or.inr ⟨_, _, rfl, rfl, ?_⟩
      exact ((Retold.join h.definitions.texts "\n\n").ahead "\n\n\n").append htext
  · rw [onPass_of_not_active _ hp, onPass_of_not_active _ (hactive ▸ hp)]
    exact Or.inl ⟨.noPass, rfl, rfl⟩

namespace Workspace

/-- The workspace with all comments blurred. -/
def blurred (w : Workspace) : Workspace :=
  { w with blocks := w.blocks.map Block.blurred }

/-- The comments of all blocks of the workspace. -/
def remarks (w : Workspace) (o : Options) : List String :=
  w.blocks.flatMap (Block.remarks o)

/-- The names of all procedures that the workspace defines, in lower case. -/
def procedureNames (w : Workspace) : List String :=
  w.blocks.flatMap Block.procedureNames

section
variable {w w' : Workspace} {o : Options}

/-- The comments of a workspace, in the order of the blocks that have them ahead. -/
theorem remarks_eq (h : ∀ b ∈ w.blocks, b.IsOrderlyTree) :
    w.remarks o = (w.blocks.flatMap Block.standing).flatMap (Block.remarksAhead o) := by
  rw [remarks, List.flatMap_assoc]
  exact List.flatMap_congr fun b hb => Block.remarks_eq (h b hb)

/-- The procedures among blocks on their own are procedures of the workspace. -/
theorem procedureNames_sublist (w : Workspace) :
    (((w.blocks.flatMap Block.standing).filter fun b => b.kind.definesProcedure).map fun b =>
      Text.lower (b.head.field "NAME").shown).Sublist w.procedureNames := by
  rw [procedureNames, List.filter_flatMap, List.map_flatMap]
  apply List.Sublist.flatMap_right
  intro b _
  have hstanding := b.standing_sublist
  rw [Block.chain_eq_descendants] at hstanding
  exact (hstanding.filter _).map _

theorem forall₂_rewords (h : w.blurred = w'.blurred) :
    List.Forall₂ Block.Rewords w.blocks w'.blocks :=
  Block.forall₂_of_map_eq (congrArg Workspace.blocks h)

end

/-- Two workspaces that are the same but for the wording of comments fail alike, or come to programs
    that are the same but for the wording of comments. If all blocks are orderly, and no two procedures
    have the same name, all comments of all blocks are in the programs, each of them once. -/
theorem programText_reworded {w w' : Workspace} {o : Options} (hsame : w.blurred = w'.blurred)
    (horderly : ∀ b ∈ w.blocks, b.IsOrderlyTree) (hnames : w.procedureNames.Nodup) :
    (∃ fault, w.programText o = .error fault ∧ w'.programText o = .error fault) ∨
      ∃ out out', w.programText o = .ok out ∧ w'.programText o = .ok out' ∧
        (w.remarks o).length = (w'.remarks o).length ∧
        Reworded tidiedCommentLine ((w.remarks o).zip (w'.remarks o) : List (String × String))
          out.toList out'.toList := by
  have hblocks := forall₂_rewords hsame
  have hstanding := Block.forall₂_flatMap_standing hblocks
  have horderly' : ∀ b' ∈ w'.blocks, b'.IsOrderlyTree := by
    intro b' hb'
    obtain ⟨b, hb, hrewords⟩ := exists_of_mem_forall₂ hblocks.flip b' hb'
    exact Block.Rewords.isOrderlyTree hrewords (horderly b hb)
  have hnodup : (Block.cargo o (w.blocks.flatMap Block.standing)
      (w'.blocks.flatMap Block.standing)).1.Nodup := by
    rw [Block.fst_cargo hstanding, Multiset.coe_nodup]
    exact hnames.sublist w.procedureNames_sublist
  have hstart : (Pass.start (.new reservedWords o.variablePrefix?) w.variableNames).Laden
      (fun p => p.registry.OneNamespace) 0
      (.start (.new reservedWords o.variablePrefix?) w'.variableNames) := by
    have hnames := Pass.oneNamespace_start (.new reservedWords o.variablePrefix?) w.variableNames
    have hvariables : w.variableNames = w'.variableNames :=
      (congrArg Workspace.variableNames hsame :)
    rw [← hvariables]
    exact ⟨rfl, rfl, rfl, rfl, .nil, hnames, hnames⟩
  -- The main text hands on the comments that are not in definitions; the end puts the two together.
  have hmain := mainText_conveys hblocks horderly Pass.isInvariant_oneNamespace _ _ _ hstart
    (by rwa [zero_add])
  rw [zero_add] at hmain
  rw [w.programText_eq, w'.programText_eq, Session.program, Session.program, Gen.bind_apply,
    Gen.bind_apply]
  generalize Session.mainText w.blocks o _ = result, Session.mainText w'.blocks o _ = result'
    at hmain ⊢
  cases hmain with
  | error fault => exact Or.inl ⟨fault, rfl, rfl⟩
  | ok hpass htext htotal =>
    rw [Block.snd_cargo hstanding, ← remarks_eq horderly, ← remarks_eq horderly'] at htotal
    rcases Gen.finish_retold (o := o) hpass htext with hfault | ⟨s, t, hs, ht, hst⟩
    · exact Or.inl hfault
    · refine Or.inr ⟨_, _, hs, ht, ?_, ?_⟩
      · rw [remarks_eq horderly, remarks_eq horderly']
        exact Block.length_flatMap_remarksAhead hstanding
      · rw [← htotal]
        exact Reworded.tidy hst

end Workspace

/-! ## Comments in every place -/

/-- A value with a comment. -/
def notedTruth (comment : String) : Block :=
  .mk ⟨.value .boolean, "truth", [(.str "BOOL", .str "TRUE")], .str comment, .bool true, true, []⟩
    [] [] none

/-- A value with another one in it, both with a comment. -/
def notedNegation (comment inner : String) : Block :=
  .mk ⟨.value .negate, "not", [], .str comment, .bool true, true, []⟩
    [("BOOL", some (notedTruth inner))] [] none

/-- A conditional return with a comment and one on its condition. -/
def notedReturn (comment inner : String) : Block :=
  .mk ⟨.statement .returnIf, "leave", [], .str comment, .bool false, true,
    [(.str "value", .bool false)]⟩ [("CONDITION", some (notedTruth inner))] [] none

/-- A procedure with a comment. -/
def notedProcedure (comment : String) (body : Block) : Block :=
  .mk ⟨.statement .procedure, "f", [(.str "NAME", .str "f")], .str comment, .bool false, true, []⟩
    [] [("STACK", some body)] none

/-- Comments on a value that nothing holds and on the value in it, on a procedure, on a statement in it
    and on the condition of that. -/
def noted (mark : String) : Workspace :=
  ⟨[], [notedNegation (mark ++ "a") (mark ++ "b"),
    notedProcedure (mark ++ "c") (notedReturn (mark ++ "d") (mark ++ "e"))], .default⟩

theorem isOrderlyTree_notedTruth (comment : String) : (notedTruth comment).IsOrderlyTree := by
  apply Block.isOrderlyTree_mk rfl rfl
  case hvalues => exact fun c hc => absurd hc List.not_mem_nil
  case hstatements => exact fun c hc => absurd hc List.not_mem_nil
  case hnext => exact fun c hc => absurd hc (Option.not_mem_none c)
  case hslots => exact List.nodup_nil
  case hread => exact fun slot hslot => absurd hslot List.not_mem_nil

/-- A block with one value in it. -/
theorem isOrderlyTree_of_notedTruth {head : Head} (houtput : head.output = .bool head.kind.isValue)
    (henabled : head.enabled = true) (slot inner : String) :
    (Block.mk head [(slot, some (notedTruth inner))] [] none).IsOrderlyTree := by
  apply Block.isOrderlyTree_mk houtput henabled
  case hvalues =>
    intro c hc
    obtain rfl := List.mem_singleton.mp hc
    exact ⟨rfl, rfl, isOrderlyTree_notedTruth inner⟩
  case hstatements => exact fun c hc => absurd hc List.not_mem_nil
  case hnext => exact fun c hc => absurd hc (Option.not_mem_none c)
  case hslots => exact List.nodup_nil
  case hread => exact fun slot hslot => absurd hslot List.not_mem_nil

theorem isOrderlyTree_notedProcedure (comment : String) {body : Block}
    (hkind : body.kind.isValue = false) (hbody : body.IsOrderlyTree) :
    (notedProcedure comment body).IsOrderlyTree := by
  apply Block.isOrderlyTree_mk rfl rfl
  case hvalues => exact fun c hc => absurd hc List.not_mem_nil
  case hstatements =>
    intro c hc
    obtain rfl := List.mem_singleton.mp hc
    exact ⟨hkind, hbody⟩
  case hnext => exact fun c hc => absurd hc (Option.not_mem_none c)
  case hslots => exact List.nodup_singleton "STACK"
  case hread =>
    intro slot hslot
    obtain rfl := List.mem_singleton.mp hslot
    exact List.mem_cons_self

theorem isOrderlyTree_of_mem_noted (mark : String) :
    ∀ b ∈ (noted mark).blocks, b.IsOrderlyTree := by
  intro b hb
  rcases List.mem_cons.mp hb with rfl | hb
  · exact isOrderlyTree_of_notedTruth rfl rfl _ _
  · obtain rfl := List.mem_singleton.mp hb
    exact isOrderlyTree_notedProcedure _ rfl (isOrderlyTree_of_notedTruth rfl rfl _ _)

set_option maxRecDepth 1000 in
theorem programText_noted : (noted "").programText .default = .ok
    ("// c\nfunction f() \x7b\n  // d\n  // e\n  if (true) \x7b\n    return;\n  \x7d\n\x7d\n\n\n" ++
      "// a\n// b\n!true;\n") := by
  with_unfolding_all rfl

set_option maxRecDepth 1000 in
theorem programText_noted_twice : (noted "n\n").programText .default = .ok
    ("// n\n// c\nfunction f() \x7b\n  // n\n  // d\n  // n\n  // e\n  if (true) \x7b\n" ++
      "    return;\n  \x7d\n\x7d\n\n\n// n\n// a\n// n\n// b\n!true;\n") := by
  with_unfolding_all rfl

/-- Comments of one line each, and the same ones behind another line. -/
theorem programText_reworded_noted :
    (noted "").blurred = (noted "n\n").blurred ∧ (noted "").procedureNames.Nodup ∧
    Reworded tidiedCommentLine
      ([("a", "n\na"), ("b", "n\nb"), ("c", "n\nc"), ("d", "n\nd"), ("e", "n\ne")] :
        List (String × String))
      ("// c\nfunction f() \x7b\n  // d\n  // e\n  if (true) \x7b\n    return;\n  \x7d\n\x7d\n\n\n" ++
      "// a\n// b\n!true;\n").toList
      ("// n\n// c\nfunction f() \x7b\n  // n\n  // d\n  // n\n  // e\n  if (true) \x7b\n" ++
      "    return;\n  \x7d\n\x7d\n\n\n// n\n// a\n// n\n// b\n!true;\n").toList := by
  have hsame : (noted "").blurred = (noted "n\n").blurred := by with_unfolding_all rfl
  have hnames : (noted "").procedureNames = ["f"] := by with_unfolding_all rfl
  have hnodup : (noted "").procedureNames.Nodup := hnames ▸ List.nodup_singleton "f"
  have hremarks : (noted "").remarks .default = ["a", "b", "c", "d", "e"] := by
    with_unfolding_all rfl
  have hremarks' : (noted "n\n").remarks .default = ["n\na", "n\nb", "n\nc", "n\nd", "n\ne"] := by
    with_unfolding_all rfl
  refine ⟨hsame, hnodup, ?_⟩
  rcases Workspace.programText_reworded (o := .default) hsame (isOrderlyTree_of_mem_noted "") hnodup
    with ⟨fault, hfault, -⟩ | ⟨out, out', hout, hout', -, hboth⟩
  · rw [programText_noted] at hfault
    cases hfault
  · rw [programText_noted] at hout
    rw [programText_noted_twice] at hout'
    rw [← Except.ok.inj hout, ← Except.ok.inj hout', hremarks, hremarks'] at hboth
    exact hboth

end BlockScript
