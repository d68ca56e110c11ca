/-
  BlockScript.Proofs.Helper.Call

  What the rules write that may call a routine. By its fields a block asks for a routine or for none;
  its code calls the routine that was asked for, under the name by which it is provided and with an
  argument for every parameter, or it calls no routine. So it is throughout the run over a workspace,
  and whatever is provided is defined ahead of the main text, once and under a name of its own.
-/
import BlockScript.Proofs.Generate.Observed
import BlockScript.Proofs.Helper.Linkage

namespace BlockScript

/-! ## Calls -/

/-- A call of a routine by its emitted name. -/
structure Routine.Call where
  routine : Routine
  emitted : String
  arguments : List String

/-- The text of a call. -/
def Routine.Call.text (call : Routine.Call) : String :=
  call.emitted ++ "(" ++ Text.join ", " call.arguments ++ ")"

/-- What a pass answers to a call. -/
structure Pass.Answers (p : Pass) (call : Routine.Call) : Prop where
  provides : p.Provides call.routine call.emitted
  arguments : call.arguments.length = call.routine.parameters.length

/-- What an answered call comes to stays so. -/
theorem Pass.isInvariant_answers (call : Routine.Call) : IsInvariant (·.Answers call) where
  record _ _ h := ⟨h.provides, h.arguments⟩
  name _ _ _ h := ⟨h.provides, h.arguments⟩
  provide _ _ _ _ h := ⟨(isInvariant_provides _ _).provide _ _ _ _ h.provides, h.arguments⟩
  define _ _ _ h := ⟨h.provides, h.arguments⟩

/-- What a step comes to in some run of it. -/
def Gen.ComesTo {α : Type} (m : Gen α) (a : α) : Prop :=
  ∃ o p q, m o p = .ok a q

/-- Whether the rule for a kind of value may write the call of a routine. -/
def ValueKind.mayCallRoutine : ValueKind → Bool
  | .charAt | .substring | .changeCase | .count | .replace => true
  | _ => false

namespace Site

/-- What is written for the text in a slot. -/
def HasText (site : Site) (slot text : String) : Prop :=
  ∃ order, (site.valueOr slot order "''").ComesTo text

/-- The routine that a block of a kind asks for by its fields, and what it writes for the parameters:
    the code of its slots. -/
inductive AsksFor (site : Site) : ValueKind → Routine → List String → Prop
  | randomLetter {text : String} (hplace : site.charPlace = .str "RANDOM")
      (htext : site.HasText "VALUE" text) : AsksFor site .charAt .randomLetter [text]
  | subsequence {text : String} {start stop : Edge} {first last : List String}
      (hstart : site.optionAmong "WHERE1" startEdges = .ok start)
      (hstop : site.optionAmong "WHERE2" stopEdges = .ok stop)
      (hpart : ¬(start = .outermost ∧ stop = .outermost))
      (hlength : needsLength start stop = true) (hsimple : Literal.isSimple text = false)
      (htext : site.HasText "STRING" text) (hfirst : (site.edgeArgument "AT1" start).ComesTo first)
      (hlast : (site.edgeArgument "AT2" stop).ComesTo last) :
      AsksFor site .substring (.subsequence start stop) ([text] ++ first ++ last)
  | titleCase {text : String} (hcase : site.optionIn "CASE" caseChanges = .ok none)
      (htext : site.HasText "TEXT" text) : AsksFor site .changeCase .titleCase [text]
  | count {text part : String} (htext : site.HasText "TEXT" text) (hpart : site.HasText "SUB" part) :
      AsksFor site .count .count [text, part]
  | replace {text old new : String} (htext : site.HasText "TEXT" text)
      (hold : site.HasText "FROM" old) (hnew : site.HasText "TO" new) :
      AsksFor site .replace .replace [text, old, new]

/-- What is written for the beginning of a slice. -/
inductive HasFirst (site : Site) (text : String) : Edge → String → Prop
  | outermost : HasFirst site text .outermost "0"
  | fromStart {index : String} (hindex : (site.index "AT1").ComesTo index) :
      HasFirst site text .fromStart index
  | fromEnd {index : String} (hindex : (site.adjustedIndex "AT1" 1 false .subtraction).ComesTo index) :
      HasFirst site text .fromEnd (text ++ ".length - " ++ index)

/-- What is written for the end of a slice. -/
inductive HasLast (site : Site) (text : String) : Edge → String → Prop
  | outermost : HasLast site text .outermost (text ++ ".length")
  | fromStart {index : String} (hindex : (site.adjustedIndex "AT2" 1 false .none).ComesTo index) :
      HasLast site text .fromStart index
  | fromEnd {index : String} (hindex : (site.adjustedIndex "AT2" 0 false .subtraction).ComesTo index) :
      HasLast site text .fromEnd (text ++ ".length - " ++ index)

/-- What a block writes that may call a routine, by a pass that answers its calls: the call of the
    routine that it asks for, or a method or a part of its text, as its fields have it. -/
inductive Spelled (p : Pass) (site : Site) : ValueKind → String → Prop
  | call {kind : ValueKind} {call : Routine.Call}
      (hasked : site.AsksFor kind call.routine call.arguments) (hanswers : p.Answers call) :
      Spelled p site kind call.text
  | firstChar {text : String} (hplace : site.charPlace = .str "FIRST")
      (htext : site.HasText "VALUE" text) : Spelled p site .charAt (text ++ ".charAt(0)")
  | lastChar {text : String} (hplace : site.charPlace = .str "LAST")
      (htext : site.HasText "VALUE" text) : Spelled p site .charAt (text ++ ".slice(-1)")
  | charFromStart {text index : String} (hplace : site.charPlace = .str "FROM_START")
      (htext : site.HasText "VALUE" text) (hindex : (site.index "AT").ComesTo index) :
      Spelled p site .charAt (text ++ ".charAt(" ++ index ++ ")")
  | charFromEnd {text index : String} (hplace : site.charPlace = .str "FROM_END")
      (htext : site.HasText "VALUE" text)
      (hindex : (site.adjustedIndex "AT" 1 true .none).ComesTo index) :
      Spelled p site .charAt (text ++ ".slice(" ++ index ++ ").charAt(0)")
  | wholeText {text : String} (hstart : site.optionAmong "WHERE1" startEdges = .ok .outermost)
      (hstop : site.optionAmong "WHERE2" stopEdges = .ok .outermost)
      (htext : site.HasText "STRING" text) : Spelled p site .substring text
  | slice {text first last : String} {start stop : Edge}
      (hstart : site.optionAmong "WHERE1" startEdges = .ok start)
      (hstop : site.optionAmong "WHERE2" stopEdges = .ok stop)
      (hinline : Literal.isSimple text = true ∨ needsLength start stop = false)
      (htext : site.HasText "STRING" text) (hfirst : site.HasFirst text start first)
      (hlast : site.HasLast text stop last) :
      Spelled p site .substring (text ++ ".slice(" ++ first ++ ", " ++ last ++ ")")
  | changedCase {call text : String} (hcase : site.optionIn "CASE" caseChanges = .ok (some call))
      (htext : site.HasText "TEXT" text) : Spelled p site .changeCase (text ++ call)

/-- What was spelled by a pass is so by every pass that this one leads to. -/
theorem Spelled.mono {site : Site} {p q : Pass} {kind : ValueKind} {text : String}
    (h : site.Spelled p kind text) (hq : p.LeadsTo q) : site.Spelled q kind text := by
  cases h with
  | call hasked hanswers => exact .call hasked (hq _ (Pass.isInvariant_answers _) hanswers)
  | firstChar hplace htext => exact .firstChar hplace htext
  | lastChar hplace htext => exact .lastChar hplace htext
  | charFromStart hplace htext hindex => exact .charFromStart hplace htext hindex
  | charFromEnd hplace htext hindex => exact .charFromEnd hplace htext hindex
  | wholeText hstart hstop htext => exact .wholeText hstart hstop htext
  | slice hstart hstop hinline htext hfirst hlast =>
    exact .slice hstart hstop hinline htext hfirst hlast
  | changedCase hcase htext => exact .changedCase hcase htext

end Site

/-- Whether the calls of routines in the code of a block are answered by a pass, whatever code it has
    by its rule. -/
def Pass.AnswersCalls (p : Pass) (site : Site) (result : Option Code) : Prop :=
  ∀ kind, site.kind = .value kind → kind.mayCallRoutine = true →
    ∃ text order, result = some (.expression text order) ∧ site.Spelled p kind text

/-! ## Rules -/

namespace Gen

variable {α β : Type}

/-- What is so of the result of a step, and of the pass behind it, whenever the step does not fail. -/
def Concludes (m : Gen α) (P : α → Pass → Prop) : Prop :=
  ∀ o p q a, m o p = .ok a q → P a q

namespace Concludes

variable {P : α → Pass → Prop}

theorem pure {a : α} (h : ∀ q, P a q) : Concludes (pure a) P := by
  intro o p q b hrun
  obtain ⟨rfl, rfl⟩ := EStateM.Result.ok.inj hrun
  exact h p

theorem throw (fault : Fault) : Concludes (throw fault) P := by
  intro o p q a hrun
  cases hrun

/-- The last step decides, on what the first one comes to. -/
theorem bind {m : Gen β} {f : β → Gen α} (hf : ∀ b, m.ComesTo b → Concludes (f b) P) :
    Concludes (m >>= f) P := by
  intro o p r a hrun
  obtain ⟨b, q, hfirst, hlast⟩ := bind_eq_ok hrun
  exact hf b ⟨o, p, q, hfirst⟩ o q r a hlast

/-- Where an option is looked up, it is known in what follows. -/
theorem lift {result : Except Fault β} {f : β → Gen α} (hf : ∀ b, result = .ok b → Concludes (f b) P) :
    Concludes (Gen.lift result >>= f) P := by
  cases result with
  | error fault => exact throw fault
  | ok b => exact hf b rfl

end Concludes

end Gen

namespace Site

open Gen (Concludes callRoutine)

variable {site : Site}

/-- A call of the routine that was asked for is answered, if it has all its arguments. -/
theorem callRoutine_spelled {kind : ValueKind} {routine : Routine} {arguments : List String}
    (hasked : site.AsksFor kind routine arguments)
    (h : arguments.length = routine.parameters.length) :
    Concludes (callRoutine routine arguments) fun e q => site.Spelled q kind e.1 := by
  intro o p r e hrun
  obtain ⟨emitted, q, hhelper, hpure⟩ := Gen.bind_eq_ok hrun
  obtain ⟨rfl, rfl⟩ := EStateM.Result.ok.inj hpure
  obtain ⟨hanswer, rfl⟩ := Gen.helper_eq_ok hhelper
  have hprovides := Pass.provides_of_provide hanswer
  let call : Routine.Call := ⟨routine, emitted, arguments⟩
  have hanswers : Pass.Answers _ call := ⟨hprovides, h⟩
  exact .call hasked hanswers

theorem charAt_spelled : Concludes site.charAt fun e q => site.Spelled q .charAt e.1 := by
  rw [charAt]
  generalize hplace : (if (site.head.field "WHERE").isTruthy then site.head.field "WHERE"
    else .str "FROM_START") = place
  apply Concludes.bind
  intro text htext
  split
  · exact .pure fun _ => .firstChar hplace ⟨_, htext⟩
  · exact .pure fun _ => .lastChar hplace ⟨_, htext⟩
  · exact .bind fun index hindex => .pure fun _ => .charFromStart hplace ⟨_, htext⟩ hindex
  · exact .bind fun index hindex => .pure fun _ => .charFromEnd hplace ⟨_, htext⟩ hindex
  · have hcall : Concludes (callRoutine .randomLetter [text]) fun e q =>
        site.Spelled q .charAt e.1 := callRoutine_spelled (.randomLetter hplace ⟨_, htext⟩) rfl
    exact hcall
  · exact .throw _

/-- An edge has an argument, unless it is an end of the text. -/
theorem edgeArgument_length (slot : String) (edge : Edge) :
    Concludes (site.edgeArgument slot edge) fun arguments _ =>
      arguments.length = if edge = .outermost then 0 else 1 := by
  rw [edgeArgument]
  split
  · exact .pure fun _ => rfl
  · exact .bind fun index _ => .pure fun _ => rfl

theorem helperSubstring_spelled {text : String} {start stop : Edge}
    (hasked : ∀ first last, (site.edgeArgument "AT1" start).ComesTo first →
      (site.edgeArgument "AT2" stop).ComesTo last →
        site.AsksFor .substring (.subsequence start stop) ([text] ++ first ++ last)) :
    Concludes (site.helperSubstring text start stop) fun e q => site.Spelled q .substring e.1 := by
  rw [helperSubstring_eq_callRoutine]
  intro o p s e hrun
  obtain ⟨first, q, hfirst, hrun⟩ := Gen.bind_eq_ok hrun
  obtain ⟨last, r, hlast, hcall⟩ := Gen.bind_eq_ok hrun
  have hlengths := edgeArgument_length _ _ _ _ _ _ hfirst
  have hlengths' := edgeArgument_length _ _ _ _ _ _ hlast
  refine callRoutine_spelled (hasked first last ⟨_, _, _, hfirst⟩ ⟨_, _, _, hlast⟩) ?_ _ _ _ _ hcall
  rw [List.length_append, List.length_append, hlengths, hlengths']
  cases start <;> cases stop <;> rfl

/-- A slice is spelled at its text, behind the index at which it begins. -/
theorem sliceFrom_spelled {text first : String} {stop : Edge}
    (hspelled : ∀ last, site.HasLast text stop last → ∀ p, site.Spelled p .substring
      (text ++ ".slice(" ++ first ++ ", " ++ last ++ ")")) :
    Concludes (site.sliceFrom text first stop) fun e q => site.Spelled q .substring e.1 := by
  cases stop with
  | outermost => exact .pure (hspelled _ .outermost)
  | fromStart => exact .bind fun last hlast => .pure (hspelled last (.fromStart hlast))
  | fromEnd => exact .bind fun index hindex => .pure (hspelled _ (.fromEnd hindex))

theorem inlineSubstring_spelled {text : String} {start stop : Edge}
    (hstart : site.optionAmong "WHERE1" startEdges = .ok start)
    (hstop : site.optionAmong "WHERE2" stopEdges = .ok stop)
    (hinline : Literal.isSimple text = true ∨ needsLength start stop = false)
    (htext : site.HasText "STRING" text) :
    Concludes (site.inlineSubstring text start stop) fun e q => site.Spelled q .substring e.1 := by
  have hrest : ∀ first, site.HasFirst text start first →
      Concludes (site.sliceFrom text first stop) fun e q => site.Spelled q .substring e.1 :=
    fun first hfirst => sliceFrom_spelled fun last hlast _ =>
      .slice hstart hstop hinline htext hfirst hlast
  rw [inlineSubstring_eq]
  cases start with
  | outermost => exact hrest "0" .outermost
  | fromStart => exact .bind fun first hfirst => hrest first (.fromStart hfirst)
  | fromEnd => exact .bind fun index hindex => hrest _ (.fromEnd hindex)

theorem substring_spelled : Concludes site.substring fun e q => site.Spelled q .substring e.1 := by
  rw [substring]
  apply Concludes.lift
  intro start hstart
  apply Concludes.lift
  intro stop hstop
  apply Concludes.bind
  intro text htext
  have htext : site.HasText "STRING" text := ⟨_, htext⟩
  -- The whole text, a slice of it where that can be written, or a helper.
  split
  · rename_i hwhole
    simp only [Bool.and_eq_true, decide_eq_true_eq] at hwhole
    exact .pure fun _ => .wholeText (hwhole.1 ▸ hstart) (hwhole.2 ▸ hstop) htext
  · rename_i hpart
    simp only [Bool.and_eq_true, decide_eq_true_eq] at hpart
    change Concludes (if Literal.isSimple text || !needsLength start stop then _ else _) _
    split
    · rename_i hinline
      rw [Bool.or_eq_true, Bool.not_eq_true'] at hinline
      exact inlineSubstring_spelled hstart hstop hinline htext
    · rename_i hhelper
      rw [Bool.or_eq_true, Bool.not_eq_true', not_or, Bool.not_eq_true, Bool.not_eq_false] at hhelper
      obtain ⟨hsimple, hlength⟩ := hhelper
      exact helperSubstring_spelled fun first last =>
        .subsequence hstart hstop hpart hlength hsimple htext

theorem changeCase_spelled :
    Concludes site.changeCase fun e q => site.Spelled q .changeCase e.1 := by
  rw [changeCase]
  apply Concludes.lift
  intro call? hcase
  cases call? with
  | some call => exact .bind fun text htext => .pure fun _ => .changedCase hcase ⟨_, htext⟩
  | none =>
    apply Concludes.bind
    intro text htext
    have hcall : Concludes (callRoutine .titleCase [text]) fun e q =>
        site.Spelled q .changeCase e.1 := callRoutine_spelled (.titleCase hcase ⟨_, htext⟩) rfl
    exact hcall

theorem count_spelled : Concludes site.count fun e q => site.Spelled q .count e.1 := by
  rw [count_eq_callRoutine]
  exact .bind fun text htext => .bind fun part hpart =>
    callRoutine_spelled (.count ⟨_, htext⟩ ⟨_, hpart⟩) rfl

theorem replace_spelled : Concludes site.replace fun e q => site.Spelled q .replace e.1 := by
  rw [replace_eq_callRoutine]
  exact .bind fun text htext => .bind fun old hold => .bind fun new hnew =>
    callRoutine_spelled (.replace ⟨_, htext⟩ ⟨_, hold⟩ ⟨_, hnew⟩) rfl

/-- Every rule that may call a routine writes its call, or calls none. -/
theorem expression_spelled {kind : ValueKind} (hkind : kind.mayCallRoutine = true) :
    Concludes (site.expression kind) fun e q => site.Spelled q kind e.1 := by
  cases kind with
  | charAt => exact charAt_spelled
  | substring => exact substring_spelled
  | changeCase => exact changeCase_spelled
  | count => exact count_spelled
  | replace => exact replace_spelled
  | _ => cases hkind

/-- The calls in what a rule gives are answered by the pass behind it. -/
theorem rule_answersCalls : Concludes site.rule fun result q => q.AnswersCalls site result := by
  intro o p r result hrun kind hkind hcalls
  rw [rule, hkind] at hrun
  obtain ⟨e, q, hexpression, hpure⟩ := Gen.bind_eq_ok hrun
  obtain ⟨rfl, rfl⟩ := EStateM.Result.ok.inj hpure
  exact ⟨e.1, e.2, rfl, expression_spelled hcalls _ _ _ _ hexpression⟩

end Site

/-! ## Programs -/

namespace Workspace

/-- The linkage of helpers: a program without a prefix for variables is its definitions and its main
    text. Throughout the run every block of a kind that may call a routine calls the one that it asks
    for, by the name under which the pass provides it and with an argument for every parameter, or it
    is written with a method of its text and asks for none; all else in its code is the code of its
    slots. Whatever is provided has a definition of its own ahead of the main text, with the
    parameters of the routine. No other definition declares that name, and no variable and no
    procedure of the user has it. One routine is provided under one name, and under one name there is
    one routine. -/
theorem helpers_linked (w : Workspace) {o : Options} (ho : o.variablePrefix = .str "") {out : String}
    (h : w.programText o = .ok out) :
    (∃ main,
      Session.mainText w.blocks o (.start (.new reservedWords o.variablePrefix?) w.variableNames) =
        .ok main (w.passBehind o) ∧
      out = Text.tidy (Text.join "\n\n" (w.passBehind o).definitions.texts ++ "\n\n\n" ++ main)) ∧
    (w.Throughout o fun site result _ => (w.passBehind o).AnswersCalls site result) ∧
    (∀ routine emitted, (w.passBehind o).Provides routine emitted →
      (∃ before text after, (w.passBehind o).definitions.texts = before ++ text :: after ∧
        Declares text emitted routine.parameters ∧
        ∀ other ∈ before ++ after, ∀ parameters, ¬ Declares other emitted parameters) ∧
      ∀ category source, ¬ (w.passBehind o).Emits category source emitted) ∧
    ∀ routine routine' emitted emitted', (w.passBehind o).Provides routine emitted →
      (w.passBehind o).Provides routine' emitted' → (emitted = emitted' ↔ routine = routine') := by
  have hlinked := linked_passBehind h
  have hnames := w.oneNamespace_passBehind o
  have hsetting : ∀ category, (w.passBehind o).names.prefixFor category = .ok "" := by
    intro category
    have hvariable := w.prefixFor_userVariable_passBehind ho
    cases category with
    | userVariable => exact hvariable
    | developerVariable => exact hvariable
    | procedure => rfl
  refine ⟨?_, ?_, ?_, ?_⟩
  · obtain ⟨main, q, hmain, rfl⟩ := exists_mainText h
    have hbehind : w.passBehind o = q := Gen.passAfter_of_ok hmain
    exact ⟨main, hbehind ▸ hmain, hbehind ▸ rfl⟩
  · apply throughout h
    intro b attached o' p q result hq hrun kind hkind hcalls
    obtain ⟨text, order, hresult, hspelled⟩ :=
      Site.rule_answersCalls _ _ _ _ hrun kind hkind hcalls
    exact ⟨text, order, hresult, hspelled.mono hq⟩
  · intro routine emitted hprovides
    exact ⟨hlinked.exists_definition hnames hprovides,
      fun category => hprovides.not_emits hnames (hsetting category)⟩
  · intro routine routine' emitted emitted' hprovides hprovides'
    constructor
    · rintro rfl
      exact hprovides.routine_eq hnames hprovides'
    · rintro rfl
      exact Option.some.inj (hprovides.symm.trans hprovides')

end Workspace

/-- A text block that counts, without texts to count in. -/
def counted (id : String) : Block :=
  .mk ⟨.value .count, id, [], .null, .bool true, true, []⟩ [] [] none

/-- A variable and a procedure that are both called as the routine is that they call. -/
def countedTwice : Workspace where
  variableNames := []
  blocks := [
    .mk ⟨.statement .assign, "set", [(.str "VAR", .str "textCount")], .null, .bool false, true, []⟩
      [("VALUE", some (counted "first"))] [] none,
    .mk ⟨.statement .function, "define", [(.str "NAME", .str "textCount")], .null, .bool false, true,
        []⟩
      [("RETURN", some (counted "second"))] [] none]
  options := .default

/-- The routine has the name that it is asked for by. -/
theorem provides_countedTwice : (countedTwice.passBehind .default).Provides .count "textCount" := by
  with_unfolding_all rfl

theorem helpers_linked_countedTwice :
    Options.default.variablePrefix = .str "" ∧
    ∃ out, countedTwice.programText .default = .ok out ∧
      (countedTwice.Throughout .default fun site result _ =>
        (countedTwice.passBehind .default).AnswersCalls site result) ∧
      (∃ before text after,
        (countedTwice.passBehind .default).definitions.texts = before ++ text :: after ∧
        Declares text "textCount" ["haystack", "needle"] ∧
        ∀ other ∈ before ++ after, ∀ parameters, ¬ Declares other "textCount" parameters) ∧
      ∀ category source, ¬ (countedTwice.passBehind .default).Emits category source "textCount" := by
  have hrun : ∃ out, countedTwice.programText .default = .ok out := ⟨_, by with_unfolding_all rfl⟩
  obtain ⟨out, hout⟩ := hrun
  obtain ⟨-, hcalls, hdefined, -⟩ := countedTwice.helpers_linked (o := .default) rfl hout
  exact ⟨rfl, out, hout, hcalls, hdefined .count "textCount" provides_countedTwice⟩

-- What is checked at the blocks that count stops the run if they do not pass.
example : ∃ q, Session.observedText
    (fun site _ => if site.kind = .value .count then throw .noPass else pure ()) countedTwice.blocks
    .default (.start (.new reservedWords (some "")) []) = .error .noPass q :=
  ⟨_, by with_unfolding_all rfl⟩

end BlockScript
