/-
  BlockScript.Proofs.Procedure.Call

  What the rules do about procedures. A block that calls a procedure writes the emitted name of the
  one that it names, with an argument for every parameter; a block that defines one leaves a text
  under the emitted name that declares it. Names are given out for good, so the pass behind the run
  says what every block did.
-/
import BlockScript.Proofs.Helper.Call

namespace BlockScript

open Definitions (procedureKey)

namespace Registry

variable {r : Registry}

/-- Whatever is provided, no definition is lost. -/
theorem hasKey_provide {key : String} (h : r.definitions.hasKey key = true)
    (indent : Except Fault String) (name : String) (template : List String) :
    (r.provide indent name template).registry.definitions.hasKey key = true := by
  rw [provide]
  cases r.helpers.lookup name with
  | some emitted => exact h
  | none =>
    simp only
    cases (r.names.distinct name .procedure).answer with
    | error fault => exact h
    | ok emitted =>
      cases indent with
      | error fault => exact h
      | ok lead => exact Definitions.hasKey_set_of_hasKey h

end Registry

namespace Pass

theorem isInvariant_hasKey (key : String) : IsInvariant (·.definitions.hasKey key = true) where
  record _ _ h := h
  name _ _ _ h := h
  provide _ indent name template h := Registry.hasKey_provide h indent name template
  define _ _ _ h := Definitions.hasKey_set_of_hasKey h

/-! ## Blocks and procedures -/

/-- The code of a block that calls the procedure that it names: the name that a pass emits for it, and
    the code of its slots, an argument for every parameter. -/
def CallsProcedure (p : Pass) (site : Site) (code : String) : Prop :=
  ∃ emitted parameters arguments, p.Emits .procedure (site.head.field "NAME").shown emitted ∧
    site.head.parameters = .ok parameters ∧ arguments.length = parameters.length ∧
    site.arguments.ComesTo arguments ∧ code = emitted ++ "(" ++ Text.join ", " arguments ++ ")"

/-- A block has defined the procedure that it names: under the name that a pass emits for it stands
    its text, which declares this name, behind the rule of the block, and there is one in the end. -/
def DefinesProcedure (final : Pass) (site : Site) (p : Pass) : Prop :=
  ∃ emitted text parameters, final.Emits .procedure (site.head.field "NAME").shown emitted ∧
    (∃ o, (site.procedureText o emitted).ComesTo text) ∧
    p.definitions.lookup (procedureKey emitted) = some text ∧ Declares text emitted parameters ∧
    final.definitions.hasKey (procedureKey emitted) = true

/-- What every block does about procedures, by what its rule gives and by the pass behind the rule: it
    calls or defines by the name that is emitted in the end. -/
structure LinksProcedures (final : Pass) (site : Site) (result : Option Code) (p : Pass) : Prop where
  call : site.kind = .value .call →
    ∃ code, result = some (.expression code .functionCall) ∧ final.CallsProcedure site code
  callStatement : site.kind = .statement .call →
    ∃ code, result = some (.statement (code ++ ";\n")) ∧ final.CallsProcedure site code
  define : site.kind.definesProcedure = true → result = none ∧ final.DefinesProcedure site p

section
variable {p q : Pass} {site : Site} (hq : p.LeadsTo q)
include hq

theorem CallsProcedure.mono {code : String} (h : p.CallsProcedure site code) :
    q.CallsProcedure site code := by
  obtain ⟨emitted, parameters, arguments, hemits, h⟩ := h
  exact ⟨emitted, parameters, arguments, hq _ (isInvariant_emits _ _ _) hemits, h⟩

theorem DefinesProcedure.mono {r : Pass} (h : p.DefinesProcedure site r) :
    q.DefinesProcedure site r := by
  obtain ⟨emitted, text, parameters, hemits, htext, hlookup, hdeclares, hkey⟩ := h
  exact ⟨emitted, text, parameters, hq _ (isInvariant_emits _ _ _) hemits, htext, hlookup, hdeclares,
    hq _ (isInvariant_hasKey _) hkey⟩

/-- What a block did by the names of a pass, it did by those of every pass that this one leads to. -/
theorem LinksProcedures.mono {result : Option Code} {r : Pass}
    (h : p.LinksProcedures site result r) : q.LinksProcedures site result r where
  call hkind := (h.call hkind).imp fun _ hcode => ⟨hcode.1, hcode.2.mono hq⟩
  callStatement hkind := (h.callStatement hkind).imp fun _ hcode => ⟨hcode.1, hcode.2.mono hq⟩
  define hkind := ⟨(h.define hkind).1, (h.define hkind).2.mono hq⟩

end

end Pass

/-! ## Rules -/

namespace Site

open Gen (Composed Concludes)

variable {site : Site}

/-- The arguments of a call are as many as its parameters. -/
theorem arguments_length : Concludes site.arguments fun arguments _ =>
    ∃ parameters, site.head.parameters = .ok parameters ∧ arguments.length = parameters.length := by
  apply Concludes.lift
  intro parameters hparameters o p q arguments hrun
  obtain ⟨-, hall⟩ := Gen.Allows.mapM (fun i _ => Gen.Allows.unknown (o := o) _) p arguments q trivial
    hrun
  have hlength := hall.length_eq
  rw [List.length_range] at hlength
  exact ⟨parameters, hparameters, hlength.symm⟩

/-- A call is by the emitted name of the procedure. -/
theorem call_links (h : site.HasComposedInputs) :
    Concludes site.call fun e q => e.2 = .functionCall ∧ q.CallsProcedure site e.1 := by
  intro o p r e hrun
  rw [call_eq] at hrun
  obtain ⟨emitted, p', hname, hrun⟩ := Gen.bind_eq_ok hrun
  obtain ⟨arguments, q, harguments, hpure⟩ := Gen.bind_eq_ok hrun
  obtain ⟨rfl, rfl⟩ := EStateM.Result.ok.inj hpure
  -- The name is given out ahead of the arguments, and kept while they are written.
  have hemits := Gen.emits_after hname (arguments_composed h)
  rw [Gen.passAfter_of_ok harguments] at hemits
  obtain ⟨parameters, hparameters, hlength⟩ := arguments_length _ _ _ _ harguments
  exact ⟨rfl, emitted, parameters, arguments, hemits, hparameters, hlength, ⟨_, _, _, harguments⟩, rfl⟩

/-- A definition leaves a text under the emitted name of the procedure. -/
theorem defineProcedure_links (h : site.HasComposedInputs) :
    Concludes site.defineProcedure fun _ q => q.DefinesProcedure site q := by
  intro o p s a hrun
  obtain ⟨emitted, q, text, r, hname, htext, hdefine⟩ := defineProcedure_eq_ok hrun
  have hemits := Gen.emits_after hname (procedureText_composed h o emitted)
  rw [Gen.passAfter_of_ok htext] at hemits
  obtain ⟨parameters, hdeclares⟩ := (site.procedureText_allows o emitted _ _ _ trivial htext).2
  obtain ⟨-, -, rfl⟩ := Gen.onPass_eq_ok hdefine
  exact ⟨emitted, text, parameters, hemits, ⟨o, _, _, _, htext⟩, Definitions.lookup_set_self,
    hdeclares, Definitions.hasKey_set_self⟩

/-- The rules for calls and definitions link, by the names of the pass behind them. -/
theorem rule_linksProcedures (h : site.HasComposedInputs) :
    Concludes site.rule fun result q => q.LinksProcedures site result q := by
  intro o p r result hrun
  constructor
  case call =>
    intro hkind
    rw [rule, hkind] at hrun
    obtain ⟨e, q, hcall, hpure⟩ := Gen.bind_eq_ok hrun
    obtain ⟨rfl, rfl⟩ := EStateM.Result.ok.inj hpure
    obtain ⟨horder, hcode⟩ := call_links h _ _ _ _ hcall
    exact ⟨e.1, by rw [← horder], hcode⟩
  case callStatement =>
    intro hkind
    rw [rule, hkind] at hrun
    obtain ⟨text?, q, hstatement, hpure⟩ := Gen.bind_eq_ok hrun
    obtain ⟨rfl, rfl⟩ := EStateM.Result.ok.inj hpure
    change (some <$> site.callStatement) o p = _ at hstatement
    rw [map_eq_pure_bind, callStatement, bind_assoc] at hstatement
    obtain ⟨e, q', hcall, hpure⟩ := Gen.bind_eq_ok hstatement
    obtain ⟨rfl, rfl⟩ := EStateM.Result.ok.inj hpure
    exact ⟨e.1, rfl, (call_links h _ _ _ _ hcall).2⟩
  case define =>
    intro hkind
    have hdefine : Concludes (do site.defineProcedure; pure (none : Option Code)) fun result q =>
        result = none ∧ q.DefinesProcedure site q := by
      intro o p r result hrun
      obtain ⟨a, q, hdefine, hpure⟩ := Gen.bind_eq_ok hrun
      obtain ⟨rfl, rfl⟩ := EStateM.Result.ok.inj hpure
      exact ⟨rfl, defineProcedure_links h _ _ _ _ hdefine⟩
    refine hdefine o p r result ?_
    rw [rule] at hrun
    cases hsort : site.kind with
    | value kind =>
      rw [hsort] at hkind
      cases hkind
    | statement kind =>
      rw [hsort] at hkind hrun
      cases kind with
      | function | procedure => simpa only [statement, bind_assoc, pure_bind, Option.map_none] using hrun
      | _ => cases hkind

end Site

end BlockScript
