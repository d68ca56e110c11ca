/-
  BlockScript.Proofs.Generate.Congruence

  Relations of steps that every way to put steps together keeps. A rule sees of its block the data of
  the head and what the inputs give, so two blocks with the same data and with related inputs have
  related code. The rules are gone through once, here; what is to hold of all code, or of the code of
  two blocks, is then shown of the few steps on a pass.
-/
import BlockScript.Proofs.Generate.Bounds
import BlockScript.Proofs.Generate.Inputs
import BlockScript.Proofs.Helper.Routine
import BlockScript.Proofs.Literal.Placement

namespace BlockScript

namespace Gen

/-- What is shown of results and of faults is shown of a result that may be a fault. -/
theorem lift_cases {α : Type} {P : Gen α → Prop} (hpure : ∀ a, P (pure a))
    (hthrow : ∀ fault, P (throw fault)) (result : Except Fault α) : P (lift result) := by
  cases result with
  | ok a => exact hpure a
  | error fault => exact hthrow fault

/-- A call of a procedure of the user, which is named before its arguments are written. -/
def callProcedure (source : String) (arguments : Gen (List String)) : Gen Expression := do
  let name ← procedureName source
  let arguments ← arguments
  return (name ++ "(" ++ Text.join ", " arguments ++ ")", .functionCall)

/-- A relation of steps that is kept where steps are put together, and that relates the steps on a
    pass to themselves, those for variables and for definitions apart. The settings may differ on the
    two sides, as far as they are paired. Faults are related within bounds; the wrapping of comments,
    which may go beyond them, is a step of its own. -/
structure Congruence (E : Options → Options → Prop) (R : {α : Type} → Gen α → Gen α → Prop) :
    Prop where
  pure : ∀ {α : Type} (a : α), R (pure a) (pure a)
  throw : ∀ {α : Type} (fault : Fault), fault.isBeyond = false →
    R (throw fault : Gen α) (throw fault)
  bind : ∀ {α β : Type} {m m' : Gen α} {f f' : α → Gen β}, R m m' → (∀ a, R (f a) (f' a)) →
    R (m >>= f) (m' >>= f')
  options : ∀ {α : Type} {f f' : Options → Gen α}, (∀ o o', E o o' → R (f o) (f' o')) →
    R (Gen.options >>= f) (Gen.options >>= f')
  wrapped : ∀ text {o o' : Options} {width : Number}, E o o' →
    Site.commentWidth o'.commentWrap = .ok width →
    R (Gen.lift (Site.wrapped text width)) (Gen.lift (Site.wrapped text width))
  requirePass : R Gen.requirePass Gen.requirePass
  record : ∀ entry, R (Gen.record entry) (Gen.record entry)
  call : ∀ (source : String) {arguments arguments' : Gen (List String)}, R arguments arguments' →
    R (callProcedure source arguments) (callProcedure source arguments')
  routine : ∀ (routine : Routine) arguments, arguments.length = routine.parameters.length →
    R (callRoutine routine arguments) (callRoutine routine arguments)

namespace Congruence

variable {E : Options → Options → Prop} {R : {α : Type} → Gen α → Gen α → Prop} {α β : Type}

theorem lift (h : Congruence E R) {result : Except Fault α} (hresult : Fault.Bounds result) :
    R (Gen.lift result) (Gen.lift result) := by
  cases result with
  | ok a => exact h.pure a
  | error fault => exact h.throw fault (hresult fault rfl)

/-- What comes behind a look at the data finds what is there. -/
theorem lift_bind (h : Congruence E R) {result : Except Fault α} (hresult : Fault.Bounds result)
    {f f' : α → Gen β} (hf : ∀ a, result = .ok a → R (f a) (f' a)) :
    R (Gen.lift result >>= f) (Gen.lift result >>= f') := by
  cases result with
  | ok a =>
    rw [Gen.lift, pure_bind, pure_bind]
    exact hf a rfl
  | error fault =>
    have hthrow := h.throw fault (hresult fault rfl) (α := β)
    rw [Gen.lift]
    exact hthrow

theorem map (h : Congruence E R) {m m' : Gen α} (hm : R m m') (f : α → β) : R (f <$> m) (f <$> m') := by
  rw [map_eq_pure_bind, map_eq_pure_bind]
  exact h.bind hm fun a => h.pure (f a)

/-- Related steps for every item of a list. -/
theorem mapM (h : Congruence E R) {f f' : α → Gen β} {l : List α} (hf : ∀ a ∈ l, R (f a) (f' a)) :
    R (l.mapM f) (l.mapM f') := by
  induction l with
  | nil =>
    rw [List.mapM_nil, List.mapM_nil]
    exact h.pure []
  | cons a rest ih =>
    rw [List.mapM_cons, List.mapM_cons]
    have hrest := ih fun b hb => hf b (List.mem_cons_of_mem a hb)
    exact h.bind (hf a List.mem_cons_self) fun b => h.bind hrest fun bs => h.pure (b :: bs)

/-- Steps that are equal. -/
theorem eq : Congruence Eq fun m m' => m = m' where
  pure _ := rfl
  throw _ _ := rfl
  wrapped _ _ _ _ _ _ := rfl
  bind hm hf := congrArg₂ _ hm (funext hf)
  options hf := congrArg _ (funext fun o => hf o o rfl)
  requirePass := rfl
  record _ := rfl
  call source := congrArg (callProcedure source)
  routine _ _ _ := rfl

end Congruence

end Gen

/-- Whether the rule for a kind of statement writes values, names and fixed pieces only. -/
def StatementKind.isPlain : StatementKind → Bool
  | .call | .append | .print | .assign | .assignDynamic => true
  | .conditional | .conditionalElse | .function | .procedure | .returnIf => false

/-- Whether the rule for a kind of block writes the name of the variable that the block is about. -/
def Kind.namesVariable : Kind → Bool
  | .value .getVariable | .value .getDynamic => true
  | .statement .append | .statement .assign | .statement .assignDynamic => true
  | _ => false

/-- Whether the rule for a kind of block defines a procedure. -/
def Kind.definesProcedure : Kind → Bool
  | .statement .function | .statement .procedure => true
  | _ => false

/-- The settings that give hooks. -/
def Options.hooks (o : Options) : List Json :=
  [o.statementPrefix, o.statementSuffix, o.loopTrap]

/-! ## Blocks with related inputs -/

/-- Two blocks with the same data, apart from ids, comments and the variable that they are about, of
    which the records are related, and what the value slots give. -/
structure Site.Paired (R : {α : Type} → Gen α → Gen α → Prop) (s t : Site) : Prop where
  kind : s.kind = t.kind
  record : ∀ event subject detail,
    R (Gen.record ⟨event, some s.id, subject, detail⟩) (Gen.record ⟨event, some t.id, subject, detail⟩)
  fields : ∀ name, name ≠ "VAR" → s.head.fields.get? name = t.head.fields.get? name
  mutation : s.head.mutation = t.head.mutation
  value : ∀ name outer, R (s.value name outer) (t.value name outer)

/-- Two blocks for which the hooks have the same texts. -/
def Site.SameHooks (E : Options → Options → Prop) (s t : Site) : Prop :=
  ∀ o o', E o o' → ∀ setting ∈ o'.hooks, s.hookText setting = t.hookText setting

/-- Blocks with the same hooks, of which the chains give what is related, too. -/
structure Site.Matched (E : Options → Options → Prop) (R : {α : Type} → Gen α → Gen α → Prop)
    (s t : Site) : Prop extends Site.Paired R s t where
  hooks : Site.SameHooks E s t
  chain : ∀ name, R (s.chain name) (t.chain name)
  hasSlot : ∀ name, s.hasSlot name = t.hasSlot name
  slots : s.values.length + s.statements.length = t.values.length + t.statements.length

/-- Two inputs of one kind with related code. -/
structure Input.Related (R : {α : Type} → Gen α → Gen α → Prop) (i j : Input) : Prop where
  kind : i.block.kind = j.block.kind
  code : R i.code j.code

namespace Site

open Gen (Congruence callRoutine)

variable {E : Options → Options → Prop} {R : {α : Type} → Gen α → Gen α → Prop} {s t : Site}

/-! ## Ids -/

/-- Blocks of one id have related records. -/
theorem record_of_id (h : Congruence E R) (hid : s.id = t.id) (event : Event)
    (subject detail : String) : R (Gen.record ⟨event, some s.id, subject, detail⟩)
      (Gen.record ⟨event, some t.id, subject, detail⟩) := by
  rw [hid]
  exact h.record _

/-- Blocks of one id have the same hooks. -/
theorem SameHooks.of_id (hid : s.id = t.id) : SameHooks E s t := by
  intro o o' _ setting _
  simp only [hookText, hid]

section
variable (hhooks : SameHooks E s t) {o o' : Options} (ho : E o o')
include hhooks ho

theorem SameHooks.statementPrefix : s.hookText o'.statementPrefix = t.hookText o'.statementPrefix :=
  hhooks o o' ho _ (by simp [Options.hooks])

theorem SameHooks.statementSuffix : s.hookText o'.statementSuffix = t.hookText o'.statementSuffix :=
  hhooks o o' ho _ (by simp [Options.hooks])

theorem SameHooks.loopTrap : s.hookText o'.loopTrap = t.hookText o'.loopTrap :=
  hhooks o o' ho _ (by simp [Options.hooks])

end

/-! ## Inputs -/

/-- What a value slot makes of the code of its block. -/
def plugged (kind : Kind) (outer : Order) : Code → Gen String
  | .expression text order => return Order.wrap text outer order
  | .statement text => if text = "" then return "" else throw (.statementInValueSlot kind)

theorem value_eq (site : Site) (name : String) (outer : Order) :
    site.value name outer = match inSlot site.values name with
      | none => pure ""
      | some input => input.code >>= plugged input.block.kind outer := rfl

/-- What a statement slot makes of the code of its chain. -/
def chainLines (kind : Kind) : Code → Gen String
  | .statement text => if text = "" then return "" else indented text
  | .expression _ _ => throw (.valueInStatementSlot kind)

theorem chain_eq (site : Site) (name : String) :
    site.chain name = match inSlot site.statements name with
      | none => pure ""
      | some input => input.code >>= chainLines input.block.kind := rfl

theorem plugged_related (h : Congruence E R) (kind : Kind) (outer : Order) (code : Code) :
    R (plugged kind outer code) (plugged kind outer code) := by
  cases code with
  | expression text order => exact h.pure _
  | statement text =>
    rw [plugged]
    split
    · exact h.pure ""
    · exact h.throw _ rfl

theorem indented_related (h : Congruence E R) (hE : ∀ o o', E o o' → o = o') (text : String) :
    R (indented text) (indented text) := by
  apply h.options
  intro o o' ho
  rw [hE o o' ho]
  apply h.bind (h.lift o'.indentText_bounds)
  exact fun lead => h.lift (Text.prefixLines_bounds text lead)

theorem chainLines_related (h : Congruence E R) (hE : ∀ o o', E o o' → o = o') (kind : Kind)
    (code : Code) : R (chainLines kind code) (chainLines kind code) := by
  cases code with
  | expression text order => exact h.throw _ rfl
  | statement text =>
    rw [chainLines]
    split
    · exact h.pure ""
    · exact indented_related h hE text

/-- A slot with related blocks gives what is related. -/
theorem value_related (h : Congruence E R) {name : String}
    (hslot : Option.Rel (Input.Related R) (inSlot s.values name) (inSlot t.values name))
    (outer : Order) : R (s.value name outer) (t.value name outer) := by
  rw [value_eq, value_eq]
  generalize inSlot s.values name = input, inSlot t.values name = input' at hslot
  cases hslot with
  | none => exact h.pure ""
  | some hinput =>
    simp only [hinput.kind]
    exact h.bind hinput.code (plugged_related h _ outer)

theorem chain_related (h : Congruence E R) (hE : ∀ o o', E o o' → o = o') {name : String}
    (hslot : Option.Rel (Input.Related R) (inSlot s.statements name) (inSlot t.statements name)) :
    R (s.chain name) (t.chain name) := by
  rw [chain_eq, chain_eq]
  generalize inSlot s.statements name = input, inSlot t.statements name = input' at hslot
  cases hslot with
  | none => exact h.pure ""
  | some hinput =>
    simp only [hinput.kind]
    exact h.bind hinput.code (chainLines_related h hE _)

theorem nextCode_related (h : Congruence E R)
    (hnext : Option.Rel (Input.Related R) s.next t.next) : R s.nextCode t.nextCode := by
  rw [nextCode, nextCode]
  generalize s.next = input, t.next = input' at hnext
  cases hnext with
  | none => exact h.pure _
  | some hinput => exact hinput.code

/-- Whether there is a slot of a name depends on the names of the slots alone. -/
theorem hasSlot_congr (hvalues : s.values.map (·.1) = t.values.map (·.1))
    (hstatements : s.statements.map (·.1) = t.statements.map (·.1)) (name : String) :
    s.hasSlot name = t.hasSlot name := by
  have hany : ∀ slots : List (String × Option Input), slots.any (·.1 = name) =
      (slots.map (·.1)).any (· = name) := by
    intro slots
    rw [List.any_map]
    rfl
  rw [hasSlot, hasSlot, hany, hany, hany, hany, hvalues, hstatements]

theorem slotCount_congr (hvalues : s.values.map (·.1) = t.values.map (·.1))
    (hstatements : s.statements.map (·.1) = t.statements.map (·.1)) :
    s.values.length + s.statements.length = t.values.length + t.statements.length := by
  have hlength := congrArg List.length hvalues
  have hlength' := congrArg List.length hstatements
  simp only [List.length_map] at hlength hlength'
  rw [hlength, hlength']

/-- The arguments of a call; a missing one is null. -/
def arguments (site : Site) : Gen (List String) := do
  let parameters ← Gen.lift site.head.parameters
  (List.range parameters.length).mapM fun i => site.valueOr ("ARG" ++ toString i) .none "null"

theorem call_eq (site : Site) :
    site.call = Gen.callProcedure (site.head.field "NAME").shown site.arguments := by
  simp only [call, Gen.callProcedure, arguments, procedureName, bind_assoc]

/-! ## Data of the head -/

namespace Paired

section
variable (hs : Paired R s t)
include hs

theorem field (name : String) (hname : name ≠ "VAR") :
    s.head.field name = t.head.field name := by
  rw [Head.field, Head.field, Table.get, Table.get, hs.fields name hname]

theorem parameters : s.head.parameters = t.head.parameters := by
  rw [Head.parameters, Head.parameters, hs.mutation]

theorem unhandled (field : String) (hname : field ≠ "VAR") :
    s.unhandled field = t.unhandled field := by
  rw [Site.unhandled, Site.unhandled, hs.kind, hs.field field hname]

theorem optionIn {α : Type} (field : String) (table : List (String × α))
    (hname : field ≠ "VAR") : s.optionIn field table = t.optionIn field table := by
  simp only [Site.optionIn, hs.field field hname, hs.unhandled field hname]

theorem optionAmong {α : Type} (field : String) (table : List (String × α))
    (hname : field ≠ "VAR") : s.optionAmong field table = t.optionAmong field table := by
  simp only [Site.optionAmong, hs.field field hname, hs.unhandled field hname]

theorem fieldText (field default : String) (hname : field ≠ "VAR") :
    s.fieldText field default = t.fieldText field default := by
  rw [Site.fieldText, Site.fieldText, hs.fields field hname]

theorem procedureName : s.procedureName = t.procedureName := by
  rw [Site.procedureName, Site.procedureName, hs.field "NAME" (by decide)]

end

/-! ## Values -/

section
variable (h : Congruence E R) (hs : Paired R s t)
include h hs

theorem valueOr (name : String) (outer : Order) (default : String) :
    R (s.valueOr name outer default) (t.valueOr name outer default) := by
  rw [Site.valueOr, Site.valueOr, hs.kind]
  apply h.bind (hs.value name outer)
  intro code
  split
  · exact h.bind (hs.record _ _ _) fun _ => h.pure default
  · exact h.pure code

theorem textValue (name : String) : R (s.textValue name) (t.textValue name) :=
  hs.valueOr h name _ _

theorem subject (name : String) : R (s.subject name) (t.subject name) :=
  hs.valueOr h name _ _

end

section
variable (h : Congruence E R) (hE : ∀ o o', E o o' → o.isOneBased = o'.isOneBased)
  (hs : Paired R s t)
include h hE hs

theorem adjustedIndex (slot : String) (delta : Int) (negated : Bool) (order : Order) :
    R (s.adjustedIndex slot delta negated order) (t.adjustedIndex slot delta negated order) := by
  rw [Site.adjustedIndex, Site.adjustedIndex]
  apply h.options
  intro o o' ho
  rw [hE o o' ho]
  apply h.bind (hs.valueOr h slot _ _)
  intro code
  split
  · exact h.lift (foldedIndex_bounds _ _ _)
  · exact h.pure _

theorem sliceFrom (text first : String) (stop : Edge) :
    R (s.sliceFrom text first stop) (t.sliceFrom text first stop) := by
  cases stop with
  | outermost => exact h.pure _
  | fromStart => exact h.bind (adjustedIndex h hE hs ..) fun _ => h.pure _
  | fromEnd => exact h.bind (adjustedIndex h hE hs ..) fun _ => h.pure _

theorem inlineSubstring (text : String) (start stop : Edge) :
    R (s.inlineSubstring text start stop) (t.inlineSubstring text start stop) := by
  rw [inlineSubstring_eq, inlineSubstring_eq]
  cases start with
  | outermost => exact sliceFrom h hE hs text "0" stop
  | fromStart => exact h.bind (adjustedIndex h hE hs ..) fun _ => sliceFrom h hE hs ..
  | fromEnd => exact h.bind (adjustedIndex h hE hs ..) fun _ => sliceFrom h hE hs ..

/-- An edge gives as many arguments as the routine has parameters for it. -/
theorem edgeArgument (slot : String) (edge : Edge) {β : Type} {f f' : List String → Gen β}
    (hf : ∀ arguments : List String, (arguments.length = if edge = .outermost then 0 else 1) →
      R (f arguments) (f' arguments)) :
    R (s.edgeArgument slot edge >>= f) (t.edgeArgument slot edge >>= f') := by
  rw [Site.edgeArgument, Site.edgeArgument]
  by_cases hedge : edge = .outermost
  · rw [if_pos hedge, if_pos hedge, pure_bind, pure_bind]
    exact hf [] (by rw [if_pos hedge]; rfl)
  · rw [if_neg hedge, if_neg hedge, bind_assoc, bind_assoc]
    apply h.bind (adjustedIndex h hE hs ..)
    intro index
    rw [pure_bind, pure_bind]
    exact hf [index] (by rw [if_neg hedge]; rfl)

theorem helperSubstring (text : String) (start stop : Edge) :
    R (s.helperSubstring text start stop) (t.helperSubstring text start stop) := by
  rw [helperSubstring_eq_callRoutine, helperSubstring_eq_callRoutine]
  apply edgeArgument h hE hs
  intro first hfirst
  apply edgeArgument h hE hs
  intro last hlast
  apply h.routine
  rw [List.length_append, List.length_append, hfirst, hlast]
  cases start <;> cases stop <;> rfl

theorem substring : R s.substring t.substring := by
  rw [Site.substring, Site.substring, hs.optionAmong "WHERE1" _ (by decide),
    hs.optionAmong "WHERE2" _ (by decide)]
  apply h.bind (h.lift (t.optionAmong_bounds _ _))
  intro start
  apply h.bind (h.lift (t.optionAmong_bounds _ _))
  intro stop
  apply h.bind (hs.valueOr h "STRING" _ _)
  intro text
  -- The whole text, a slice of it where that can be written, or a helper.
  split
  · exact h.pure _
  · split
    · exact inlineSubstring h hE hs text start stop
    · exact helperSubstring h hE hs text start stop

theorem charAt : R s.charAt t.charAt := by
  rw [Site.charAt, Site.charAt, hs.field "WHERE" (by decide), hs.unhandled "WHERE" (by decide)]
  apply h.bind (hs.valueOr h "VALUE" _ _)
  intro text
  split
  · exact h.pure _
  · exact h.pure _
  · exact h.bind (adjustedIndex h hE hs ..) fun _ => h.pure _
  · exact h.bind (adjustedIndex h hE hs ..) fun _ => h.pure _
  · exact h.routine .randomLetter [text] rfl
  · exact h.throw _ rfl

theorem indexOf : R s.indexOf t.indexOf := by
  rw [Site.indexOf, Site.indexOf, hs.optionAmong "END" _ (by decide)]
  apply h.bind (h.lift (t.optionAmong_bounds _ _))
  intro operator
  apply h.bind (hs.textValue h "FIND")
  intro part
  apply h.bind (hs.subject h "VALUE")
  intro text
  apply h.options
  intro o o' ho
  rw [hE o o' ho]
  split <;> exact h.pure _

end

section
variable (h : Congruence E R) (hs : Paired R s t)
include h hs

theorem joined : R s.joined t.joined := by
  rw [Site.joined, Site.joined, hs.mutation]
  apply h.bind (h.lift (itemCount_bounds _))
  intro count
  apply h.bind (h.mapM fun i _ => hs.textValue h _)
  intro items
  rcases items with _ | ⟨first, _ | ⟨second, _ | ⟨third, rest⟩⟩⟩ <;> exact h.pure _

theorem changeCase : R s.changeCase t.changeCase := by
  rw [Site.changeCase, Site.changeCase, hs.optionIn "CASE" _ (by decide)]
  apply h.bind (h.lift (t.optionIn_bounds _ _))
  intro call?
  cases call? with
  | some call => exact h.bind (hs.subject h "TEXT") fun _ => h.pure _
  | none =>
    apply h.bind (hs.textValue h "TEXT")
    exact fun text => h.routine .titleCase [text] rfl

theorem prompt : R s.prompt t.prompt := by
  have hanswer : ∀ question, R (
      if !(t.head.field "TYPE").isTruthy || (t.head.field "TYPE").isText "TEXT" then
        pure ("window.prompt(" ++ question ++ ")", .functionCall)
      else if (t.head.field "TYPE").isText "NUMBER" then
        pure ("Number(" ++ ("window.prompt(" ++ question ++ ")") ++ ")", .functionCall)
      else throw (t.unhandled "TYPE") : Gen Expression) (
      if !(t.head.field "TYPE").isTruthy || (t.head.field "TYPE").isText "TEXT" then
        pure ("window.prompt(" ++ question ++ ")", .functionCall)
      else if (t.head.field "TYPE").isText "NUMBER" then
        pure ("Number(" ++ ("window.prompt(" ++ question ++ ")") ++ ")", .functionCall)
      else throw (t.unhandled "TYPE")) := by
    intro question
    split
    · exact h.pure _
    · split
      · exact h.pure _
      · exact h.throw _ rfl
  rw [Site.prompt, Site.prompt, hs.fields "TEXT" (by decide), hs.field "TYPE" (by decide),
    hs.unhandled "TYPE" (by decide)]
  cases t.head.fields.get? "TEXT" with
  | some field => exact hanswer _
  | none => exact h.bind (hs.textValue h "TEXT") hanswer

theorem count : R s.count t.count := by
  rw [count_eq_callRoutine, count_eq_callRoutine]
  apply h.bind (hs.textValue h "TEXT")
  intro text
  apply h.bind (hs.textValue h "SUB")
  exact fun part => h.routine .count [text, part] rfl

theorem replace : R s.replace t.replace := by
  rw [replace_eq_callRoutine, replace_eq_callRoutine]
  apply h.bind (hs.textValue h "TEXT")
  intro text
  apply h.bind (hs.textValue h "FROM")
  intro old
  apply h.bind (hs.textValue h "TO")
  exact fun new => h.routine .replace [text, old, new] rfl

theorem arguments : R s.arguments t.arguments := by
  rw [Site.arguments, Site.arguments, hs.parameters]
  apply h.bind (h.lift t.head.parameters_bounds)
  exact fun parameters => h.mapM fun i _ => hs.valueOr h _ _ _

theorem call : R s.call t.call := by
  rw [call_eq, call_eq, hs.field "NAME" (by decide)]
  exact h.call _ (hs.arguments h)

end

/-- Blocks with related values have related expressions, by every rule, if the names of their
    variables are related where a rule writes them. -/
theorem expression (h : Congruence E R) (hE : ∀ o o', E o o' → o.isOneBased = o'.isOneBased)
    (hs : Paired R s t) (kind : ValueKind)
    (hvariable : (Kind.value kind).namesVariable = true → R s.variableName t.variableName) :
    R (s.expression kind) (t.expression kind) := by
  cases kind with
  | compare =>
    rw [Site.expression, Site.expression, Site.compare, Site.compare,
      hs.optionIn "OP" _ (by decide)]
    apply h.bind (h.lift (t.optionIn_bounds _ _))
    intro operator
    apply h.bind (hs.valueOr h "A" _ _)
    exact fun left => h.bind (hs.valueOr h "B" _ _) fun right => h.pure _
  | junction =>
    rw [Site.expression, Site.expression, Site.junction, Site.junction,
      hs.optionAmong "OP" _ (by decide)]
    apply h.bind (h.lift (t.optionAmong_bounds _ _))
    rintro ⟨operator, order, identity⟩
    apply h.bind (hs.value "A" order)
    exact fun left => h.bind (hs.value "B" order) fun right => h.pure _
  | negate => exact h.bind (hs.valueOr h "BOOL" _ _) fun _ => h.pure _
  | boolean =>
    rw [Site.expression, Site.expression, Site.boolean, Site.boolean,
      hs.optionAmong "BOOL" _ (by decide)]
    exact h.bind (h.lift (t.optionAmong_bounds _ _)) fun _ => h.pure _
  | null => exact h.pure _
  | ternary =>
    apply h.bind (hs.valueOr h "IF" _ _)
    intro condition
    apply h.bind (hs.valueOr h "THEN" _ _)
    exact fun yes => h.bind (hs.valueOr h "ELSE" _ _) fun no => h.pure _
  | number =>
    rw [Site.expression, Site.expression, Site.number, Site.number, hs.fields "NUM" (by decide)]
    split
    · exact h.pure _
    · exact h.throw _ rfl
  | call => exact hs.call h
  | text =>
    rw [Site.expression, Site.expression, Site.text, Site.text, hs.fieldText "TEXT" _ (by decide)]
    exact h.pure _
  | multiline =>
    rw [Site.expression, Site.expression, Site.multiline, Site.multiline,
      hs.fieldText "TEXT" _ (by decide)]
    exact h.pure _
  | joined => exact hs.joined h
  | length => exact h.bind (hs.subject h "VALUE") fun _ => h.pure _
  | isEmpty => exact h.bind (hs.subject h "VALUE") fun _ => h.pure _
  | indexOf => exact hs.indexOf h hE
  | charAt => exact hs.charAt h hE
  | substring => exact hs.substring h hE
  | changeCase => exact hs.changeCase h
  | trim =>
    rw [Site.expression, Site.expression, Site.trim, Site.trim, hs.optionIn "MODE" _ (by decide)]
    apply h.bind (h.lift (t.optionIn_bounds _ _))
    exact fun call => h.bind (hs.subject h "TEXT") fun _ => h.pure _
  | promptExtended | prompt => exact hs.prompt h
  | count => exact hs.count h
  | replace => exact hs.replace h
  | reverse => exact h.bind (hs.subject h "TEXT") fun _ => h.pure _
  | getVariable | getDynamic =>
    exact h.bind (hvariable rfl) fun _ => h.pure _

end Paired

/-! ## Hooks and comments -/

section
variable (h : Congruence E R)
include h

theorem parameterName_related (hname : ∀ name, R (Gen.variableName name) (Gen.variableName name))
    (parameter : Json) : R (parameterName parameter) (parameterName parameter) := by
  cases parameter with
  | str name => exact hname name
  | _ => exact h.throw _ rfl

variable (hE : ∀ o o', E o o' → o = o')
include hE

theorem indentedHook_related (text : String) : R (indentedHook text) (indentedHook text) := by
  rw [indentedHook]
  split
  · exact h.pure ""
  · exact indented_related h hE text

theorem branchHook_related (hhooks : SameHooks E s t) : R s.branchHook t.branchHook := by
  apply h.options
  intro o o' ho
  rw [hE o o' ho, hhooks.statementSuffix ho]
  apply h.bind (h.lift (t.hookText_bounds _))
  intro hook
  split
  · exact h.pure ""
  · exact indented_related h hE hook

theorem withHooks_related (hkind : s.kind = t.kind) (hhooks : SameHooks E s t) (code : String) :
    R (s.withHooks code) (t.withHooks code) := by
  rw [withHooks, withHooks, hkind]
  split
  · exact h.pure code
  · apply h.options
    intro o o' ho
    rw [hE o o' ho, hhooks.statementPrefix ho, hhooks.statementSuffix ho]
    apply h.bind (h.lift (t.hookText_bounds _))
    exact fun lead => h.bind (h.lift (t.hookText_bounds _)) fun tail => h.pure _

end

/-- The comments ahead of the code depend on the column at which comments are wrapped. -/
theorem comments_related (h : Congruence E R) (hE : ∀ o o', E o o' → o.commentWrap = o'.commentWrap)
    (hinline : s.isInline = t.isInline) (hcomment : s.head.comment = t.head.comment)
    (hinputs : inputComments s.values = inputComments t.values) : R s.comments t.comments := by
  rw [comments, comments, hinline, ownComment, ownComment, hcomment, hinputs]
  split
  · exact h.pure ""
  · apply h.bind
    · split
      · exact h.pure ""
      · split
        · apply h.options
          intro o o' ho
          rw [hE o o' ho]
          apply h.lift_bind (commentWidth_bounds _)
          intro width hwidth
          exact h.bind (h.wrapped _ ho hwidth) fun text => h.pure _
        · exact h.throw _ rfl
    · exact fun own => h.bind (h.lift (inputComments_bounds _)) fun rest => h.pure (own ++ rest)

/-! ## Statements -/

/-- The head of a procedure, up to its body. -/
def procedureHead (name : String) (parameters : List String) : String :=
  "function " ++ name ++ "(" ++ Text.join ", " parameters ++ ") \x7b\n"

/-- The text of a procedure of an emitted name, with comments ahead. -/
def procedureText (site : Site) (options : Options) (name : String) : Gen String := do
  let lead ← Gen.lift (site.hookText options.statementPrefix)
  let tail ← Gen.lift (site.hookText options.statementSuffix)
  let hooks ← indentedHook (lead ++ tail)
  let trap ← indentedHook (← Gen.lift (site.hookText options.loopTrap))
  let body ← site.chain "STACK"
  let value ← site.value "RETURN" .none
  let again := if body ≠ "" && value ≠ "" then hooks else ""
  let result := if value = "" then "" else options.indentShown ++ "return " ++ value ++ ";\n"
  let parameters ← (← Gen.lift site.head.parameters).mapM parameterName
  site.complete (procedureHead name parameters ++ hooks ++ trap ++ body ++ again ++ result
    ++ "\x7d") false

/-- A procedure is named first, and defined by its text. -/
theorem defineProcedure_eq (site : Site) : site.defineProcedure = (do
    let options ← Gen.options
    let name ← site.procedureName
    let text ← site.procedureText options name
    Gen.define name text) := by
  simp only [defineProcedure, procedureText, procedureHead, bind_assoc]

/-- A definition that does not fail names the procedure, writes its text and registers that. -/
theorem defineProcedure_eq_ok {site : Site} {o : Options} {p s : Pass} {a : Unit}
    (h : site.defineProcedure o p = .ok a s) : ∃ emitted q text r,
      Gen.procedureName (site.head.field "NAME").shown o p = .ok emitted q ∧
      site.procedureText o emitted o q = .ok text r ∧ Gen.define emitted text o r = .ok () s := by
  rw [defineProcedure_eq] at h
  obtain ⟨o', p', hoptions, h⟩ := Gen.bind_eq_ok h
  obtain ⟨rfl, rfl⟩ := EStateM.Result.ok.inj hoptions
  obtain ⟨emitted, q, hname, h⟩ := Gen.bind_eq_ok h
  obtain ⟨text, r, htext, hdefine⟩ := Gen.bind_eq_ok h
  exact ⟨emitted, q, text, r, hname, htext, hdefine⟩

section
variable (h : Congruence E R) (hs : Paired R s t)
include h hs

theorem Paired.callStatement : R s.callStatement t.callStatement :=
  h.bind (hs.call h) fun _ => h.pure _

theorem Paired.print : R s.print t.print :=
  h.bind (hs.textValue h "TEXT") fun _ => h.pure _

variable (hvariable : R s.variableName t.variableName)
include hvariable

theorem Paired.append : R s.append t.append :=
  h.bind hvariable fun _ => h.bind (hs.textValue h "TEXT") fun _ => h.pure _

theorem Paired.assign : R s.assign t.assign :=
  h.bind (hs.valueOr h "VALUE" _ _) fun _ => h.bind hvariable fun _ => h.pure _

end

/-- Blocks with related values have related statements, by the rules that write nothing else. -/
theorem Paired.statement (h : Congruence E R) (hs : Paired R s t) {kind : StatementKind}
    (hkind : kind.isPlain = true)
    (hvariable : (Kind.statement kind).namesVariable = true → R s.variableName t.variableName) :
    R (s.statement kind) (t.statement kind) := by
  cases kind with
  | conditional | conditionalElse | function | procedure | returnIf => cases hkind
  | call => exact h.map (hs.callStatement h) _
  | append => exact h.map (hs.append h (hvariable rfl)) _
  | print => exact h.map (hs.print h) _
  | assign | assignDynamic => exact h.map (hs.assign h (hvariable rfl)) _

/-- A conditional return writes values and the hook at the top of a branch. -/
theorem Paired.returnIf (h : Congruence E R) (hE : ∀ o o', E o o' → o = o') (hs : Paired R s t)
    (hhooks : SameHooks E s t) : R s.returnIf t.returnIf := by
  rw [Site.returnIf, Site.returnIf, hs.mutation]
  apply h.bind (hs.valueOr h "CONDITION" _ _)
  intro condition
  apply h.bind (branchHook_related h hE hhooks)
  intro hook
  apply h.options
  intro o o' ho
  rw [hE o o' ho]
  dsimp only
  split
  · exact h.bind (hs.valueOr h "VALUE" _ _) fun value => h.pure _
  · exact h.pure _

namespace Matched

theorem branchCount (hs : Matched E R s t) : s.branchCount = t.branchCount := by
  simp only [Site.branchCount, hs.hasSlot, hs.slots]

section
variable (h : Congruence E R) (hE : ∀ o o', E o o' → o = o') (hs : Matched E R s t)
include h hE hs

theorem branch (slot : String) : R (s.branch slot) (t.branch slot) := by
  apply h.bind (branchHook_related h hE hs.hooks)
  exact fun hook => h.bind (hs.chain slot) fun body => h.pure _

theorem conditionalBranch (i : Nat) : R (s.conditionalBranch i) (t.conditionalBranch i) := by
  apply h.bind (hs.valueOr h _ _ _)
  exact fun condition => h.bind (branch h hE hs _) fun body => h.pure _

theorem conditional : R s.conditional t.conditional := by
  rw [Site.conditional, Site.conditional, hs.branchCount, hs.hasSlot]
  apply h.options
  intro o o' ho
  rw [hE o o' ho, hs.hooks.statementPrefix ho]
  apply h.bind (h.lift (t.hookText_bounds _))
  intro hook
  apply h.bind (h.mapM fun i _ => conditionalBranch h hE hs i)
  intro branches
  split
  · exact h.bind (branch h hE hs "ELSE") fun body => h.pure _
  · exact h.pure _

theorem returnIf : R s.returnIf t.returnIf :=
  hs.toPaired.returnIf h hE hs.hooks

/-- Blocks with related inputs have related texts of procedures, if the names of the parameters, the
    comments and the blocks that follow are related. -/
theorem procedureText
    (hparameter : ∀ parameters, t.head.parameters = .ok parameters → ∀ parameter ∈ parameters,
      R (parameterName parameter) (parameterName parameter))
    (hcomplete : ∀ code, R (s.complete code false) (t.complete code false))
    {o o' : Options} (ho : E o o') (name : String) :
    R (s.procedureText o' name) (t.procedureText o' name) := by
  rw [Site.procedureText, Site.procedureText, hs.hooks.statementPrefix ho,
    hs.hooks.statementSuffix ho, hs.hooks.loopTrap ho, hs.parameters]
  apply h.bind (h.lift (t.hookText_bounds _))
  intro lead
  apply h.bind (h.lift (t.hookText_bounds _))
  intro tail
  apply h.bind (indentedHook_related h hE _)
  intro hooks
  apply h.bind (h.lift (t.hookText_bounds _))
  intro trap
  apply h.bind (indentedHook_related h hE _)
  intro trap
  apply h.bind (hs.chain "STACK")
  intro body
  apply h.bind (hs.value "RETURN" _)
  intro value
  apply h.lift_bind t.head.parameters_bounds
  intro parameters hparameters
  exact h.bind (h.mapM (hparameter parameters hparameters)) fun names => hcomplete _

/-- Blocks with related inputs define related procedures. -/
theorem defineProcedure
    (hparameter : ∀ parameters, t.head.parameters = .ok parameters → ∀ parameter ∈ parameters,
      R (parameterName parameter) (parameterName parameter))
    (hcomplete : ∀ code, R (s.complete code false) (t.complete code false))
    (hname : ∀ source, R (Gen.procedureName source) (Gen.procedureName source))
    (hdefine : ∀ name text, R (Gen.define name text) (Gen.define name text)) :
    R s.defineProcedure t.defineProcedure := by
  rw [defineProcedure_eq, defineProcedure_eq, hs.procedureName]
  apply h.options
  intro o o' ho
  rw [hE o o' ho]
  apply h.bind (hname _)
  intro name
  exact h.bind (procedureText h hE hs hparameter hcomplete ho name) fun text => hdefine name text

/-- Blocks with related inputs have related statements, by every rule; the name of a variable and
    what defines a procedure are related by assumption. -/
theorem statement (kind : StatementKind)
    (hvariable : (Kind.statement kind).namesVariable = true → R s.variableName t.variableName)
    (hprocedure : (Kind.statement kind).definesProcedure = true →
      R s.defineProcedure t.defineProcedure) : R (s.statement kind) (t.statement kind) := by
  cases kind with
  | conditional | conditionalElse => exact h.map (conditional h hE hs) _
  | function | procedure => exact h.bind (hprocedure rfl) fun _ => h.pure none
  | returnIf => exact h.map (returnIf h hE hs) _
  | call | append | print | assign | assignDynamic =>
    exact hs.toPaired.statement h rfl hvariable

variable (hvariable : t.kind.namesVariable = true → R s.variableName t.variableName)
  (hprocedure : t.kind.definesProcedure = true → R s.defineProcedure t.defineProcedure)
include hvariable hprocedure

/-- Blocks with related inputs have related code by their rules. -/
theorem rule : R s.rule t.rule := by
  have hvalue : ∀ o o', E o o' → o.isOneBased = o'.isOneBased :=
    fun o o' ho => congrArg Options.isOneBased (hE o o' ho)
  rw [Site.rule, Site.rule, hs.kind]
  cases hkind : t.kind with
  | value kind =>
    rw [hkind] at hvariable
    exact h.bind (hs.expression h hvalue kind hvariable) fun _ => h.pure _
  | statement kind =>
    rw [hkind] at hvariable hprocedure
    exact h.bind (statement h hE hs kind hvariable hprocedure) fun _ => h.pure _

end

end Matched

/-! ## Whole code -/

section
variable (h : Congruence E R)
include h

/-- The code of a block with comments ahead and the blocks that follow. -/
theorem complete_related (hcomments : R s.comments t.comments) (hnext : R s.nextCode t.nextCode)
    (code : String) (alone : Bool) : R (s.complete code alone) (t.complete code alone) := by
  rw [complete, complete]
  apply h.bind hcomments
  intro comments
  split
  · exact h.pure _
  · apply h.bind hnext
    intro next
    cases next with
    | statement text => exact h.pure _
    | expression text order => exact h.throw _ rfl

variable (hE : ∀ o o', E o o' → o = o')
include hE

/-- What becomes of the code of a rule. -/
theorem finished_related (hkind : s.kind = t.kind) (hhooks : SameHooks E s t) (houtput : s.head.hasOutput = t.head.hasOutput)
    {alone : Bool} (hcomplete : ∀ code, R (s.complete code alone) (t.complete code alone))
    (result : Option Code) : R (s.finished alone result) (t.finished alone result) := by
  rcases result with _ | ⟨text⟩ | ⟨text, order⟩
  · exact h.pure _
  · apply h.bind (withHooks_related h hE hkind hhooks text)
    exact fun text => h.bind (hcomplete text) fun text => h.pure _
  · rw [Site.finished, Site.finished, houtput, hkind]
    split
    · exact h.bind (h.throw _ rfl) fun _ => h.bind (hcomplete text) fun _ => h.pure _
    · exact h.bind (hcomplete text) fun _ => h.pure _

end

/-- A block is passed over, or what its rule gives is finished. -/
theorem code_eq (site : Site) (alone : Bool) : site.code alone = (do
    Gen.requirePass
    if !site.head.enabled then site.passedOver alone else site.rule >>= site.finished alone) := by
  rfl

/-- A block that is passed over leaves a record. -/
theorem Paired.passedOver (h : Congruence E R) (hs : Paired R s t) (hnext : R s.nextCode t.nextCode)
    (alone : Bool) : R (s.passedOver alone) (t.passedOver alone) := by
  rw [Site.passedOver, Site.passedOver, hs.kind]
  apply h.bind (hs.record _ _ _)
  intro _
  split
  · exact h.pure _
  · exact hnext

/-- The code of a block that is passed over or finished. -/
theorem Matched.code (h : Congruence E R) (hE : ∀ o o', E o o' → o = o') (hs : Matched E R s t)
    (henabled : s.head.enabled = t.head.enabled) (houtput : s.head.hasOutput = t.head.hasOutput)
    (hcomments : R s.comments t.comments) (hnext : R s.nextCode t.nextCode)
    (hvariable : t.kind.namesVariable = true → R s.variableName t.variableName)
    (hprocedure : t.kind.definesProcedure = true → R s.defineProcedure t.defineProcedure)
    (alone : Bool) : R (s.code alone) (t.code alone) := by
  rw [code_eq, code_eq, henabled]
  apply h.bind h.requirePass
  intro _
  split
  · exact hs.toPaired.passedOver h hnext alone
  · apply h.bind (hs.rule h hE hvariable hprocedure)
    have hcomplete := fun code => complete_related h hcomments hnext code alone
    exact finished_related h hE hs.kind hs.hooks houtput hcomplete

end Site

/-! ## One program -/

/-- The text of code. -/
def Code.text : Code → String
  | .statement text => text
  | .expression text _ => text

namespace Block

open Gen (Congruence)

section
variable {b : Block} {kind : ValueKind} (hkind : b.kind = .value kind) (henabled : b.head.enabled = true)
include hkind henabled

/-- The code of an enabled block that yields a value is what its rule gives, finished. -/
theorem code_of_value (attached alone : Bool) : b.code attached alone = (do
    Gen.requirePass
    let (text, order) ← (b.site attached).expression kind
    (b.site attached).finished alone (some (.expression text order))) := by
  have hsite : (b.site attached).kind = .value kind := hkind
  have henabled' : (b.site attached).head.enabled = true := henabled
  rw [code_eq_site_code, Site.code_eq]
  simp only [henabled', Bool.not_true, Bool.false_eq_true, if_false, Site.rule, hsite, bind_assoc,
    pure_bind]

/-- An enabled value in a slot, behind which nothing yields code, has the code of its rule. -/
theorem code_of_expression {o : Options} {p q : Pass} {text : String} {order : Order}
    (houtput : b.head.hasOutput = true)
    (hrule : (b.site true).expression kind = pure (text, order)) (hactive : p.isActive = true)
    (hnext : (b.site true).nextCode o p = .ok (.statement "") q) :
    b.code true false o p = .ok (.expression text order) q := by
  have houtput' : (b.site true).head.hasOutput = true := houtput
  have hinline : (b.site true).comments = pure "" := Site.comments_eq_pure_of_inline (by
    rw [Site.isInline, houtput']
    rfl)
  have hcomplete : (b.site true).complete text false o p = .ok text q := by
    rw [Site.complete, hinline, pure_bind, if_neg Bool.false_ne_true, Gen.bind_apply, hnext]
    change EStateM.Result.ok ("" ++ text ++ "") q = _
    rw [String.empty_append, String.append_empty]
  have hrequire : Gen.requirePass o p = .ok () p := Gen.onPass_apply _ hactive
  rw [code_of_value hkind henabled, hrule, Gen.bind_apply, hrequire]
  change (b.site true).finished false (some (.expression text order)) o p = _
  rw [Site.finished, houtput']
  change ((b.site true).complete text false >>= _) o p = _
  rw [Gen.bind_apply, hcomplete]
  rfl

end

/-- What is in a slot goes with itself if all that the block holds does. -/
theorem rel_inSlot {R : Input → Input → Prop} {slots : Slots} {name : String}
    (h : ∀ c, inSlot slots name = some c → R ⟨c, c.code true false⟩ ⟨c, c.code true false⟩) :
    Option.Rel R (Site.inSlot (inputs slots) name) (Site.inSlot (inputs slots) name) := by
  rw [inSlot_inputs]
  cases hc : inSlot slots name with
  | none => exact .none
  | some c => exact .some (h c hc)

/-- The code of a tree of values depends on whether indices start at one, and on nothing else that is
    set. -/
theorem ValueTree.code_related {E : Options → Options → Prop}
    {R : {α : Type} → Gen α → Gen α → Prop} (h : Congruence E R)
    (hE : ∀ o o', E o o' → o.isOneBased = o'.isOneBased)
    (hname : ∀ name, R (Gen.variableName name) (Gen.variableName name)) {b : Block}
    (hb : b.ValueTree) (alone : Bool) : R (b.code true alone) (b.code true alone) := by
  induction hb generalizing alone with
  | @mk head values statements kind hkind hvalues ih =>
    let b := Block.mk head values statements none
    have hslot : ∀ name, Option.Rel (Input.Related R) (Site.inSlot (inputs values) name)
        (Site.inSlot (inputs values) name) :=
      fun name => rel_inSlot fun c hc => ⟨rfl, ih name c (mem_of_inSlot hc) false⟩
    have hsite : Site.Paired R (b.site true) (b.site true) :=
      { kind := rfl, record := fun _ _ _ => h.record _, fields := fun _ _ => rfl, mutation := rfl
        value := fun name => Site.value_related h (hslot name) }
    have hvalue : (b.site true).kind = .value kind := hkind
    have hrule : (b.site true).rule >>= (b.site true).finished alone =
        (b.site true).expression kind >>= fun e =>
          (b.site true).finished alone (some (.expression e.1 e.2)) := by
      simp only [Site.rule, hvalue, bind_assoc, pure_bind]
    rw [code_eq_site_code, Site.code_eq, hrule]
    apply h.bind h.requirePass
    intro _
    split
    · apply h.bind (h.record _)
      intro _
      split
      · exact h.pure _
      · exact h.pure _
    · apply h.bind (hsite.expression h hE kind fun _ => hname _)
      intro e
      -- The value is plugged into a slot: no comments go ahead of it, and nothing follows.
      cases houtput : (b.site true).head.hasOutput with
      | false =>
        rw [Site.finished, houtput]
        exact h.throw _ rfl
      | true =>
        have hinline : (b.site true).isInline = true := by
          rw [Site.isInline, houtput]
          rfl
        rw [Site.finished_eq_pure _ houtput rfl (Site.comments_eq_pure_of_inline hinline)]
        exact h.pure _

/-- The line of a block that nothing holds, from the text of its code. -/
def lineOf (b : Block) (text : String) : Gen (Option String) :=
  if text = "" then return none
  else if b.head.hasOutput then return some (← (b.site false).withHooks (statementOfValue text))
  else return some text

theorem lineOf_empty (b : Block) : b.lineOf "" = pure none :=
  if_pos rfl

theorem topLevelLine_eq (b : Block) :
    b.topLevelLine = b.code false false >>= fun code => b.lineOf code.text := by
  refine congrArg (bind (b.code false false)) (funext fun code => ?_)
  cases code <;> rfl

theorem lineOf_related {E : Options → Options → Prop} {R : {α : Type} → Gen α → Gen α → Prop}
    (h : Congruence E R) (hE : ∀ o o', E o o' → o = o') {b c : Block} (hkind : b.kind = c.kind)
    (hhooks : Site.SameHooks E (b.site false) (c.site false))
    (houtput : b.head.hasOutput = c.head.hasOutput) (text : String) :
    R (b.lineOf text) (c.lineOf text) := by
  rw [lineOf, lineOf, houtput]
  split
  · exact h.pure none
  · split
    · have hkind : (b.site false).kind = (c.site false).kind := hkind
      exact h.bind (Site.withHooks_related h hE hkind hhooks _) fun _ => h.pure _
    · exact h.pure (some text)

variable {E : Options → Options → Prop} {R : {α : Type} → Gen α → Gen α → Prop}
  (h : Congruence E R) (hE : ∀ o o', E o o' → o = o')
  (hname : ∀ name, R (Gen.variableName name) (Gen.variableName name))
  (hprocedure : ∀ site, Site.Matched E R site site →
    (∀ code, R (site.complete code false) (site.complete code false)) →
    R site.defineProcedure site.defineProcedure)
include h hE hname hprocedure

/-- The code of every block is related to itself, if the names of variables and the code of
    procedures are. -/
theorem code_related (b : Block) : ∀ attached alone,
    R (b.code attached alone) (b.code attached alone) := by
  induction b using forall_of_children with
  | h b ih =>
    intro attached alone
    have hchild : ∀ c ∈ b.children, Input.Related R ⟨c, c.code true false⟩ ⟨c, c.code true false⟩ :=
      fun c hc => ⟨rfl, ih c hc true false⟩
    have hvalues : ∀ name, Option.Rel (Input.Related R) (Site.inSlot (inputs b.values) name)
        (Site.inSlot (inputs b.values) name) :=
      fun name => rel_inSlot fun c hc => hchild c (mem_children_of_inSlot_values hc)
    have hstatements : ∀ name, Option.Rel (Input.Related R) (Site.inSlot (inputs b.statements) name)
        (Site.inSlot (inputs b.statements) name) :=
      fun name => rel_inSlot fun c hc => hchild c (mem_children_of_inSlot_statements hc)
    have hnext : Option.Rel (Input.Related R) (b.site attached).next (b.site attached).next := by
      change Option.Rel _ (input b.next) (input b.next)
      cases hc : b.next with
      | none => exact .none
      | some c => exact .some (hchild c (mem_children_of_next hc))
    have hsite : Site.Matched E R (b.site attached) (b.site attached) :=
      { kind := rfl, record := fun _ _ _ => h.record _, fields := fun _ _ => rfl, mutation := rfl
        hooks := .of_id rfl
        value := fun name => Site.value_related h (hvalues name)
        chain := fun name => Site.chain_related h hE (hstatements name)
        hasSlot := fun _ => rfl
        slots := rfl }
    have hcomments : R (b.site attached).comments (b.site attached).comments :=
      Site.comments_related h (fun o o' ho => congrArg Options.commentWrap (hE o o' ho)) rfl rfl rfl
    have hfollowing := Site.nextCode_related h hnext
    have hcomplete := fun code => Site.complete_related h hcomments hfollowing code false
    rw [code_eq_site_code]
    exact hsite.code h hE rfl rfl hcomments hfollowing (fun _ => hname _)
      (fun _ => hprocedure _ hsite hcomplete) alone

theorem topLevelLine_related (b : Block) : R b.topLevelLine b.topLevelLine := by
  rw [topLevelLine_eq]
  exact h.bind (code_related h hE hname hprocedure b false false) fun code =>
    lineOf_related h hE rfl (.of_id rfl) rfl _

/-- The main text of a workspace is related to itself, if the names of variables and the code of
    procedures are. -/
theorem mainText_related (blocks : List Block) :
    R (Session.mainText blocks) (Session.mainText blocks) := by
  rw [Session.mainText]
  apply h.bind (h.mapM fun b _ => topLevelLine_related h hE hname hprocedure b)
  exact fun lines => h.pure _

end Block

end BlockScript
