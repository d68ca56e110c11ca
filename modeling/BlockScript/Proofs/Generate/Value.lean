/-
  BlockScript.Proofs.Generate.Value

  What the rules for values write. `Written` has one constructor for each shape of text that a rule
  can yield, in terms of what the inputs and names of the block may come to (`Reading`). A property
  of all value code is a case analysis over it, with no look at the rules.
-/
import BlockScript.Generate.Expression
import BlockScript.Proofs.Generate.Logic
import BlockScript.Proofs.Script.Routine

namespace BlockScript

/-- What reading an input or asking for a name may come to. -/
structure Reading where
  /-- The texts that a value slot may give for a precedence. -/
  slot : String → Order → String → Prop
  /-- The emitted names that a variable may have, by its id or its name. -/
  variableName : String → String → Prop
  procedureName : String → String → Prop
  helperName : String → String → Prop

namespace Reading

/-- What a value slot may give where a default stands for an empty text. -/
def Filled (R : Reading) (slot : String) (outer : Order) (default text : String) : Prop :=
  R.slot slot outer text ∧ text ≠ "" ∨ R.slot slot outer "" ∧ text = default

/-- The integer that is added to an index, by whether the indices of the user start at one. -/
def shift (oneBased : Bool) (delta : Int) : Int :=
  if oneBased then delta - 1 else delta

/-- What an index slot may give: an adjusted numeral, or code that adjusts. -/
def Index (R : Reading) (oneBased : Bool) (slot : String) (delta : Int) (negated : Bool)
    (order : Order) (text : String) : Prop :=
  ∃ code,
    R.Filled slot (Site.indexSlot (shift oneBased delta) negated order)
      (if oneBased then "1" else "0") code ∧
    (Numeral.isPlain code = true ∧
        Site.foldedIndex code (shift oneBased delta) negated = .ok text ∨
      Numeral.isPlain code = false ∧
        text = Site.adjustedCode code (shift oneBased delta) negated order)

/-- The index at which a part of a text begins, if it is written at the text. -/
def First (R : Reading) (oneBased : Bool) (text : String) : Site.Edge → String → Prop
  | .outermost, first => first = "0"
  | .fromStart, first => R.Index oneBased "AT1" 0 false .none first
  | .fromEnd, first =>
    ∃ index, R.Index oneBased "AT1" 1 false .subtraction index ∧
      first = text ++ ".length - " ++ index

/-- The index before which a part of a text ends, if it is written at the text. -/
def Last (R : Reading) (oneBased : Bool) (text : String) : Site.Edge → String → Prop
  | .outermost, last => last = text ++ ".length"
  | .fromStart, last => R.Index oneBased "AT2" 1 false .none last
  | .fromEnd, last =>
    ∃ index, R.Index oneBased "AT2" 0 false .subtraction index ∧
      last = text ++ ".length - " ++ index

/-- The argument of a helper for an edge of a part of a text; the outermost edges have none. -/
def EdgeArgument (R : Reading) (oneBased : Bool) (slot : String) : Site.Edge → List String → Prop
  | .outermost, arguments => arguments = []
  | .fromStart, arguments | .fromEnd, arguments =>
    ∃ index, R.Index oneBased slot 0 false .none index ∧ arguments = [index]

end Reading

/-! ## Shapes -/

/-- An operand of a junction, or what stands for a missing one. -/
def junctionOperand (left right identity operand : String) : String :=
  if operand = "" then (if left = "" && right = "" then "false" else identity) else operand

/-- The sum or the join of items that are texts, with its precedence. -/
def joinedItems : List String → Expression
  | [] => ("''", .atomic)
  | [item] => Literal.forceString item
  | [first, second] =>
    ((Literal.forceString first).1 ++ " + " ++ (Literal.forceString second).1, .addition)
  | items => ("[" ++ Text.join "," items ++ "].join('')", .functionCall)

/-- Where a character is taken from a text. -/
def Site.charPlace (site : Site) : Json :=
  if (site.head.field "WHERE").isTruthy then site.head.field "WHERE" else .str "FROM_START"

/-- Whether a part of a text needs its length. -/
def Site.needsLength (start stop : Site.Edge) : Bool :=
  start = .fromEnd || stop = .fromEnd || stop = .outermost

/-- The slot in which the text of a part is read: its members are used, unless it may be passed to a
    helper. -/
def Site.textSlot (start stop : Site.Edge) : Order :=
  if Site.needsLength start stop then .none else .member

/-- The expressions that the rule for a kind of value may yield. -/
inductive Written (R : Reading) (o : Options) (site : Site) : ValueKind → String → Order → Prop
  | compare {operator left right : String}
      (hop : site.optionIn "OP" Site.comparisons = .ok operator)
      (hleft : R.Filled "A" (Site.comparisonOrder operator) "0" left)
      (hright : R.Filled "B" (Site.comparisonOrder operator) "0" right) :
      Written R o site .compare (left ++ " " ++ operator ++ " " ++ right)
        (Site.comparisonOrder operator)
  | junction {operator identity left right : String} {order : Order}
      (hop : site.optionAmong "OP" Site.junctions = .ok (operator, order, identity))
      (hleft : R.slot "A" order left) (hright : R.slot "B" order right) :
      Written R o site .junction (junctionOperand left right identity left ++ " " ++ operator ++
        " " ++ junctionOperand left right identity right) order
  | negate {operand : String} (hoperand : R.Filled "BOOL" .logicalNot "true" operand) :
      Written R o site .negate ("!" ++ operand) .logicalNot
  | boolean {name : String}
      (hname : site.optionAmong "BOOL" [("TRUE", "true"), ("FALSE", "false")] = .ok name) :
      Written R o site .boolean name .atomic
  | null : Written R o site .null "null" .atomic
  | ternary {condition yes no : String} (hcondition : R.Filled "IF" .conditional "false" condition)
      (hyes : R.Filled "THEN" .conditional "null" yes)
      (hno : R.Filled "ELSE" .conditional "null" no) :
      Written R o site .ternary (condition ++ " ? " ++ yes ++ " : " ++ no) .conditional
  | number {n : Number}
      (hn : Site.numberOf ((site.head.fields.get? "NUM").getD (.num (.int 0))) = .ok n) :
      Written R o site .number n.numeral (if n.isNonneg then .atomic else .unaryNegation)
  | call {name : String} {parameters : List Json} {arguments : List String}
      (hname : R.procedureName (site.head.field "NAME").shown name)
      (hparameters : site.head.parameters = .ok parameters)
      (harguments : List.Forall₂ (fun (i : Nat) => R.Filled ("ARG" ++ toString i) .none "null")
        (List.range parameters.length) arguments) :
      Written R o site .call (name ++ "(" ++ Text.join ", " arguments ++ ")") .functionCall
  | text : Written R o site .text (Literal.quote (site.fieldText "TEXT" "")) .atomic
  | multiline : Written R o site .multiline (Literal.quoteLines (site.fieldText "TEXT" ""))
      (if (Literal.quoteLines (site.fieldText "TEXT" "")).toList.contains '+' then .addition
        else .atomic)
  | joined {count : Nat} {items : List String}
      (hcount : Site.itemCount ((site.head.mutation.get? "items").getD (.num (.int 2))) = .ok count)
      (hitems : List.Forall₂ (fun (i : Nat) => R.Filled ("ADD" ++ toString i) .none "''")
        (List.range count) items) :
      Written R o site .joined (joinedItems items).1 (joinedItems items).2
  | length {text : String} (htext : R.Filled "VALUE" .member "''" text) :
      Written R o site .length (text ++ ".length") .member
  | isEmpty {text : String} (htext : R.Filled "VALUE" .member "''" text) :
      Written R o site .isEmpty ("!" ++ text ++ ".length") .logicalNot
  | indexOf {operator part text : String}
      (hop : site.optionAmong "END" [("FIRST", "indexOf"), ("LAST", "lastIndexOf")] = .ok operator)
      (hpart : R.Filled "FIND" .none "''" part) (htext : R.Filled "VALUE" .member "''" text) :
      Written R o site .indexOf (text ++ "." ++ operator ++ "(" ++ part ++ ")") .functionCall
  | indexOfOneBased {operator part text : String}
      (hop : site.optionAmong "END" [("FIRST", "indexOf"), ("LAST", "lastIndexOf")] = .ok operator)
      (hpart : R.Filled "FIND" .none "''" part) (htext : R.Filled "VALUE" .member "''" text) :
      Written R o site .indexOf (text ++ "." ++ operator ++ "(" ++ part ++ ")" ++ " + 1") .addition
  | firstChar {text : String} (hplace : site.charPlace = .str "FIRST")
      (htext : R.Filled "VALUE" .member "''" text) :
      Written R o site .charAt (text ++ ".charAt(0)") .functionCall
  | lastChar {text : String} (hplace : site.charPlace = .str "LAST")
      (htext : R.Filled "VALUE" .member "''" text) :
      Written R o site .charAt (text ++ ".slice(-1)") .functionCall
  | charFromStart {text index : String} (hplace : site.charPlace = .str "FROM_START")
      (htext : R.Filled "VALUE" .member "''" text)
      (hindex : R.Index o.isOneBased "AT" 0 false .none index) :
      Written R o site .charAt (text ++ ".charAt(" ++ index ++ ")") .functionCall
  | charFromEnd {text index : String} (hplace : site.charPlace = .str "FROM_END")
      (htext : R.Filled "VALUE" .member "''" text)
      (hindex : R.Index o.isOneBased "AT" 1 true .none index) :
      Written R o site .charAt (text ++ ".slice(" ++ index ++ ").charAt(0)") .functionCall
  | randomChar {text name : String} (hplace : site.charPlace = .str "RANDOM")
      (htext : R.Filled "VALUE" .none "''" text)
      (hname : R.helperName "textRandomLetter" name) :
      Written R o site .charAt (name ++ "(" ++ text ++ ")") .functionCall
  | wholeText {text : String}
      (hstart : site.optionAmong "WHERE1" Site.startEdges = .ok .outermost)
      (hstop : site.optionAmong "WHERE2" Site.stopEdges = .ok .outermost)
      (htext : R.Filled "STRING" .none "''" text) :
      Written R o site .substring text .none
  | slice {text first last : String} {start stop : Site.Edge} {outer : Order}
      (hstart : site.optionAmong "WHERE1" Site.startEdges = .ok start)
      (hstop : site.optionAmong "WHERE2" Site.stopEdges = .ok stop)
      (htext : R.Filled "STRING" outer "''" text)
      (houter : outer = .member ∨ outer = .none ∧ Literal.isSimple text = true)
      (hfirst : R.First o.isOneBased text start first)
      (hlast : R.Last o.isOneBased text stop last)
      (hpart : ¬(start = .outermost ∧ stop = .outermost))
      (hslot : outer = Site.textSlot start stop) :
      Written R o site .substring (text ++ ".slice(" ++ first ++ ", " ++ last ++ ")") .functionCall
  | subsequence {text name : String} {first last : List String} {start stop : Site.Edge}
      (hstart : site.optionAmong "WHERE1" Site.startEdges = .ok start)
      (hstop : site.optionAmong "WHERE2" Site.stopEdges = .ok stop)
      (htext : R.Filled "STRING" .none "''" text)
      (hfirst : R.EdgeArgument o.isOneBased "AT1" start first)
      (hlast : R.EdgeArgument o.isOneBased "AT2" stop last)
      (hname : R.helperName
        ("subsequence" ++ Site.edgeName "First" start ++ Site.edgeName "Last" stop) name)
      (hpart : ¬(start = .outermost ∧ stop = .outermost))
      (hslot : Site.textSlot start stop = .none) (hsimple : Literal.isSimple text = false) :
      Written R o site .substring (name ++ "(" ++ Text.join ", " ([text] ++ first ++ last) ++ ")")
        .functionCall
  | changedCase {text call : String}
      (hcase : site.optionIn "CASE" Site.caseChanges = .ok (some call))
      (htext : R.Filled "TEXT" .member "''" text) :
      Written R o site .changeCase (text ++ call) .functionCall
  | titleCase {text name : String} (htext : R.Filled "TEXT" .none "''" text)
      (hname : R.helperName "textToTitleCase" name)
      (hcase : site.optionIn "CASE" Site.caseChanges = .ok none) :
      Written R o site .changeCase (name ++ "(" ++ text ++ ")") .functionCall
  | trim {text call : String} (hmode : site.optionIn "MODE" Site.trims = .ok call)
      (htext : R.Filled "TEXT" .member "''" text) :
      Written R o site .trim (text ++ call) .functionCall
  | prompt {kind : ValueKind} {question : String}
      (hkind : kind = .promptExtended ∨ kind = .prompt)
      (hquestion : (∃ field, site.head.fields.get? "TEXT" = some field ∧
          question = Literal.quote field.shown) ∨
        site.head.fields.get? "TEXT" = none ∧ R.Filled "TEXT" .none "''" question) :
      Written R o site kind ("window.prompt(" ++ question ++ ")") .functionCall
  | promptNumber {kind : ValueKind} {question : String}
      (hkind : kind = .promptExtended ∨ kind = .prompt)
      (hquestion : (∃ field, site.head.fields.get? "TEXT" = some field ∧
          question = Literal.quote field.shown) ∨
        site.head.fields.get? "TEXT" = none ∧ R.Filled "TEXT" .none "''" question) :
      Written R o site kind ("Number(" ++ ("window.prompt(" ++ question ++ ")") ++ ")") .functionCall
  | count {text part name : String} (htext : R.Filled "TEXT" .none "''" text)
      (hpart : R.Filled "SUB" .none "''" part) (hname : R.helperName "textCount" name) :
      Written R o site .count (name ++ "(" ++ text ++ ", " ++ part ++ ")") .functionCall
  | replace {text old new name : String} (htext : R.Filled "TEXT" .none "''" text)
      (hold : R.Filled "FROM" .none "''" old) (hnew : R.Filled "TO" .none "''" new)
      (hname : R.helperName "textReplace" name) :
      Written R o site .replace (name ++ "(" ++ text ++ ", " ++ old ++ ", " ++ new ++ ")")
        .functionCall
  | reverse {text : String} (htext : R.Filled "TEXT" .member "''" text) :
      Written R o site .reverse (text ++ ".split('').reverse().join('')") .functionCall
  | getVariable {kind : ValueKind} {name : String} (hkind : kind = .getVariable ∨ kind = .getDynamic)
      (hname : R.variableName (site.head.field "VAR").shown name) :
      Written R o site kind name .atomic

/-! ## Reading the inputs -/

/-- A reading that covers what the inputs and names of a block come to. -/
structure Reading.Sound (R : Reading) (o : Options) (I : Pass → Prop) (site : Site) : Prop where
  record : ∀ entry, Gen.Allows o I (Gen.record entry) fun _ => True
  value : ∀ name outer, Gen.Allows o I (site.value name outer) (R.slot name outer)
  variableName : ∀ name, Gen.Allows o I (Gen.variableName name) (R.variableName name)
  procedureName : ∀ name, Gen.Allows o I (Gen.procedureName name) (R.procedureName name)
  helper : ∀ name template, Script.FairTemplate template →
    Gen.Allows o I (Gen.helper name template) (R.helperName name)

section

open Gen (Allows)

variable {R : Reading} {o : Options} {I : Pass → Prop} {site : Site}

namespace Site

theorem valueOr_allows (hrecord : ∀ entry, Allows o I (Gen.record entry) fun _ => True)
    {name : String} {outer : Order} {P : String → Prop}
    (hvalue : Allows o I (site.value name outer) P) (default : String) :
    Allows o I (site.valueOr name outer default) fun text =>
      P text ∧ text ≠ "" ∨ P "" ∧ text = default := by
  rw [Site.valueOr]
  refine hvalue.bind fun code hcode => ?_
  split
  · rename_i hempty
    refine (hrecord _).bind fun _ _ => Allows.pure ?_
    exact Or.inr ⟨hempty ▸ hcode, rfl⟩
  · rename_i hne
    exact Allows.pure (Or.inl ⟨hcode, hne⟩)

theorem adjustedIndex_allows (hrecord : ∀ entry, Allows o I (Gen.record entry) fun _ => True)
    {slot : String} (hvalue : ∀ outer, Allows o I (site.value slot outer) (R.slot slot outer))
    (delta : Int) (negated : Bool) (order : Order) :
    Allows o I (site.adjustedIndex slot delta negated order)
      (R.Index o.isOneBased slot delta negated order) := by
  rw [Site.adjustedIndex]
  refine Allows.options.bind ?_
  rintro _ rfl
  refine (valueOr_allows hrecord (hvalue _) _).bind fun code hcode => ?_
  split
  · rename_i hplain
    exact Allows.lift fun text htext => ⟨code, hcode, Or.inl ⟨hplain, htext⟩⟩
  · rename_i hplain
    exact Allows.pure ⟨code, hcode, Or.inr ⟨by simpa using hplain, rfl⟩⟩

end Site

namespace Reading.Sound

theorem valueOr (h : R.Sound o I site) (name : String) (outer : Order) (default : String) :
    Allows o I (site.valueOr name outer default) (R.Filled name outer default) :=
  Site.valueOr_allows h.record (h.value name outer) default

theorem adjustedIndex (h : R.Sound o I site) (slot : String) (delta : Int) (negated : Bool)
    (order : Order) :
    Allows o I (site.adjustedIndex slot delta negated order)
      (R.Index o.isOneBased slot delta negated order) :=
  Site.adjustedIndex_allows h.record (h.value slot) delta negated order

theorem index (h : R.Sound o I site) (slot : String) :
    Allows o I (site.index slot) (R.Index o.isOneBased slot 0 false .none) :=
  h.adjustedIndex slot 0 false .none

end Reading.Sound

end

/-! ## The rules -/

namespace Site

open Gen (Allows)

variable {R : Reading} {o : Options} {I : Pass → Prop} {site : Site}

/-- A step that yields an expression of a kind. -/
def Writes (R : Reading) (o : Options) (I : Pass → Prop) (site : Site) (kind : ValueKind)
    (step : Gen Expression) : Prop :=
  Allows o I step fun e => Written R o site kind e.1 e.2

theorem compare_writes (h : R.Sound o I site) : site.Writes R o I .compare site.compare := by
  refine Allows.lifted.bind fun operator hop => ?_
  refine (h.valueOr "A" _ "0").bind fun left hleft => ?_
  refine (h.valueOr "B" _ "0").bind fun right hright => ?_
  exact Allows.pure (.compare hop hleft hright)

theorem junction_writes (h : R.Sound o I site) : site.Writes R o I .junction site.junction := by
  refine Allows.lifted.bind fun ⟨operator, order, identity⟩ hop => ?_
  refine (h.value "A" order).bind fun left hleft => ?_
  refine (h.value "B" order).bind fun right hright => ?_
  refine Allows.pure ?_
  have hw := Written.junction (o := o) hop hleft hright
  simp only [junctionOperand] at hw
  exact hw

theorem negate_writes (h : R.Sound o I site) : site.Writes R o I .negate site.negate := by
  refine (h.valueOr "BOOL" _ "true").bind fun operand hoperand => ?_
  exact Allows.pure (.negate hoperand)

theorem boolean_writes : site.Writes R o I .boolean site.boolean := by
  refine Allows.lifted.bind fun name hname => ?_
  exact Allows.pure (.boolean hname)

theorem ternary_writes (h : R.Sound o I site) : site.Writes R o I .ternary site.ternary := by
  refine (h.valueOr "IF" _ "false").bind fun condition hcondition => ?_
  refine (h.valueOr "THEN" _ "null").bind fun yes hyes => ?_
  refine (h.valueOr "ELSE" _ "null").bind fun no hno => ?_
  exact Allows.pure (.ternary hcondition hyes hno)

theorem number_writes : site.Writes R o I .number site.number := by
  rw [Writes, Site.number]
  split
  · rename_i n hn
    exact Allows.pure (.number hn)
  · exact Allows.throw _

theorem text_writes : site.Writes R o I .text site.text :=
  Allows.pure .text

theorem multiline_writes : site.Writes R o I .multiline site.multiline :=
  Allows.pure .multiline

theorem joined_writes (h : R.Sound o I site) : site.Writes R o I .joined site.joined := by
  refine Allows.lifted.bind fun count hcount => ?_
  refine (Allows.mapM fun i _ => h.valueOr ("ADD" ++ toString i) .none "''").bind
    fun items hitems => ?_
  have hw := Written.joined (o := o) hcount hitems
  rcases items with _ | ⟨first, _ | ⟨second, _ | ⟨third, rest⟩⟩⟩ <;> exact Allows.pure hw

theorem length_writes (h : R.Sound o I site) : site.Writes R o I .length site.length := by
  refine (h.valueOr "VALUE" _ "''").bind fun text htext => ?_
  exact Allows.pure (.length htext)

theorem isEmpty_writes (h : R.Sound o I site) : site.Writes R o I .isEmpty site.isEmpty := by
  refine (h.valueOr "VALUE" _ "''").bind fun text htext => ?_
  exact Allows.pure (.isEmpty htext)

theorem indexOf_writes (h : R.Sound o I site) : site.Writes R o I .indexOf site.indexOf := by
  refine Allows.lifted.bind fun operator hop => ?_
  refine (h.valueOr "FIND" _ "''").bind fun part hpart => ?_
  refine (h.valueOr "VALUE" _ "''").bind fun text htext => ?_
  refine Allows.options.bind fun _ _ => ?_
  split
  · exact Allows.pure (.indexOfOneBased hop hpart htext)
  · exact Allows.pure (.indexOf hop hpart htext)

theorem charAt_writes (h : R.Sound o I site) : site.Writes R o I .charAt site.charAt := by
  rw [Writes, Site.charAt]
  generalize hplace : (if (site.head.field "WHERE").isTruthy then site.head.field "WHERE"
    else .str "FROM_START") = place
  refine (h.valueOr "VALUE" _ "''").bind fun text htext => ?_
  split
  · exact Allows.pure (.firstChar hplace htext)
  · exact Allows.pure (.lastChar hplace htext)
  · exact (h.index "AT").bind fun index hindex => Allows.pure (.charFromStart hplace htext hindex)
  · exact (h.adjustedIndex "AT" 1 true .none).bind fun index hindex =>
      Allows.pure (.charFromEnd hplace htext hindex)
  · exact (h.helper "textRandomLetter" _ (by decide +kernel)).bind fun name hname =>
      Allows.pure (.randomChar hplace htext hname)
  · exact Allows.throw _

/-! ### Parts of a text -/

/-- A part of a text that is written at the text, behind the index at which it begins. -/
def sliceFrom (site : Site) (text first : String) : Edge → Gen Expression
  | .fromStart => do
    let last ← site.adjustedIndex "AT2" 1 false .none
    return (text ++ ".slice(" ++ first ++ ", " ++ last ++ ")", .functionCall)
  | .fromEnd => do
    let index ← site.adjustedIndex "AT2" 0 false .subtraction
    return (text ++ ".slice(" ++ first ++ ", " ++ (text ++ ".length - " ++ index) ++ ")",
      .functionCall)
  | .outermost =>
    return (text ++ ".slice(" ++ first ++ ", " ++ (text ++ ".length") ++ ")", .functionCall)

theorem inlineSubstring_eq (site : Site) (text : String) (start stop : Edge) :
    site.inlineSubstring text start stop = match start with
      | .fromStart => do site.sliceFrom text (← site.index "AT1") stop
      | .fromEnd => do
        let index ← site.adjustedIndex "AT1" 1 false .subtraction
        site.sliceFrom text (text ++ ".length - " ++ index) stop
      | .outermost => site.sliceFrom text "0" stop := by
  cases start <;> cases stop <;> rfl

theorem inlineSubstring_writes (h : R.Sound o I site) {start stop : Edge}
    (hstart : site.optionAmong "WHERE1" startEdges = .ok start)
    (hstop : site.optionAmong "WHERE2" stopEdges = .ok stop) {text : String} {outer : Order}
    (htext : R.Filled "STRING" outer "''" text)
    (houter : outer = .member ∨ outer = .none ∧ Literal.isSimple text = true)
    (hpart : ¬(start = .outermost ∧ stop = .outermost)) (hslot : outer = textSlot start stop) :
    site.Writes R o I .substring (site.inlineSubstring text start stop) := by
  have hrest : ∀ first, R.First o.isOneBased text start first →
      site.Writes R o I .substring (site.sliceFrom text first stop) := by
    intro first hfirst
    cases stop with
    | outermost =>
      have hlast : R.Last o.isOneBased text .outermost (text ++ ".length") := rfl
      exact Allows.pure (.slice hstart hstop htext houter hfirst hlast hpart hslot)
    | fromStart =>
      refine (h.adjustedIndex "AT2" 1 false .none).bind fun last hindex => ?_
      have hlast : R.Last o.isOneBased text .fromStart last := hindex
      exact Allows.pure (.slice hstart hstop htext houter hfirst hlast hpart hslot)
    | fromEnd =>
      refine (h.adjustedIndex "AT2" 0 false .subtraction).bind fun index hindex => ?_
      have hlast : R.Last o.isOneBased text .fromEnd (text ++ ".length - " ++ index) :=
        ⟨index, hindex, rfl⟩
      exact Allows.pure (.slice hstart hstop htext houter hfirst hlast hpart hslot)
  rw [inlineSubstring_eq]
  cases start with
  | outermost => exact hrest "0" rfl
  | fromStart => exact (h.index "AT1").bind hrest
  | fromEnd =>
    refine (h.adjustedIndex "AT1" 1 false .subtraction).bind fun index hindex => ?_
    exact hrest _ ⟨index, hindex, rfl⟩

/-- The text of the helper for a part of a text. -/
def subsequenceTemplate (start stop : Edge) : List String := [
  "function " ++ Helper.nameMark ++ "(" ++ Text.join ", " (["sequence"]
    ++ (if start = .outermost then [] else ["at1"])
    ++ (if stop = .outermost then [] else ["at2"])) ++ ") \x7b",
  "  var start = " ++ edgeIndex "0" "at1" start ++ ";",
  "  var end = " ++ edgeIndex "sequence.length - 1" "at2" stop ++ " + 1;",
  "  return sequence.slice(start, end);",
  "\x7d"]

/-- The argument of a helper for an edge; the outermost edges have none. -/
def edgeArgument (site : Site) (slot : String) (edge : Edge) : Gen (List String) :=
  if edge = .outermost then pure [] else do return [← site.index slot]

theorem edgeArgument_allows (h : R.Sound o I site) (slot : String) (edge : Edge) :
    Allows o I (site.edgeArgument slot edge) (R.EdgeArgument o.isOneBased slot edge) := by
  cases edge with
  | outermost => exact Allows.pure rfl
  | fromStart | fromEnd =>
    exact (h.index slot).bind fun index hindex => Allows.pure ⟨index, hindex, rfl⟩

theorem helperSubstring_eq (site : Site) (text : String) (start stop : Edge) :
    site.helperSubstring text start stop = (do
      let first ← site.edgeArgument "AT1" start
      let last ← site.edgeArgument "AT2" stop
      let name ← Gen.helper ("subsequence" ++ edgeName "First" start ++ edgeName "Last" stop)
        (subsequenceTemplate start stop)
      return (name ++ "(" ++ Text.join ", " ([text] ++ first ++ last) ++ ")", .functionCall)) := by
  simp only [helperSubstring, edgeArgument, subsequenceTemplate]
  cases start <;> cases stop <;>
    simp only [reduceCtorEq, if_true, if_false, bind_assoc, pure_bind]

theorem fairTemplate_subsequence (start stop : Edge) :
    Script.FairTemplate (subsequenceTemplate start stop) := by
  have hhead : Script.FairLine ("function " ++ Helper.nameMark ++ "(" ++ Text.join ", "
      (["sequence"] ++ (if start = .outermost then [] else ["at1"])
        ++ (if stop = .outermost then [] else ["at2"])) ++ ") \x7b") := by
    cases start <;> cases stop <;> decide +kernel
  have hstart : Script.FairLine ("  var start = " ++ edgeIndex "0" "at1" start ++ ";") := by
    cases start <;> decide +kernel
  have hstop : Script.FairLine
      ("  var end = " ++ edgeIndex "sequence.length - 1" "at2" stop ++ " + 1;") := by
    cases stop <;> decide +kernel
  have hrest : Script.FairTemplate ["  return sequence.slice(start, end);", "\x7d"] := by
    decide +kernel
  exact List.forall_mem_cons.mpr ⟨hhead, List.forall_mem_cons.mpr ⟨hstart,
    List.forall_mem_cons.mpr ⟨hstop, hrest⟩⟩⟩

theorem helperSubstring_writes (h : R.Sound o I site) {start stop : Edge}
    (hstart : site.optionAmong "WHERE1" startEdges = .ok start)
    (hstop : site.optionAmong "WHERE2" stopEdges = .ok stop) {text : String}
    (htext : R.Filled "STRING" .none "''" text)
    (hpart : ¬(start = .outermost ∧ stop = .outermost)) (hslot : textSlot start stop = .none)
    (hsimple : Literal.isSimple text = false) :
    site.Writes R o I .substring (site.helperSubstring text start stop) := by
  rw [helperSubstring_eq]
  refine (edgeArgument_allows h "AT1" start).bind fun first hfirst => ?_
  refine (edgeArgument_allows h "AT2" stop).bind fun last hlast => ?_
  exact (h.helper _ _ (fairTemplate_subsequence start stop)).bind fun name hname =>
    Allows.pure (.subsequence hstart hstop htext hfirst hlast hname hpart hslot hsimple)

theorem substring_writes (h : R.Sound o I site) :
    site.Writes R o I .substring site.substring := by
  refine Allows.lifted.bind fun start hstart => ?_
  refine Allows.lifted.bind fun stop hstop => ?_
  refine (h.valueOr "STRING" (textSlot start stop) "''").bind fun text htext => ?_
  split
  · rename_i hwhole
    rw [Bool.and_eq_true, decide_eq_true_eq, decide_eq_true_eq] at hwhole
    obtain ⟨rfl, rfl⟩ := hwhole
    exact Allows.pure (.wholeText hstart hstop htext)
  · rename_i hnot
    have hpart : ¬(start = .outermost ∧ stop = .outermost) := by simpa using hnot
    change site.Writes R o I .substring (if Literal.isSimple text || !needsLength start stop then
      site.inlineSubstring text start stop else site.helperSubstring text start stop)
    cases hneeds : needsLength start stop with
    | false =>
      have hslot : Order.member = textSlot start stop := by
        rw [textSlot, hneeds]
        rfl
      rw [← hslot] at htext
      rw [Bool.not_false, Bool.or_true, if_pos rfl]
      exact inlineSubstring_writes h hstart hstop htext (Or.inl rfl) hpart hslot
    | true =>
      have hslot : textSlot start stop = .none := by
        rw [textSlot, hneeds]
        rfl
      rw [hslot] at htext
      rw [Bool.not_true, Bool.or_false]
      split
      · rename_i hsimple
        exact inlineSubstring_writes h hstart hstop htext (Or.inr ⟨rfl, hsimple⟩) hpart hslot.symm
      · rename_i hsimple
        exact helperSubstring_writes h hstart hstop htext hpart hslot (by simpa using hsimple)

/-! ### Changed texts, names and calls -/

theorem changeCase_writes (h : R.Sound o I site) :
    site.Writes R o I .changeCase site.changeCase := by
  refine Allows.lifted.bind fun call? hcase => ?_
  cases call? with
  | some call =>
    exact (h.valueOr "TEXT" _ "''").bind fun text htext => Allows.pure (.changedCase hcase htext)
  | none =>
    refine (h.valueOr "TEXT" _ "''").bind fun text htext => ?_
    exact (h.helper "textToTitleCase" _ (by decide +kernel)).bind fun name hname =>
      Allows.pure (.titleCase htext hname hcase)

theorem trim_writes (h : R.Sound o I site) : site.Writes R o I .trim site.trim := by
  refine Allows.lifted.bind fun call hmode => ?_
  exact (h.valueOr "TEXT" _ "''").bind fun text htext => Allows.pure (.trim hmode htext)

theorem prompt_writes (h : R.Sound o I site) {kind : ValueKind}
    (hkind : kind = .promptExtended ∨ kind = .prompt) :
    site.Writes R o I kind site.prompt := by
  have hrest : ∀ question, ((∃ field, site.head.fields.get? "TEXT" = some field ∧
        question = Literal.quote field.shown) ∨
      site.head.fields.get? "TEXT" = none ∧ R.Filled "TEXT" .none "''" question) →
      site.Writes R o I kind (
        if !(site.head.field "TYPE").isTruthy || (site.head.field "TYPE").isText "TEXT" then
          pure ("window.prompt(" ++ question ++ ")", .functionCall)
        else if (site.head.field "TYPE").isText "NUMBER" then
          pure ("Number(" ++ ("window.prompt(" ++ question ++ ")") ++ ")", .functionCall)
        else throw (site.unhandled "TYPE")) := by
    intro question hquestion
    split
    · exact Allows.pure (.prompt hkind hquestion)
    · split
      · exact Allows.pure (.promptNumber hkind hquestion)
      · exact Allows.throw _
  rw [Writes, Site.prompt]
  cases hfield : site.head.fields.get? "TEXT" with
  | some field => exact hrest _ (Or.inl ⟨field, hfield, rfl⟩)
  | none =>
    refine (h.valueOr "TEXT" _ "''").bind fun question hquestion => ?_
    exact hrest question (Or.inr ⟨hfield, hquestion⟩)

theorem count_writes (h : R.Sound o I site) : site.Writes R o I .count site.count := by
  refine (h.valueOr "TEXT" _ "''").bind fun text htext => ?_
  refine (h.valueOr "SUB" _ "''").bind fun part hpart => ?_
  exact (h.helper "textCount" _ (by decide +kernel)).bind fun name hname => Allows.pure (.count htext hpart hname)

theorem replace_writes (h : R.Sound o I site) : site.Writes R o I .replace site.replace := by
  refine (h.valueOr "TEXT" _ "''").bind fun text htext => ?_
  refine (h.valueOr "FROM" _ "''").bind fun old hold => ?_
  refine (h.valueOr "TO" _ "''").bind fun new hnew => ?_
  exact (h.helper "textReplace" _ (by decide +kernel)).bind fun name hname =>
    Allows.pure (.replace htext hold hnew hname)

theorem reverse_writes (h : R.Sound o I site) : site.Writes R o I .reverse site.reverse := by
  exact (h.valueOr "TEXT" _ "''").bind fun text htext => Allows.pure (.reverse htext)

theorem getVariable_writes (h : R.Sound o I site) {kind : ValueKind}
    (hkind : kind = .getVariable ∨ kind = .getDynamic) :
    site.Writes R o I kind site.getVariable := by
  exact (h.variableName _).bind fun name hname => Allows.pure (.getVariable hkind hname)

theorem call_writes (h : R.Sound o I site) : site.Writes R o I .call site.call := by
  refine (h.procedureName _).bind fun name hname => ?_
  refine Allows.lifted.bind fun parameters hparameters => ?_
  refine (Allows.mapM fun i _ => h.valueOr ("ARG" ++ toString i) .none "null").bind
    fun arguments harguments => ?_
  exact Allows.pure (.call hname hparameters harguments)

/-- Every rule for values writes one of the shapes of its kind. -/
theorem expression_writes (h : R.Sound o I site) (kind : ValueKind) :
    site.Writes R o I kind (site.expression kind) := by
  cases kind with
  | compare => exact compare_writes h
  | junction => exact junction_writes h
  | negate => exact negate_writes h
  | boolean => exact boolean_writes
  | null => exact Allows.pure .null
  | ternary => exact ternary_writes h
  | number => exact number_writes
  | call => exact call_writes h
  | text => exact text_writes
  | multiline => exact multiline_writes
  | joined => exact joined_writes h
  | length => exact length_writes h
  | isEmpty => exact isEmpty_writes h
  | indexOf => exact indexOf_writes h
  | charAt => exact charAt_writes h
  | substring => exact substring_writes h
  | changeCase => exact changeCase_writes h
  | trim => exact trim_writes h
  | promptExtended => exact prompt_writes h (Or.inl rfl)
  | prompt => exact prompt_writes h (Or.inr rfl)
  | count => exact count_writes h
  | replace => exact replace_writes h
  | reverse => exact reverse_writes h
  | getVariable => exact getVariable_writes h (Or.inl rfl)
  | getDynamic => exact getVariable_writes h (Or.inr rfl)

end Site

end BlockScript
