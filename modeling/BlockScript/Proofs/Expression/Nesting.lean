/-
  BlockScript.Proofs.Expression.Nesting

  The precedence that goes with value code, seen from the slot. A slot admits an operator if the
  operator binds tighter or the pair is a bare nesting. The precedence of code covers all of its
  operators: each is of that class or could stand in a slot of it. So code that needs no parentheses
  in a slot exposes only operators that the slot admits.
-/
import BlockScript.Proofs.Literal.Forced
import BlockScript.Proofs.Script.Operator

namespace BlockScript

open Script

namespace Order

/-! ## Slots and operators -/

theorem mem_all (order : Order) : order ∈ all := by
  cases order <;> decide

/-- Whether an operator may stand in a slot without parentheses. -/
def admits (outer op : Order) : Bool :=
  decide (op.rank < outer.rank) || bareNestings.contains (outer, op)

/-- Whether code of a class may expose an operator. -/
def covers (order op : Order) : Bool :=
  op = order || order.admits op

theorem covers_of_admits {order op : Order} (h : order.admits op = true) :
    order.covers op = true := by
  rw [covers, h, Bool.or_true]

/-- An operator that a slot admits binds as tightly, except for a call in a member. -/
theorem rank_le_of_covers {order op : Order} (h : order.covers op = true) :
    op.rank ≤ order.rank ∨ order = member ∧ op = functionCall := by
  rw [covers, admits, Bool.or_eq_true, Bool.or_eq_true, decide_eq_true_eq, decide_eq_true_eq] at h
  rcases h with rfl | hlt | hbare
  · exact Or.inl (Nat.le_refl _)
  · exact Or.inl (Nat.le_of_lt hlt)
  · have hall : ∀ pair ∈ bareNestings,
        pair.2.rank ≤ pair.1.rank ∨ pair.1 = member ∧ pair.2 = functionCall := by decide
    exact hall (order, op) (by simpa using hbare)

/-- What needs no parentheses in a slot has only operators that the slot admits. -/
theorem admits_of_covers {outer inner op : Order} (hneeds : outer.needsParens inner = false)
    (hop : op.isOperator = true) (h : inner.covers op = true) : outer.admits op = true := by
  rw [needsParens] at hneeds
  split at hneeds
  · -- The slot is looser than the code, and so it is than the operators of the code.
    rename_i hlt
    rcases rank_le_of_covers h with hle | ⟨rfl, rfl⟩
    · rw [admits, decide_eq_true (Nat.lt_of_le_of_lt hle hlt), Bool.true_or]
    · have hall : ∀ order ∈ all, member.rank < order.rank → order.admits functionCall = true := by
        decide
      exact hall outer outer.mem_all hlt
  · split at hneeds
    · -- Equal ends of the table: nothing is exposed at the tight one, all is admitted at the other.
      rename_i heq
      have hall : ∀ outer ∈ all, ∀ inner ∈ all,
          (decide (inner.rank = outer.rank) &&
            (outer.rank = atomic.rank || outer.rank = none.rank)) = true →
          outer = inner ∧ (inner = atomic ∨ inner = none) := by decide +kernel
      obtain ⟨rfl, hends⟩ := hall outer outer.mem_all inner inner.mem_all heq
      have hops : ∀ op ∈ all, op.isOperator = true →
          atomic.covers op = false ∧ none.admits op = true := by decide
      rcases hends with rfl | rfl
      · rw [(hops op op.mem_all hop).1] at h
        cases h
      · exact (hops op op.mem_all hop).2
    · -- A bare nesting admits all that the code of its inner class covers, pair by pair.
      have hmem : (outer, inner) ∈ bareNestings := by simpa using hneeds
      have hall : ∀ pair ∈ bareNestings, ∀ op ∈ all, op.isOperator = true →
          pair.2.covers op = true → pair.1.admits op = true := by decide +kernel
      exact hall (outer, inner) hmem op op.mem_all hop h

end Order

/-! ## Slots -/

/-- Operands in slots that expose only operators that the slots admit. -/
structure Reading.Nests (R : Reading) : Prop extends R.Forces where
  admits : ∀ {name outer text}, R.slot name outer text → text = "" ∨ Exposes outer.admits text

namespace Reading.Nests

variable {R : Reading} {slot text : String} {outer : Order} {P : Order → Bool}

theorem exposes (hR : R.Nests) {default : String}
    (hdefault : Exposes (fun _ => false) default) (h : R.Filled slot outer default text) :
    Exposes outer.admits text := by
  rcases h with ⟨hslot, hne⟩ | ⟨-, rfl⟩
  · exact (hR.admits hslot).resolve_left hne
  · exact hdefault.mono fun op _ hop => absurd hop Bool.false_ne_true

theorem covered (hR : R.Nests) {default : String}
    (hdefault : Exposes (fun _ => false) default) (h : R.Filled slot outer default text) :
    Exposes outer.covers text :=
  (hR.exposes hdefault h).mono fun _ _ => Order.covers_of_admits

/-- A text whose members are used exposes members and calls. -/
theorem subject (hR : R.Nests) (h : R.Filled slot .member "''" text)
    (hP : P .member = true ∧ P .functionCall = true) : Exposes P text := by
  have hall : ∀ op ∈ Order.all, op.isOperator = true → Order.member.admits op = true →
      op = .member ∨ op = .functionCall := by decide
  refine (hR.exposes (by decide) h).mono fun op hop hadmits => ?_
  rcases hall op op.mem_all hop hadmits with rfl | rfl
  · exact hP.1
  · exact hP.2

end Reading.Nests

/-! ## Shapes -/

section

variable {P : Order → Bool}

/-- A call on an operand, with any text in its brackets. -/
theorem exposes_method {text method inside : String} (htext : Exposes P text)
    (hmethod : Opener .round method)
    (hP : ∀ op ∈ operatorsFrom ⟨[], true⟩ (tokens method), P op = true)
    (hinside : Enclosed inside) : Exposes P (text ++ method ++ inside ++ ")") := by
  have hnone : ∀ behindOperand,
      operatorsFrom ⟨[.round], behindOperand⟩ (tokens ")") = [] := by decide
  refine htext.method hmethod hP hinside (by decide) fun behindOperand => ?_
  rw [hnone]
  exact List.forall_mem_nil _

theorem exposes_call {name inside : String} (hname : isName name.toList = true)
    (hinside : Enclosed inside) :
    Exposes Order.functionCall.covers (name ++ "(" ++ inside ++ ")") :=
  exposes_method (exposes_name hname) (by decide) (by decide) hinside

/-- A text that is forced exposes a call, if it is no literal. -/
theorem exposes_forceString {s : String} (hs : Operand 99 s) (hgenuine : Literal.IsGenuine s)
    (hP : Literal.isLiteral s = false → P .functionCall = true) :
    Exposes P (Literal.forceString s).1 := by
  rw [Literal.forceString]
  split
  · rename_i h
    obtain ⟨text, rfl⟩ := hgenuine h
    exact exposes_quote text
  · rename_i h
    have hname : isName "String".toList = true := by decide
    have hopener : Opener .round "(" := by decide
    refine exposes_method (exposes_name hname) hopener ?_ hs.enclosed
    have hops : operatorsFrom ⟨[], true⟩ (tokens "(") = [.functionCall] := by decide
    rw [hops]
    exact List.forall_mem_singleton.mpr (hP (Bool.eq_false_iff.mpr h))

theorem exposes_numeral (n : Number) :
    Exposes (Order.covers (if n.isNonneg then .atomic else .unaryNegation)) n.numeral := by
  obtain ⟨t, ht, hnumeral⟩ := numeral_cases n
  rcases hnumeral with ⟨heq, -⟩ | ⟨hneg, heq⟩
  · rw [heq]
    exact ht.elim exposes_name exposes_unsigned
  · rw [heq, hneg]
    exact (ht.elim exposes_name exposes_unsigned).minus rfl

theorem exposes_quoteLines (s : String) : Exposes (Order.covers
    (if (Literal.quoteLines s).toList.contains '+' then .addition else .atomic))
    (Literal.quoteLines s) := by
  obtain ⟨line, others, heq⟩ := quoteLines_eq s
  rw [heq]
  cases others with
  | nil => exact exposes_quote line
  | cons next rest =>
    have hplus : (Text.join " + '\\n' +\n"
        ((line :: next :: rest).map Literal.quote)).toList.contains '+' = true := by
      simp [Text.join]
    have hsep : Between 6 " + '\\n' +\n" := by decide
    rw [hplus, if_pos rfl]
    refine Exposes.join hsep (by decide) (List.cons_ne_nil _ _) fun text htext => ?_
    obtain ⟨part, -, rfl⟩ := List.mem_map.mp htext
    exact exposes_quote part

/-- Joined texts expose a sum or a call. -/
theorem exposes_joinedItems {items : List String} (h : ∀ item ∈ items, Operand 99 item)
    (hgenuine : ∀ item ∈ items, Literal.IsGenuine item) :
    Exposes (joinedItems items).2.covers (joinedItems items).1 := by
  have hforced : ∀ {s : String} {P : Order → Bool}, s ∈ items →
      (Literal.isLiteral s = false → P .functionCall = true) →
      Exposes P (Literal.forceString s).1 :=
    fun hs hP => exposes_forceString (h _ hs) (hgenuine _ hs) hP
  rcases items with _ | ⟨first, _ | ⟨second, _ | ⟨third, rest⟩⟩⟩
  · exact exposes_quote ""
  · refine hforced List.mem_cons_self fun hnot => ?_
    change (Literal.forceString first).2.covers .functionCall = true
    rw [Literal.forceString, if_neg (Bool.eq_false_iff.mp hnot)]
    rfl
  · have hplus : Between 6 " + " := by decide
    have hfirst := hforced (P := Order.addition.covers) List.mem_cons_self fun _ => rfl
    have hsecond := hforced (P := Order.addition.covers)
      (List.mem_cons_of_mem first List.mem_cons_self)
      fun _ => rfl
    exact hfirst.between hplus (by decide) hsecond
  · have hopens : Opens 0 .square "[" := by decide
    have hcomma : Between 99 "," := by decide
    change Exposes Order.functionCall.covers _
    exact .enclose hopens (by decide) (enclosed_join hcomma h) (by decide) (by decide)

end

namespace Written

variable {R : Reading} {o : Options} {site : Site}

/-- A call of a method behind an operand. -/
def IsMethodCall (call : String) : Prop :=
  Suffix call ∧ ∀ op ∈ operatorsFrom ⟨[], true⟩ (tokens call), Order.functionCall.covers op = true

instance (call : String) : Decidable (IsMethodCall call) :=
  inferInstanceAs (Decidable (_ ∧ _))

theorem exposes_compare (hR : R.Nests) {operator left right : String}
    (hop : site.optionIn "OP" Site.comparisons = .ok operator)
    (hleft : R.Filled "A" (Site.comparisonOrder operator) "0" left)
    (hright : R.Filled "B" (Site.comparisonOrder operator) "0" right) :
    Exposes (Site.comparisonOrder operator).covers (left ++ " " ++ operator ++ " " ++ right) := by
  have hbetween : Between 99 (" " ++ operator ++ " ") ∧
      ∀ op ∈ operatorsFrom ⟨[], true⟩ (tokens (" " ++ operator ++ " ")),
        (Site.comparisonOrder operator).covers op = true :=
    Site.of_optionIn hop
      (P := fun operator => Between 99 (" " ++ operator ++ " ") ∧
        ∀ op ∈ operatorsFrom ⟨[], true⟩ (tokens (" " ++ operator ++ " ")),
          (Site.comparisonOrder operator).covers op = true)
      (by decide)
  have h := (hR.covered (by decide) hleft).between hbetween.1 hbetween.2
    (hR.covered (by decide) hright)
  simpa only [String.append_assoc] using h

theorem exposes_junction (hR : R.Nests) {operator identity left right : String} {order : Order}
    (hop : site.optionAmong "OP" Site.junctions = .ok (operator, order, identity))
    (hleft : R.slot "A" order left) (hright : R.slot "B" order right) :
    Exposes order.covers (junctionOperand left right identity left ++ " " ++ operator ++ " " ++
      junctionOperand left right identity right) := by
  have hfixed : (Between 99 (" " ++ operator ++ " ") ∧
      ∀ op ∈ operatorsFrom ⟨[], true⟩ (tokens (" " ++ operator ++ " ")), order.covers op = true) ∧
      isName identity.toList = true :=
    Site.of_optionAmong hop
      (P := fun choice => (Between 99 (" " ++ choice.1 ++ " ") ∧
        ∀ op ∈ operatorsFrom ⟨[], true⟩ (tokens (" " ++ choice.1 ++ " ")),
          choice.2.1.covers op = true) ∧ isName choice.2.2.toList = true)
      (by decide)
  obtain ⟨hbetween, hidentity⟩ := hfixed
  have hoperand : ∀ {name operand : String}, R.slot name order operand →
      Exposes order.covers (junctionOperand left right identity operand) := by
    intro name operand hslot
    have hfalse : isName "false".toList = true := by decide
    rw [junctionOperand]
    split
    · split
      · exact exposes_name hfalse
      · exact exposes_name hidentity
    · rename_i hne
      exact ((hR.admits hslot).resolve_left hne).mono fun _ _ => Order.covers_of_admits
  have h := (hoperand hleft).between hbetween.1 hbetween.2 (hoperand hright)
  simpa only [String.append_assoc] using h

theorem exposes_indexOf {P : Order → Bool} {operator part text : String}
    (hop : site.optionAmong "END" [("FIRST", "indexOf"), ("LAST", "lastIndexOf")] = .ok operator)
    (htext : Exposes P text) (hP : P .member = true ∧ P .functionCall = true)
    (hpart : Enclosed part) : Exposes P (text ++ "." ++ operator ++ "(" ++ part ++ ")") := by
  have hopener : Opener .round ("." ++ operator ++ "(") ∧
      operatorsFrom ⟨[], true⟩ (tokens ("." ++ operator ++ "(")) = [.member, .functionCall] :=
    Site.of_optionAmong hop
      (P := fun operator => Opener .round ("." ++ operator ++ "(") ∧
        operatorsFrom ⟨[], true⟩ (tokens ("." ++ operator ++ "(")) = [.member, .functionCall])
      (by decide)
  have hops : ∀ op ∈ operatorsFrom ⟨[], true⟩ (tokens ("." ++ operator ++ "(")), P op = true := by
    rw [hopener.2]
    exact List.forall_mem_cons.mpr ⟨hP.1, List.forall_mem_singleton.mpr hP.2⟩
  have h := exposes_method htext hopener.1 hops hpart
  simpa only [String.append_assoc] using h

theorem exposes_prompt {question : String} (hquestion : Operand 99 question) :
    Exposes Order.functionCall.covers ("window.prompt(" ++ question ++ ")") := by
  have hopens : Opens 0 .round "window.prompt(" := by decide
  exact .enclose hopens (by decide) hquestion.enclosed (by decide) (by decide)

end Written

/-- The precedence that goes with value code covers all operators that the code exposes, if slots
    admit those of the texts in them. -/
theorem Written.exposes {R : Reading} (hR : R.Nests) {o : Options} {site : Site}
    {kind : ValueKind} {text : String} {order : Order} (h : Written R o site kind text order) :
    Exposes order.covers text := by
  have hcall : Order.functionCall.covers .member = true ∧
      Order.functionCall.covers .functionCall = true := ⟨rfl, rfl⟩
  cases h with
  | compare hop hleft hright => exact exposes_compare hR hop hleft hright
  | junction hop hleft hright => exact exposes_junction hR hop hleft hright
  | negate hoperand => exact (hR.covered (by decide) hoperand).bang rfl
  | boolean hname =>
    exact exposes_name
      (Site.of_optionAmong hname (P := fun name => isName name.toList = true) (by decide))
  | null => exact exposes_name (by decide)
  | ternary hcondition hyes hno =>
    have hquestion : Between 15 " ? " := by decide
    have hcolon : Between 15 " : " := by decide
    have hleft := (hR.covered (by decide) hcondition).between hquestion (by decide)
      (hR.covered (by decide) hyes)
    exact hleft.between hcolon (by decide) (hR.covered (by decide) hno)
  | number hn => exact exposes_numeral _
  | call hname hparameters harguments =>
    have hcomma : Between 99 ", " := by decide
    have harguments' := operand_of_forall₂ hR.toFits (by decide) harguments
    exact exposes_call (hR.procedureName hname) (enclosed_join hcomma harguments')
  | text => exact exposes_quote _
  | multiline => exact exposes_quoteLines _
  | joined hcount hitems =>
    have hoperands := operand_of_forall₂ hR.toFits (by decide) hitems
    refine exposes_joinedItems hoperands fun item hitem => ?_
    obtain ⟨i, hi⟩ := exists_filled hitems hitem
    exact hR.filled_genuine hi
  | length htext => exact (hR.subject htext ⟨rfl, rfl⟩).append (by decide) (by decide)
  | isEmpty htext =>
    have hsuffix : Suffix ".length" := by decide
    have hlength := (hR.subject (P := Order.logicalNot.covers) htext ⟨rfl, rfl⟩).append hsuffix
      (by decide)
    have h := hlength.bang rfl
    rwa [← String.append_assoc] at h
  | indexOf hop hpart htext =>
    exact exposes_indexOf hop (hR.subject htext hcall) hcall (hR.filled (by decide) hpart).enclosed
  | indexOfOneBased hop hpart htext =>
    have hsum : Order.addition.covers .member = true ∧
        Order.addition.covers .functionCall = true := ⟨rfl, rfl⟩
    have hplus : Between 6 " + " := by decide
    have hone : Exposes Order.addition.covers "1" := by decide
    have h := (exposes_indexOf hop (hR.subject htext hsum) hsum
      (hR.filled (by decide) hpart).enclosed).between hplus (by decide) hone
    rwa [String.append_assoc] at h
  | firstChar hplace htext | lastChar hplace htext | reverse htext =>
    exact (hR.subject htext hcall).append (by decide) (by decide)
  | charFromStart hplace htext hindex =>
    exact exposes_method (hR.subject htext hcall) (by decide) (by decide) (hR.index hindex).enclosed
  | charFromEnd hplace htext hindex =>
    have hopener : Opener .round ".slice(" := by decide
    exact (hR.subject htext hcall).method hopener (by decide) (hR.index hindex).enclosed (by decide)
      (by decide)
  | randomChar hplace htext hname | titleCase htext hname =>
    exact exposes_call (hR.helperName hname) (hR.filled (by decide) htext).enclosed
  | wholeText hstart hstop htext => exact hR.covered (by decide) htext
  | @slice text _ _ _ _ _ hstart hstop htext houter hfirst hlast =>
    have hoperand := operand_sliced hR.toFits htext houter
    have hsliced : Exposes Order.functionCall.covers text := by
      rcases houter with rfl | ⟨rfl, hsimple⟩
      · exact hR.subject htext hcall
      · exact exposes_of_isSimple hoperand hsimple
    have hinside := enclosed_pair (hR.first hoperand hfirst) (hR.last hoperand hlast)
    have hopener : Opener .round ".slice(" := by decide
    have h := exposes_method hsliced hopener (by decide) hinside
    simpa only [String.append_assoc] using h
  | subsequence hstart hstop htext hfirst hlast hname =>
    exact exposes_call (hR.helperName hname) (enclosed_subsequence hR.toFits htext hfirst hlast)
  | changedCase hcase htext =>
    have hcalls : ∀ suffix ∈ some _, IsMethodCall suffix :=
      Site.of_optionIn hcase (P := fun call? => ∀ suffix ∈ call?, IsMethodCall suffix) (by decide)
    obtain ⟨hsuffix, hops⟩ := hcalls _ rfl
    exact (hR.subject htext hcall).append hsuffix hops
  | trim hmode htext =>
    obtain ⟨hsuffix, hops⟩ := Site.of_optionIn hmode (P := IsMethodCall) (by decide)
    exact (hR.subject htext hcall).append hsuffix hops
  | prompt hkind hquestion => exact exposes_prompt (operand_question hR.toFits hquestion)
  | promptNumber hkind hquestion =>
    have hname : isName "Number".toList = true := by decide
    exact exposes_call hname (operand_prompt (operand_question hR.toFits hquestion)).enclosed
  | count htext hpart hname =>
    have hinside := enclosed_pair (hR.filled (by decide) htext) (hR.filled (by decide) hpart)
    have h := exposes_call (hR.helperName hname) hinside
    simpa only [String.append_assoc] using h
  | replace htext hold hnew hname =>
    have hcomma : Between 99 ", " := by decide
    have hleft := (hR.filled (by decide) htext).between hcomma (hR.filled (by decide) hold)
    have hinside := enclosed_pair hleft (hR.filled (by decide) hnew)
    have h := exposes_call (hR.helperName hname) hinside
    simpa only [String.append_assoc] using h
  | getVariable hkind hname => exact exposes_name (hR.variableName hname)

/-! ## Code in slots -/

/-- Code in parentheses if a slot needs them exposes only operators that the slot admits. -/
theorem exposes_parens_if {code : String} {inner : Order} (h : Exposes inner.covers code)
    (outer : Order) :
    Exposes outer.admits (if outer.needsParens inner then "(" ++ code ++ ")" else code) := by
  split
  · exact .parens h.operand.enclosed
  · rename_i hbare
    exact h.mono fun op hop => Order.admits_of_covers (Bool.eq_false_iff.mpr hbare) hop

theorem exposes_wrap {text : String} {order : Order} (h : Exposes order.covers text)
    (outer : Order) : Exposes outer.admits (Order.wrap text outer order) := by
  simpa [Order.wrap, h.operand.ne_empty] using exposes_parens_if h outer

/-- What the text in a slot is: an operand of the slot, genuine, whose operators the slot admits. -/
structure FitsSlot (outer : Order) (text : String) : Prop where
  operand : Operand outer.rank text
  genuine : Literal.IsGenuine text
  exposes : Exposes outer.admits text

/-- What an expression is: an operand of its precedence, genuine, whose operators the precedence
    covers. -/
structure FitsOrder (text : String) (order : Order) : Prop where
  operand : Operand order.rank text
  genuine : Literal.IsGenuine text
  exposes : Exposes order.covers text

theorem slotReading_nests : (slotReading FitsSlot).Nests where
  slot h := h.imp_right FitsSlot.operand
  variableName := id
  procedureName := id
  helperName := id
  genuine := by
    rintro _ _ _ (rfl | hfits)
    · exact Literal.isGenuine_of_not (by decide)
    · exact hfits.genuine
  admits h := h.imp_right FitsSlot.exposes

theorem fitsOrder_kept (o : Options) : IsKeptByRules o FitsSlot fun _ => FitsOrder where
  wrap h outer := ⟨operand_wrap h.operand outer, Literal.isGenuine_wrap h.genuine outer _,
    exposes_wrap h.exposes outer⟩
  passed _ h := h
  written _ _ h := ⟨h.operand slotReading_nests.toFits, h.isGenuine slotReading_nests.toForces,
    h.exposes slotReading_nests⟩

end BlockScript
