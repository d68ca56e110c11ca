/-
  BlockScript.Proofs.Expression.Operand

  Every shape of value code reads as an operand that exposes no operator looser than its precedence,
  if the texts in its slots do so for the precedence of their slot.
-/
import BlockScript.Proofs.Generate.Value
import BlockScript.Proofs.Script.Numeral
import BlockScript.Proofs.Script.Recognition

namespace BlockScript

open Script

/-! ## Options of fields -/

namespace Site

/-- The option of a field is one of the table. -/
theorem mem_of_optionAmong {α : Type} {site : Site} {field : String} {table : List (String × α)}
    {choice : α} (h : site.optionAmong field table = .ok choice) :
    ∃ name, (name, choice) ∈ table := by
  rw [optionAmong] at h
  split at h
  · rename_i entry hentry
    obtain rfl := Except.ok.inj h
    exact ⟨entry.1, List.mem_of_find?_eq_some hentry⟩
  · cases h

theorem mem_of_optionIn {α : Type} {site : Site} {field : String} {table : List (String × α)}
    {choice : α} (h : site.optionIn field table = .ok choice) :
    ∃ name, (name, choice) ∈ table := by
  rw [optionIn] at h
  split at h
  · rename_i name hname
    split at h
    · rename_i choice' hlookup
      obtain rfl := Except.ok.inj h
      obtain ⟨before, after, rfl, -⟩ := List.lookup_eq_some_iff.mp hlookup
      exact ⟨name, List.mem_append_right _ List.mem_cons_self⟩
    · cases h
  · split at h
    · cases h
    · cases h

/-- What holds of all options of the table holds of the option of a field. -/
theorem of_optionAmong {α : Type} {P : α → Prop} {site : Site} {field : String}
    {table : List (String × α)} {choice : α} (h : site.optionAmong field table = .ok choice)
    (hall : ∀ entry ∈ table, P entry.2) : P choice := by
  obtain ⟨name, hmem⟩ := mem_of_optionAmong h
  exact hall (name, choice) hmem

theorem of_optionIn {α : Type} {P : α → Prop} {site : Site} {field : String}
    {table : List (String × α)} {choice : α} (h : site.optionIn field table = .ok choice)
    (hall : ∀ entry ∈ table, P entry.2) : P choice := by
  obtain ⟨name, hmem⟩ := mem_of_optionIn h
  exact hall (name, choice) hmem

/-- An index that is folded is the numeral of a number. -/
theorem exists_numeral_of_foldedIndex {numeral text : String} {delta : Int} {negated : Bool}
    (h : foldedIndex numeral delta negated = .ok text) : ∃ n : Number, text = n.numeral := by
  rw [foldedIndex] at h
  split at h
  · cases h
  · split at h
    · cases h
    · rename_i sum _
      obtain rfl := Except.ok.inj h
      cases negated with
      | false => exact ⟨sum, rfl⟩
      | true => exact ⟨sum.neg, rfl⟩

end Site

/-! ## Operands in slots -/

/-- A reading in which slots give operands that fit them, and names are identifiers. -/
structure Reading.Fits (R : Reading) : Prop where
  slot : ∀ {name outer text}, R.slot name outer text → text = "" ∨ Operand outer.rank text
  variableName : ∀ {name emitted}, R.variableName name emitted → isName emitted.toList = true
  procedureName : ∀ {name emitted}, R.procedureName name emitted → isName emitted.toList = true
  helperName : ∀ {name emitted}, R.helperName name emitted → isName emitted.toList = true

namespace Reading.Fits

variable {R : Reading} {slot : String} {outer order : Order} {default text : String}

theorem filled (h : R.Fits) (hdefault : Operand 0 default)
    (htext : R.Filled slot outer default text) : Operand outer.rank text := by
  rcases htext with ⟨hslot, hne⟩ | ⟨-, rfl⟩
  · rcases h.slot hslot with hempty | hoperand
    · exact absurd hempty hne
    · exact hoperand
  · exact hdefault.mono (Nat.zero_le _)

/-- A text whose members are used exposes no operator. -/
theorem member (h : R.Fits) (htext : R.Filled slot .member "''" text) : Operand 0 text :=
  (h.filled (by decide) htext).tighten (by decide)

/-! ## Indices -/

/-- The sum of an index and an integer. -/
def indexSum (index : String) (delta : Int) : String :=
  if 0 < delta then index ++ " + " ++ toString delta
  else if delta < 0 then index ++ " - " ++ toString (-delta)
  else index

theorem operand_indexSum {index : String} {delta : Int} {negated : Bool}
    (h : Operand (Site.indexSlot delta negated order).rank index) :
    Operand 99 (indexSum index delta) ∧
      (delta = 0 → negated = true → Operand 4 (indexSum index delta)) := by
  rw [Site.indexSlot] at h
  rw [indexSum]
  by_cases hpos : 0 < delta
  · rw [if_pos hpos] at h ⊢
    have hdelta := operand_toString_int delta
    rw [if_pos (by omega)] at hdelta
    have hsum : Operand 6 (index ++ " + " ++ toString delta) :=
      h.between (by decide) (hdelta.mono (by decide))
    exact ⟨hsum.any, fun hzero => by omega⟩
  · by_cases hneg : delta < 0
    · rw [if_neg hpos, if_pos hneg] at h ⊢
      have hdelta := operand_toString_int (-delta)
      rw [if_pos (by omega)] at hdelta
      have hsum : Operand 6 (index ++ " - " ++ toString (-delta)) :=
        h.between (by decide) (hdelta.mono (by decide))
      exact ⟨hsum.any, fun hzero => by omega⟩
    · rw [if_neg hpos, if_neg hneg] at h ⊢
      refine ⟨h.any, fun _ hnegated => ?_⟩
      rwa [if_pos hnegated] at h

theorem operand_adjustedCode {index : String} {delta : Int} {negated : Bool}
    (h : Operand (Site.indexSlot delta negated order).rank index) :
    Operand 99 (Site.adjustedCode index delta negated order) := by
  obtain ⟨hsum, htight⟩ := operand_indexSum h
  have hparens : ∀ {s : String}, Operand 99 s → Operand 99 ("(" ++ s ++ ")") := by
    intro s hs
    have hopens : Opens 99 .round "(" := by decide
    exact hopens.enclose hs.enclosed (by decide)
  have hcode : Operand 99 (if !negated then indexSum index delta
      else if delta ≠ 0 then "-(" ++ indexSum index delta ++ ")"
      else "-" ++ indexSum index delta) := by
    cases negated with
    | false => exact hsum
    | true =>
      by_cases hdelta : delta = 0
      · rw [hdelta] at htight ⊢
        exact ((htight rfl rfl).minus (Nat.le_refl 4)).any
      · have hopens : Opens 99 .round "-(" := by decide
        rw [Bool.not_true, if_neg Bool.false_ne_true, if_pos hdelta]
        exact hopens.enclose hsum.enclosed (by decide)
  rw [Site.adjustedCode]
  simp only [indexSum] at hcode ⊢
  split
  · split
    · exact hparens hcode
    · exact hcode
  · exact hcode

theorem operand_foldedIndex {numeral text : String} {delta : Int} {negated : Bool}
    (h : Site.foldedIndex numeral delta negated = .ok text) : Operand 99 text := by
  obtain ⟨n, rfl⟩ := Site.exists_numeral_of_foldedIndex h
  exact (operand_numeral n).any

/-- An adjusted index is an operand. -/
theorem index (h : R.Fits) {oneBased negated : Bool} {delta : Int}
    (htext : R.Index oneBased slot delta negated order text) : Operand 99 text := by
  obtain ⟨code, hcode, ⟨-, hfolded⟩ | ⟨-, rfl⟩⟩ := htext
  · exact operand_foldedIndex hfolded
  · refine operand_adjustedCode (h.filled ?_ hcode)
    cases oneBased <;> decide

theorem first (h : R.Fits) {oneBased : Bool} {start : Site.Edge} {first : String}
    (htext : Operand 0 text) (hfirst : R.First oneBased text start first) : Operand 99 first := by
  cases start with
  | outermost =>
    rw [Reading.First] at hfirst
    rw [hfirst]
    decide
  | fromStart => exact h.index hfirst
  | fromEnd =>
    obtain ⟨index, hindex, rfl⟩ := hfirst
    exact (htext.mono (by decide)).between (by decide) (h.index hindex)

theorem last (h : R.Fits) {oneBased : Bool} {stop : Site.Edge} {last : String}
    (htext : Operand 0 text) (hlast : R.Last oneBased text stop last) : Operand 99 last := by
  cases stop with
  | outermost =>
    rw [Reading.Last] at hlast
    rw [hlast]
    exact (htext.append (by decide)).any
  | fromStart => exact h.index hlast
  | fromEnd =>
    obtain ⟨index, hindex, rfl⟩ := hlast
    exact (htext.mono (by decide)).between (by decide) (h.index hindex)

theorem edgeArgument (h : R.Fits) {oneBased : Bool} {edge : Site.Edge} {arguments : List String}
    (harguments : R.EdgeArgument oneBased slot edge arguments) :
    ∀ argument ∈ arguments, Operand 99 argument := by
  intro argument hargument
  cases edge with
  | outermost =>
    rw [Reading.EdgeArgument] at harguments
    rw [harguments] at hargument
    exact absurd hargument List.not_mem_nil
  | fromStart | fromEnd =>
    obtain ⟨index, hindex, rfl⟩ := harguments
    rw [List.mem_singleton.mp hargument]
    exact h.index hindex

end Reading.Fits

/-! ## Shapes -/

/-- A call of a name with any text in its brackets is an operand. -/
theorem operand_call {name inside : String} (hname : isName name.toList = true)
    (hinside : Enclosed inside) : Operand 0 (name ++ "(" ++ inside ++ ")") := by
  have hopener : Opener .round "(" := by decide
  exact ((operand_name hname).opens hopener).enclose hinside (by decide)

/-- A call on an operand with any text in its brackets is an operand. -/
theorem operand_method {text method inside : String} (htext : Operand 0 text)
    (hmethod : Opener .round method) (hinside : Enclosed inside) :
    Operand 0 (text ++ method ++ inside ++ ")") :=
  (htext.opens hmethod).enclose hinside (by decide)

theorem enclosed_pair {first second : String} (hfirst : Operand 99 first)
    (hsecond : Operand 99 second) : Enclosed (first ++ ", " ++ second) :=
  (hfirst.between (by decide) hsecond).enclosed

namespace Written

variable {R : Reading} {o : Options} {site : Site}

theorem operand_compare {operator left right : String}
    (hop : site.optionIn "OP" Site.comparisons = .ok operator)
    (hleft : Operand (Site.comparisonOrder operator).rank left)
    (hright : Operand (Site.comparisonOrder operator).rank right) :
    Operand (Site.comparisonOrder operator).rank (left ++ " " ++ operator ++ " " ++ right) := by
  have hbetween : Between (Site.comparisonOrder operator).rank (" " ++ operator ++ " ") :=
    Site.of_optionIn hop
      (P := fun operator => Between (Site.comparisonOrder operator).rank (" " ++ operator ++ " "))
      (by decide)
  have h := hleft.between hbetween hright
  simpa only [String.append_assoc] using h

theorem operand_junctionOperand {operator identity operand : String} {order : Order}
    (hop : site.optionAmong "OP" Site.junctions = .ok (operator, order, identity))
    (left right : String) (h : operand = "" ∨ Operand order.rank operand) :
    Operand order.rank (junctionOperand left right identity operand) := by
  have hidentity : Operand 0 identity :=
    Site.of_optionAmong hop (P := fun choice => Operand 0 choice.2.2) (by decide)
  have hfalse : Operand 0 "false" := by decide
  rw [junctionOperand]
  split
  · split
    · exact hfalse.mono (Nat.zero_le _)
    · exact hidentity.mono (Nat.zero_le _)
  · rename_i hne
    exact h.resolve_left hne

theorem operand_junction {operator identity left right : String} {order : Order}
    (hop : site.optionAmong "OP" Site.junctions = .ok (operator, order, identity))
    (hleft : left = "" ∨ Operand order.rank left) (hright : right = "" ∨ Operand order.rank right) :
    Operand order.rank (junctionOperand left right identity left ++ " " ++ operator ++ " " ++
      junctionOperand left right identity right) := by
  have hbetween : Between order.rank (" " ++ operator ++ " ") :=
    Site.of_optionAmong hop
      (P := fun choice => Between choice.2.1.rank (" " ++ choice.1 ++ " ")) (by decide)
  have h := (operand_junctionOperand hop left right hleft).between hbetween
    (operand_junctionOperand hop left right hright)
  simpa only [String.append_assoc] using h

/-- Joined texts expose a sum only. -/
theorem operand_joinedItems {items : List String} (h : ∀ item ∈ items, Operand 99 item) :
    Operand (joinedItems items).2.rank (joinedItems items).1 := by
  rcases items with _ | ⟨first, _ | ⟨second, _ | ⟨third, rest⟩⟩⟩
  · change Operand 0 "''"
    decide
  · exact operand_forceString (h first List.mem_cons_self)
  · have hforced : ∀ {s : String}, Operand 99 s → Operand 6 (Literal.forceString s).1 := by
      intro s hs
      refine (operand_forceString hs).mono ?_
      rw [Literal.forceString]
      split
      · exact Nat.zero_le 6
      · show 2 ≤ 6
        decide
    have hfirst := hforced (h first List.mem_cons_self)
    have hsecond := hforced (h second (List.mem_cons_of_mem _ List.mem_cons_self))
    exact hfirst.between (by decide) hsecond
  · have hopens : Opens 0 .square "[" := by decide
    have hcomma : Between 99 "," := by decide
    exact (hopens.enclose (enclosed_join hcomma h) (by decide)).mono (Nat.zero_le _)

/-- The place of a part in a text, by the two names of the operation. -/
theorem operand_indexOf {operator part text : String}
    (hop : site.optionAmong "END" [("FIRST", "indexOf"), ("LAST", "lastIndexOf")] = .ok operator)
    (hpart : Operand 99 part) (htext : Operand 0 text) :
    Operand 0 (text ++ "." ++ operator ++ "(" ++ part ++ ")") := by
  have hopener : Opener .round ("." ++ operator ++ "(") :=
    Site.of_optionAmong hop (P := fun operator => Opener .round ("." ++ operator ++ "("))
      (by decide)
  have h := operand_method htext hopener hpart.enclosed
  simpa only [String.append_assoc] using h

theorem operand_changedCase {text call : String}
    (hcase : site.optionIn "CASE" Site.caseChanges = .ok (some call)) (htext : Operand 0 text) :
    Operand 0 (text ++ call) := by
  have hsuffix : ∀ suffix ∈ some call, Suffix suffix :=
    Site.of_optionIn hcase (P := fun call? => ∀ suffix ∈ call?, Suffix suffix) (by decide)
  exact htext.append (hsuffix call rfl)

theorem operand_trim {text call : String} (hmode : site.optionIn "MODE" Site.trims = .ok call)
    (htext : Operand 0 text) : Operand 0 (text ++ call) :=
  htext.append (Site.of_optionIn hmode (P := Suffix) (by decide))

theorem operand_boolean {name : String}
    (hname : site.optionAmong "BOOL" [("TRUE", "true"), ("FALSE", "false")] = .ok name) :
    Operand 0 name :=
  Site.of_optionAmong hname (P := Operand 0) (by decide)

theorem operand_prompt {question : String} (hquestion : Operand 99 question) :
    Operand 0 ("window.prompt(" ++ question ++ ")") := by
  have hopens : Opens 0 .round "window.prompt(" := by decide
  exact hopens.enclose hquestion.enclosed (by decide)

theorem operand_question (hR : R.Fits) {question : String}
    (hquestion : (∃ field, site.head.fields.get? "TEXT" = some field ∧
        question = Literal.quote field.shown) ∨
      site.head.fields.get? "TEXT" = none ∧ R.Filled "TEXT" .none "''" question) :
    Operand 99 question := by
  rcases hquestion with ⟨field, -, rfl⟩ | ⟨-, hfilled⟩
  · exact (operand_quote _).any
  · exact hR.filled (by decide) hfilled

/-- A text of which parts are taken exposes no operator: its members are used, or it is a word. -/
theorem operand_sliced (hR : R.Fits) {text : String} {outer : Order}
    (htext : R.Filled "STRING" outer "''" text)
    (houter : outer = .member ∨ outer = .none ∧ Literal.isSimple text = true) :
    Operand 0 text := by
  rcases houter with rfl | ⟨rfl, hsimple⟩
  · exact hR.member htext
  · exact operand_of_isSimple (hR.filled (by decide) htext) hsimple

/-- The arguments of a helper that takes a part of a text. -/
theorem enclosed_subsequence (hR : R.Fits) {text : String} {oneBased : Bool}
    {start stop : Site.Edge} {first last : List String}
    (htext : R.Filled "STRING" .none "''" text) (hfirst : R.EdgeArgument oneBased "AT1" start first)
    (hlast : R.EdgeArgument oneBased "AT2" stop last) :
    Enclosed (Text.join ", " ([text] ++ first ++ last)) := by
  have hcomma : Between 99 ", " := by decide
  refine enclosed_join hcomma fun argument hargument => ?_
  rcases List.mem_append.mp hargument with hargument | hargument
  · rcases List.mem_cons.mp hargument with rfl | hargument
    · exact hR.filled (by decide) htext
    · exact hR.edgeArgument hfirst argument hargument
  · exact hR.edgeArgument hlast argument hargument

/-- Every text of a list of inputs is one that fills a slot. -/
theorem exists_filled {slot : Nat → String} {outer : Order} {default : String} {indices : List Nat}
    {texts : List String} (h : List.Forall₂ (fun i => R.Filled (slot i) outer default) indices texts)
    {text : String} (htext : text ∈ texts) : ∃ i, R.Filled (slot i) outer default text := by
  induction h with
  | nil => exact absurd htext List.not_mem_nil
  | @cons i _ _ _ hfirst _ ih =>
    rcases List.mem_cons.mp htext with rfl | hrest
    · exact ⟨i, hfirst⟩
    · exact ih hrest

/-- A list of inputs that are filled is a list of operands. -/
theorem operand_of_forall₂ (hR : R.Fits) {slot : Nat → String} {default : String}
    (hdefault : Operand 0 default) {indices : List Nat} {texts : List String}
    (h : List.Forall₂ (fun i => R.Filled (slot i) .none default) indices texts) :
    ∀ text ∈ texts, Operand 99 text := by
  intro text htext
  obtain ⟨i, hi⟩ := exists_filled h htext
  exact hR.filled hdefault hi

end Written

/-- Value code exposes no operator that is looser than its precedence. -/
theorem Written.operand {R : Reading} (hR : R.Fits) {o : Options} {site : Site} {kind : ValueKind}
    {text : String} {order : Order} (h : Written R o site kind text order) :
    Operand order.rank text := by
  cases h with
  | compare hop hleft hright =>
    exact operand_compare hop (hR.filled (by decide) hleft) (hR.filled (by decide) hright)
  | junction hop hleft hright => exact operand_junction hop (hR.slot hleft) (hR.slot hright)
  | negate hoperand => exact (hR.filled (by decide) hoperand).bang (by decide)
  | boolean hname => exact operand_boolean hname
  | null => decide
  | ternary hcondition hyes hno =>
    have hquestion : Between 15 " ? " := by decide
    have hcolon : Between 15 " : " := by decide
    have hleft := (hR.filled (by decide) hcondition).between hquestion (hR.filled (by decide) hyes)
    exact hleft.between hcolon (hR.filled (by decide) hno)
  | number hn => exact operand_numeral _
  | call hname hparameters harguments =>
    have hcomma : Between 99 ", " := by decide
    have harguments' := operand_of_forall₂ hR (by decide) harguments
    exact (operand_call (hR.procedureName hname) (enclosed_join hcomma harguments')).mono
      (by decide)
  | text => exact operand_quote _
  | multiline => exact operand_quoteLines _
  | joined hcount hitems => exact operand_joinedItems (operand_of_forall₂ hR (by decide) hitems)
  | length htext => exact ((hR.member htext).append (by decide)).mono (by decide)
  | isEmpty htext =>
    have hsuffix : Suffix ".length" := by decide
    have h := (((hR.member htext).append hsuffix).mono (Nat.zero_le 4)).bang (Nat.le_refl 4)
    rw [← String.append_assoc] at h
    exact h
  | indexOf hop hpart htext =>
    exact (operand_indexOf hop (hR.filled (by decide) hpart) (hR.member htext)).mono (by decide)
  | indexOfOneBased hop hpart htext =>
    have h := operand_indexOf hop (hR.filled (by decide) hpart) (hR.member htext)
    have hplus : Between 6 " + " := by decide
    have hone : Operand 6 "1" := by decide
    have hsum := (h.mono (by decide)).between hplus hone
    rw [String.append_assoc] at hsum
    exact hsum
  | firstChar hplace htext => exact ((hR.member htext).append (by decide)).mono (by decide)
  | lastChar hplace htext => exact ((hR.member htext).append (by decide)).mono (by decide)
  | charFromStart hplace htext hindex =>
    exact (operand_method (hR.member htext) (by decide) (hR.index hindex).enclosed).mono (by decide)
  | charFromEnd hplace htext hindex =>
    have hopener : Opener .round ".slice(" := by decide
    exact (((hR.member htext).opens hopener).enclose (hR.index hindex).enclosed (by decide)).mono
      (by decide)
  | randomChar hplace htext hname =>
    have htext' := hR.filled (by decide) htext
    exact (operand_call (hR.helperName hname) htext'.enclosed).mono (by decide)
  | wholeText hstart hstop htext => exact hR.filled (by decide) htext
  | slice hstart hstop htext houter hfirst hlast =>
    have htext' := operand_sliced hR htext houter
    have hinside := enclosed_pair (hR.first htext' hfirst) (hR.last htext' hlast)
    have hopener : Opener .round ".slice(" := by decide
    have h := (operand_method htext' hopener hinside).mono (Nat.zero_le (Order.rank .functionCall))
    simpa only [String.append_assoc] using h
  | subsequence hstart hstop htext hfirst hlast hname =>
    have hinside := enclosed_subsequence hR htext hfirst hlast
    exact (operand_call (hR.helperName hname) hinside).mono (by decide)
  | changedCase hcase htext =>
    exact (operand_changedCase hcase (hR.member htext)).mono (by decide)
  | titleCase htext hname =>
    have htext' := hR.filled (by decide) htext
    exact (operand_call (hR.helperName hname) htext'.enclosed).mono (by decide)
  | trim hmode htext => exact (operand_trim hmode (hR.member htext)).mono (by decide)
  | prompt hkind hquestion =>
    exact (operand_prompt (operand_question hR hquestion)).mono (by decide)
  | promptNumber hkind hquestion =>
    have hopens : Opens 0 .round "Number(" := by decide
    have hinside := (operand_prompt (operand_question hR hquestion)).enclosed
    exact (hopens.enclose hinside (by decide)).mono (by decide)
  | count htext hpart hname =>
    have hinside := enclosed_pair (hR.filled (by decide) htext) (hR.filled (by decide) hpart)
    have h := (operand_call (hR.helperName hname) hinside).mono (Nat.zero_le (Order.rank .functionCall))
    simpa only [String.append_assoc] using h
  | replace htext hold hnew hname =>
    have hcomma : Between 99 ", " := by decide
    have hleft := (hR.filled (by decide) htext).between hcomma (hR.filled (by decide) hold)
    have hinside := enclosed_pair hleft (hR.filled (by decide) hnew)
    have h := (operand_call (hR.helperName hname) hinside).mono (Nat.zero_le (Order.rank .functionCall))
    simpa only [String.append_assoc] using h
  | reverse htext => exact ((hR.member htext).append (by decide)).mono (by decide)
  | getVariable hkind hname => exact operand_name (hR.variableName hname)

end BlockScript
