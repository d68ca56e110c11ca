/-
  BlockScript.Proofs.Member.Shape

  Members of numerals in the shapes of value code. Code for the length, a character or another member
  of a text has the code of a slot ahead of a point. Each shape has the members of numerals of its
  slots, and one more if the code of that slot is digits.
-/
import BlockScript.Proofs.Expression.Exposure
import BlockScript.Proofs.Literal.Value
import BlockScript.Proofs.Script.Member

namespace BlockScript

open Script
open Gen (Allows)

/-! ## Slots -/

namespace Site

/-- The slot of which the rule for a kind of value uses a member, with the precedence of the slot. -/
def subject? (site : Site) : ValueKind → Option (String × Order)
  | .length | .isEmpty | .indexOf => some ("VALUE", .member)
  | .charAt => if site.charPlace.isText "RANDOM" then none else some ("VALUE", .member)
  | .substring =>
    match site.optionAmong "WHERE1" startEdges, site.optionAmong "WHERE2" stopEdges with
    | .ok .outermost, .ok .outermost => none
    | .ok start, .ok stop => some ("STRING", textSlot start stop)
    | _, _ => none
  | .changeCase =>
    match site.optionIn "CASE" caseChanges with
    | .ok (some _) => some ("TEXT", .member)
    | _ => none
  | .trim | .reverse => some ("TEXT", .member)
  | _ => none

/-- Whether the code of a kind of value has a member of a numeral: in a slot, or of the digits in the
    slot of which a member is used. -/
def UsesNumeral (site : Site) (D : String → Prop) (S : String → Order → Prop) (kind : ValueKind) :
    Prop :=
  (∃ slot ∈ site.expressionSlots kind, D slot) ∨
    ∃ slot outer, site.subject? kind = some (slot, outer) ∧ S slot outer

/-- Whether the code of a kind of value is digits, with its precedence: a number, or a whole text. -/
def IsDigits (site : Site) (S : String → Order → Prop) (kind : ValueKind) (order : Order) : Prop :=
  (kind = .number ∧ ∃ n, numberOf ((site.head.fields.get? "NUM").getD (.num (.int 0))) = .ok n ∧
    isDigits n.numeral.toList = true ∧ order = if n.isNonneg then .atomic else .unaryNegation) ∨
  kind = .substring ∧ site.optionAmong "WHERE1" startEdges = .ok .outermost ∧
    site.optionAmong "WHERE2" stopEdges = .ok .outermost ∧ S "STRING" .none ∧ order = .none

end Site

/-- A reading that tells of the code of a slot in which case it has a member of a numeral and in which
    it is digits; if its members are used, or if it passes for a word, it ends in no other digits. -/
structure Reading.Tracks (R : Reading) (D : String → Prop) (S : String → Order → Prop) : Prop where
  strays : ∀ {name outer text}, R.slot name outer text → Strays (D name)
    (outer ≠ .member ∧ Literal.isSimple text = false ∨ isDigits text.toList = true) text
  digits : ∀ {name outer text}, R.slot name outer text →
    (isDigits text.toList = true ↔ S name outer)
  variableName : ∀ {name emitted}, R.variableName name emitted → isName emitted.toList = true
  procedureName : ∀ {name emitted}, R.procedureName name emitted → isName emitted.toList = true
  helperName : ∀ {name emitted}, R.helperName name emitted → isName emitted.toList = true

namespace Reading.Tracks

variable {R : Reading} {D : String → Prop} {S : String → Order → Prop}
variable {slot : String} {outer order : Order} {default text : String}

theorem filled (h : R.Tracks D S) (hdefault : Strays False True default)
    (htext : R.Filled slot outer default text) : Strays (D slot) True text := by
  rcases htext with ⟨hslot, -⟩ | ⟨hempty, rfl⟩
  · exact (h.strays hslot).any
  · refine hdefault.congr ?_
    rw [← (h.strays hempty).none_iff, ← Strays.empty.none_iff]

/-- A text is known as its slot is, since the empty literal for a missing text has no digits. -/
theorem textual (h : R.Tracks D S) (htext : R.Filled slot outer "''" text) :
    Strays (D slot)
      (outer ≠ .member ∧ Literal.isSimple text = false ∨ isDigits text.toList = true) text ∧
      (isDigits text.toList = true ↔ S slot outer) := by
  rcases htext with ⟨hslot, -⟩ | ⟨hempty, rfl⟩
  · exact ⟨h.strays hslot, h.digits hslot⟩
  · constructor
    · refine Strays.weaken (.apart (by decide) (by decide) ?_)
      rw [← (h.strays hempty).none_iff]
      decide
    · rw [← h.digits hempty]
      decide

/-- A text whose members are used, or that passes for a word, ends in digits if it is digits. -/
theorem subject (h : R.Tracks D S) (htext : R.Filled slot outer "''" text)
    (hcase : outer = .member ∨ Literal.isSimple text = true) :
    trail text = some .digits ↔ S slot outer := by
  obtain ⟨hstrays, hdigits⟩ := h.textual htext
  rw [← hdigits]
  refine ⟨fun htrail => ?_, trail_of_isDigits⟩
  refine (hstrays.ends htrail).resolve_left fun ⟨hne, hsimple⟩ => ?_
  rw [hsimple] at hcase
  exact hcase.elim hne Bool.false_ne_true

/-- A member of the text in a slot is one of a numeral if the text is digits. -/
theorem accessed (h : R.Tracks D S) (htext : R.Filled slot .member "''" text) {k : String}
    (hk : Accesses k) : Strays (D slot ∨ S slot .member) False (text ++ k) :=
  (h.filled (.apart (by decide) (by decide) not_false) htext).access (h.subject htext (Or.inl rfl)) hk

/-- Inputs that are filled have the members of numerals of their slots. -/
theorem forall₂ (h : R.Tracks D S) {slotOf : Nat → String} (hdefault : Strays False True default)
    {indices : List Nat} {texts : List String}
    (hall : List.Forall₂ (fun i => R.Filled (slotOf i) outer default) indices texts) :
    (∀ t ∈ texts, Strays (trail t = none) True t) ∧
      ((∃ t ∈ texts, trail t = none) ↔ ∃ i ∈ indices, D (slotOf i)) := by
  induction hall with
  | nil => simp
  | cons hfirst _ ih =>
    have hstrays := h.filled hdefault hfirst
    refine ⟨List.forall_mem_cons.mpr ⟨hstrays.own, ih.1⟩, ?_⟩
    simp only [List.mem_cons, exists_eq_or_imp, hstrays.none_iff, ih.2]

/-! ## Indices -/

open Reading.Fits (indexSum) in
/-- What an adjustment adds parts the index from what is behind it. -/
theorem strays_adjustedCode {P : Prop} {index : String} (h : Strays P True index) (delta : Int)
    (negated : Bool) (order : Order) :
    Strays P True (Site.adjustedCode index delta negated order) := by
  have hint : ∀ n : Int, Strays False True (toString n) := fun n => (strays_numeral (.int n)).any
  have hsum : Strays P True (indexSum index delta) := by
    rw [indexSum]
    split
    · exact (h.between (by decide) (by decide) (hint delta)).congr (by rw [or_false])
    · split
      · exact (h.between (by decide) (by decide) (hint (-delta))).congr (by rw [or_false])
      · exact h
  have hcode : Strays P True (if !negated then indexSum index delta
      else if delta ≠ 0 then "-(" ++ indexSum index delta ++ ")"
      else "-" ++ indexSum index delta) := by
    split
    · exact hsum
    · split
      · exact (Strays.enclose (by decide) hsum (by decide)).weaken
      · exact hsum.minus
  rw [Site.adjustedCode]
  simp only [indexSum] at hcode ⊢
  split
  · split
    · exact hcode.parens.weaken
    · exact hcode
  · exact hcode

variable {oneBased : Bool}

theorem index (h : R.Tracks D S) {delta : Int} {negated : Bool}
    (htext : R.Index oneBased slot delta negated order text) : Strays (D slot) True text := by
  obtain ⟨code, hcode, hadjusted⟩ := htext
  have hbase : Strays False True (if oneBased then "1" else "0") := by
    cases oneBased
    · exact (strays_unsigned (by decide)).any
    · exact (strays_unsigned (by decide)).any
  have hstrays := h.filled hbase hcode
  rcases hadjusted with ⟨hplain, hfolded⟩ | ⟨-, rfl⟩
  · -- A numeral that is folded had no member that could be lost.
    have hnone : ¬D slot := fun hD => trail_ne_none_of_isPlain hplain (hstrays.none_iff.mpr hD)
    obtain ⟨n, rfl⟩ := Site.exists_numeral_of_foldedIndex hfolded
    exact (strays_numeral n).any.congr (iff_of_false not_false hnone)
  · exact strays_adjustedCode hstrays _ _ _

/-- The difference of the length and an index. -/
theorem fromEnd {P Q T E : Prop} {index : String} (htext : Strays P E text)
    (hends : trail text = some .digits ↔ Q) (hindex : Strays T True index) :
    Strays ((P ∨ Q) ∨ T) True (text ++ ".length - " ++ index) := by
  have hlength := htext.access hends (k := ".length - ") (by decide)
  have hends : EndsApart (text ++ ".length - ") := EndsApart.append (by decide) text
  exact hlength.append (hends.seam hlength.whole.closed index) hindex

/-- The beginning of a part has the members of numerals of its index, and those of the text if it
    uses the length. -/
theorem first (h : R.Tracks D S) {P E Q : Prop} {start : Site.Edge} {first : String}
    (htext : Strays P E text) (hends : trail text = some .digits ↔ Q)
    (hfirst : R.First oneBased text start first) :
    Strays (start = .fromEnd ∧ (P ∨ Q) ∨ start ≠ .outermost ∧ D "AT1") True first := by
  cases start with
  | outermost =>
    rw [Reading.First] at hfirst
    rw [hfirst]
    exact (strays_unsigned (by decide)).any.congr (by simp)
  | fromStart => exact (h.index hfirst).congr (by simp)
  | fromEnd =>
    obtain ⟨index, hindex, rfl⟩ := hfirst
    exact (fromEnd htext hends (h.index hindex)).congr (by simp)

/-- So does the end of a part; the outermost end is the length. -/
theorem last (h : R.Tracks D S) {P E Q : Prop} {stop : Site.Edge} {last : String}
    (htext : Strays P E text) (hends : trail text = some .digits ↔ Q)
    (hlast : R.Last oneBased text stop last) :
    Strays (stop ≠ .fromStart ∧ (P ∨ Q) ∨ stop ≠ .outermost ∧ D "AT2") True last := by
  cases stop with
  | outermost =>
    rw [Reading.Last] at hlast
    rw [hlast]
    exact (htext.access hends (by decide)).weaken.congr (by simp)
  | fromStart => exact (h.index hlast).congr (by simp)
  | fromEnd =>
    obtain ⟨index, hindex, rfl⟩ := hlast
    exact (fromEnd htext hends (h.index hindex)).congr (by simp)

/-- The arguments for an edge have the members of numerals of its index, if the edge has one. -/
theorem edgeArgument (h : R.Tracks D S) {edge : Site.Edge} {arguments : List String}
    (harguments : R.EdgeArgument oneBased slot edge arguments) :
    (∀ t ∈ arguments, Strays (trail t = none) True t) ∧
      ((∃ t ∈ arguments, trail t = none) ↔ edge ≠ .outermost ∧ D slot) := by
  cases edge with
  | outermost =>
    rw [Reading.EdgeArgument] at harguments
    rw [harguments]
    simp
  | fromStart | fromEnd =>
    obtain ⟨index, hindex, rfl⟩ := harguments
    have hstrays := h.index hindex
    refine ⟨List.forall_mem_singleton.mpr hstrays.own, ?_⟩
    simp [hstrays.none_iff]

end Reading.Tracks

/-! ## Shapes -/

theorem strays_joinedItems {items : List String}
    (h : ∀ t ∈ items, Strays (trail t = none) True t) :
    Strays (∃ t ∈ items, trail t = none) False (joinedItems items).1 := by
  rcases items with _ | ⟨first, _ | ⟨second, _ | ⟨third, rest⟩⟩⟩
  · exact (Strays.apart (by decide) (by decide) not_false).congr (by simp)
  · exact (h first List.mem_cons_self).forceString.congr (by simp)
  · have hfirst := (h first List.mem_cons_self).forceString
    have hsecond := (h second (List.mem_cons_of_mem _ List.mem_cons_self)).forceString
    exact (hfirst.between (by decide) (by decide) hsecond).congr (by simp)
  · have hitems := Strays.join (k := ",") (by decide) (by decide) h
    exact Strays.enclose (by decide) hitems (by decide)

/-- A call of a name has the members of numerals of its arguments. -/
theorem strays_call {P E : Prop} {name inside : String} (hname : isName name.toList = true)
    (hinside : Strays P E inside) : Strays P False (name ++ "(" ++ inside ++ ")") := by
  have hopen : Strays False False (name ++ "(") := (strays_name hname).ahead (by decide)
  have hends : EndsApart (name ++ "(") := EndsApart.append (by decide) name
  refine ((hopen.append (hends.seam hopen.whole.closed inside) hinside).ahead (by decide)).congr ?_
  rw [false_or]

/-- What is known of value code: in which case it has a member of a numeral, and in which it is
    digits. Code that binds like a member or passes for a word ends in no other digits. -/
structure CodeTrail (P : Prop) (W : Order → Prop) (text : String) (order : Order) : Prop where
  strays : Strays P
    (2 < order.rank ∧ Literal.isSimple text = false ∨ isDigits text.toList = true) text
  digits : ∀ order', W order' ↔ isDigits text.toList = true ∧ order' = order

namespace CodeTrail

variable {P : Prop} {W : Order → Prop} {text : String} {order : Order}

/-- Code of operators is not digits, whatever it ends in. -/
theorem of_loose {E : Prop} (h : Strays P E text) (hrank : 2 < order.rank)
    (hsimple : Literal.isSimple text = false) (hW : ∀ order', ¬W order') :
    CodeTrail P W text order where
  strays := h.mono Iff.rfl fun _ => Or.inl ⟨hrank, hsimple⟩
  digits order' := by
    refine iff_of_false (hW order') fun hdigits => ?_
    rw [isSimple_of_isDigits hdigits.1] at hsimple
    cases hsimple

/-- Code that does not end in digits is not digits. -/
theorem of_ends (h : Strays P False text) (hW : ∀ order', ¬W order') : CodeTrail P W text order where
  strays := h.weaken
  digits order' := iff_of_false (hW order') fun hdigits => h.ends (trail_of_isDigits hdigits.1)

end CodeTrail

namespace Written

variable {R : Reading} {D : String → Prop} {S : String → Order → Prop} {o : Options} {site : Site}

theorem strays_constant {s : String} (h : Whole s ∧ trail s = some .apart) : Strays False False s :=
  .apart h.1 h.2 not_false

theorem strays_emptyText : Strays False True "''" :=
  (strays_constant (by decide)).weaken

theorem accesses_of_optionIn {field : String} {table : List (String × String)} {choice : String}
    (htable : ∀ entry ∈ table, Accesses entry.2) (h : site.optionIn field table = .ok choice) :
    Accesses choice := by
  obtain ⟨name, hmem⟩ := Site.mem_of_optionIn h
  exact htable _ hmem

theorem strays_junctionOperand {P E : Prop} {left right identity operand : String}
    (hidentity : Strays False False identity) (h : Strays P E operand) :
    Strays P True (junctionOperand left right identity operand) := by
  have hnone : operand = "" → ∀ {s : String}, Strays False False s → Strays P True s := by
    rintro rfl s hs
    refine hs.weaken.congr ?_
    rw [← h.none_iff, ← Strays.empty.none_iff]
  rw [junctionOperand]
  split
  · rename_i hempty
    split
    · exact hnone hempty (strays_constant (by decide))
    · exact hnone hempty hidentity
  · exact h.any

theorem strays_question (hR : R.Tracks D S) {question : String}
    (h : (∃ field, site.head.fields.get? "TEXT" = some field ∧
        question = Literal.quote field.shown) ∨
      site.head.fields.get? "TEXT" = none ∧ R.Filled "TEXT" .none "''" question) :
    Strays ((site.head.fields.get? "TEXT").isSome = false ∧ D "TEXT") True question := by
  rcases h with ⟨field, hfield, rfl⟩ | ⟨hnone, hfilled⟩
  · exact (strays_quote _).weaken.congr (by simp [hfield])
  · exact (hR.filled strays_emptyText hfilled).congr (by simp [hnone])

/-! ### Shapes of several kinds -/

/-- Code without slots. -/
theorem codeTrail_fixed {kind : ValueKind} {text : String} {order : Order}
    (hslots : site.expressionSlots kind = []) (hsubject : site.subject? kind = none)
    (hdigits : ∀ order, ¬site.IsDigits S kind order) (h : Strays False False text) :
    CodeTrail (site.UsesNumeral D S kind) (site.IsDigits S kind) text order := by
  refine .of_ends (h.congr ?_) hdigits
  simp [Site.UsesNumeral, hslots, hsubject]

/-- A member of the text in the only slot. -/
theorem codeTrail_accessed (hR : R.Tracks D S) {kind : ValueKind} {slot text k : String}
    {order : Order} (hslots : site.expressionSlots kind = [slot])
    (hsubject : site.subject? kind = some (slot, .member))
    (hdigits : ∀ order, ¬site.IsDigits S kind order) (htext : R.Filled slot .member "''" text)
    (hk : Accesses k) :
    CodeTrail (site.UsesNumeral D S kind) (site.IsDigits S kind) (text ++ k) order := by
  refine .of_ends ((hR.accessed htext hk).congr ?_) hdigits
  simp [Site.UsesNumeral, hslots, hsubject]

/-- A call of a helper on the text in the only slot. -/
theorem codeTrail_helped (hR : R.Tracks D S) {kind : ValueKind} {slot text name : String}
    {outer order : Order} (hslots : site.expressionSlots kind = [slot])
    (hsubject : site.subject? kind = none) (hdigits : ∀ order, ¬site.IsDigits S kind order)
    (htext : R.Filled slot outer "''" text) (hname : isName name.toList = true) :
    CodeTrail (site.UsesNumeral D S kind) (site.IsDigits S kind) (name ++ "(" ++ text ++ ")")
      order := by
  refine .of_ends ((strays_call hname (hR.filled strays_emptyText htext)).congr ?_) hdigits
  simp [Site.UsesNumeral, hslots, hsubject]

/-! ### Logic -/

theorem codeTrail_compare (hR : R.Tracks D S) {operator left right : String}
    (hop : site.optionIn "OP" Site.comparisons = .ok operator)
    (hleft : R.Filled "A" (Site.comparisonOrder operator) "0" left)
    (hright : R.Filled "B" (Site.comparisonOrder operator) "0" right) :
    CodeTrail (site.UsesNumeral D S .compare) (site.IsDigits S .compare)
      (left ++ " " ++ operator ++ " " ++ right) (Site.comparisonOrder operator) := by
  have hbetween : Separates (" " ++ operator ++ " ") ∧ EndsApart (" " ++ operator ++ " ") ∧
      2 < (Site.comparisonOrder operator).rank := by
    obtain ⟨name, hmem⟩ := Site.mem_of_optionIn hop
    have htable : ∀ entry ∈ Site.comparisons, Separates (" " ++ entry.2 ++ " ") ∧
        EndsApart (" " ++ entry.2 ++ " ") ∧ 2 < (Site.comparisonOrder entry.2).rank := by decide
    exact htable _ hmem
  have hzero : Strays False True "0" := (strays_unsigned (by decide)).any
  have hall := (hR.filled hzero hleft).between hbetween.1 hbetween.2.1 (hR.filled hzero hright)
  simp only [← String.append_assoc] at hall
  refine .of_loose (hall.congr ?_) hbetween.2.2 ?_ ?_
  · simp [Site.UsesNumeral, Site.expressionSlots, Site.subject?]
  · exact isSimple_eq_false (c := ' ') (by simp) (by decide)
  · simp [Site.IsDigits]

theorem codeTrail_junction (hR : R.Tracks D S) {operator identity left right : String}
    {order : Order}
    (hop : site.optionAmong "OP" Site.junctions = .ok (operator, order, identity))
    (hleft : R.slot "A" order left) (hright : R.slot "B" order right) :
    CodeTrail (site.UsesNumeral D S .junction) (site.IsDigits S .junction)
      (junctionOperand left right identity left ++ " " ++ operator ++ " " ++
        junctionOperand left right identity right) order := by
  obtain ⟨name, hmem⟩ := Site.mem_of_optionAmong hop
  have htable : ∀ entry ∈ Site.junctions, Separates (" " ++ entry.2.1 ++ " ") ∧
      EndsApart (" " ++ entry.2.1 ++ " ") ∧ 2 < entry.2.2.1.rank ∧
      (Whole entry.2.2.2 ∧ trail entry.2.2.2 = some .apart) := by decide
  obtain ⟨hparts, hends, hrank, hidentity⟩ := htable _ hmem
  have hleft' : Strays (D "A") True (junctionOperand left right identity left) :=
    strays_junctionOperand (strays_constant hidentity) (hR.strays hleft)
  have hright' : Strays (D "B") True (junctionOperand left right identity right) :=
    strays_junctionOperand (strays_constant hidentity) (hR.strays hright)
  have hall := hleft'.between hparts hends hright'
  simp only [← String.append_assoc] at hall
  refine .of_loose (hall.congr ?_) hrank ?_ ?_
  · simp [Site.UsesNumeral, Site.expressionSlots, Site.subject?]
  · exact isSimple_eq_false (c := ' ') (by simp) (by decide)
  · simp [Site.IsDigits]

theorem codeTrail_ternary (hR : R.Tracks D S) {condition yes no : String}
    (hcondition : R.Filled "IF" .conditional "false" condition)
    (hyes : R.Filled "THEN" .conditional "null" yes)
    (hno : R.Filled "ELSE" .conditional "null" no) :
    CodeTrail (site.UsesNumeral D S .ternary) (site.IsDigits S .ternary)
      (condition ++ " ? " ++ yes ++ " : " ++ no) .conditional := by
  have hfalse : Strays False True "false" := (strays_constant (by decide)).weaken
  have hnull : Strays False True "null" := (strays_constant (by decide)).weaken
  have hleft := (hR.filled hfalse hcondition).between (k := " ? ") (by decide) (by decide)
    (hR.filled hnull hyes)
  have hall := hleft.between (k := " : ") (by decide) (by decide) (hR.filled hnull hno)
  refine .of_loose (hall.congr ?_) (by decide) ?_ ?_
  · simp [Site.UsesNumeral, Site.expressionSlots, Site.subject?, or_assoc]
  · exact isSimple_eq_false (c := ' ') (by simp) (by decide)
  · simp [Site.IsDigits]

/-! ### Numbers and calls -/

/-- Digits behind a minus sign are the end of a number that binds like a negation. -/
theorem codeTrail_number {n : Number}
    (hn : Site.numberOf ((site.head.fields.get? "NUM").getD (.num (.int 0))) = .ok n) :
    CodeTrail (site.UsesNumeral D S .number) (site.IsDigits S .number) n.numeral
      (if n.isNonneg then .atomic else .unaryNegation) := by
  constructor
  · refine (strays_numeral n).mono ?_ ?_
    · simp [Site.UsesNumeral, Site.expressionSlots, Site.subject?]
    · rintro (hdigits | ⟨hneg, hminus⟩)
      · exact Or.inr hdigits
      · refine Or.inl ⟨?_, isSimple_eq_false hminus (by decide)⟩
        rw [hneg]
        decide
  · simp [Site.IsDigits, hn]

theorem codeTrail_call (hR : R.Tracks D S) {name : String} {parameters : List Json}
    {arguments : List String} {order : Order}
    (hname : R.procedureName (site.head.field "NAME").shown name)
    (hparameters : site.head.parameters = .ok parameters)
    (harguments : List.Forall₂ (fun (i : Nat) => R.Filled ("ARG" ++ toString i) .none "null")
      (List.range parameters.length) arguments) :
    CodeTrail (site.UsesNumeral D S .call) (site.IsDigits S .call)
      (name ++ "(" ++ Text.join ", " arguments ++ ")") order := by
  have hnull : Strays False True "null" := (strays_constant (by decide)).weaken
  obtain ⟨harguments', hslots⟩ := hR.forall₂ hnull harguments
  have hall := strays_call (hR.procedureName hname)
    (Strays.join (k := ", ") (by decide) (by decide) harguments')
  refine .of_ends (hall.congr ?_) ?_
  · rw [hslots]
    simp [Site.UsesNumeral, Site.expressionSlots, Site.subject?, Site.argumentSlots, hparameters]
  · simp [Site.IsDigits]

/-- The request for an input: its question is code only if it is not in a field. -/
theorem codeTrail_prompt {kind : ValueKind} {code : String} {order : Order}
    (hkind : kind = .promptExtended ∨ kind = .prompt)
    (hcode : Strays ((site.head.fields.get? "TEXT").isSome = false ∧ D "TEXT") False code) :
    CodeTrail (site.UsesNumeral D S kind) (site.IsDigits S kind) code order := by
  refine .of_ends (hcode.congr ?_) ?_
  · rcases hkind with rfl | rfl <;> simp [Site.UsesNumeral, Site.expressionSlots, Site.subject?]
  · rcases hkind with rfl | rfl <;> simp [Site.IsDigits]

/-! ### Texts -/

theorem strays_indexOf {P Q E E' T : Prop} {operator part text : String}
    (hop : site.optionAmong "END" [("FIRST", "indexOf"), ("LAST", "lastIndexOf")] = .ok operator)
    (htext : Strays P E text) (hends : trail text = some .digits ↔ T) (hpart : Strays Q E' part) :
    Strays ((P ∨ T) ∨ Q) False (text ++ "." ++ operator ++ "(" ++ part ++ ")") := by
  have haccess : Accesses ("." ++ operator ++ "(") ∧ EndsApart ("." ++ operator ++ "(") := by
    obtain ⟨name, hmem⟩ := Site.mem_of_optionAmong hop
    have htable : ∀ entry ∈ [("FIRST", "indexOf"), ("LAST", "lastIndexOf")],
        Accesses ("." ++ entry.2 ++ "(") ∧ EndsApart ("." ++ entry.2 ++ "(") := by decide
    exact htable _ hmem
  have hall := htext.method hends (c := ")") haccess.1 haccess.2 hpart (by decide)
  simpa only [← String.append_assoc] using hall

theorem usesNumeral_indexOf :
    site.UsesNumeral D S .indexOf ↔ (D "VALUE" ∨ S "VALUE" .member) ∨ D "FIND" := by
  simp [Site.UsesNumeral, Site.expressionSlots, Site.subject?, or_comm, or_left_comm]

theorem not_isDigits_indexOf (order : Order) : ¬site.IsDigits S .indexOf order := by
  simp [Site.IsDigits]

theorem codeTrail_indexOf (hR : R.Tracks D S) {operator part text : String} {order : Order}
    (hop : site.optionAmong "END" [("FIRST", "indexOf"), ("LAST", "lastIndexOf")] = .ok operator)
    (hpart : R.Filled "FIND" .none "''" part) (htext : R.Filled "VALUE" .member "''" text) :
    CodeTrail (site.UsesNumeral D S .indexOf) (site.IsDigits S .indexOf)
      (text ++ "." ++ operator ++ "(" ++ part ++ ")") order := by
  have hall := strays_indexOf hop (hR.filled strays_emptyText htext)
    (hR.subject htext (Or.inl rfl)) (hR.filled strays_emptyText hpart)
  exact .of_ends (hall.congr usesNumeral_indexOf.symm) not_isDigits_indexOf

theorem codeTrail_indexOfOneBased (hR : R.Tracks D S) {operator part text : String}
    (hop : site.optionAmong "END" [("FIRST", "indexOf"), ("LAST", "lastIndexOf")] = .ok operator)
    (hpart : R.Filled "FIND" .none "''" part) (htext : R.Filled "VALUE" .member "''" text) :
    CodeTrail (site.UsesNumeral D S .indexOf) (site.IsDigits S .indexOf)
      (text ++ "." ++ operator ++ "(" ++ part ++ ")" ++ " + 1") .addition := by
  have hcall := strays_indexOf hop (hR.filled strays_emptyText htext)
    (hR.subject htext (Or.inl rfl)) (hR.filled strays_emptyText hpart)
  have hplus : Strays False True " + 1" := .digits (by decide) (by decide) not_false trivial
  have hstarts : StartsApart " + 1" := by decide
  have hall := hcall.append (hstarts.seam _) hplus
  rw [or_false] at hall
  refine .of_loose (hall.congr usesNumeral_indexOf.symm) (by decide) ?_ not_isDigits_indexOf
  exact isSimple_eq_false (c := ' ') (by simp) (by decide)

/-- A character at an index: a call of a member with the index, whatever is behind the index. -/
theorem codeTrail_charMethod (hR : R.Tracks D S) {text index k c : String} {delta : Int}
    {negated oneBased : Bool} {order : Order}
    (hslots : site.expressionSlots .charAt = ["VALUE", "AT"])
    (hsubject : site.subject? .charAt = some ("VALUE", .member))
    (htext : R.Filled "VALUE" .member "''" text)
    (hindex : R.Index oneBased "AT" delta negated .none index)
    (hk : Accesses k) (hends : EndsApart k) (hc : Separates c) :
    CodeTrail (site.UsesNumeral D S .charAt) (site.IsDigits S .charAt)
      (text ++ k ++ index ++ c) order := by
  have hall := (hR.filled strays_emptyText htext).method (hR.subject htext (Or.inl rfl)) hk hends
    (hR.index hindex) hc
  refine .of_ends (hall.congr ?_) ?_
  · simp [Site.UsesNumeral, hslots, hsubject, or_right_comm]
  · simp [Site.IsDigits]

theorem codeTrail_count (hR : R.Tracks D S) {text part name : String} {order : Order}
    (htext : R.Filled "TEXT" .none "''" text) (hpart : R.Filled "SUB" .none "''" part)
    (hname : R.helperName "textCount" name) :
    CodeTrail (site.UsesNumeral D S .count) (site.IsDigits S .count)
      (name ++ "(" ++ text ++ ", " ++ part ++ ")") order := by
  have hinside := (hR.filled strays_emptyText htext).between (k := ", ") (by decide) (by decide)
    (hR.filled strays_emptyText hpart)
  have hall := strays_call (hR.helperName hname) hinside
  simp only [← String.append_assoc] at hall
  refine .of_ends (hall.congr ?_) ?_
  · simp [Site.UsesNumeral, Site.expressionSlots, Site.subject?]
  · simp [Site.IsDigits]

theorem codeTrail_replace (hR : R.Tracks D S) {text old new name : String} {order : Order}
    (htext : R.Filled "TEXT" .none "''" text) (hold : R.Filled "FROM" .none "''" old)
    (hnew : R.Filled "TO" .none "''" new) (hname : R.helperName "textReplace" name) :
    CodeTrail (site.UsesNumeral D S .replace) (site.IsDigits S .replace)
      (name ++ "(" ++ text ++ ", " ++ old ++ ", " ++ new ++ ")") order := by
  have hleft := (hR.filled strays_emptyText htext).between (k := ", ") (by decide) (by decide)
    (hR.filled strays_emptyText hold)
  have hinside := hleft.between (k := ", ") (by decide) (by decide)
    (hR.filled strays_emptyText hnew)
  have hall := strays_call (hR.helperName hname) hinside
  simp only [← String.append_assoc] at hall
  refine .of_ends (hall.congr ?_) ?_
  · simp [Site.UsesNumeral, Site.expressionSlots, Site.subject?, or_assoc]
  · simp [Site.IsDigits]

/-! ### Parts of texts -/

/-- A slice has the members of numerals of the text and of its indices, and one more if the text is
    digits; those of the text are there once more for every length. -/
theorem strays_slice (hR : R.Tracks D S) {P E T : Prop} {oneBased : Bool}
    {text first last : String} {start stop : Site.Edge} (htext : Strays P E text)
    (hends : trail text = some .digits ↔ T) (hfirst : R.First oneBased text start first)
    (hlast : R.Last oneBased text stop last) :
    Strays ((P ∨ T) ∨ start ≠ .outermost ∧ D "AT1" ∨ stop ≠ .outermost ∧ D "AT2") False
      (text ++ ".slice(" ++ first ++ ", " ++ last ++ ")") := by
  have hinside := (hR.first htext hends hfirst).between (k := ", ") (by decide) (by decide)
    (hR.last htext hends hlast)
  have hall := htext.method hends (k := ".slice(") (c := ")") (by decide) (by decide) hinside
    (by decide)
  simp only [← String.append_assoc] at hall
  refine hall.congr ?_
  -- The members of the text count once, however often the text is written.
  by_cases hmember : P ∨ T <;> simp [hmember]

/-- The members of numerals of a part of a text: those of the text and of the indices that its edges
    have, and that of the text, unless the part is the whole. -/
theorem usesNumeral_substring {start stop : Site.Edge}
    (hstart : site.optionAmong "WHERE1" Site.startEdges = .ok start)
    (hstop : site.optionAmong "WHERE2" Site.stopEdges = .ok stop) :
    site.UsesNumeral D S .substring ↔
      (D "STRING" ∨ ¬(start = .outermost ∧ stop = .outermost) ∧
        S "STRING" (Site.textSlot start stop)) ∨
        start ≠ .outermost ∧ D "AT1" ∨ stop ≠ .outermost ∧ D "AT2" := by
  have hslots : (∃ slot ∈ site.expressionSlots .substring, D slot) ↔
      D "STRING" ∨ start ≠ .outermost ∧ D "AT1" ∨ stop ≠ .outermost ∧ D "AT2" := by
    simp only [Site.expressionSlots, List.mem_cons, List.mem_append, mem_edgeSlots hstart,
      mem_edgeSlots hstop, or_and_right, exists_or, and_assoc, exists_eq_left, exists_and_left]
  have hsubject : (∃ slot outer, site.subject? .substring = some (slot, outer) ∧ S slot outer) ↔
      ¬(start = .outermost ∧ stop = .outermost) ∧ S "STRING" (Site.textSlot start stop) := by
    rw [Site.subject?, hstart, hstop]
    cases start <;> cases stop <;> simp
  rw [Site.UsesNumeral, hslots, hsubject]
  exact or_right_comm

theorem not_isDigits_substring {start stop : Site.Edge}
    (hstart : site.optionAmong "WHERE1" Site.startEdges = .ok start)
    (hstop : site.optionAmong "WHERE2" Site.stopEdges = .ok stop)
    (hpart : ¬(start = .outermost ∧ stop = .outermost)) (order : Order) :
    ¬site.IsDigits S .substring order := by
  rintro (⟨hkind, -⟩ | ⟨-, hfirst, hlast, -⟩)
  · cases hkind
  · rw [hstart] at hfirst
    rw [hstop] at hlast
    exact hpart ⟨Except.ok.inj hfirst, Except.ok.inj hlast⟩

/-- The code of the slot is the code of the block, with a precedence that never binds like a member. -/
theorem codeTrail_wholeText (hR : R.Tracks D S) {text : String}
    (hstart : site.optionAmong "WHERE1" Site.startEdges = .ok .outermost)
    (hstop : site.optionAmong "WHERE2" Site.stopEdges = .ok .outermost)
    (htext : R.Filled "STRING" .none "''" text) :
    CodeTrail (site.UsesNumeral D S .substring) (site.IsDigits S .substring) text .none := by
  obtain ⟨hstrays, hdigits⟩ := hR.textual htext
  have huses := usesNumeral_substring (D := D) (S := S) hstart hstop
  constructor
  · refine hstrays.mono (huses.trans (by simp)).symm (Or.imp_left fun h => ⟨by decide, h.2⟩)
  · simp [Site.IsDigits, hstart, hstop, hdigits]

theorem codeTrail_slice (hR : R.Tracks D S) {text first last : String} {start stop : Site.Edge}
    {outer order : Order} {oneBased : Bool}
    (hstart : site.optionAmong "WHERE1" Site.startEdges = .ok start)
    (hstop : site.optionAmong "WHERE2" Site.stopEdges = .ok stop)
    (htext : R.Filled "STRING" outer "''" text)
    (houter : outer = .member ∨ outer = .none ∧ Literal.isSimple text = true)
    (hfirst : R.First oneBased text start first) (hlast : R.Last oneBased text stop last)
    (hpart : ¬(start = .outermost ∧ stop = .outermost)) (hslot : outer = Site.textSlot start stop) :
    CodeTrail (site.UsesNumeral D S .substring) (site.IsDigits S .substring)
      (text ++ ".slice(" ++ first ++ ", " ++ last ++ ")") order := by
  have hends := hR.subject htext (houter.imp_right And.right)
  have hall := strays_slice hR (hR.filled strays_emptyText htext) hends hfirst hlast
  refine .of_ends (hall.congr ?_) (not_isDigits_substring hstart hstop hpart)
  rw [usesNumeral_substring hstart hstop, ← hslot, and_iff_right hpart]

theorem codeTrail_subsequence (hR : R.Tracks D S) {text name : String} {first last : List String}
    {start stop : Site.Edge} {order : Order} {oneBased : Bool}
    (hstart : site.optionAmong "WHERE1" Site.startEdges = .ok start)
    (hstop : site.optionAmong "WHERE2" Site.stopEdges = .ok stop)
    (htext : R.Filled "STRING" .none "''" text)
    (hfirst : R.EdgeArgument oneBased "AT1" start first)
    (hlast : R.EdgeArgument oneBased "AT2" stop last)
    (hname : isName name.toList = true) (hpart : ¬(start = .outermost ∧ stop = .outermost))
    (hslot : Site.textSlot start stop = .none) (hsimple : Literal.isSimple text = false) :
    CodeTrail (site.UsesNumeral D S .substring) (site.IsDigits S .substring)
      (name ++ "(" ++ Text.join ", " ([text] ++ first ++ last) ++ ")") order := by
  have htext' := hR.filled strays_emptyText htext
  obtain ⟨hfirst', hfirstSlot⟩ := hR.edgeArgument hfirst
  obtain ⟨hlast', hlastSlot⟩ := hR.edgeArgument hlast
  -- A text that is passed to a helper is no word, so it is not digits.
  have hnot : ¬S "STRING" .none := by
    rw [← (hR.textual htext).2]
    intro hdigits
    rw [isSimple_of_isDigits hdigits] at hsimple
    cases hsimple
  have hinside := Strays.join (k := ", ") (by decide) (by decide)
    (List.forall_mem_append.mpr ⟨List.forall_mem_append.mpr
      ⟨List.forall_mem_singleton.mpr htext'.own, hfirst'⟩, hlast'⟩)
  refine .of_ends ((strays_call hname hinside).congr ?_)
    (not_isDigits_substring hstart hstop hpart)
  rw [usesNumeral_substring hstart hstop, hslot, ← hfirstSlot, ← hlastSlot, ← htext'.none_iff]
  simp only [List.mem_append, List.mem_singleton, or_and_right, exists_or, exists_eq_left, hnot,
    and_false, or_false, or_assoc]

/-! ### Every kind -/

/-- What the rules for values write has the members of numerals of its slots, and one more if a
    member is used of digits. -/
theorem codeTrail (hR : R.Tracks D S) {kind : ValueKind} {text : String} {order : Order}
    (h : Written R o site kind text order) :
    CodeTrail (site.UsesNumeral D S kind) (site.IsDigits S kind) text order := by
  cases h with
  | compare hop hleft hright => exact codeTrail_compare hR hop hleft hright
  | junction hop hleft hright => exact codeTrail_junction hR hop hleft hright
  | negate hoperand =>
    have htrue : Strays False True "true" := (strays_constant (by decide)).weaken
    refine .of_loose ((hR.filled htrue hoperand).bang.congr ?_) (by decide) ?_ ?_
    · simp [Site.UsesNumeral, Site.expressionSlots, Site.subject?]
    · exact isSimple_eq_false (c := '!') (by simp) (by decide)
    · simp [Site.IsDigits]
  | boolean hname =>
    obtain ⟨field, hmem⟩ := Site.mem_of_optionAmong hname
    have htable : ∀ entry ∈ [("TRUE", "true"), ("FALSE", "false")],
        Whole entry.2 ∧ trail entry.2 = some .apart := by decide
    exact codeTrail_fixed rfl rfl (by simp [Site.IsDigits]) (strays_constant (htable _ hmem))
  | null => exact codeTrail_fixed rfl rfl (by simp [Site.IsDigits]) (strays_constant (by decide))
  | ternary hcondition hyes hno => exact codeTrail_ternary hR hcondition hyes hno
  | number hn => exact codeTrail_number hn
  | call hname hparameters harguments => exact codeTrail_call hR hname hparameters harguments
  | text => exact codeTrail_fixed rfl rfl (by simp [Site.IsDigits]) (strays_quote _)
  | multiline => exact codeTrail_fixed rfl rfl (by simp [Site.IsDigits]) (strays_quoteLines _)
  | joined hcount hitems =>
    obtain ⟨hitems', hslots⟩ := hR.forall₂ strays_emptyText hitems
    refine .of_ends ((strays_joinedItems hitems').congr ?_) ?_
    · rw [hslots]
      simp [Site.UsesNumeral, Site.expressionSlots, Site.subject?, Site.itemSlots, hcount]
    · simp [Site.IsDigits]
  | length htext =>
    exact codeTrail_accessed hR rfl rfl (by simp [Site.IsDigits]) htext (by decide)
  | isEmpty htext =>
    have hall := (hR.accessed htext (k := ".length") (by decide)).bang
    rw [← String.append_assoc] at hall
    refine .of_ends (hall.congr ?_) ?_
    · simp [Site.UsesNumeral, Site.expressionSlots, Site.subject?]
    · simp [Site.IsDigits]
  | indexOf hop hpart htext => exact codeTrail_indexOf hR hop hpart htext
  | indexOfOneBased hop hpart htext => exact codeTrail_indexOfOneBased hR hop hpart htext
  | firstChar hplace htext =>
    refine codeTrail_accessed hR ?_ ?_ (by simp [Site.IsDigits]) htext (by decide)
    · simp [Site.expressionSlots, hplace, Json.isText]
    · simp [Site.subject?, hplace, Json.isText]
  | lastChar hplace htext =>
    refine codeTrail_accessed hR ?_ ?_ (by simp [Site.IsDigits]) htext (by decide)
    · simp [Site.expressionSlots, hplace, Json.isText]
    · simp [Site.subject?, hplace, Json.isText]
  | charFromStart hplace htext hindex =>
    refine codeTrail_charMethod hR ?_ ?_ htext hindex (by decide) (by decide) (by decide)
    · simp [Site.expressionSlots, hplace, Json.isText]
    · simp [Site.subject?, hplace, Json.isText]
  | charFromEnd hplace htext hindex =>
    refine codeTrail_charMethod hR ?_ ?_ htext hindex (by decide) (by decide) (by decide)
    · simp [Site.expressionSlots, hplace, Json.isText]
    · simp [Site.subject?, hplace, Json.isText]
  | randomChar hplace htext hname =>
    refine codeTrail_helped hR ?_ ?_ (by simp [Site.IsDigits]) htext (hR.helperName hname)
    · simp [Site.expressionSlots, hplace, Json.isText]
    · simp [Site.subject?, hplace, Json.isText]
  | wholeText hstart hstop htext => exact codeTrail_wholeText hR hstart hstop htext
  | slice hstart hstop htext houter hfirst hlast hpart hslot =>
    exact codeTrail_slice hR hstart hstop htext houter hfirst hlast hpart hslot
  | subsequence hstart hstop htext hfirst hlast hname hpart hslot hsimple =>
    exact codeTrail_subsequence hR hstart hstop htext hfirst hlast (hR.helperName hname) hpart hslot
      hsimple
  | changedCase hcase htext =>
    obtain ⟨name, hmem⟩ := Site.mem_of_optionIn hcase
    have htable : ∀ entry ∈ Site.caseChanges, ∀ call ∈ entry.2, Accesses call := by decide
    refine codeTrail_accessed hR rfl ?_ (by simp [Site.IsDigits]) htext (htable _ hmem _ rfl)
    simp [Site.subject?, hcase]
  | titleCase htext hname hcase =>
    refine codeTrail_helped hR rfl ?_ (by simp [Site.IsDigits]) htext (hR.helperName hname)
    simp [Site.subject?, hcase]
  | trim hmode htext =>
    have hcall := accesses_of_optionIn (by decide) hmode
    exact codeTrail_accessed hR rfl rfl (by simp [Site.IsDigits]) htext hcall
  | prompt hkind hquestion =>
    exact codeTrail_prompt hkind
      (Strays.enclose (by decide) (strays_question hR hquestion) (by decide))
  | promptNumber hkind hquestion =>
    have hcall := Strays.enclose (k := "window.prompt(") (c := ")") (by decide)
      (strays_question hR hquestion) (by decide)
    exact codeTrail_prompt hkind (Strays.enclose (by decide) hcall (by decide))
  | count htext hpart hname => exact codeTrail_count hR htext hpart hname
  | replace htext hold hnew hname => exact codeTrail_replace hR htext hold hnew hname
  | reverse htext =>
    exact codeTrail_accessed hR rfl rfl (by simp [Site.IsDigits]) htext (by decide)
  | getVariable hkind hname =>
    have hname' := strays_name (hR.variableName hname)
    rcases hkind with rfl | rfl
    · exact codeTrail_fixed rfl rfl (by simp [Site.IsDigits]) hname'
    · exact codeTrail_fixed rfl rfl (by simp [Site.IsDigits]) hname'

end Written

end BlockScript
