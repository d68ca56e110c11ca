/-
  BlockScript.Proofs.Literal.Value

  Value code has the literals of the slots that its rule writes. No rule cuts a text out of the code
  of a slot: an index that is folded is a numeral, and everything else goes around the code as it is.
-/
import BlockScript.Proofs.Expression.Operand
import BlockScript.Proofs.Literal.Carried
import BlockScript.Proofs.Literal.Placement

namespace BlockScript

open Script

/-! ## Slots -/

/-- A reading in which the code of a slot carries the texts of the slot, and names are code. -/
structure Reading.Supplies (R : Reading) (L : String → String → Prop) : Prop where
  slot : ∀ {name outer text}, R.slot name outer text → Carries (L name) text
  variableName : ∀ {name emitted}, R.variableName name emitted → Closed emitted
  procedureName : ∀ {name emitted}, R.procedureName name emitted → Closed emitted
  helperName : ∀ {name emitted}, R.helperName name emitted → Closed emitted

namespace Reading.Supplies

variable {R : Reading} {L : String → String → Prop}
variable {slot : String} {outer order : Order} {default text : String}

theorem filled (h : R.Supplies L) (hdefault : Closed default)
    (htext : R.Filled slot outer default text) : Carries (L slot) text := by
  rcases htext with ⟨hslot, -⟩ | ⟨hempty, rfl⟩
  · exact h.slot hslot
  · exact (h.slot hempty).replaceEmpty hdefault

/-- Inputs that are filled are closed and have the texts of their slots. -/
theorem forall₂ (h : R.Supplies L) {slotOf : Nat → String} (hdefault : Closed default)
    {indices : List Nat} {texts : List String}
    (hall : List.Forall₂ (fun i => R.Filled (slotOf i) outer default) indices texts) :
    (∀ t ∈ texts, Closed t) ∧
      ∀ i ∈ indices, ∀ s, L (slotOf i) s → ∃ t ∈ texts, s ∈ literals t :=
  carries_forall₂ (hall.imp fun _ _ htext => h.filled hdefault htext)

end Reading.Supplies

/-! ## Indices -/

open Reading.Fits (indexSum) in
/-- What an adjustment adds goes around the index. -/
theorem Site.carries_adjustedCode {L : String → Prop} {index : String} (h : Carries L index)
    (delta : Int) (negated : Bool) (order : Order) :
    Carries L (Site.adjustedCode index delta negated order) := by
  have hsum : Carries L (indexSum index delta) := by
    rw [indexSum]
    split
    · exact (h.ahead (by decide)).ahead (closed_toString_int delta)
    · split
      · exact (h.ahead (by decide)).ahead (closed_toString_int (-delta))
      · exact h
  have hcode : Carries L (if !negated then indexSum index delta
      else if delta ≠ 0 then "-(" ++ indexSum index delta ++ ")"
      else "-" ++ indexSum index delta) := by
    split
    · exact hsum
    · split
      · exact (Carries.behind (by decide) hsum).ahead (by decide)
      · exact Carries.behind (by decide) hsum
  rw [Site.adjustedCode]
  simp only [indexSum] at hcode ⊢
  split
  · split
    · exact hcode.parens
    · exact hcode
  · exact hcode

namespace Reading.Supplies

variable {R : Reading} {L : String → String → Prop} {slot text : String} {oneBased : Bool}

theorem index (h : R.Supplies L) {delta : Int} {negated : Bool} {order : Order}
    (htext : R.Index oneBased slot delta negated order text) : Carries (L slot) text := by
  obtain ⟨code, hcode, hadjusted⟩ := htext
  have hbase : Closed (if oneBased then "1" else "0") := by
    cases oneBased <;> decide
  have hcarries := h.filled hbase hcode
  rcases hadjusted with ⟨hplain, hfolded⟩ | ⟨-, rfl⟩
  · -- A numeral that is folded had no literals that could be lost.
    have hclosed := (Reading.Fits.operand_foldedIndex hfolded).whole.closed
    exact hclosed.carries.mono fun s hs =>
      hcarries.not_of_literals_eq_nil (literals_of_isPlain hplain) s hs
  · exact Site.carries_adjustedCode hcarries _ _ _

/-- The beginning of a part has the texts of its slot, if its edge has one. -/
theorem first (h : R.Supplies L) {start : Site.Edge} {first : String} (htext : Closed text)
    (hfirst : R.First oneBased text start first) :
    Carries (fun s => start ≠ .outermost ∧ L "AT1" s) first := by
  cases start with
  | outermost =>
    rw [Reading.First] at hfirst
    have hclosed : Closed "0" := by decide
    rw [hfirst]
    exact hclosed.carries.mono fun s hs => hs.1 rfl
  | fromStart => exact (h.index hfirst).mono fun s hs => hs.2
  | fromEnd =>
    obtain ⟨index, hindex, rfl⟩ := hfirst
    have hlength : Closed (text ++ ".length - ") := htext.append (by decide)
    exact (Carries.behind hlength (h.index hindex)).mono fun s hs => hs.2

/-- The end of a part has the texts of its slot, if its edge has one. -/
theorem last (h : R.Supplies L) {stop : Site.Edge} {last : String} (htext : Closed text)
    (hlast : R.Last oneBased text stop last) :
    Carries (fun s => stop ≠ .outermost ∧ L "AT2" s) last := by
  cases stop with
  | outermost =>
    rw [Reading.Last] at hlast
    have hclosed : Closed (text ++ ".length") := htext.append (by decide)
    rw [hlast]
    exact hclosed.carries.mono fun s hs => hs.1 rfl
  | fromStart => exact (h.index hlast).mono fun s hs => hs.2
  | fromEnd =>
    obtain ⟨index, hindex, rfl⟩ := hlast
    have hlength : Closed (text ++ ".length - ") := htext.append (by decide)
    exact (Carries.behind hlength (h.index hindex)).mono fun s hs => hs.2

/-- The arguments for an edge have the texts of its slot, if the edge has one. -/
theorem edgeArgument (h : R.Supplies L) {edge : Site.Edge} {arguments : List String}
    (harguments : R.EdgeArgument oneBased slot edge arguments) :
    (∀ t ∈ arguments, Closed t) ∧
      ∀ s, edge ≠ .outermost → L slot s → ∃ t ∈ arguments, s ∈ literals t := by
  cases edge with
  | outermost =>
    rw [Reading.EdgeArgument] at harguments
    rw [harguments]
    exact ⟨fun t ht => absurd ht List.not_mem_nil, fun s hne _ => absurd rfl hne⟩
  | fromStart | fromEnd =>
    obtain ⟨index, hindex, rfl⟩ := harguments
    have hcarries := h.index hindex
    refine ⟨fun t ht => ?_, fun s _ hs => ⟨index, List.mem_singleton_self index, hcarries.mem s hs⟩⟩
    rw [List.mem_singleton.mp ht]
    exact hcarries.closed

end Reading.Supplies

/-! ## Shapes -/

theorem carries_joinedItems {items : List String} (h : ∀ t ∈ items, Closed t) :
    Carries (fun s => ∃ t ∈ items, s ∈ literals t) (joinedItems items).1 := by
  have hown : ∀ t ∈ items, Carries (· ∈ literals t) t := fun t ht => ⟨h t ht, fun _ hs => hs⟩
  rcases items with _ | ⟨first, _ | ⟨second, _ | ⟨third, rest⟩⟩⟩
  · have hclosed : Closed "''" := by decide
    exact hclosed.carries.mono fun s ⟨t, ht, _⟩ => absurd ht List.not_mem_nil
  · refine (hown first List.mem_cons_self).forceString.mono ?_
    rintro s ⟨t, ht, hs⟩
    rwa [List.mem_singleton.mp ht] at hs
  · have hfirst := (hown first List.mem_cons_self).forceString
    have hsecond := (hown second (List.mem_cons_of_mem _ List.mem_cons_self)).forceString
    refine ((hfirst.ahead (by decide)).append hsecond).mono ?_
    rintro s ⟨t, ht, hs⟩
    rcases List.mem_cons.mp ht with rfl | ht
    · exact Or.inl hs
    · rw [List.mem_singleton.mp ht] at hs
      exact Or.inr hs
  · exact (Carries.behind (by decide) (carries_join (by decide) h)).ahead (by decide)

theorem closed_of_optionIn {site : Site} {field : String} {table : List (String × String)}
    {choice : String} (htable : ∀ entry ∈ table, Closed entry.2)
    (h : site.optionIn field table = .ok choice) : Closed choice := by
  obtain ⟨name, hmem⟩ := Site.mem_of_optionIn h
  exact htable _ hmem

theorem closed_of_optionAmong {site : Site} {field : String} {table : List (String × String)}
    {choice : String} (htable : ∀ entry ∈ table, Closed entry.2)
    (h : site.optionAmong field table = .ok choice) : Closed choice := by
  obtain ⟨name, hmem⟩ := Site.mem_of_optionAmong h
  exact htable _ hmem

theorem mem_edgeSlots {site : Site} {field slot x : String} {edges : List (String × Site.Edge)}
    {edge : Site.Edge} (h : site.optionAmong field edges = .ok edge) :
    x ∈ site.edgeSlots field slot edges ↔ edge ≠ .outermost ∧ x = slot := by
  rw [Site.edgeSlots, h]
  cases edge <;> simp

namespace Written

variable {R : Reading} {L : String → String → Prop} {o : Options} {site : Site}

/-- The texts of a value: its own, if it is a text, and those of its slots. -/
def Texts (L : String → String → Prop) (site : Site) (kind : ValueKind) (s : String) : Prop :=
  kind = .text ∧ s = site.fieldText "TEXT" "" ∨ ∃ slot ∈ site.expressionSlots kind, L slot s

/-- The texts of a part of a text: those of the text, and those of the indices that its edges have. -/
theorem texts_substring {start stop : Site.Edge}
    (hstart : site.optionAmong "WHERE1" Site.startEdges = .ok start)
    (hstop : site.optionAmong "WHERE2" Site.stopEdges = .ok stop) {s : String}
    (h : Texts L site .substring s) :
    L "STRING" s ∨ start ≠ .outermost ∧ L "AT1" s ∨ stop ≠ .outermost ∧ L "AT2" s := by
  rcases h with ⟨hkind, -⟩ | ⟨slot, hslot, hs⟩
  · cases hkind
  · rw [Site.expressionSlots, List.mem_cons, List.mem_append, mem_edgeSlots hstart,
      mem_edgeSlots hstop] at hslot
    rcases hslot with rfl | ⟨hedge, rfl⟩ | ⟨hedge, rfl⟩
    · exact Or.inl hs
    · exact Or.inr (Or.inl ⟨hedge, hs⟩)
    · exact Or.inr (Or.inr ⟨hedge, hs⟩)

/-- A call of a name with closed arguments carries what they do. -/
theorem carries_call {L : String → Prop} {name inside : String} (hname : Closed name)
    (hinside : Carries L inside) : Carries L (name ++ "(" ++ inside ++ ")") :=
  (Carries.behind (hname.append (by decide)) hinside).ahead (by decide)

theorem carries_junctionOperand {L : String → Prop} {left right identity operand : String}
    (hidentity : Closed identity) (h : Carries L operand) :
    Carries L (junctionOperand left right identity operand) := by
  rw [junctionOperand]
  split
  · rename_i hempty
    rw [hempty] at h
    split
    · exact h.replaceEmpty (by decide)
    · exact h.replaceEmpty hidentity
  · exact h

theorem carries_question (hR : R.Supplies L) {question : String}
    (h : (∃ field, site.head.fields.get? "TEXT" = some field ∧
        question = Literal.quote field.shown) ∨
      site.head.fields.get? "TEXT" = none ∧ R.Filled "TEXT" .none "''" question) :
    Carries (fun s => (site.head.fields.get? "TEXT").isSome = false ∧ L "TEXT" s) question := by
  rcases h with ⟨field, hfield, rfl⟩ | ⟨hnone, hfilled⟩
  · exact (closed_quote _).carries.mono fun s hs => by simp [hfield] at hs
  · exact (hR.filled (by decide) hfilled).mono fun s hs => hs.2

/-- A call of a helper on a part of a text carries the texts of the text and of the indices. -/
theorem carries_subsequence {L : String → Prop} {M : String → String → Prop} {text name : String}
    {first last : List String} {start stop : Site.Edge} (hname : Closed name)
    (htext : Carries L text) (hfirst : (∀ t ∈ first, Closed t) ∧
      ∀ s, start ≠ .outermost → M "AT1" s → ∃ t ∈ first, s ∈ literals t)
    (hlast : (∀ t ∈ last, Closed t) ∧
      ∀ s, stop ≠ .outermost → M "AT2" s → ∃ t ∈ last, s ∈ literals t) :
    Carries (fun s => L s ∨ start ≠ .outermost ∧ M "AT1" s ∨ stop ≠ .outermost ∧ M "AT2" s)
      (name ++ "(" ++ Text.join ", " ([text] ++ first ++ last) ++ ")") := by
  have hclosed : ∀ t ∈ [text] ++ first ++ last, Closed t :=
    List.forall_mem_append.mpr ⟨List.forall_mem_append.mpr
      ⟨List.forall_mem_singleton.mpr htext.closed, hfirst.1⟩, hlast.1⟩
  refine (carries_call hname (carries_join (by decide) hclosed)).mono ?_
  rintro s (hs | ⟨hedge, hs⟩ | ⟨hedge, hs⟩)
  · exact ⟨text, by simp, htext.mem s hs⟩
  · obtain ⟨t, ht, hmem⟩ := hfirst.2 s hedge hs
    exact ⟨t, by simp [ht], hmem⟩
  · obtain ⟨t, ht, hmem⟩ := hlast.2 s hedge hs
    exact ⟨t, by simp [ht], hmem⟩

/-! ### Shapes of several kinds -/

/-- The texts of a value that is not a text are those of its slots. -/
theorem texts_of_slots {kind : ValueKind} {slots : List String} (hkind : kind ≠ .text)
    (hslots : site.expressionSlots kind = slots) {s : String} (h : Texts L site kind s) :
    ∃ slot ∈ slots, L slot s := by
  rcases h with ⟨rfl, -⟩ | hs
  · exact absurd rfl hkind
  · rwa [hslots] at hs

/-- Closed code without slots. -/
theorem carries_fixed {kind : ValueKind} {text : String} (hkind : kind ≠ .text)
    (hslots : site.expressionSlots kind = []) (h : Closed text) :
    Carries (Texts L site kind) text := by
  refine h.carries.mono fun s hs => ?_
  obtain ⟨slot, hslot, -⟩ := texts_of_slots hkind hslots hs
  exact absurd hslot List.not_mem_nil

/-- Code around the only slot. -/
theorem carries_single {kind : ValueKind} {slot text : String} (hkind : kind ≠ .text)
    (hslots : site.expressionSlots kind = [slot]) (h : Carries (L slot) text) :
    Carries (Texts L site kind) text := by
  refine h.mono fun s hs => ?_
  obtain ⟨slot', hslot, hs'⟩ := texts_of_slots hkind hslots hs
  rwa [List.mem_singleton.mp hslot] at hs'

/-- Code of two slots, in any order. -/
theorem carries_pair {kind : ValueKind} {first second text : String} (hkind : kind ≠ .text)
    (hslots : site.expressionSlots kind = [first, second])
    (h : Carries (fun s => L first s ∨ L second s) text) : Carries (Texts L site kind) text := by
  refine h.mono fun s hs => ?_
  obtain ⟨slot, hslot, hs'⟩ := texts_of_slots hkind hslots hs
  rcases List.mem_cons.mp hslot with rfl | hslot
  · exact Or.inl hs'
  · rw [List.mem_singleton.mp hslot] at hs'
    exact Or.inr hs'

/-- Code of three slots. -/
theorem carries_triple {kind : ValueKind} {first second third text : String} (hkind : kind ≠ .text)
    (hslots : site.expressionSlots kind = [first, second, third])
    (h : Carries (fun s => (L first s ∨ L second s) ∨ L third s) text) :
    Carries (Texts L site kind) text := by
  refine h.mono fun s hs => ?_
  obtain ⟨slot, hslot, hs'⟩ := texts_of_slots hkind hslots hs
  simp only [List.mem_cons, List.not_mem_nil, or_false] at hslot
  rcases hslot with rfl | rfl | rfl
  · exact Or.inl (Or.inl hs')
  · exact Or.inl (Or.inr hs')
  · exact Or.inr hs'

/-! ### Logic -/

theorem carries_junction (hR : R.Supplies L) {operator identity left right : String} {order : Order}
    (hop : site.optionAmong "OP" Site.junctions = .ok (operator, order, identity))
    (hleft : R.slot "A" order left) (hright : R.slot "B" order right) :
    Carries (Texts L site .junction) (junctionOperand left right identity left ++ " " ++ operator ++
      " " ++ junctionOperand left right identity right) := by
  obtain ⟨name, hmem⟩ := Site.mem_of_optionAmong hop
  have hfixed : ∀ entry ∈ Site.junctions, Closed entry.2.1 ∧ Closed entry.2.2.2 := by decide
  obtain ⟨hoperator, hidentity⟩ := hfixed _ hmem
  have hspace : Closed " " := by decide
  have hleft' : Carries (L "A") (junctionOperand left right identity left) :=
    carries_junctionOperand hidentity (hR.slot hleft)
  have hright' : Carries (L "B") (junctionOperand left right identity right) :=
    carries_junctionOperand hidentity (hR.slot hright)
  have hhead := ((hleft'.ahead hspace).ahead hoperator).ahead hspace
  exact carries_pair nofun rfl (hhead.append hright')

theorem carries_ternary (hR : R.Supplies L) {condition yes no : String}
    (hcondition : R.Filled "IF" .conditional "false" condition)
    (hyes : R.Filled "THEN" .conditional "null" yes)
    (hno : R.Filled "ELSE" .conditional "null" no) :
    Carries (Texts L site .ternary) (condition ++ " ? " ++ yes ++ " : " ++ no) := by
  have hnull : Closed "null" := by decide
  have hcondition' := (hR.filled (by decide) hcondition).ahead (t := " ? ") (by decide)
  have hyes' := (hcondition'.append (hR.filled hnull hyes)).ahead (t := " : ") (by decide)
  exact carries_triple nofun rfl (hyes'.append (hR.filled hnull hno))

/-! ### Texts -/

/-- A search has the texts of the text that is searched first. -/
theorem carries_indexOf (hR : R.Supplies L) {operator part text : String}
    (hop : site.optionAmong "END" [("FIRST", "indexOf"), ("LAST", "lastIndexOf")] = .ok operator)
    (hpart : R.Filled "FIND" .none "''" part) (htext : R.Filled "VALUE" .member "''" text) :
    Carries (Texts L site .indexOf) (text ++ "." ++ operator ++ "(" ++ part ++ ")") := by
  have hempty : Closed "''" := by decide
  have hoperator := closed_of_optionAmong (by decide) hop
  have htext' := (hR.filled hempty htext).ahead (t := ".") (by decide)
  have hhead := (htext'.ahead hoperator).ahead (t := "(") (by decide)
  have hall := (hhead.append (hR.filled hempty hpart)).ahead (t := ")") (by decide)
  exact carries_pair nofun rfl (hall.mono fun s => Or.symm)

/-- A character at an index: a call of a member with the index, whatever is behind the index. -/
theorem carries_charMethod (hR : R.Supplies L) {text index k c : String} {delta : Int}
    {negated oneBased : Bool} (hslots : site.expressionSlots .charAt = ["VALUE", "AT"])
    (htext : R.Filled "VALUE" .member "''" text)
    (hindex : R.Index oneBased "AT" delta negated .none index) (hk : Closed k) (hc : Closed c) :
    Carries (Texts L site .charAt) (text ++ k ++ index ++ c) := by
  have htext' := (hR.filled (by decide) htext).ahead hk
  exact carries_pair nofun hslots ((htext'.append (hR.index hindex)).ahead hc)

theorem carries_count (hR : R.Supplies L) {text part name : String}
    (htext : R.Filled "TEXT" .none "''" text) (hpart : R.Filled "SUB" .none "''" part)
    (hname : Closed name) :
    Carries (Texts L site .count) (name ++ "(" ++ text ++ ", " ++ part ++ ")") := by
  have hempty : Closed "''" := by decide
  have hname' : Closed (name ++ "(") := hname.append (by decide)
  have htext' := (Carries.behind hname' (hR.filled hempty htext)).ahead (t := ", ") (by decide)
  exact carries_pair nofun rfl ((htext'.append (hR.filled hempty hpart)).ahead (by decide))

theorem carries_replace (hR : R.Supplies L) {text old new name : String}
    (htext : R.Filled "TEXT" .none "''" text) (hold : R.Filled "FROM" .none "''" old)
    (hnew : R.Filled "TO" .none "''" new) (hname : Closed name) :
    Carries (Texts L site .replace) (name ++ "(" ++ text ++ ", " ++ old ++ ", " ++ new ++ ")") := by
  have hempty : Closed "''" := by decide
  have hname' : Closed (name ++ "(") := hname.append (by decide)
  have htext' := (Carries.behind hname' (hR.filled hempty htext)).ahead (t := ", ") (by decide)
  have hold' := (htext'.append (hR.filled hempty hold)).ahead (t := ", ") (by decide)
  exact carries_triple nofun rfl ((hold'.append (hR.filled hempty hnew)).ahead (by decide))

/-- The request for an input: its question is code only if it is not in a field. -/
theorem carries_prompt {kind : ValueKind} {code : String}
    (hkind : kind = .promptExtended ∨ kind = .prompt)
    (hcode : Carries (fun s => (site.head.fields.get? "TEXT").isSome = false ∧ L "TEXT" s) code) :
    Carries (Texts L site kind) code := by
  refine hcode.mono fun s hs => ?_
  rcases hkind with rfl | rfl <;> simpa [Texts, Site.expressionSlots] using hs

/-! ### Parts of texts -/

theorem carries_wholeText (hR : R.Supplies L) {text : String}
    (hstart : site.optionAmong "WHERE1" Site.startEdges = .ok .outermost)
    (hstop : site.optionAmong "WHERE2" Site.stopEdges = .ok .outermost)
    (htext : R.Filled "STRING" .none "''" text) : Carries (Texts L site .substring) text := by
  refine (hR.filled (by decide) htext).mono fun s hs => ?_
  rcases texts_substring hstart hstop hs with hs | ⟨hedge, -⟩ | ⟨hedge, -⟩
  · exact hs
  · exact absurd rfl hedge
  · exact absurd rfl hedge

theorem carries_slice (hR : R.Supplies L) {text first last : String} {start stop : Site.Edge}
    {outer : Order} {oneBased : Bool}
    (hstart : site.optionAmong "WHERE1" Site.startEdges = .ok start)
    (hstop : site.optionAmong "WHERE2" Site.stopEdges = .ok stop)
    (htext : R.Filled "STRING" outer "''" text) (hfirst : R.First oneBased text start first)
    (hlast : R.Last oneBased text stop last) :
    Carries (Texts L site .substring) (text ++ ".slice(" ++ first ++ ", " ++ last ++ ")") := by
  have htext' := hR.filled (by decide) htext
  have hfirst' := hR.first htext'.closed hfirst
  have hlast' := hR.last htext'.closed hlast
  have hhead := (htext'.ahead (t := ".slice(") (by decide)).append hfirst'
  have hall := ((hhead.ahead (t := ", ") (by decide)).append hlast').ahead (t := ")") (by decide)
  exact hall.mono fun s hs => or_assoc.mpr (texts_substring hstart hstop hs)

/-! ### Every kind -/

/-- Value code carries the texts of the value. -/
theorem carries (hR : R.Supplies L) {kind : ValueKind} {text : String} {order : Order}
    (h : Written R o site kind text order) : Carries (Texts L site kind) text := by
  have hempty : Closed "''" := by decide
  cases h with
  | compare hop hleft hright =>
    have hzero : Closed "0" := by decide
    have hoperator := closed_of_optionIn (by decide) hop
    have hleft' := ((hR.filled hzero hleft).ahead (t := " ") (by decide)).ahead hoperator
    have hall := (hleft'.ahead (t := " ") (by decide)).append (hR.filled hzero hright)
    exact carries_pair nofun rfl hall
  | junction hop hleft hright => exact carries_junction hR hop hleft hright
  | negate hoperand =>
    exact carries_single nofun rfl (Carries.behind (by decide) (hR.filled (by decide) hoperand))
  | boolean hname => exact carries_fixed nofun rfl (closed_of_optionAmong (by decide) hname)
  | null => exact carries_fixed nofun rfl (by decide)
  | ternary hcondition hyes hno => exact carries_ternary hR hcondition hyes hno
  | @number n hn => exact carries_fixed nofun rfl (operand_numeral n).whole.closed
  | call hname hparameters harguments =>
    obtain ⟨hclosed, hmem⟩ := hR.forall₂ (by decide) harguments
    refine (carries_call (hR.procedureName hname) (carries_join (by decide) hclosed)).mono ?_
    rintro s (⟨hkind, -⟩ | ⟨slot, hslot, hs⟩)
    · cases hkind
    · simp only [Site.expressionSlots, Site.argumentSlots, hparameters, List.mem_map] at hslot
      obtain ⟨i, hi, rfl⟩ := hslot
      exact hmem i hi s hs
  | text =>
    refine (carries_quote _).mono fun s hs => ?_
    simpa [Texts, Site.expressionSlots] using hs
  | multiline => exact carries_fixed nofun rfl (operand_quoteLines _).whole.closed
  | joined hcount hitems =>
    obtain ⟨hclosed, hmem⟩ := hR.forall₂ hempty hitems
    refine (carries_joinedItems hclosed).mono ?_
    rintro s (⟨hkind, -⟩ | ⟨slot, hslot, hs⟩)
    · cases hkind
    · simp only [Site.expressionSlots, Site.itemSlots, hcount, List.mem_map] at hslot
      obtain ⟨i, hi, rfl⟩ := hslot
      exact hmem i hi s hs
  | length htext => exact carries_single nofun rfl ((hR.filled hempty htext).ahead (by decide))
  | isEmpty htext =>
    have htext' := Carries.behind (s := "!") (by decide) (hR.filled hempty htext)
    exact carries_single nofun rfl (htext'.ahead (by decide))
  | indexOf hop hpart htext => exact carries_indexOf hR hop hpart htext
  | indexOfOneBased hop hpart htext => exact (carries_indexOf hR hop hpart htext).ahead (by decide)
  | firstChar hplace htext =>
    refine carries_single nofun ?_ ((hR.filled hempty htext).ahead (by decide))
    simp [Site.expressionSlots, hplace, Json.isText]
  | lastChar hplace htext =>
    refine carries_single nofun ?_ ((hR.filled hempty htext).ahead (by decide))
    simp [Site.expressionSlots, hplace, Json.isText]
  | charFromStart hplace htext hindex =>
    refine carries_charMethod hR ?_ htext hindex (by decide) (by decide)
    simp [Site.expressionSlots, hplace, Json.isText]
  | charFromEnd hplace htext hindex =>
    refine carries_charMethod hR ?_ htext hindex (by decide) (by decide)
    simp [Site.expressionSlots, hplace, Json.isText]
  | randomChar hplace htext hname =>
    refine carries_single nofun ?_ (carries_call (hR.helperName hname) (hR.filled hempty htext))
    simp [Site.expressionSlots, hplace, Json.isText]
  | wholeText hstart hstop htext => exact carries_wholeText hR hstart hstop htext
  | slice hstart hstop htext houter hfirst hlast =>
    exact carries_slice hR hstart hstop htext hfirst hlast
  | subsequence hstart hstop htext hfirst hlast hname =>
    have hall := carries_subsequence (hR.helperName hname) (hR.filled hempty htext)
      (hR.edgeArgument hfirst) (hR.edgeArgument hlast)
    exact hall.mono fun s hs => texts_substring hstart hstop hs
  | changedCase hcase htext =>
    obtain ⟨name, hmem⟩ := Site.mem_of_optionIn hcase
    have htable : ∀ entry ∈ Site.caseChanges, ∀ call ∈ entry.2, Closed call := by decide
    exact carries_single nofun rfl ((hR.filled hempty htext).ahead (htable _ hmem _ rfl))
  | titleCase htext hname =>
    exact carries_single nofun rfl (carries_call (hR.helperName hname) (hR.filled hempty htext))
  | trim hmode htext =>
    have hcall := closed_of_optionIn (by decide) hmode
    exact carries_single nofun rfl ((hR.filled hempty htext).ahead hcall)
  | prompt hkind hquestion =>
    have hquestion' := Carries.behind (s := "window.prompt(") (by decide)
      (carries_question hR hquestion)
    exact carries_prompt hkind (hquestion'.ahead (by decide))
  | promptNumber hkind hquestion =>
    have hquestion' := Carries.behind (s := "window.prompt(") (by decide)
      (carries_question hR hquestion)
    have hcall := Carries.behind (s := "Number(") (by decide) (hquestion'.ahead (t := ")") (by decide))
    exact carries_prompt hkind (hcall.ahead (by decide))
  | count htext hpart hname => exact carries_count hR htext hpart (hR.helperName hname)
  | replace htext hold hnew hname => exact carries_replace hR htext hold hnew (hR.helperName hname)
  | reverse htext => exact carries_single nofun rfl ((hR.filled hempty htext).ahead (by decide))
  | getVariable hkind hname =>
    have hname' := hR.variableName hname
    rcases hkind with rfl | rfl
    · exact carries_fixed nofun rfl hname'
    · exact carries_fixed nofun rfl hname'

end Written

end BlockScript
