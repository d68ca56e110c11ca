/-
  BlockScript.Proofs.Literal.Forced

  Which values are converted to text. The test for literals also passes texts that are none, such as
  two literals with a backslash between them. No value code is of that sort: what passes is the one
  literal of a text, so that nothing but literals goes without a conversion.
-/
import BlockScript.Proofs.Expression.Exposure
import BlockScript.Proofs.Literal.RoundTrip

namespace BlockScript

open Script
open Gen (Allows)

namespace Literal

/-! ## What passes for a literal -/

/-- A closing quote is the last character. -/
theorem getLast?_of_closes {s : List Char} {afterBackslash : Bool}
    (h : closes afterBackslash s = true) : s.getLast? = some '\'' := by
  induction afterBackslash, s using closes.induct with
  | case1 => cases h
  | case2 afterBackslash c =>
    obtain rfl : c = '\'' := by simpa [closes] using h
    rfl
  | case3 afterBackslash d rest ih =>
    simp only [closes, if_true, Bool.and_eq_true] at h
    exact ih h.2
  | case4 afterBackslash c d rest hne ih =>
    rw [closes, if_neg hne] at h
    exact ih h

/-- A character that may be at the ends of what passes for a literal. -/
def isMargin (c : Char) : Bool :=
  c = '\'' || Text.isBlank c

/-- What passes for a literal has a quote or white space at both ends. -/
theorem margins_of_isLiteral {s : String} (h : isLiteral s = true) :
    s.toList.head?.any isMargin = true ∧ s.toList.getLast?.any isMargin = true := by
  obtain ⟨lead, tail, hsplit, hlead, htail⟩ := exists_trim s.toList
  rw [isLiteral] at h
  split at h
  · rename_i rest htrim
    rw [htrim] at hsplit
    constructor
    · cases lead with
      | nil =>
        rw [hsplit]
        rfl
      | cons c lead =>
        rw [hsplit]
        simp [isMargin, hlead c List.mem_cons_self]
    · rcases List.eq_nil_or_concat tail with rfl | ⟨before, c, rfl⟩
      · obtain ⟨before, hrest⟩ := List.getLast?_eq_some_iff.mp (getLast?_of_closes h)
        rw [hsplit, hrest, List.append_nil, ← List.cons_append, ← List.append_assoc,
          List.getLast?_concat]
        rfl
      · rw [hsplit, List.concat_eq_append, ← List.append_assoc, List.getLast?_concat]
        simp [isMargin, htail c (by simp)]
  · cases h

/-- A text whose last character is neither a quote nor white space. -/
def EndsOutside (k : String) : Prop :=
  k.toList.getLast?.any (!isMargin ·) = true

instance (k : String) : Decidable (EndsOutside k) :=
  inferInstanceAs (Decidable (_ = _))

/-- A text with another end passes for no literal. -/
theorem isLiteral_of_end {k : String} (hk : EndsOutside k) (s : String) :
    isLiteral (s ++ k) = false := by
  rw [Bool.eq_false_iff]
  intro h
  obtain ⟨c, hlast, hc⟩ := (Option.any_eq_true _ _).mp hk
  have hmargin := (margins_of_isLiteral h).2
  rw [String.toList_append, List.getLast?_append, hlast] at hmargin
  exact absurd hmargin (by simpa using hc)

/-- Nor does one with another beginning. -/
theorem isLiteral_of_beginning {k : String} (hk : k.toList.head?.any (!isMargin ·) = true)
    (s : String) : isLiteral (k ++ s) = false := by
  rw [Bool.eq_false_iff]
  intro h
  obtain ⟨c, hfirst, hc⟩ := (Option.any_eq_true _ _).mp hk
  have hmargin := (margins_of_isLiteral h).1
  rw [String.toList_append, List.head?_append, hfirst] at hmargin
  exact absurd hmargin (by simpa using hc)

/-- Nor does one without a literal in it. -/
theorem isLiteral_of_tokens {s : String} (hs : Whole s) (h : ∀ text, .literal text ∉ tokens s) :
    isLiteral s = false := by
  rw [Bool.eq_false_iff]
  intro hliteral
  obtain ⟨lead, text, tail, hparts, -, -⟩ := parts_of_isLiteral hs hliteral
  refine h text ?_
  rw [tokens, hparts, tokensFrom_append (Pending.ends_literal _ text _)]
  exact List.mem_append_right _ List.mem_cons_self

/-- Nor do two operands with an operator between them. -/
theorem isLiteral_between {r : Nat} {s k t : String} (hs : Operand r s) (hk : Between r k)
    (hsymbol : (tokens k).any (· matches .symbol _) = true) (ht : Operand r t) :
    isLiteral (s ++ k ++ t) = false := by
  rw [Bool.eq_false_iff]
  intro h
  obtain ⟨token, hmem, htoken⟩ := List.any_eq_true.mp hsymbol
  obtain ⟨symbol, rfl⟩ : ∃ symbol, token = .symbol symbol := by
    cases token with
    | symbol symbol => exact ⟨symbol, rfl⟩
    | _ => cases htoken
  obtain ⟨hwhole, hstarts, hends, -⟩ := id hk
  have hleft := hs.whole.append hwhole
  refine no_symbol_of_isLiteral (hs.between hk ht).whole h symbol ?_
  rw [tokens_append hleft.closed ((hends.append s).seam hleft.closed t),
    tokens_append hs.whole.closed (hstarts.seam s)]
  exact List.mem_append_left _ (List.mem_append_right _ hmem)

theorem closes_escaped (text : List Char) (afterBackslash : Bool) :
    closes afterBackslash (text.flatMap escapeChar ++ ['\'']) = true := by
  induction text generalizing afterBackslash with
  | nil => rfl
  | cons c rest ih =>
    obtain ⟨d, behind, hd⟩ := List.exists_cons_of_ne_nil
      (List.append_ne_nil_of_right_ne_nil (rest.flatMap escapeChar) (List.cons_ne_nil '\'' []))
    rw [hd] at ih
    rw [List.flatMap_cons, List.append_assoc, hd, escapeChar]
    split
    · -- The quote that is escaped counts as ordinary, for the backslash ahead of it.
      rw [List.cons_append, List.cons_append, List.nil_append, closes, if_neg (by decide), closes]
      split
      · simpa using ih false
      · exact ih _
    · rename_i hplain
      have hquote : c ≠ '\'' := by
        rintro rfl
        exact hplain (by decide)
      rw [List.cons_append, List.nil_append, closes, if_neg hquote]
      exact ih _

/-- The literal of a text passes. -/
theorem isLiteral_quote (text : String) : isLiteral (quote text) = true := by
  have hquote : Text.isBlank '\'' = false := by decide
  have hlast : (text.toList.flatMap escapeChar ++ ['\'']).reverse =
      '\'' :: (text.toList.flatMap escapeChar).reverse := by simp
  have htrim : Text.trim (quote text).toList = quoteChars text.toList := by
    rw [quote, String.toList_ofList, Text.trim, Text.trimOf, Text.trimRightOf, quoteChars,
      List.dropWhile_cons_of_neg (by simp [hquote]), List.reverse_cons, hlast, List.cons_append,
      List.dropWhile_cons_of_neg (by simp [hquote]), ← List.cons_append, ← hlast,
      ← List.reverse_cons, List.reverse_reverse]
  rw [isLiteral, htrim, quoteChars]
  exact closes_escaped text.toList false

/-- A text that is a literal, if it passes for one. -/
def IsGenuine (s : String) : Prop :=
  isLiteral s = true → ∃ text, s = quote text

theorem isGenuine_of_not {s : String} (h : isLiteral s = false) : IsGenuine s := by
  intro hliteral
  rw [h] at hliteral
  cases hliteral

theorem isGenuine_quote (text : String) : IsGenuine (quote text) :=
  fun _ => ⟨text, rfl⟩

/-- Parentheses around a text are no quotes. -/
theorem isGenuine_wrap {s : String} (h : IsGenuine s) (outer order : Order) :
    IsGenuine (Order.wrap s outer order) := by
  rw [Order.wrap]
  split
  · exact isGenuine_of_not (isLiteral_of_end (by decide) _)
  · exact h

theorem isGenuine_name {s : String} (h : isName s.toList = true) : IsGenuine s := by
  refine isGenuine_of_not (isLiteral_of_tokens (whole_name h) fun text hmem => ?_)
  rw [tokens_name h] at hmem
  cases List.mem_singleton.mp hmem

theorem isGenuine_numeral (n : Number) : IsGenuine n.numeral := by
  obtain ⟨t, ht, hnumeral⟩ := numeral_cases n
  have hbare : ∀ text, .literal text ∉ tokens t := by
    intro text hmem
    rcases ht with ht | ht
    · rw [tokens_name ht] at hmem
      cases List.mem_singleton.mp hmem
    · rw [(tokens_unsigned ht).1] at hmem
      cases List.mem_singleton.mp hmem
  refine isGenuine_of_not (isLiteral_of_tokens (operand_numeral n).whole fun text hmem => ?_)
  rcases hnumeral with ⟨heq, -⟩ | ⟨-, heq⟩
  · rw [heq] at hmem
    exact hbare text hmem
  · have hminus : tokens "-" = [.symbol .minus] := by decide
    rw [heq, tokens_append (by decide) (seam_minus t), hminus] at hmem
    exact hbare text ((List.mem_cons.mp hmem).resolve_left fun h => by cases h)

/-- Several lines are a sum, and one line is a literal. -/
theorem isGenuine_quoteLines (s : String) : IsGenuine (quoteLines s) := by
  have hquote : ∀ line, Operand 6 (quote line) := fun line =>
    (operand_quote line).mono (Nat.zero_le 6)
  obtain ⟨line, others, heq⟩ := quoteLines_eq s
  rw [heq]
  cases others with
  | nil => exact isGenuine_quote line
  | cons next rest =>
    have hsep : Between 6 " + '\\n' +\n" := by decide
    have hrest : Operand 6 (Text.join " + '\\n' +\n" ((next :: rest).map quote)) := by
      refine Operand.join hsep (List.cons_ne_nil _ _) fun text htext => ?_
      obtain ⟨line', -, rfl⟩ := List.mem_map.mp htext
      exact hquote line'
    exact isGenuine_of_not (isLiteral_between (hquote line) hsep (by decide) hrest)

/-- What is forced to be a text passes for a literal just if it was one. -/
theorem forceString_eq_self_iff (s : String) : (forceString s).1 = s ↔ isLiteral s = true := by
  rw [forceString]
  split
  · rename_i h
    exact ⟨fun _ => h, fun _ => rfl⟩
  · rename_i h
    refine ⟨fun heq => ?_, fun hliteral => absurd hliteral h⟩
    have hlength := congrArg String.length heq
    simp only [String.length_append] at hlength
    have : "String(".length = 7 := by decide
    omega

theorem isGenuine_forceString {s : String} (h : IsGenuine s) : IsGenuine (forceString s).1 := by
  rw [forceString]
  split
  · exact h
  · exact isGenuine_of_not (isLiteral_of_end (by decide) _)

end Literal

/-! ## Value code -/

/-- Operands in slots, genuine ones. -/
structure Reading.Forces (R : Reading) : Prop extends R.Fits where
  genuine : ∀ {name outer text}, R.slot name outer text → Literal.IsGenuine text

theorem Reading.Forces.filled_genuine {R : Reading} (hR : R.Forces) {slot text : String}
    {outer : Order} (h : R.Filled slot outer "''" text) : Literal.IsGenuine text := by
  rcases h with ⟨hslot, -⟩ | ⟨-, rfl⟩
  · exact hR.genuine hslot
  · exact Literal.isGenuine_quote ""

namespace Written

open Literal

variable {R : Reading} {o : Options} {site : Site}

/-- A symbol that two operands may have between them. -/
def IsInfix (operator : String) : Prop :=
  Between 99 (" " ++ operator ++ " ") ∧
    (tokens (" " ++ operator ++ " ")).any (· matches .symbol _) = true

instance (operator : String) : Decidable (IsInfix operator) :=
  inferInstanceAs (Decidable (_ ∧ _))

theorem isGenuine_compare (hR : R.Fits) {operator left right : String}
    (hop : site.optionIn "OP" Site.comparisons = .ok operator)
    (hleft : R.Filled "A" (Site.comparisonOrder operator) "0" left)
    (hright : R.Filled "B" (Site.comparisonOrder operator) "0" right) :
    IsGenuine (left ++ " " ++ operator ++ " " ++ right) := by
  have hbetween : IsInfix operator := Site.of_optionIn hop (P := IsInfix) (by decide)
  have h := isLiteral_between (hR.filled (by decide) hleft).any hbetween.1 hbetween.2
    (hR.filled (by decide) hright).any
  refine isGenuine_of_not ?_
  simpa only [String.append_assoc] using h

theorem isGenuine_junction (hR : R.Fits) {operator identity left right : String} {order : Order}
    (hop : site.optionAmong "OP" Site.junctions = .ok (operator, order, identity))
    (hleft : R.slot "A" order left) (hright : R.slot "B" order right) :
    IsGenuine (junctionOperand left right identity left ++ " " ++ operator ++ " " ++
      junctionOperand left right identity right) := by
  have hbetween : IsInfix operator :=
    Site.of_optionAmong hop (P := fun choice => IsInfix choice.1) (by decide)
  have h := isLiteral_between (operand_junctionOperand hop left right (hR.slot hleft)).any
    hbetween.1 hbetween.2 (operand_junctionOperand hop left right (hR.slot hright)).any
  refine isGenuine_of_not ?_
  simpa only [String.append_assoc] using h

/-- One item is converted if need be; more are a sum or a join. -/
theorem isGenuine_joinedItems {items : List String} (h : ∀ item ∈ items, Operand 99 item)
    (hgenuine : ∀ item ∈ items, IsGenuine item) : IsGenuine (joinedItems items).1 := by
  rcases items with _ | ⟨first, _ | ⟨second, _ | ⟨third, rest⟩⟩⟩
  · exact isGenuine_quote ""
  · exact isGenuine_forceString (hgenuine first List.mem_cons_self)
  · have hfirst := operand_forceString (h first List.mem_cons_self)
    have hsecond := operand_forceString (h second (List.mem_cons_of_mem _ List.mem_cons_self))
    have hplus : Between 99 " + " := by decide
    exact isGenuine_of_not (isLiteral_between hfirst.any hplus (by decide) hsecond.any)
  · exact isGenuine_of_not (isLiteral_of_end (by decide) _)

end Written

/-- Value code that passes for a literal is the literal of a text, if that is so of what the slots
    give. -/
theorem Written.isGenuine {R : Reading} (hR : R.Forces) {o : Options} {site : Site}
    {kind : ValueKind} {text : String} {order : Order} (h : Written R o site kind text order) :
    Literal.IsGenuine text := by
  -- Most shapes end in a bracket or a word.
  have hend : ∀ {k : String}, Literal.EndsOutside k → ∀ s : String, Literal.IsGenuine (s ++ k) :=
    fun hk s => Literal.isGenuine_of_not (Literal.isLiteral_of_end hk s)
  cases h with
  | compare hop hleft hright => exact isGenuine_compare hR.toFits hop hleft hright
  | junction hop hleft hright => exact isGenuine_junction hR.toFits hop hleft hright
  | negate => exact Literal.isGenuine_of_not (Literal.isLiteral_of_beginning (by decide) _)
  | boolean hname =>
    exact Literal.isGenuine_name
      (Site.of_optionAmong hname (P := fun name => isName name.toList = true) (by decide))
  | null => exact Literal.isGenuine_name (by decide)
  | ternary hcondition hyes hno =>
    have hquestion : Between 99 " ? " := by decide
    have hcolon : Between 99 " : " := by decide
    have hleft := (hR.filled (by decide) hcondition).any.between hquestion
      (hR.filled (by decide) hyes).any
    exact Literal.isGenuine_of_not
      (Literal.isLiteral_between hleft hcolon (by decide) (hR.filled (by decide) hno).any)
  | number => exact Literal.isGenuine_numeral _
  | text => exact Literal.isGenuine_quote _
  | multiline => exact Literal.isGenuine_quoteLines _
  | joined hcount hitems =>
    refine isGenuine_joinedItems (operand_of_forall₂ hR.toFits (by decide) hitems) ?_
    intro item hitem
    obtain ⟨i, hi⟩ := exists_filled hitems hitem
    exact hR.filled_genuine hi
  | wholeText hstart hstop htext => exact hR.filled_genuine htext
  | getVariable hkind hname => exact Literal.isGenuine_name (hR.variableName hname)
  | changedCase hcase =>
    have hcalls : ∀ suffix ∈ some _, Literal.EndsOutside suffix :=
      Site.of_optionIn hcase (P := fun call? => ∀ suffix ∈ call?, Literal.EndsOutside suffix)
        (by decide)
    exact hend (hcalls _ rfl) _
  | trim hmode =>
    exact hend (Site.of_optionIn hmode (P := Literal.EndsOutside) (by decide)) _
  | call | length | isEmpty | indexOf | indexOfOneBased | firstChar | lastChar | charFromStart
  | charFromEnd | randomChar | slice | subsequence | titleCase | prompt | promptNumber | count
  | replace | reverse => exact hend (by decide) _

/-! ## Slots -/

/-- What the expression of a block is: an operand that passes for a literal only if it is one. The
    expression of a text is the literal of its field. -/
structure IsForcible (b : Block) (text : String) (order : Order) : Prop where
  operand : Operand order.rank text
  genuine : Literal.IsGenuine text
  text : b.head.kind = .value .text → b.head.enabled = true →
    text = Literal.quote ((b.site true).fieldText "TEXT" "")

theorem isForcible_kept (o : Options) : IsKeptByRules o
    (fun outer text => Operand outer.rank text ∧ Literal.IsGenuine text) IsForcible where
  wrap h outer := ⟨operand_wrap h.operand outer, Literal.isGenuine_wrap h.genuine outer _⟩
  passed hdisabled h := by
    refine ⟨h.operand, h.genuine, fun _ henabled => ?_⟩
    rw [hdisabled] at henabled
    cases henabled
  written {b attached kind text order} hkind _ h := by
    have hreading : (slotReading fun outer text =>
        Operand outer.rank text ∧ Literal.IsGenuine text).Forces :=
      { slot := fun h => h.imp_right And.left
        variableName := id
        procedureName := id
        helperName := id
        genuine := by
          rintro _ _ _ (rfl | ⟨-, hgenuine⟩)
          · exact Literal.isGenuine_of_not (by decide)
          · exact hgenuine }
    refine ⟨h.operand hreading.toFits, h.isGenuine hreading, fun htext _ => ?_⟩
    obtain rfl : kind = .text := Kind.value.inj (hkind.symm.trans htext)
    cases h with
    | text => rfl
    | prompt hkind | promptNumber hkind | getVariable hkind => rcases hkind with h | h <;> cases h

theorem wrap_none (text : String) (order : Order) : Order.wrap text .none order = text := by
  have hbare : Order.needsParens .none order = false := by cases order <;> rfl
  rw [Order.wrap, hbare, Bool.and_false, if_neg Bool.false_ne_true]

variable {o : Options}

/-- Where a text is read, what values give passes for a literal just if it is the literal of a text,
    and goes without a conversion just then. The block of a text gives the literal of its field. -/
theorem textValue_literal {lead : String} (hlead : KeepsNames lead) {p q : Pass}
    (hp : p.Reachable (some lead)) {b : Block} {slot : String}
    (hslot : ∀ c, Block.inSlot b.values slot = some c → c.ValueChain) {attached : Bool}
    {text : String} (hrun : (b.site attached).textValue slot o p = .ok text q) :
    (Literal.isLiteral text = true ↔ ∃ t, text = Literal.quote t) ∧
    ((Literal.forceString text).1 = text ↔ ∃ t, text = Literal.quote t) ∧
    ∀ c, Block.inSlot b.values slot = some c → c.head.kind = .value .text →
      c.head.enabled = true → text = Literal.quote ((c.site true).fieldText "TEXT" "") := by
  have hrecord : ∀ entry, Allows o (Pass.Named (some lead)) (Gen.record entry) fun _ => True :=
    Gen.record_allows fun p entry hp => hp.record entry
  have hread := Site.valueOr_allows hrecord
    (slot_yields (isForcible_kept o) hlead hslot attached .none) "''"
  -- The slot is of the loosest order, which puts no parentheses: the text is the code of the value,
  -- or the default where there is none.
  have hcases : text = Literal.quote "" ∧ (∀ c, Block.inSlot b.values slot = some c →
        c.head.enabled = false) ∨
      ∃ c order, Block.inSlot b.values slot = some c ∧ IsForcible c text order := by
    obtain ⟨-, ⟨hvalue, hne⟩ | ⟨hvalue, rfl⟩⟩ := hread p text q hp.named hrun
    · rcases hvalue with ⟨hempty, -⟩ | ⟨c, inner, order, hc, hinner, rfl⟩
      · exact absurd hempty hne
      · exact Or.inr ⟨c, order, hc, (wrap_none inner order).symm ▸ hinner⟩
    · rcases hvalue with ⟨-, hdisabled⟩ | ⟨c, inner, order, hc, hinner, heq⟩
      · exact Or.inl ⟨rfl, hdisabled⟩
      · rw [wrap_none] at heq
        exact absurd heq.symm hinner.operand.ne_empty
  have hgenuine : Literal.isLiteral text = true ↔ ∃ t, text = Literal.quote t := by
    refine ⟨?_, ?_⟩
    · rcases hcases with ⟨rfl, -⟩ | ⟨c, order, -, hc⟩
      · exact Literal.isGenuine_quote ""
      · exact hc.genuine
    · rintro ⟨t, rfl⟩
      exact Literal.isLiteral_quote t
  refine ⟨hgenuine, (Literal.forceString_eq_self_iff text).trans hgenuine, ?_⟩
  intro c hc hkind henabled
  rcases hcases with ⟨-, hdisabled⟩ | ⟨c', order, hc', hforcible⟩
  · rw [hdisabled c hc] at henabled
    cases henabled
  · obtain rfl := Option.some.inj (hc.symm.trans hc')
    exact hforcible.text hkind henabled

/-- A text that is joined from another one, which has a quote in it. -/
def joinedQuote : Block :=
  .mk ⟨.value .joined, "join", [], .null, .bool true, true, []⟩
    [("ADD0", some (.mk
      ⟨.value .text, "text", [(.str "TEXT", .str "it's")], .null, .bool true, true, []⟩
      [] [] none))] [] none

theorem textValue_literal_joinedQuote :
    ∃ text q, (joinedQuote.site true).textValue "ADD0" .default
        (.start (.new reservedWords (some "")) []) = .ok text q ∧
      (Literal.forceString text).1 = text ∧ text = Literal.quote "it's" := by
  have hlead : (NameTable.new reservedWords (some "")).variablePrefix? = some "" := rfl
  have hp := Pass.Reachable.start hlead []
  have hslot : ∀ c, Block.inSlot joinedQuote.values "ADD0" = some c → c.ValueChain := by
    rintro c hc
    obtain rfl := Option.some.inj hc
    exact .mk rfl (fun name c hc => absurd hc List.not_mem_nil) fun c hc => by cases hc
  obtain ⟨text, q, hrun⟩ : ∃ text q, (joinedQuote.site true).textValue "ADD0" .default
      (.start (.new reservedWords (some "")) []) = .ok text q := ⟨_, _, by with_unfolding_all rfl⟩
  obtain ⟨-, hforced, htext⟩ := textValue_literal keepsNames_empty hp hslot hrun
  have hquote := htext _ rfl rfl rfl
  exact ⟨text, q, hrun, hforced.mpr ⟨_, hquote⟩, hquote⟩

end BlockScript
