/-
  BlockScript.Proofs.Substring.Cut

  Parts of a text. A rule writes a slice of the text, in which the text stands once more for every
  edge that needs its length, or a call of a function that slices. Both cut at the same two integers,
  and a text is written twice only if it is a word or a literal of one word.
-/
import BlockScript.Proofs.Substring.Definition
import BlockScript.Proofs.Substring.Index

namespace BlockScript

open Script
open Gen (Visiting)

/-! ## What code cuts out -/

/-- What comes to an integer inside of a function: its parameters, and the length of the text that
    one of them is. -/
def Script.frame (subject : String) (length : Int) (integers : List (String × Int)) : Integers
  | [.word name] => integers.lookup name
  | [.word name, .mark '.', .word "length"] => if name = subject then some length else none
  | _ => none

/-- Code that cuts a part out of a text of a length, and the two integers that it cuts at: a slice of
    the text, or a call of a function that is defined and slices its first parameter. -/
inductive Cuts (env : Integers) (definitions : List String) (text : String) (length : Int) :
    String → Int → Int → Prop
  | slice {first last : String} {start stop : Int}
      (hlength : amount env (text ++ ".length") = some length)
      (hfirst : amount env first = some start) (hlast : amount env last = some stop) :
      Cuts env definitions text length (text ++ ".slice(" ++ first ++ ", " ++ last ++ ")") start stop
  | call {name lead first last : String} {parameters arguments : List String} {values : List Int}
      {start stop : Int}
      (hdefined : Helper.reindent lead (slicerText name ("sequence" :: parameters) first last) ∈
        definitions)
      (hparameters : parameters.length = arguments.length)
      (harguments : List.Forall₂ (fun argument n => amount env argument = some n) arguments values)
      (hfirst : amount (frame "sequence" length (parameters.zip values)) first = some start)
      (hlast : amount (frame "sequence" length (parameters.zip values)) last = some stop) :
      Cuts env definitions text length (name ++ "(" ++ Text.join ", " (text :: arguments) ++ ")")
        start stop

namespace Site.Edge

/-- Where a part begins whose first index is given, in a text of a length. -/
def startIndex (base length i : Int) : Edge → Int
  | outermost => 0
  | fromStart => i - base
  | fromEnd => length - i - 1 + base

/-- Where a part ends whose last index is given, in a text of a length. -/
def stopIndex (base length j : Int) : Edge → Int
  | outermost => length
  | fromStart => j - base + 1
  | fromEnd => length - j + base

/-- The index of an edge in a text of a length, all of them counted from zero. -/
def indexIn (first length i : Int) : Edge → Int
  | outermost => first
  | fromStart => i
  | fromEnd => length - 1 - i

theorem startIndex_eq (base length i : Int) (edge : Edge) :
    edge.startIndex base length i = edge.indexIn 0 length (i - base) := by
  cases edge with
  | outermost => rfl
  | fromStart => rfl
  | fromEnd =>
    rw [startIndex, indexIn]
    omega

/-- A part ends behind its last index. -/
theorem stopIndex_eq (base length j : Int) (edge : Edge) :
    edge.stopIndex base length j = edge.indexIn (length - 1) length (j - base) + 1 := by
  cases edge with
  | outermost => exact (Int.sub_add_cancel length 1).symm
  | fromStart => rfl
  | fromEnd =>
    rw [stopIndex, indexIn]
    omega

end Site.Edge

/-! ## The body of the function -/

section

variable {env : Integers} {length i a : Int}

/-- What is no sum, sign, bracket or natural comes to what the environment says. -/
theorem amount_of_other {s : String} (hs : Operand 5 s) (h : summand (tokens s) = .other) :
    amount env s = env (tokens s) := by
  rw [amount, value_summand hs.takes, h]

theorem amount_name {s : String} (h : isName s.toList = true) : amount env s = env [.word s] := by
  have htokens := tokens_name h
  rw [amount_of_other ((operand_name h).mono (Nat.zero_le 5)) (by rw [htokens]; rfl), htokens]

/-- The last index of the text that the function has. -/
theorem amount_lastIndex
    (hlength : env [.word "sequence", .mark '.', .word "length"] = some length) :
    amount env "sequence.length - 1" = some (length - 1) := by
  have htext : Operand 5 "sequence.length" := by decide
  have hamount : amount env "sequence.length" = some length :=
    (amount_of_other htext (by decide)).trans hlength
  have hcode : "sequence.length" ++ " - " ++ toString (1 : Int) = "sequence.length - 1" := by decide
  rw [← hcode]
  exact amount_minus (htext.mono (by decide)) (operand_toString_int_five 1) hamount
    (amount_toString_int 1)

/-- The index of an edge inside of the function. -/
theorem edgeIndex_amount {edge : Site.Edge} {outermost parameter : String}
    (hlength : env [.word "sequence", .mark '.', .word "length"] = some length)
    (houtermost : Operand 6 outermost) (ha : amount env outermost = some a)
    (hname : isName parameter.toList = true)
    (hparameter : edge ≠ .outermost → env [.word parameter] = some i) :
    Operand 6 (Site.edgeIndex outermost parameter edge) ∧
      amount env (Site.edgeIndex outermost parameter edge) = some (edge.indexIn a length i) := by
  have hoperand := operand_name hname
  cases edge with
  | outermost => exact ⟨houtermost, ha⟩
  | fromStart =>
    exact ⟨hoperand.mono (Nat.zero_le 6), (amount_name hname).trans (hparameter (by decide))⟩
  | fromEnd =>
    have hbefore : Operand 6 "sequence.length - 1" := by decide
    have hminus : Between 6 " - " := by decide
    have hcut : amount env parameter = some i := (amount_name hname).trans (hparameter (by decide))
    have hcode : Site.edgeIndex outermost parameter .fromEnd =
        "sequence.length - 1" ++ " - " ++ parameter := by
      have hleft : "sequence.length - 1" ++ " - " = "sequence.length - 1 - " := by decide
      rw [hleft]
      rfl
    rw [hcode]
    exact ⟨hbefore.between hminus (hoperand.mono (Nat.zero_le 6)),
      amount_minus hbefore (hoperand.mono (Nat.zero_le 5)) (amount_lastIndex hlength) hcut⟩

end

/-- The values of the parameters of the function, for an index of each edge. -/
def edgeValue (edge : Site.Edge) (n : Int) : List Int :=
  if edge = .outermost then [] else [n]

/-- The function cuts between the indices of its edges. -/
theorem slicer_amounts (start stop : Site.Edge) (length i j : Int) :
    let env := frame "sequence" length
      ((Routine.subsequence start stop).parameters.tail.zip (edgeValue start i ++ edgeValue stop j))
    amount env (Site.edgeIndex "0" "at1" start) = some (start.indexIn 0 length i) ∧
      amount env (Site.edgeIndex "sequence.length - 1" "at2" stop ++ " + 1") =
        some (stop.indexIn (length - 1) length j + 1) := by
  intro env
  have hlength : env [.word "sequence", .mark '.', .word "length"] = some length := rfl
  have hfirst : start ≠ .outermost → env [.word "at1"] = some i := by
    intro hstart
    cases start <;> first | exact absurd rfl hstart | (cases stop <;> rfl)
  have hlast : stop ≠ .outermost → env [.word "at2"] = some j := by
    intro hstop
    cases stop <;> first | exact absurd rfl hstop | (cases start <;> rfl)
  constructor
  · have hzero : amount env "0" = some 0 := amount_toString 0
    exact (edgeIndex_amount hlength (by decide) hzero (by decide) hfirst).2
  · obtain ⟨hoperand, hamount⟩ := edgeIndex_amount hlength (by decide) (amount_lastIndex hlength)
      (by decide) hlast
    have hcode : Site.edgeIndex "sequence.length - 1" "at2" stop ++ " + 1" =
        Site.edgeIndex "sequence.length - 1" "at2" stop ++ " + " ++ toString (1 : Int) := by
      rw [String.append_assoc]
      rfl
    rw [hcode]
    exact amount_plus hoperand (operand_toString_int_five 1) hamount (amount_toString_int 1)

/-! ## What edges supply -/

namespace Site

variable {o : Options} {site : Site} {p q : Pass} {slot text : String} {edge start stop : Edge}

/-- The index expression that a slot supplies for an edge; the outermost edges have none. -/
def edgeSupplied (site : Site) (slot : String) (edge : Edge) : Gen (Option Expression) :=
  if edge = .outermost then pure none
  else do return some (← site.supplied slot (← Gen.options).firstIndex)

theorem edgeSupplied_of_supplied (hedge : edge ≠ .outermost) {e : Expression}
    (h : site.supplied slot o.firstIndex o p = .ok e q) :
    site.edgeSupplied slot edge o p = .ok (some e) q := by
  rw [edgeSupplied, if_neg hedge, Gen.bind_apply, Gen.options_apply]
  simp only
  rw [Gen.bind_apply, h]
  rfl

/-- An edge that is supplied has no index expression, or one from its slot. -/
theorem edgeSupplied_eq_ok {e? : Option Expression}
    (h : site.edgeSupplied slot edge o p = .ok e? q) :
    edge = .outermost ∧ e? = none ∧ p = q ∨
      edge ≠ .outermost ∧ ∃ e, e? = some e ∧ site.supplied slot o.firstIndex o p = .ok e q := by
  by_cases hedge : edge = .outermost
  · rw [edgeSupplied, if_pos hedge] at h
    obtain ⟨rfl, rfl⟩ := EStateM.Result.ok.inj h
    exact Or.inl ⟨hedge, rfl, rfl⟩
  · rw [edgeSupplied, if_neg hedge] at h
    obtain ⟨o', p', hoptions, hrun⟩ := Gen.bind_eq_ok h
    obtain ⟨rfl, rfl⟩ := EStateM.Result.ok.inj hoptions
    obtain ⟨e, q', hsupplied, hpure⟩ := Gen.bind_eq_ok hrun
    obtain ⟨rfl, rfl⟩ := EStateM.Result.ok.inj hpure
    exact Or.inr ⟨hedge, e, rfl, hsupplied⟩

/-- The index of an edge where the part is written as a slice. -/
def inlineIndex (site : Site) (text slot outermost : String) (delta : Int) : Edge → Gen String
  | .outermost => pure outermost
  | .fromStart => site.adjustedIndex slot delta false .none
  | .fromEnd => do
    let index ← site.adjustedIndex slot (1 - delta) false .subtraction
    return text ++ ".length - " ++ index

/-- The two edges of a slice are written alike. -/
theorem inlineSubstring_eq_inlineIndex (site : Site) (text : String) (start stop : Edge) :
    site.inlineSubstring text start stop = (do
      let first ← site.inlineIndex text "AT1" "0" 0 start
      let last ← site.inlineIndex text "AT2" (text ++ ".length") 1 stop
      return (text ++ ".slice(" ++ first ++ ", " ++ last ++ ")", .functionCall)) := by
  rw [inlineSubstring_eq]
  cases start <;> cases stop <;>
    simp only [inlineIndex, sliceFrom, index, pure_bind, bind_assoc, Int.sub_zero, Int.sub_self]

theorem inlineIndex_amount {outermost index : String} {delta : Int}
    (hrun : site.inlineIndex text slot outermost delta edge o p = .ok index q) :
    ∃ e?, site.edgeSupplied slot edge o p = .ok e? q ∧
      ∀ env length a n, Operand 0 text → amount env (text ++ ".length") = some length →
        amount env outermost = some (a + delta) → (∀ e ∈ e?, ComesTo env e n) →
        amount env index = some (edge.indexIn a length (n - o.indexBase) + delta) := by
  cases edge with
  | outermost =>
    obtain ⟨rfl, rfl⟩ := EStateM.Result.ok.inj hrun
    exact ⟨none, rfl, fun env length a n _ _ ha _ => ha⟩
  | fromStart =>
    obtain ⟨e, hsupplied, hamount⟩ := adjustedIndex_amount (Or.inl rfl) hrun
    refine ⟨some e, edgeSupplied_of_supplied (by decide) hsupplied, ?_⟩
    exact fun env length a n _ _ _ hcomes => (hamount env n (hcomes e rfl)).1
  | fromEnd =>
    obtain ⟨index', q', hadjusted, hpure⟩ := Gen.bind_eq_ok hrun
    obtain ⟨rfl, rfl⟩ := EStateM.Result.ok.inj hpure
    obtain ⟨e, hsupplied, hamount⟩ := adjustedIndex_amount (Or.inr rfl) hadjusted
    refine ⟨some e, edgeSupplied_of_supplied (by decide) hsupplied, ?_⟩
    intro env length a n htext hlength _ hcomes
    obtain ⟨hindex, hoperand⟩ := hamount env n (hcomes e rfl)
    rw [signed_false] at hindex
    have hsuffix : Suffix ".length" := by decide
    have hmember : Operand 6 (text ++ ".length") := (htext.append hsuffix).mono (by decide)
    have hcode : text ++ ".length - " ++ index' = text ++ ".length" ++ " - " ++ index' := by
      have hright : ".length - " = ".length" ++ " - " := by decide
      rw [hright, ← String.append_assoc]
    have hamount := amount_minus hmember (hoperand rfl) hlength hindex
    rw [hcode, hamount, Edge.indexIn]
    exact congrArg some (by omega)

/-- An index that comes to an integer can be written in a slice. -/
theorem inlineIndex_succeeds {outermost : String} {delta : Int} {e? : Option Expression}
    {env : Integers} {n : Int} (hsupplied : site.edgeSupplied slot edge o p = .ok e? q)
    (hcomes : ∀ e ∈ e?, ComesTo env e n) :
    ∃ index, site.inlineIndex text slot outermost delta edge o p = .ok index q := by
  obtain ⟨rfl, rfl, rfl⟩ | ⟨hedge, e, rfl, hslot⟩ := edgeSupplied_eq_ok hsupplied
  · exact ⟨_, rfl⟩
  · cases edge with
    | outermost => exact absurd rfl hedge
    | fromStart => exact adjustedIndex_succeeds hslot (hcomes e rfl)
    | fromEnd =>
      have hadjusted : ∃ index, site.adjustedIndex slot (1 - delta) false .subtraction o p =
          .ok index q := adjustedIndex_succeeds hslot (hcomes e rfl)
      obtain ⟨index, hindex⟩ := hadjusted
      refine ⟨text ++ ".length - " ++ index, ?_⟩
      rw [inlineIndex, Gen.bind_apply, hindex]
      rfl

/-- A slice of a text cuts where it should. -/
theorem inlineSubstring_cuts {e : Expression}
    (hrun : site.inlineSubstring text start stop o p = .ok e q) :
    ∃ first? p' last? q', site.edgeSupplied "AT1" start o p = .ok first? p' ∧
      site.edgeSupplied "AT2" stop o p' = .ok last? q' ∧
      ∀ env length i j, Operand 0 text → amount env (text ++ ".length") = some length →
        (∀ e ∈ first?, ComesTo env e i) → (∀ e ∈ last?, ComesTo env e j) →
        Cuts env q.definitions.texts text length e.1 (start.startIndex o.indexBase length i)
          (stop.stopIndex o.indexBase length j) := by
  rw [inlineSubstring_eq_inlineIndex] at hrun
  obtain ⟨first, p', hfirst, hrun⟩ := Gen.bind_eq_ok hrun
  obtain ⟨last, q', hlast, hpure⟩ := Gen.bind_eq_ok hrun
  obtain ⟨rfl, rfl⟩ := EStateM.Result.ok.inj hpure
  obtain ⟨first?, hsupplied, hfirstAmount⟩ := inlineIndex_amount hfirst
  obtain ⟨last?, hsupplied', hlastAmount⟩ := inlineIndex_amount hlast
  refine ⟨first?, p', last?, q', hsupplied, hsupplied', ?_⟩
  intro env length i j htext hlength hi hj
  have hwhole : amount env (text ++ ".length") = some (length - 1 + 1) := by
    rw [hlength, Int.sub_add_cancel]
  rw [Edge.startIndex_eq, Edge.stopIndex_eq]
  have hstart := hfirstAmount env length 0 i htext hlength (amount_toString 0) hi
  rw [Int.add_zero] at hstart
  exact .slice hlength hstart (hlastAmount env length (length - 1) j htext hlength hwhole hj)

/-- The argument for an edge comes to the index, counted from zero. -/
theorem edgeArgument_amount {arguments : List String}
    (hrun : site.edgeArgument slot edge o p = .ok arguments q) :
    ∃ e?, site.edgeSupplied slot edge o p = .ok e? q ∧
      ∀ env n, (∀ e ∈ e?, ComesTo env e n) →
        List.Forall₂ (fun argument value => amount env argument = some value) arguments
          (edgeValue edge (n - o.indexBase)) := by
  by_cases hedge : edge = .outermost
  · subst hedge
    obtain ⟨rfl, rfl⟩ := EStateM.Result.ok.inj hrun
    exact ⟨none, rfl, fun env n _ => .nil⟩
  · rw [edgeArgument, if_neg hedge] at hrun
    obtain ⟨index, q', hindex, hpure⟩ := Gen.bind_eq_ok hrun
    obtain ⟨rfl, rfl⟩ := EStateM.Result.ok.inj hpure
    obtain ⟨e, hsupplied, hamount⟩ := adjustedIndex_amount (Or.inl rfl) hindex
    refine ⟨some e, edgeSupplied_of_supplied hedge hsupplied, fun env n hcomes => ?_⟩
    have hvalue := (hamount env n (hcomes e rfl)).1
    rw [Int.add_zero] at hvalue
    rw [edgeValue, if_neg hedge]
    exact .cons hvalue .nil

/-- An index that comes to an integer can be an argument. -/
theorem edgeArgument_succeeds {e? : Option Expression} {env : Integers} {n : Int}
    (hsupplied : site.edgeSupplied slot edge o p = .ok e? q)
    (hcomes : ∀ e ∈ e?, ComesTo env e n) :
    ∃ arguments, site.edgeArgument slot edge o p = .ok arguments q := by
  obtain ⟨rfl, rfl, rfl⟩ | ⟨hedge, e, rfl, hslot⟩ := edgeSupplied_eq_ok hsupplied
  · exact ⟨_, rfl⟩
  · have hadjusted : ∃ index, site.index slot o p = .ok index q :=
      adjustedIndex_succeeds hslot (hcomes e rfl)
    obtain ⟨index, hindex⟩ := hadjusted
    refine ⟨[index], ?_⟩
    rw [edgeArgument, if_neg hedge, Gen.bind_apply, hindex]
    rfl

/-- A call for a part of a text cuts where it should, if the pass behind it is one that a generator
    comes to. -/
theorem helperSubstring_cuts {e : Expression} (hq : q.Visited o)
    (hrun : site.helperSubstring text start stop o p = .ok e q) :
    ∃ first? p' last? q', site.edgeSupplied "AT1" start o p = .ok first? p' ∧
      site.edgeSupplied "AT2" stop o p' = .ok last? q' ∧
      ∀ env length i j, (∀ e ∈ first?, ComesTo env e i) → (∀ e ∈ last?, ComesTo env e j) →
        Cuts env q.definitions.texts text length e.1 (start.startIndex o.indexBase length i)
          (stop.stopIndex o.indexBase length j) := by
  rw [helperSubstring_eq_callRoutine] at hrun
  obtain ⟨first, p', hfirst, hrun⟩ := Gen.bind_eq_ok hrun
  obtain ⟨last, q', hlast, hrun⟩ := Gen.bind_eq_ok hrun
  obtain ⟨emitted, q'', hhelper, hpure⟩ := Gen.bind_eq_ok hrun
  obtain ⟨rfl, rfl⟩ := EStateM.Result.ok.inj hpure
  obtain ⟨first?, hsupplied, hfirstAmount⟩ := edgeArgument_amount hfirst
  obtain ⟨last?, hsupplied', hlastAmount⟩ := edgeArgument_amount hlast
  refine ⟨first?, p', last?, q', hsupplied, hsupplied', ?_⟩
  intro env length i j hi hj
  obtain ⟨hanswer, rfl⟩ := Gen.helper_eq_ok hhelper
  obtain ⟨lead, -, hdefined⟩ := hq.defined (Pass.provides_of_provide hanswer)
  rw [Routine.instantiate_subsequence] at hdefined
  obtain ⟨hstart, hstop⟩ := slicer_amounts start stop length (i - o.indexBase) (j - o.indexBase)
  have harguments : List.Forall₂ (fun argument value => amount env argument = some value)
      (first ++ last) (edgeValue start (i - o.indexBase) ++ edgeValue stop (j - o.indexBase)) :=
    List.rel_append (hfirstAmount env i hi) (hlastAmount env j hj)
  have hparameters : (Routine.subsequence start stop).parameters.tail.length =
      (first ++ last).length := by
    rw [harguments.length_eq]
    cases start <;> cases stop <;> rfl
  rw [Edge.startIndex_eq, Edge.stopIndex_eq]
  exact .call (List.mem_map_of_mem hdefined) hparameters harguments hstart hstop

/-- A part of a text, as a slice of it or by a call. -/
def cut (site : Site) (sliced : Bool) (text : String) (start stop : Edge) : Gen Expression :=
  if sliced then site.inlineSubstring text start stop else site.helperSubstring text start stop

/-- A part whose indices come to integers can be written in both ways; a call needs an indent that is
    a text. -/
theorem cut_succeeds {sliced : Bool} {first? last? : Option Expression} {p' p'' : Pass}
    {env : Integers} {i j : Int} (hp'' : p''.Visited o)
    (hfirst : site.edgeSupplied "AT1" start o p = .ok first? p')
    (hlast : site.edgeSupplied "AT2" stop o p' = .ok last? p'')
    (hi : ∀ e ∈ first?, ComesTo env e i) (hj : ∀ e ∈ last?, ComesTo env e j)
    (hindent : sliced = true ∨ ∃ lead, o.indentText = .ok lead) :
    ∃ code q, site.cut sliced text start stop o p = .ok code q := by
  cases sliced with
  | true =>
    have hfirstRun : ∃ first, site.inlineIndex text "AT1" "0" 0 start o p = .ok first p' :=
      inlineIndex_succeeds hfirst hi
    have hlastRun : ∃ last, site.inlineIndex text "AT2" (text ++ ".length") 1 stop o p' =
        .ok last p'' := inlineIndex_succeeds hlast hj
    obtain ⟨first, hfirstRun⟩ := hfirstRun
    obtain ⟨last, hlastRun⟩ := hlastRun
    refine ⟨(text ++ ".slice(" ++ first ++ ", " ++ last ++ ")", .functionCall), p'', ?_⟩
    rw [cut, if_pos rfl, inlineSubstring_eq_inlineIndex, Gen.bind_apply, hfirstRun]
    simp only
    rw [Gen.bind_apply, hlastRun]
    rfl
  | false =>
    obtain ⟨lead, hlead⟩ := hindent.resolve_left Bool.false_ne_true
    obtain ⟨first, hfirstRun⟩ := edgeArgument_succeeds hfirst hi
    obtain ⟨last, hlastRun⟩ := edgeArgument_succeeds hlast hj
    obtain ⟨emitted, q, hhelper⟩ := hp''.helper_succeeds hlead (.subsequence start stop)
    refine ⟨(emitted ++ "(" ++ Text.join ", " ([text] ++ first ++ last) ++ ")", .functionCall), q, ?_⟩
    rw [cut, if_neg Bool.false_ne_true, helperSubstring_eq_callRoutine, Gen.bind_apply, hfirstRun]
    simp only
    rw [Gen.bind_apply, hlastRun]
    simp only
    rw [Gen.callRoutine, Gen.bind_apply, hhelper]
    rfl

end Site

end BlockScript
