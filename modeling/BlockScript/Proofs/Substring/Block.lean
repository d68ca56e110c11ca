/-
  BlockScript.Proofs.Substring.Block

  Blocks for parts of a text, with every pair of edges. The slice and the call cut at the same two
  integers, whichever of them the block is written as, and the text is written once or is a word.
-/
import BlockScript.Proofs.Substring.Cut

namespace BlockScript

open Script
open Gen (Visiting)

/-! ## One word -/

/-- A word or a literal of one word, perhaps with a line feed behind it. -/
def IsOneWord (s : String) : Prop :=
  ∃ word tail : List Char, word ≠ [] ∧ (∀ c ∈ word, Literal.isWordChar c = true) ∧
    (tail = [] ∨ tail = ['\n']) ∧
    (s.toList = word ++ tail ∨ s.toList = '\'' :: (word ++ '\'' :: tail))

/-- A text without its last line feed, and the line feed. -/
theorem exists_body (s : List Char) : ∃ tail : List Char, (tail = [] ∨ tail = ['\n']) ∧
    s = (if s.getLast? = some '\n' then s.dropLast else s) ++ tail := by
  split
  · rename_i hlast
    obtain ⟨before, rfl⟩ := List.getLast?_eq_some_iff.mp hlast
    rw [List.dropLast_concat]
    exact ⟨_, Or.inr rfl, rfl⟩
  · exact ⟨[], Or.inl rfl, (List.append_nil s).symm⟩

/-- Code that passes for a word is one, or a literal of one word: it does not end in a literal. -/
theorem isOneWord_of_isSimple {s : String} (hs : Closed s) (h : Literal.isSimple s = true) :
    IsOneWord s := by
  obtain ⟨tail, htail, hchars⟩ := exists_body s.toList
  have hquote : '\'' ∉ tail := by
    rcases htail with rfl | rfl <;> decide
  simp only [Literal.isSimple, Bool.and_eq_true, Bool.not_eq_true', Bool.or_eq_true,
    decide_eq_true_eq, List.isEmpty_eq_false_iff] at h
  generalize (if s.toList.getLast? = some '\n' then s.toList.dropLast else s.toList) = body
    at h hchars
  have hword : ∀ {t : List Char}, ∀ c ∈ t.takeWhile Literal.isWordChar, Literal.isWordChar c = true :=
    fun c hc => List.all_eq_true.mp List.all_takeWhile c hc
  have hplain : ∀ {t : List Char}, ∀ c ∈ t.takeWhile Literal.isWordChar, isPlainChar c = true :=
    fun c hc => isPlainChar_of_isWordChar (hword c hc)
  have hnone : ∀ {t : List Char}, '\'' ∉ t.takeWhile Literal.isWordChar := fun hc =>
    absurd (hplain _ hc) (by decide)
  have hopen : ∀ {t : List Char}, '\'' ∉ t → modeAfter (.literal []) t ≠ .code := fun ht =>
    not_closed_of_inLiteral (inLiteral_literal []) ht
  rw [Closed, hchars] at hs
  split at h
  · -- A quote ahead of the word needs one behind it.
    rename_i rest
    obtain ⟨hne, hend⟩ := h
    have hrest := List.takeWhile_append_dropWhile (p := Literal.isWordChar) (l := rest)
    refine ⟨rest.takeWhile Literal.isWordChar, tail, hne, hword, htail, Or.inr ?_⟩
    rcases hend with hend | hend
    · rw [hend, List.append_nil] at hrest
      rw [← hrest] at hs
      refine absurd hs (hopen ?_)
      exact fun hc => (List.mem_append.mp hc).elim hnone hquote
    · rw [hend] at hrest
      have htext : rest ++ tail = rest.takeWhile Literal.isWordChar ++ ['\''] ++ tail :=
        congrArg (· ++ tail) hrest.symm
      rw [List.append_assoc, List.singleton_append] at htext
      exact hchars.trans (congrArg (List.cons '\'') htext)
  · -- A quote behind the word needs one ahead of it.
    obtain ⟨hne, hend⟩ := h
    have hbody := List.takeWhile_append_dropWhile (p := Literal.isWordChar) (l := body)
    refine ⟨body.takeWhile Literal.isWordChar, tail, hne, hword, htail, Or.inl ?_⟩
    rcases hend with hend | hend
    · rw [hend, List.append_nil] at hbody
      rw [hchars, hbody]
    · rw [hend] at hbody
      rw [← hbody, List.append_assoc, modeAfter_append, modeAfter_of_plain hplain] at hs
      exact absurd hs (hopen hquote)

/-! ## One place -/

/-- The code that a text gives to a step has the text in one place: it is the same for every text
    around it. -/
def WrittenOnce (o : Options) (p : Pass) (code : String → Gen Expression) : Prop :=
  ∃ before after order q, ∀ text, code text o p = .ok (before ++ text ++ after, order) q

namespace Site

variable {o : Options} {site : Site} {p q : Pass} {e : Expression} {text : String}
  {start stop : Edge}

/-- A slice that needs no length has the text in one place. -/
theorem inlineSubstring_once (hneeds : needsLength start stop = false)
    (hrun : site.inlineSubstring text start stop o p = .ok e q) :
    WrittenOnce o p fun other => site.inlineSubstring other start stop := by
  simp only [needsLength, Bool.or_eq_false_iff, decide_eq_false_iff_not] at hneeds
  obtain ⟨⟨hstart, hstop⟩, hend⟩ := hneeds
  have hfirst : ∀ other, site.inlineIndex other "AT1" "0" 0 start =
      site.inlineIndex text "AT1" "0" 0 start := by
    intro other
    cases start with
    | fromEnd => exact absurd rfl hstart
    | outermost | fromStart => rfl
  have hlast : ∀ other, site.inlineIndex other "AT2" (other ++ ".length") 1 stop =
      site.inlineIndex text "AT2" (text ++ ".length") 1 stop := by
    intro other
    cases stop with
    | fromStart => rfl
    | fromEnd => exact absurd rfl hstop
    | outermost => exact absurd rfl hend
  rw [inlineSubstring_eq_inlineIndex] at hrun
  obtain ⟨first, p', hfirstRun, hrun⟩ := Gen.bind_eq_ok hrun
  obtain ⟨last, q', hlastRun, hpure⟩ := Gen.bind_eq_ok hrun
  refine ⟨"", ".slice(" ++ first ++ ", " ++ last ++ ")", .functionCall, q', fun other => ?_⟩
  simp only [inlineSubstring_eq_inlineIndex, hfirst, hlast, Gen.bind_apply, hfirstRun, hlastRun]
  simp only [String.empty_append, String.append_assoc]
  rfl

/-- A call has the text in one place. -/
theorem helperSubstring_once (hrun : site.helperSubstring text start stop o p = .ok e q) :
    WrittenOnce o p fun other => site.helperSubstring other start stop := by
  rw [helperSubstring_eq] at hrun
  obtain ⟨first, p', hfirst, hrun⟩ := Gen.bind_eq_ok hrun
  obtain ⟨last, q', hlast, hrun⟩ := Gen.bind_eq_ok hrun
  obtain ⟨name, q'', hname, hpure⟩ := Gen.bind_eq_ok hrun
  have hjoin : ∃ more, ∀ other, Text.join ", " ([other] ++ first ++ last) = other ++ more := by
    cases harguments : first ++ last with
    | nil =>
      refine ⟨"", fun other => ?_⟩
      rw [List.append_assoc, harguments, String.append_empty]
      rfl
    | cons s rest =>
      refine ⟨", " ++ Text.join ", " (s :: rest), fun other => ?_⟩
      rw [List.append_assoc, harguments, ← String.append_assoc]
      rfl
  obtain ⟨more, hmore⟩ := hjoin
  refine ⟨name ++ "(", more ++ ")", .functionCall, q'', fun other => ?_⟩
  simp only [helperSubstring_eq, Gen.bind_apply, hfirst, hlast, hname]
  rw [hmore]
  simp only [String.append_assoc]
  rfl

/-! ## The two ways -/

/-- Whether a part is written as a slice of a text. -/
def slices (text : String) (start stop : Edge) : Bool :=
  Literal.isSimple text || !needsLength start stop

/-- A block for a part that is not the whole reads its text, and cuts it in one of two ways. -/
theorem substring_run (hstart : site.optionAmong "WHERE1" startEdges = .ok start)
    (hstop : site.optionAmong "WHERE2" stopEdges = .ok stop)
    (hpart : ¬ (start = .outermost ∧ stop = .outermost)) (hrun : site.substring o p = .ok e q) :
    ∃ source p', site.supplied "STRING" "''" o p = .ok source p' ∧
      let text := Order.wrap source.1 (textSlot start stop) source.2
      site.cut (slices text start stop) text start stop o p' = .ok e q := by
  have hwhole : (decide (start = .outermost) && decide (stop = .outermost)) = false := by
    rwa [Bool.and_eq_false_iff, decide_eq_false_iff_not, decide_eq_false_iff_not, ← not_and_or]
  rw [substring, hstart, hstop, Gen.lift_ok, pure_bind, Gen.lift_ok, pure_bind] at hrun
  obtain ⟨text, p', htext, hrun⟩ := Gen.bind_eq_ok hrun
  rw [valueOr_eq] at htext
  obtain ⟨source, p'', hsource, hpure⟩ := Gen.bind_eq_ok htext
  obtain ⟨rfl, rfl⟩ := EStateM.Result.ok.inj hpure
  refine ⟨source, p'', hsource, ?_⟩
  rw [hwhole, if_neg Bool.false_ne_true] at hrun
  exact hrun

/-- A text that is cut by a slice is a word, or its members are used. -/
theorem operand_of_slices {source : Expression} (h : Operand source.2.rank source.1)
    (hslices : slices (Order.wrap source.1 (textSlot start stop) source.2) start stop = true) :
    Operand 0 (Order.wrap source.1 (textSlot start stop) source.2) := by
  have hwrap := operand_wrap h (textSlot start stop)
  rw [slices, Bool.or_eq_true] at hslices
  rcases hslices with hsimple | hneeds
  · exact operand_of_isSimple hwrap hsimple
  · rw [Bool.not_eq_true'] at hneeds
    have hmember : textSlot start stop = .member := by
      rw [textSlot, hneeds]
      rfl
    rw [hmember] at hwrap ⊢
    exact hwrap.tighten (by decide)

/-- A part that is not of a word has the text in one place. -/
theorem cut_once (hsimple : Literal.isSimple text = false)
    (hrun : site.cut (slices text start stop) text start stop o p = .ok e q) :
    WrittenOnce o p fun other => site.cut (slices text start stop) other start stop := by
  cases hslices : slices text start stop with
  | false =>
    rw [hslices] at hrun
    exact helperSubstring_once hrun
  | true =>
    rw [hslices] at hrun
    rw [slices, hsimple, Bool.false_or, Bool.not_eq_true'] at hslices
    exact inlineSubstring_once hslices hrun

end Site

/-! ## Blocks -/

namespace Block

variable {o : Options} {b : Block} {attached : Bool} {p q : Pass} {slot default : String}

/-- The value slots of every block lead to passes that a generator comes to. -/
theorem paired_visiting (b : Block) (attached : Bool) :
    Site.Paired (fun m _ => Visiting m) (b.site attached) (b.site attached) := by
  have hvalues : ∀ name, Option.Rel (Input.Related fun m _ => Visiting m)
      (Site.inSlot (inputs b.values) name) (Site.inSlot (inputs b.values) name) :=
    fun name => rel_inSlot fun c _ => ⟨rfl, c.code_visiting true false⟩
  exact { kind := rfl, record := Site.record_of_id Visiting.congruence rfl, fields := fun _ _ => rfl, mutation := rfl
          value := fun name => Site.value_related (s := b.site attached) (t := b.site attached)
            Visiting.congruence (hvalues name) }

theorem supplied_visited (hp : p.Visited o) {e : Expression}
    (hrun : (b.site attached).supplied slot default o p = .ok e q) : q.Visited o := by
  have hvalue : (b.site attached).valueOr slot .none default o p = .ok (Order.wrap e.1 .none e.2) q := by
    rw [Site.valueOr_eq, Gen.bind_apply, hrun]
    rfl
  exact ((b.paired_visiting attached).valueOr Visiting.congruence slot .none default).run hp hvalue

theorem edgeSupplied_visited {edge : Site.Edge} (hp : p.Visited o) {e? : Option Expression}
    (hrun : (b.site attached).edgeSupplied slot edge o p = .ok e? q) : q.Visited o := by
  obtain ⟨-, -, rfl⟩ | ⟨-, e, -, hsupplied⟩ := Site.edgeSupplied_eq_ok hrun
  · exact hp
  · exact supplied_visited hp hsupplied

/-- What a slot with a tree of values supplies exposes no operator that is looser than its
    precedence. -/
theorem supplied_allows_fits {lead : String} (hlead : KeepsNames lead)
    (hvalues : ∀ c, (slot, some c) ∈ b.values → c.ValueTree) (hdefault : Operand 0 default) :
    Gen.Allows o (Pass.Named (some lead)) ((b.site attached).supplied slot default)
      fun e => Operand e.2.rank e.1 := by
  have hrecord : ∀ entry, Gen.Allows o (Pass.Named (some lead)) (Gen.record entry) fun _ => True :=
    Gen.record_allows fun p entry hp => hp.record entry
  have hmissing : Gen.Allows o (Pass.Named (some lead))
      ((b.site attached).missingInput slot default) fun e => Operand e.2.rank e.1 :=
    (hrecord _).bind fun _ _ => Gen.Allows.pure hdefault
  have hinput := inSlot_inputs b.values slot
  change Site.inSlot (b.site attached).values slot = _ at hinput
  rw [Site.supplied, hinput]
  cases hslot : inSlot b.values slot with
  | none => exact hmissing
  | some c =>
    refine ((hvalues c (mem_of_inSlot hslot)).code_allows hlead true false (Or.inl rfl)).bind ?_
    intro code hcode
    cases code with
    | expression text order =>
      simp only
      split
      · exact hmissing
      · exact Gen.Allows.pure hcode
    | statement text =>
      have htext : text = "" := hcode
      simp only [htext, if_true]
      exact hmissing

/-- What a slot with a tree of values supplies for an edge, too. -/
theorem edgeSupplied_allows_fits {lead : String} (hlead : KeepsNames lead)
    (hvalues : ∀ c, (slot, some c) ∈ b.values → c.ValueTree) (edge : Site.Edge) :
    Gen.Allows o (Pass.Named (some lead)) ((b.site attached).edgeSupplied slot edge)
      fun e? => ∀ e ∈ e?, Operand e.2.rank e.1 := by
  rw [Site.edgeSupplied]
  split
  · exact Gen.Allows.pure fun e he => by cases he
  · refine Gen.Allows.options.bind fun o' _ => ?_
    have hdefault : Operand 0 o'.firstIndex := by
      rw [Options.firstIndex]
      split <;> decide
    refine (supplied_allows_fits hlead hvalues hdefault).bind fun e he => Gen.Allows.pure ?_
    rintro _ ⟨⟩
    exact he

/-- Both ways to write a part of a text cut where the edges say, if the indices come to integers. -/
theorem cut_cuts {start stop : Site.Edge} {text : String} {sliced : Bool} {code : Expression}
    (hp : p.Visited o)
    (hrun : (b.site attached).cut sliced text start stop o p = .ok code q) :
    ∃ first? p' last? p'',
      (b.site attached).edgeSupplied "AT1" start o p = .ok first? p' ∧
      (b.site attached).edgeSupplied "AT2" stop o p' = .ok last? p'' ∧
      ∀ env length i j, (sliced = true → Operand 0 text) →
        (Operand 0 text → amount env (text ++ ".length") = some length) →
        (∀ e ∈ first?, ComesTo env e i) → (∀ e ∈ last?, ComesTo env e j) →
        Cuts env q.definitions.texts text length code.1 (start.startIndex o.indexBase length i)
          (stop.stopIndex o.indexBase length j) := by
  cases sliced with
  | true =>
    obtain ⟨first?, p', last?, p'', hfirst, hlast, hcuts⟩ :=
      Site.inlineSubstring_cuts hrun
    exact ⟨first?, p', last?, p'', hfirst, hlast, fun env length i j htext hlength =>
      hcuts env length i j (htext rfl) (hlength (htext rfl))⟩
  | false =>
    have hq : q.Visited o := ((b.paired_visiting attached).helperSubstring Visiting.congruence
      (fun _ _ ho => congrArg Options.isOneBased ho) text start stop).run hp hrun
    obtain ⟨first?, p', last?, p'', hfirst, hlast, hcuts⟩ := Site.helperSubstring_cuts hq hrun
    exact ⟨first?, p', last?, p'', hfirst, hlast, fun env length i j _ _ => hcuts env length i j⟩

/-- The agreement of the two ways to write a part of a text, for every pair of edges but the whole
    and both index bases. The text and the indices of the edges are what the slots supply. In a text
    of any length, and for all indices that come to integers, the code of the block cuts where its
    edges say; and if it is a slice, a call in its place cuts there, too, by a function that is
    defined. The text stands in one place, or it is one word. What trees of values supply is code of
    its precedence, unless the prefix for variables makes other code of names. -/
theorem substring_cuts {start stop : Site.Edge} {e : Expression} (hp : p.Visited o)
    (hstart : (b.site attached).optionAmong "WHERE1" Site.startEdges = .ok start)
    (hstop : (b.site attached).optionAmong "WHERE2" Site.stopEdges = .ok stop)
    (hpart : ¬ (start = .outermost ∧ stop = .outermost))
    (hrun : (b.site attached).substring o p = .ok e q) :
    ∃ source p₁ first? p₂ last? p₃,
      (b.site attached).supplied "STRING" "''" o p = .ok source p₁ ∧
      (b.site attached).edgeSupplied "AT1" start o p₁ = .ok first? p₂ ∧
      (b.site attached).edgeSupplied "AT2" stop o p₂ = .ok last? p₃ ∧
      let text := Order.wrap source.1 (Site.textSlot start stop) source.2
      let sliced := Site.slices text start stop
      (b.site attached).cut sliced text start stop o p₁ = .ok e q ∧
      (Operand source.2.rank source.1 →
        (∀ way, way = sliced ∨ way = false ∧ (∃ lead, o.indentText = .ok lead) →
          ∀ env length i j, (Operand 0 text → amount env (text ++ ".length") = some length) →
            (∀ e ∈ first?, ComesTo env e i) → (∀ e ∈ last?, ComesTo env e j) →
            ∃ code q', (b.site attached).cut way text start stop o p₁ = .ok code q' ∧
              Cuts env q'.definitions.texts text length code.1
                (start.startIndex o.indexBase length i) (stop.stopIndex o.indexBase length j)) ∧
        (WrittenOnce o p₁ (fun other => (b.site attached).cut sliced other start stop) ∨
          IsOneWord text)) ∧
      (∀ lead, o.variablePrefix? = some lead → KeepsNames lead →
        (∀ name c, (name, some c) ∈ b.values → c.ValueTree) → Operand source.2.rank source.1 ∧
          (∀ e ∈ first?, Operand e.2.rank e.1) ∧ ∀ e ∈ last?, Operand e.2.rank e.1) := by
  obtain ⟨source, p₁, hsource, hcut⟩ := Site.substring_run hstart hstop hpart hrun
  have hp₁ := supplied_visited hp hsource
  obtain ⟨first?, p₂, last?, p₃, hfirst, hlast, -⟩ := cut_cuts hp₁ hcut
  refine ⟨source, p₁, first?, p₂, last?, p₃, hsource, hfirst, hlast, hcut, ?_, ?_⟩
  · intro hoperand
    have htext : Site.slices (Order.wrap source.1 (Site.textSlot start stop) source.2) start stop =
        true → Operand 0 (Order.wrap source.1 (Site.textSlot start stop) source.2) :=
      Site.operand_of_slices hoperand
    constructor
    · intro way hway env length i j hlength hi hj
      have hwritten : ∃ code q', (b.site attached).cut way
          (Order.wrap source.1 (Site.textSlot start stop) source.2) start stop o p₁ = .ok code q' := by
        rcases hway with rfl | ⟨rfl, hindent⟩
        · exact ⟨e, q, hcut⟩
        · exact Site.cut_succeeds (edgeSupplied_visited (edgeSupplied_visited hp₁ hfirst) hlast)
            hfirst hlast hi hj (Or.inr hindent)
      obtain ⟨code, q', hrun'⟩ := hwritten
      -- From the pass behind the text the edges are supplied alike in both ways.
      obtain ⟨first?', p₂', last?', p₃', hfirst', hlast', hcuts⟩ := cut_cuts hp₁ hrun'
      obtain ⟨rfl, rfl⟩ := EStateM.Result.ok.inj (hfirst'.symm.trans hfirst)
      obtain ⟨rfl, rfl⟩ := EStateM.Result.ok.inj (hlast'.symm.trans hlast)
      refine ⟨code, q', hrun', hcuts env length i j (fun h => htext ?_) hlength hi hj⟩
      rcases hway with rfl | ⟨rfl, -⟩
      · exact h
      · cases h
    · cases hsimple : Literal.isSimple
          (Order.wrap source.1 (Site.textSlot start stop) source.2) with
      | false => exact Or.inl (Site.cut_once hsimple hcut)
      | true => exact Or.inr (isOneWord_of_isSimple (operand_wrap hoperand _).whole.closed hsimple)
  · intro lead hsetting hlead hvalues
    have hnamed := hp.reachable.named
    rw [hsetting] at hnamed
    obtain ⟨hnamed₁, hfits⟩ :=
      supplied_allows_fits hlead (hvalues "STRING") (by decide) _ _ _ hnamed hsource
    obtain ⟨hnamed₂, hfirstFits⟩ :=
      edgeSupplied_allows_fits hlead (hvalues "AT1") start _ _ _ hnamed₁ hfirst
    obtain ⟨-, hlastFits⟩ := edgeSupplied_allows_fits hlead (hvalues "AT2") stop _ _ _ hnamed₂ hlast
    exact ⟨hfits, hfirstFits, hlastFits⟩

end Block

/-- The last two characters of a text that is joined from two missing parts. -/
def lastTwo : Block :=
  .mk ⟨.value .substring, "last", [(.str "WHERE1", .str "FROM_END"), (.str "WHERE2", .str "LAST")],
      .null, .bool true, true, []⟩
    [("STRING", some (.mk ⟨.value .joined, "join", [], .null, .bool true, true, []⟩ [] [] none)),
      ("AT1", some (.mk ⟨.value .number, "number", [(.str "NUM", .num (.int 2))], .null, .bool true,
        true, []⟩ [] [] none))] [] none

theorem substring_cuts_lastTwo :
    ∃ (p q : Pass) (e : Expression), p.Visited .default ∧
      (lastTwo.site true).substring .default p = .ok e q ∧
      e.1 = "subsequenceFromEndLast('' + '', 1)" ∧
      ∀ env length, Cuts env q.definitions.texts "'' + ''" length e.1 (length - 2) length := by
  obtain ⟨p, hstarted⟩ : ∃ p : Pass, p = .start (.new reservedWords (some "")) [] := ⟨_, rfl⟩
  have hp : p.Visited .default := hstarted ▸ .start rfl []
  have hrun : ∃ q, (lastTwo.site true).substring .default p =
      .ok ("subsequenceFromEndLast('' + '', 1)", .functionCall) q :=
    hstarted ▸ ⟨_, by with_unfolding_all rfl⟩
  obtain ⟨q, hrun⟩ := hrun
  have hstart : (lastTwo.site true).optionAmong "WHERE1" Site.startEdges = .ok .fromEnd := rfl
  have hstop : (lastTwo.site true).optionAmong "WHERE2" Site.stopEdges = .ok .outermost := rfl
  refine ⟨p, q, _, hp, hrun, rfl, fun env length => ?_⟩
  obtain ⟨source, p₁, first?, p₂, last?, p₃, hsource, hfirst, hlast, hcut, hways, -⟩ :=
    Block.substring_cuts hp hstart hstop (by decide) hrun
  -- What the slots supply: a sum, and the literal of an integer.
  have hjoined : ∃ p', (lastTwo.site true).supplied "STRING" "''" .default p =
      .ok ("'' + ''", .addition) p' := hstarted ▸ ⟨_, by with_unfolding_all rfl⟩
  obtain ⟨p', hjoined⟩ := hjoined
  obtain ⟨rfl, hsame⟩ := EStateM.Result.ok.inj (hjoined.symm.trans hsource)
  have hindex : ∃ p'', (lastTwo.site true).edgeSupplied "AT1" .fromEnd .default
      (Gen.passAfter .default ((lastTwo.site true).supplied "STRING" "''") p) =
        .ok (some ("2", .atomic)) p'' := hstarted ▸ ⟨_, by with_unfolding_all rfl⟩
  rw [Gen.passAfter_of_ok hsource] at hindex
  obtain ⟨p'', hindex⟩ := hindex
  obtain ⟨rfl, -⟩ := EStateM.Result.ok.inj (hindex.symm.trans hfirst)
  obtain ⟨rfl, -⟩ := EStateM.Result.ok.inj hlast
  have hclosed : ¬ Operand 0 "'' + ''" := by decide
  have hi : ∀ e ∈ some ("2", Order.atomic), ComesTo env e 2 := by
    rintro _ ⟨⟩
    exact comesTo_toString env 2
  obtain ⟨code, q', hcode, hcuts⟩ := (hways (by decide)).1 _ (Or.inl rfl) env length 2 0
    (fun h => absurd h hclosed) hi (fun e he => by cases he)
  obtain ⟨rfl, rfl⟩ := EStateM.Result.ok.inj (hcode.symm.trans hcut)
  have hbase : Site.Edge.startIndex (Options.indexBase .default) length 2 .fromEnd = length - 2 :=
    Int.sub_add_cancel _ 1
  rw [hbase] at hcuts
  exact hcuts

end BlockScript
