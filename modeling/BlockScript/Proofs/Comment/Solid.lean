/-
  BlockScript.Proofs.Comment.Solid

  The code of a block begins with something besides white space, whatever its rule writes. So comments
  ahead of it are ahead of a line with something in it, also once white space is cleaned up.
-/
import BlockScript.Proofs.Comment.Erasure
import BlockScript.Proofs.Expression.Exposure

namespace BlockScript

open Script (isName isUnsigned)
open Gen (Allows)

/-! ## Texts -/

namespace Text

/-- A text with something besides white space in its first line. -/
def Solid (s : String) : Prop :=
  isSolid s.toList = true

instance (s : String) : Decidable (Solid s) :=
  inferInstanceAs (Decidable (isSolid s.toList = true))

namespace Solid

variable {s t : String}

theorem append (h : Solid s) (t : String) : Solid (s ++ t) := by
  rw [Solid, String.toList_append]
  exact isSolid_append h t.toList

theorem ne_empty (h : Solid s) : s ≠ "" := by
  rintro rfl
  cases h

/-- Where a text with something in it leads does not depend on where it is begun. -/
theorem atLineStart_eq (h : Solid s) (atStart : Bool) :
    atLineStart atStart s.toList = atLineStart true s.toList :=
  Text.atLineStart_eq (isSolid_ne_nil h) atStart true

/-- Joined texts begin with the first of them. -/
theorem join (h : Solid s) (separator : String) (rest : List String) :
    Solid (Text.join separator (s :: rest)) := by
  cases rest with
  | nil => exact h
  | cons t rest => exact (h.append separator).append _

theorem join_of_forall₂ {α : Type} {R : String → α → Prop} {texts : List String} {as : List α}
    (h : List.Forall₂ (fun s a => R s a ∧ Solid s) texts as) (hne : 0 < texts.length)
    (separator : String) : Solid (Text.join separator texts) := by
  cases h with
  | nil => cases hne
  | cons hfirst _ => exact hfirst.2.join separator _

end Solid

/-- A text that begins with something besides white space. -/
def Begun (s : String) : Prop :=
  s.toList.head?.any (fun c => !isBlank c) = true

instance (s : String) : Decidable (Begun s) :=
  inferInstanceAs (Decidable (_ = true))

theorem begun_iff {s : String} : Begun s ↔ ∃ c rest, s.toList = c :: rest ∧ isBlank c = false := by
  rw [Begun]
  cases s.toList <;> simp

namespace Begun

variable {s : String}

theorem solid (h : Begun s) : Solid s := by
  obtain ⟨c, rest, hs, hc⟩ := begun_iff.mp h
  rw [Solid, hs, isSolid_cons_iff]
  exact Or.inl hc

theorem append (h : Begun s) (t : String) : Begun (s ++ t) := by
  obtain ⟨c, rest, hs, hc⟩ := begun_iff.mp h
  exact begun_iff.mpr ⟨c, rest ++ t.toList, by rw [String.toList_append, hs]; rfl, hc⟩

/-- Joined texts begin as the first of them does. -/
theorem join (h : Begun s) (separator : String) (rest : List String) :
    Begun (Text.join separator (s :: rest)) := by
  cases rest with
  | nil => exact h
  | cons t rest => exact (h.append separator).append _

theorem wrap (h : Begun s) (outer order : Order) : Begun (Order.wrap s outer order) := by
  rw [Order.wrap]
  split
  · have hopen : Begun "(" := by decide
    exact (hopen.append s).append ")"
  · exact h

end Begun

theorem begun_of_isWordChar {s : String} {c : Char} {rest : List Char} (hs : s.toList = c :: rest)
    (hc : Literal.isWordChar c = true) : Begun s :=
  begun_iff.mpr ⟨c, rest, hs, Script.isBlank_of_isWordChar hc⟩

theorem begun_name {s : String} (h : isName s.toList = true) : Begun s := by
  obtain ⟨c, rest, hs, -, hc, -⟩ := Script.isName_iff.mp h
  exact begun_of_isWordChar hs hc

theorem begun_unsigned {s : String} (h : isUnsigned s.toList = true) : Begun s := by
  cases hs : s.toList with
  | nil =>
    rw [hs] at h
    cases h
  | cons c rest =>
    rw [hs, isUnsigned, Bool.and_eq_true] at h
    exact begun_of_isWordChar hs (Script.isWordChar_of_isDigit h.1)

theorem begun_toString (n : Int) : Begun (toString n) := by
  cases n with
  | ofNat n => exact begun_unsigned (Script.isUnsigned_toString n)
  | negSucc n =>
    have hsign : Begun "-" := by decide
    exact hsign.append (toString (n + 1))

theorem begun_numeral (n : Number) : Begun n.numeral := by
  cases n with
  | int n => exact begun_toString n
  | float x =>
    have hsign : Begun "-" := by decide
    rw [Number.numeral]
    split
    · decide
    · split
      · split <;> decide
      · split
        · exact begun_toString x.truncate
        · rw [Binary64.render]
          split
          · exact hsign.append _
          · rw [String.empty_append]
            exact begun_unsigned (Script.isUnsigned_render _ _)

theorem begun_quoteChars (s : List Char) : Begun (String.ofList (Literal.quoteChars s)) := by
  rw [Begun, String.toList_ofList]
  rfl

theorem begun_quoteLines (s : String) : Begun (Literal.quoteLines s) := by
  rw [Literal.quoteLines]
  cases hlines : lines s.toList with
  | nil => exact absurd hlines (Script.splitOn_ne_nil _ _)
  | cons line rest => exact (begun_quoteChars line).join _ _

theorem begun_forceString {s : String} (h : Begun s) : Begun (Literal.forceString s).1 := by
  rw [Literal.forceString]
  split
  · exact h
  · have hcall : Begun "String(" := by decide
    exact (hcall.append s).append ")"

end Text

/-! ## Values -/

/-- A reading in which all that is not empty begins with something besides white space. -/
structure Reading.IsBegun (R : Reading) : Prop where
  slot : ∀ {name outer text}, R.slot name outer text → text = "" ∨ Text.Begun text
  variableName : ∀ {name emitted}, R.variableName name emitted → Text.Begun emitted
  procedureName : ∀ {name emitted}, R.procedureName name emitted → Text.Begun emitted
  helperName : ∀ {name emitted}, R.helperName name emitted → Text.Begun emitted

open Text (Begun begun_numeral begun_quoteChars begun_quoteLines begun_forceString)

theorem Reading.IsBegun.filled {R : Reading} (h : R.IsBegun) {slot : String} {outer : Order}
    {default text : String} (hdefault : Begun default) (htext : R.Filled slot outer default text) :
    Begun text := by
  rcases htext with ⟨hslot, hne⟩ | ⟨-, rfl⟩
  · exact (h.slot hslot).resolve_left hne
  · exact hdefault

namespace Written

variable {R : Reading} {o : Options} {site : Site}

theorem begun_junctionOperand {left right operator identity operand : String} {order : Order}
    (hop : site.optionAmong "OP" Site.junctions = .ok (operator, order, identity))
    (h : operand = "" ∨ Begun operand) :
    Begun (junctionOperand left right identity operand) := by
  obtain ⟨name, hmem⟩ := Site.mem_of_optionAmong hop
  rw [junctionOperand]
  -- An operand that is missing is written as `false` or as what leaves the other one alone.
  split
  · split
    · decide
    · simp only [Site.junctions, List.mem_cons, Prod.mk.injEq, List.not_mem_nil, or_false] at hmem
      rcases hmem with ⟨-, -, -, rfl⟩ | ⟨-, -, -, rfl⟩ <;> decide
  · rename_i hne
    exact h.resolve_left hne

theorem begun_boolean {name : String}
    (hname : site.optionAmong "BOOL" [("TRUE", "true"), ("FALSE", "false")] = .ok name) :
    Begun name := by
  obtain ⟨field, hmem⟩ := Site.mem_of_optionAmong hname
  simp only [List.mem_cons, Prod.mk.injEq, List.not_mem_nil, or_false] at hmem
  rcases hmem with ⟨-, rfl⟩ | ⟨-, rfl⟩ <;> decide

theorem begun_joinedItems {items : List String} (h : ∀ item ∈ items, Begun item) :
    Begun (joinedItems items).1 := by
  rcases items with _ | ⟨first, _ | ⟨second, _ | ⟨third, rest⟩⟩⟩
  · change Begun "''"
    decide
  · exact begun_forceString (h first List.mem_cons_self)
  · exact ((begun_forceString (h first List.mem_cons_self)).append " + ").append _
  · have hopen : Begun "[" := by decide
    exact (hopen.append _).append _

/-- Items that are filled begin with something besides white space. -/
theorem begun_of_forall₂ (hR : R.IsBegun) {slot : Nat → String} {default : String}
    (hdefault : Begun default) {indices : List Nat} {texts : List String}
    (h : List.Forall₂ (fun i => R.Filled (slot i) .none default) indices texts) :
    ∀ text ∈ texts, Begun text := by
  induction h with
  | nil => exact fun _ h => absurd h List.not_mem_nil
  | cons hfirst _ ih =>
    intro text htext
    rcases List.mem_cons.mp htext with rfl | hrest
    · exact hR.filled hdefault hfirst
    · exact ih text hrest

/-- Value code begins with something besides white space. -/
theorem begun {kind : ValueKind} {text : String} {order : Order} (hR : R.IsBegun)
    (h : Written R o site kind text order) : Begun text := by
  have hzero : Begun "0" := by decide
  have hquotes : Begun "''" := by decide
  have hcall : ∀ {name : String} (inside : String), Begun name → Begun (name ++ "(" ++ inside ++ ")") :=
    fun inside h => ((h.append "(").append inside).append ")"
  have hprompt : ∀ question, Begun ("window.prompt(" ++ question ++ ")") := by
    intro question
    have hopen : Begun "window.prompt(" := by decide
    exact (hopen.append question).append ")"
  -- A text begins with a filled input, with a name, or with a piece that the rule writes.
  cases h with
  | compare hop hleft hright =>
    iterate 4 apply Begun.append
    exact hR.filled hzero hleft
  | junction hop hleft hright =>
    iterate 4 apply Begun.append
    exact begun_junctionOperand hop (hR.slot hleft)
  | negate hoperand =>
    have hsign : Begun "!" := by decide
    exact hsign.append _
  | boolean hname => exact begun_boolean hname
  | null => decide
  | ternary hcondition hyes hno =>
    have hfalse : Begun "false" := by decide
    iterate 4 apply Begun.append
    exact hR.filled hfalse hcondition
  | number hn => exact begun_numeral _
  | call hname hparameters harguments => exact hcall _ (hR.procedureName hname)
  | text => exact begun_quoteChars _
  | multiline => exact begun_quoteLines _
  | joined hcount hitems => exact begun_joinedItems (begun_of_forall₂ hR hquotes hitems)
  | length htext => exact (hR.filled hquotes htext).append _
  | isEmpty htext =>
    have hsign : Begun "!" := by decide
    exact (hsign.append _).append _
  | indexOf hop hpart htext =>
    iterate 5 apply Begun.append
    exact hR.filled hquotes htext
  | indexOfOneBased hop hpart htext =>
    iterate 6 apply Begun.append
    exact hR.filled hquotes htext
  | firstChar hplace htext | lastChar hplace htext =>
    exact (hR.filled hquotes htext).append _
  | charFromStart hplace htext hindex | charFromEnd hplace htext hindex =>
    iterate 3 apply Begun.append
    exact hR.filled hquotes htext
  | randomChar hplace htext hname => exact hcall _ (hR.helperName hname)
  | wholeText hstart hstop htext => exact hR.filled hquotes htext
  | slice hstart hstop htext houter hfirst hlast =>
    iterate 5 apply Begun.append
    exact hR.filled hquotes htext
  | subsequence hstart hstop htext hfirst hlast hname => exact hcall _ (hR.helperName hname)
  | changedCase hcase htext => exact (hR.filled hquotes htext).append _
  | titleCase htext hname => exact hcall _ (hR.helperName hname)
  | trim hmode htext => exact (hR.filled hquotes htext).append _
  | prompt hkind hquestion => exact hprompt _
  | promptNumber hkind hquestion =>
    have hopen : Begun "Number(" := by decide
    exact (hopen.append _).append _
  | count htext hpart hname =>
    iterate 5 apply Begun.append
    exact hR.helperName hname
  | replace htext hold hnew hname =>
    iterate 7 apply Begun.append
    exact hR.helperName hname
  | reverse htext => exact (hR.filled hquotes htext).append _
  | getVariable hkind hname => exact hR.variableName hname

end Written

/-! ## Code -/

/-- Code of a value that begins with something besides white space; a block that is passed over has no
    text. -/
def Code.IsBegun : Code → Prop
  | .expression text _ => Begun text
  | .statement text => text = ""

/-- What inputs and names come to in a pass without a prefix for variables. -/
def begunReading : Reading where
  slot _ _ text := text = "" ∨ Begun text
  variableName _ emitted := Begun emitted
  procedureName _ emitted := Begun emitted
  helperName _ emitted := Begun emitted

theorem begunReading_isBegun : begunReading.IsBegun where
  slot h := h
  variableName h := h
  procedureName h := h
  helperName h := h

/-- What the names of a pass have in common stays so. -/
theorem Pass.isInvariant_named (lead? : Option String) : Pass.IsInvariant (Pass.Named lead?) where
  record _ entry hp := hp.record entry
  name _ name category hp := hp.named (NameTable.name_sound hp.remembers name category)
  provide _ indent name template hp := (hp.provide indent name template).1
  define _ name text hp := hp.define name text

namespace Gen

variable {o : Options}

theorem variableName_begun (name : String) :
    Allows o (Pass.Named (some "")) (variableName name) Begun := by
  apply (variableName_allows name).mono
  rintro _ ⟨candidate, hname, rfl⟩
  rw [String.empty_append]
  exact Text.begun_name hname

end Gen

namespace Site

variable {o : Options} {site : Site}

/-- A block with code in its value slots that begins with something besides white space. -/
def HasBegunValues (o : Options) (site : Site) : Prop :=
  ∀ name input, inSlot site.values name = some input →
    Allows o (Pass.Named (some "")) input.code Code.IsBegun

namespace HasBegunValues

variable (h : site.HasBegunValues o)
include h

theorem sound : begunReading.Sound o (Pass.Named (some "")) site where
  record := Gen.record_allows fun _ entry hp => hp.record entry
  value name outer := Site.value_allows (h name) (fun _ => Or.inl rfl) (fun _ => Or.inl rfl)
    fun _ order htext => Or.inr (Begun.wrap htext outer order)
  variableName := Gen.variableName_begun
  procedureName name := (Gen.procedureName_allows name).mono fun _ => Text.begun_name
  helper name template _ := (Gen.helper_allows name template).mono fun _ => Text.begun_name

/-- So does what the rules for values write. -/
theorem expression_begun (kind : ValueKind) :
    Allows o (Pass.Named (some "")) (site.expression kind) fun e => Begun e.1 :=
  (expression_writes h.sound kind).mono fun _ he => he.begun begunReading_isBegun

end HasBegunValues

end Site

theorem Block.ValueTree.code_begun {b : Block} {o : Options} (h : b.ValueTree) (alone : Bool) :
    Allows o (Pass.Named (some "")) (b.code true alone) Code.IsBegun := by
  have hrecord : ∀ entry, Allows o (Pass.Named (some "")) (Gen.record entry) fun _ => True :=
    Gen.record_allows fun p entry hp => hp.record entry
  have hempty : Code.IsBegun (.statement "") := rfl
  have hrule : ∀ (site : Site) (kind : ValueKind), site.HasBegunValues o →
      Allows o (Pass.Named (some "")) (site.expression kind)
        fun e => Code.IsBegun (.expression e.1 e.2) :=
    fun site kind hvalues => hvalues.expression_begun kind
  exact h.code_allows_of hrecord hempty hrule true alone (Or.inl rfl)

/-- What is in the value slots of a placed tree begins with something besides white space. -/
theorem Block.IsPlacedTree.hasBegunValues {b : Block} {o : Options} (h : b.IsPlacedTree)
    (attached : Bool) : (b.site attached).HasBegunValues o := by
  intro name input hinput
  change Site.inSlot (inputs b.values) name = some input at hinput
  rw [inSlot_inputs, Option.map_eq_some_iff] at hinput
  obtain ⟨c, hc, rfl⟩ := hinput
  have hmem : c ∈ connected b.values := List.mem_filterMap.mpr ⟨_, mem_of_inSlot hc, rfl⟩
  obtain ⟨hvalue, hlast⟩ := h.isPlaced.values c hmem
  exact ((h.child (mem_children_of_values hmem)).valueTree hvalue hlast).code_begun false

/-! ## Whole lines -/

/-- Text of whole lines, with something in the first of them. -/
structure Text.WholeLines (s : String) : Prop where
  solid : Solid s
  ended : atLineStart true s.toList = true

theorem Text.Solid.wholeLines {s tail : String} (h : Solid s)
    (htail : ∀ atStart, atLineStart atStart tail.toList = true) : WholeLines (s ++ tail) where
  solid := h.append tail
  ended := atLineStart_behind s htail true

/-- Comment lines are whole lines, if there are any. -/
theorem Text.IsCommentText.wholeLines {s : String} (h : IsCommentText s.toList) :
    s = "" ∨ WholeLines s := by
  have hended := h.ended
  obtain ⟨comments, hcomments, hs⟩ := h
  cases comments with
  | nil => exact Or.inl (String.toList_eq_nil_iff.mp hs)
  | cons line rest =>
    have hsolid : isSolid (line ++ ('\n' :: rest.flatMap (· ++ ['\n']))) = true :=
      (hcomments line List.mem_cons_self).isSolid _
    refine Or.inr ⟨?_, hended⟩
    rw [Solid, hs, List.flatMap_cons, List.append_assoc]
    exact hsolid

/-- Text of whole lines that begins with something besides white space. -/
structure Text.FlushLines (s : String) : Prop where
  begun : Begun s
  ended : atLineStart true s.toList = true

theorem Text.FlushLines.wholeLines {s : String} (h : FlushLines s) : WholeLines s :=
  ⟨h.begun.solid, h.ended⟩

theorem Text.Begun.flushLines {s tail : String} (h : Begun s)
    (htail : ∀ atStart, atLineStart atStart tail.toList = true) : FlushLines (s ++ tail) where
  begun := h.append tail
  ended := atLineStart_behind s htail true

namespace Site.HasBegunValues

open Text (FlushLines)

variable {o : Options} {site : Site} (h : site.HasBegunValues o)
include h

/-- The rules that write values, names and fixed pieces end their text with a semicolon and a line
    feed. -/
theorem plainStatement_ended (hsite : site.HasComposedInputs) {kind : StatementKind}
    (hkind : kind.isPlain = true) :
    Allows o (Pass.Named (some "")) (site.statement kind)
      fun result => ∃ front, result = some (front ++ ";\n") ∧ Begun front := by
  have hinvariant := Pass.isInvariant_named (some "")
  have hsome : ∀ {m : Gen String}, Allows o (Pass.Named (some "")) m
      (fun text => ∃ front, text = front ++ ";\n" ∧ Begun front) →
      Allows o (Pass.Named (some "")) (some <$> m)
        fun result => ∃ front, result = some (front ++ ";\n") ∧ Begun front := by
    intro m hm
    rw [map_eq_pure_bind]
    apply hm.bind
    rintro _ ⟨front, rfl, hfront⟩
    exact Allows.pure ⟨front, rfl, hfront⟩
  -- Every rule begins its text with a name, a value or a fixed piece.
  cases kind with
  | conditional | conditionalElse | function | procedure | returnIf => cases hkind
  | call =>
    apply hsome
    apply (h.expression_begun .call).bind
    exact fun e he => Allows.pure ⟨e.1, rfl, he⟩
  | append =>
    apply hsome
    apply (Gen.variableName_begun _).bind
    intro name hname
    apply ((hsite.textValue_composed "TEXT").allows hinvariant).bind
    intro value _
    exact Allows.pure ⟨_, rfl, (hname.append _).append _⟩
  | print =>
    have hcall : Begun "window.alert(" := by decide
    have hclose : ");\n" = ")" ++ ";\n" := rfl
    apply hsome
    apply ((hsite.textValue_composed "TEXT").allows hinvariant).bind
    intro text _
    rw [hclose, ← String.append_assoc]
    exact Allows.pure ⟨_, rfl, (hcall.append text).append ")"⟩
  | assign | assignDynamic =>
    apply hsome
    apply ((hsite.valueOr_composed "VALUE" .assignment "0").allows hinvariant).bind
    intro value _
    apply (Gen.variableName_begun _).bind
    intro name hname
    exact Allows.pure ⟨_, rfl, (hname.append _).append _⟩

/-- The rules for statements without chains write whole lines, and begin them with
    something besides white space. -/
theorem statement_flushLines (hsite : site.HasComposedInputs) {kind : StatementKind}
    (hkind : kind.writesChains = false) :
    Allows o (Pass.Named (some "")) (site.statement kind)
      fun result => ∃ text, result = some text ∧ FlushLines text := by
  have hinvariant := Pass.isInvariant_named (some "")
  have hplain : kind.isPlain = true → Allows o (Pass.Named (some "")) (site.statement kind)
      fun result => ∃ text, result = some text ∧ FlushLines text := by
    have hlast : ∀ atStart, Text.atLineStart atStart ";\n".toList = true := by decide
    intro hplain
    apply (h.plainStatement_ended hsite hplain).mono
    rintro _ ⟨front, rfl, hfront⟩
    exact ⟨_, rfl, hfront.flushLines hlast⟩
  cases kind with
  | conditional | conditionalElse | function | procedure => cases hkind
  | call | append | print | assign | assignDynamic => exact hplain rfl
  | returnIf =>
    have hif : Begun "if (" := by decide
    have hclose : ∀ atStart, Text.atLineStart atStart "\x7d\n".toList = true := by decide
    rw [Site.statement, map_eq_pure_bind]
    apply Allows.bind ((?_ : Allows o (Pass.Named (some "")) site.returnIf FlushLines))
    · exact fun text htext => Allows.pure ⟨text, rfl, htext⟩
    apply ((hsite.valueOr_composed "CONDITION" .none "false").allows hinvariant).bind
    intro condition _
    apply (site.branchHook_composed.allows hinvariant).bind
    intro hook _
    apply Allows.options.bind
    intro options _
    have hresult : ∀ result, FlushLines ("if (" ++ condition ++ ") \x7b\n" ++ hook ++
        options.indentShown ++ result ++ "\x7d\n") := by
      intro result
      apply Begun.flushLines _ hclose
      iterate 5 apply Begun.append
      exact hif
    dsimp only
    split
    · apply Allows.bind ((hsite.valueOr_composed "VALUE" .none "null").allows hinvariant)
      exact fun value _ => Allows.pure (hresult _)
    · exact Allows.pure (hresult _)

end Site.HasBegunValues

end BlockScript
