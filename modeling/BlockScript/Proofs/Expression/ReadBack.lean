/-
  BlockScript.Proofs.Expression.ReadBack

  The code of blocks of logic reads as the tree that the blocks build, with every name as the pass
  knows it at the end. The level at which code reads goes with its precedence, and the parentheses
  of a slot keep code in it at the level that the operator around it needs.
-/
import BlockScript.Proofs.Expression.OperatorTree
import BlockScript.Proofs.Generate.Logic
import BlockScript.Proofs.Script.Meaning

namespace BlockScript

open Gen (Meets)
open Script (Expr Operator Denotes Joint)

/-! ## Levels -/

namespace Order

/-- The level at which code of a precedence reads. -/
def level : Order → Nat
  | atomic => 0
  | unaryNegation | logicalNot => 1
  | relational => 2
  | equality => 3
  | logicalAnd => 4
  | logicalOr => 5
  | conditional => 6
  | _ => 7

/-- The level at which code in a slot has to read. Chains of one conjunction or disjunction may
    stand in its slots. -/
def slotLevel : Order → Nat
  | logicalNot => 1
  | relational => 1
  | equality => 2
  | logicalAnd => 4
  | logicalOr => 5
  | conditional => 5
  | _ => 7

theorem level_le_seven (order : Order) : order.level ≤ 7 := by
  cases order <;> decide

/-- Code that needs no parentheses in a slot reads at the level of the slot. -/
theorem level_le_slotLevel {outer inner : Order} (h : outer.needsParens inner = false)
    (hinner : inner.level ≤ 6) : inner.level ≤ outer.slotLevel := by
  cases outer with
  | logicalNot | relational | equality | logicalAnd | logicalOr | conditional =>
    cases inner <;> revert h hinner <;> decide
  | _ => exact inner.level_le_seven

end Order

/-- Code reads at the level of a slot behind the parentheses of the slot. -/
theorem Script.Denotes.wrap {text : String} {outer inner : Order} {e : Expr}
    (h : Denotes inner.level text e) (hinner : inner.level ≤ 6) :
    Denotes outer.slotLevel (Order.wrap text outer inner) e := by
  rw [Order.wrap, decide_eq_true h.ne_empty, Bool.true_and]
  cases hparens : outer.needsParens inner with
  | true => exact (h.mono hinner).group _
  | false => exact h.mono (Order.level_le_slotLevel hparens hinner)

/-! ## Steps that keep what is known -/

/-- A pass in progress whose names read as names, and that knows what a table knows. -/
structure Pass.Ready (t : NameTable) (p : Pass) : Prop where
  isActive : p.isActive = true
  legible : p.names.Legible
  known : t.Extends p.names

theorem Pass.Ready.self {t : NameTable} {p : Pass} (hp : p.Ready t) : p.Ready p.names :=
  ⟨hp.isActive, hp.legible, .refl _⟩

theorem Pass.Ready.trans {t : NameTable} {p p' : Pass} (hp : p.Ready t) (hp' : p'.Ready p.names) :
    p'.Ready t :=
  ⟨hp'.isActive, hp'.legible, hp.known.trans hp'.known⟩

namespace Gen

/-- A step does not fail, and its result has a property by every table that knows what the pass
    behind the step knows. -/
def Yields {α : Type} (o : Options) (m : Gen α) (p : Pass) (Q : NameTable → α → Prop) : Prop :=
  Meets o m p fun a p' => p'.Ready p.names ∧ ∀ t, p'.names.Extends t → Q t a

variable {α β : Type} {o : Options} {m : Gen α} {p : Pass} {t₀ : NameTable}
variable {Q Q' : NameTable → α → Prop} {R : NameTable → β → Prop}

namespace Yields

theorem pure {a : α} (hp : p.Ready t₀) (h : ∀ t, p.names.Extends t → Q t a) :
    Yields o (pure a) p Q :=
  Meets.pure ⟨hp.self, h⟩

theorem lift {a : α} (hp : p.Ready t₀) (h : ∀ t, p.names.Extends t → Q t a) :
    Yields o (Gen.lift (.ok a)) p Q :=
  Meets.lift ⟨hp.self, h⟩

/-- What the first step yields is so by every table that is behind the second one. -/
theorem bind {f : α → Gen β} (hm : Yields o m p Q)
    (hf : ∀ a p', p'.Ready p.names → (∀ t, p'.names.Extends t → Q t a) →
      Yields o (f a) p' fun t b => Q t a → R t b) : Yields o (m >>= f) p R := by
  refine Meets.bind hm fun a p' ⟨hready, ha⟩ => (hf a p' hready ha).mono ?_
  rintro b p'' ⟨hready', hb⟩
  refine ⟨hready.trans hready', fun t ht => hb t ht (ha t (hready'.known.trans ht))⟩

theorem mono (hm : Yields o m p Q) (h : ∀ t a, Q t a → Q' t a) : Yields o m p Q' :=
  Meets.mono hm fun a _ ⟨hready, ha⟩ => ⟨hready, fun t ht => h t a (ha t ht)⟩

theorem record (hp : p.Ready t₀) (entry : Record) :
    Yields o (Gen.record entry) p fun _ _ => True :=
  Meets.onPass hp.isActive rfl
    ⟨⟨hp.isActive, hp.legible, .refl p.names⟩, fun _ _ => trivial⟩

theorem requirePass (hp : p.Ready t₀) : Yields o Gen.requirePass p fun _ _ => True :=
  Meets.onPass hp.isActive rfl ⟨hp.self, fun _ _ => trivial⟩

/-- The emitted name of a variable reads as the name by which the variable is known. -/
theorem variableName {name : String} (hp : p.Ready t₀)
    (hname : t₀.meant name .userVariable ∉ constants) :
    Yields o (Gen.variableName name) p fun t text =>
      Denotes 0 text (.name (t.emitted name)) := by
  rw [← NameTable.meant_congr hp.known.variableNames] at hname
  obtain ⟨emitted, hanswer, hisName, hconstant, hlegible, hknows, hextends⟩ := hp.legible.name hname
  refine Meets.onPass hp.isActive hanswer ⟨⟨hp.isActive, hlegible, hextends⟩, ?_⟩
  intro t ht
  have hlead := ht.variablePrefix.trans hlegible.variablePrefix
  rw [(ht.knows name emitted hknows).emitted_eq hlead, ← Script.Expr.ofWord_of_not_mem hconstant]
  exact .word 0 hisName

end Yields

end Gen

open Gen (Yields)

/-! ## Slots -/

/-- Code that reads as a tree at the level of its precedence. -/
def Code.Means (code : Code) (e : Expr) : Prop :=
  ∃ text order, code = .expression text order ∧ order.level ≤ 6 ∧ Denotes order.level text e

/-- A text that reads as a tree, or no text for no tree. -/
def Fills (n : Nat) (text : String) : Option Expr → Prop
  | none => text = ""
  | some e => Denotes n text e

theorem Fills.eq_empty_iff {n : Nat} {text : String} {e? : Option Expr} (h : Fills n text e?) :
    text = "" ↔ e? = none := by
  cases e? with
  | none => exact iff_of_true h rfl
  | some e => exact iff_of_false (Denotes.ne_empty h) (Option.some_ne_none e)

/-- A default in the place of no text reads as the default in the place of no tree. -/
theorem Fills.getD {n : Nat} {text default : String} {e? : Option Expr} {e : Expr}
    (h : Fills n text e?) (hdefault : Denotes n default e) :
    Denotes n (if text = "" then default else text) (e?.getD e) := by
  cases e? with
  | none =>
    rw [if_pos (show text = "" from h)]
    exact hdefault
  | some e' =>
    rw [if_neg (Denotes.ne_empty h)]
    exact h

/-- The tree of the block in a slot. -/
def Block.slotTree (t : NameTable) (slots : Slots) (name : String) : Option Expr :=
  (Block.inSlot slots name).map (Block.operatorTree t.emitted)

section Slots

variable {o : Options} {t₀ : NameTable} {b : Block} {attached : Bool} {p : Pass}

/-- Whether the blocks in slots yield code that reads as their trees. -/
def Block.ReadBack (o : Options) (t₀ : NameTable) (slots : Slots) : Prop :=
  ∀ name c, (name, some c) ∈ slots → ∀ p, p.Ready t₀ →
    Yields o (c.code true false) p fun t code => code.Means (c.operatorTree t.emitted)

/-- A slot gives no code, or code that reads as the tree of its block at the level of the slot. -/
theorem value_yields (hslots : Block.ReadBack o t₀ b.values) (hp : p.Ready t₀) (name : String)
    (outer : Order) :
    Yields o ((b.site attached).value name outer) p fun t text =>
      Fills outer.slotLevel text (Block.slotTree t b.values name) := by
  have hinput : Site.inSlot (b.site attached).values name =
      (Block.inSlot b.values name).map fun c => ⟨c, c.code true false⟩ :=
    Block.inSlot_inputs b.values name
  rw [Site.value, hinput]
  cases hslot : Block.inSlot b.values name with
  | none =>
    refine Yields.pure hp fun t _ => ?_
    rw [Block.slotTree, hslot]
    rfl
  | some c =>
    refine (hslots name c (Block.mem_of_inSlot hslot) p hp).bind fun code p' hp' hcode => ?_
    obtain ⟨text, order, rfl, hlevel, -⟩ := hcode p'.names (.refl _)
    refine Yields.pure hp' fun t _ hmeans => ?_
    obtain ⟨_, _, hsame, -, hdenotes⟩ := hmeans
    obtain ⟨rfl, rfl⟩ := Code.expression.inj hsame
    rw [Block.slotTree, hslot]
    exact hdenotes.wrap hlevel

/-- A slot with a default gives code that reads as the tree of its block or of the default. -/
theorem valueOr_yields (hslots : Block.ReadBack o t₀ b.values) (hp : p.Ready t₀) {name : String}
    {outer : Order} {default : String} {e : Expr} (hdefault : Denotes outer.slotLevel default e) :
    Yields o ((b.site attached).valueOr name outer default) p fun t text =>
      Denotes outer.slotLevel text ((Block.slotTree t b.values name).getD e) := by
  refine (value_yields hslots hp name outer).bind fun text p' hp' htext => ?_
  by_cases hempty : text = ""
  · rw [if_pos hempty]
    refine (Yields.record hp' _).bind fun _ p'' hp'' _ => Yields.pure hp'' fun t _ _ h => ?_
    have h := Fills.getD h hdefault
    rwa [if_pos hempty] at h
  · rw [if_neg hempty]
    refine Yields.pure hp' fun t _ h => ?_
    have h := Fills.getD h hdefault
    rwa [if_neg hempty] at h

end Slots

/-! ## Options -/

namespace Head

variable {α β : Type} {head : Head} {field : String} {table : List (String × α)} {choice : α}

/-- The option of a field by a table with the same names. -/
theorem option?_map (f : α → β) (h : head.option? field table = some choice) :
    head.option? field (table.map fun entry => (entry.1, f entry.2)) = some (f choice) := by
  rw [option?] at h ⊢
  split at h
  · rename_i name hname
    obtain ⟨before, after, rfl, hbefore⟩ := List.lookup_eq_some_iff.mp h
    refine List.lookup_eq_some_iff.mpr ⟨_, _, List.map_append, ?_⟩
    intro entry hentry
    obtain ⟨entry', hentry', rfl⟩ := List.mem_map.mp hentry
    exact hbefore entry' hentry'
  · cases h

theorem mem_of_option? (h : head.option? field table = some choice) :
    ∃ name, (name, choice) ∈ table := by
  rw [option?] at h
  split at h
  · exact ⟨_, NameTable.mem_of_lookup_eq_some h⟩
  · cases h

end Head

namespace Site

variable {α : Type} {site : Site} {field : String} {table : List (String × α)} {choice : α}

theorem optionIn_eq_ok (h : site.head.option? field table = some choice) :
    site.optionIn field table = .ok choice := by
  rw [Head.option?] at h
  split at h
  · rename_i name hname
    rw [optionIn, hname]
    simp only [h]
    rfl
  · cases h

theorem optionAmong_eq_ok (h : site.head.option? field table = some choice) :
    site.optionAmong field table = .ok choice := by
  rw [Head.option?] at h
  split at h
  · rename_i name hname
    obtain ⟨before, after, rfl, hbefore⟩ := List.lookup_eq_some_iff.mp h
    have hfind : (before ++ (name, choice) :: after).find?
        (fun entry => (site.head.field field).isText entry.1) = some (name, choice) := by
      rw [List.find?_eq_some_iff_append]
      refine ⟨by simp [hname, Json.isText], before, after, rfl, ?_⟩
      intro entry hentry
      simpa [hname, Json.isText, bne] using hbefore entry hentry
    rw [optionAmong, hfind]
    rfl
  · cases h

end Site

/-! ## Texts of nodes -/

/-- The text of an operator. -/
def Script.Operator.text : Operator → String
  | .less => "<"
  | .lessEqual => "<="
  | .greater => ">"
  | .greaterEqual => ">="
  | .equal => "=="
  | .notEqual => "!="
  | .and => "&&"
  | .or => "||"

/-- The precedence of a junction. -/
def junctionOrder (op : Operator) : Order :=
  if op = .and then .logicalAnd else .logicalOr

/-- The text of the operand of a junction that changes nothing. -/
def identityText (op : Operator) : String :=
  if op = .and then "true" else "false"

theorem joint_text (op : Operator) : Joint op.symbol (" " ++ op.text ++ " ") := by
  cases op <;> decide

theorem denotes_truth (n : Nat) (value : Bool) : Denotes n (toString value) (.truth value) := by
  cases value
  · exact .word n (s := "false") (by decide)
  · exact .word n (s := "true") (by decide)

theorem denotes_null (n : Nat) : Denotes n "null" .null :=
  .word n (s := "null") (by decide)

theorem denotes_zero (n : Nat) : Denotes n "0" (.numeral "0") :=
  .numeral n 0

theorem denotes_identity (n : Nat) (op : Operator) :
    Denotes n (identityText op) (LogicNode.identity op) := by
  rw [identityText, LogicNode.identity]
  by_cases hop : op = .and
  · rw [if_pos hop, decide_eq_true hop]
    exact denotes_truth n true
  · rw [if_neg hop, decide_eq_false hop]
    exact denotes_truth n false

/-- An integer reads as its numeral, behind a sign if it is negative. -/
theorem denotes_integer (n : Int) :
    Denotes (if 0 ≤ n then 0 else 1) (toString n) (LogicNode.integerTree n) := by
  cases n with
  | ofNat k => exact .numeral 0 k
  | negSucc k => exact (Denotes.numeral 1 (k + 1)).minus

/-! ## Rules -/

/-- An expression that reads as a tree at the level of its precedence. -/
structure ReadsAs (expression : Expression) (e : Expr) : Prop where
  level : expression.2.level ≤ 6
  denotes : Denotes expression.2.level expression.1 e

theorem ReadsAs.of_level {text : String} {order : Order} {n : Nat} {e : Expr}
    (horder : order.level = n) (hn : n ≤ 6) (h : Denotes n text e) : ReadsAs (text, order) e := by
  subst horder
  exact ⟨hn, h⟩

section Rules

variable {o : Options} {t₀ : NameTable} {b : Block} {attached : Bool} {p : Pass}

/-- The tree of a node with the blocks in slots. -/
def LogicNode.treeIn (node : LogicNode) (slots : Slots) (t : NameTable) : Expr :=
  node.tree t.emitted (Block.slotTree t slots)

theorem compare_yields (hslots : Block.ReadBack o t₀ b.values) (hp : p.Ready t₀) {op : Operator}
    (hop : b.head.option? "OP" LogicNode.comparisons = some op) :
    Yields o (b.site attached).compare p fun t e =>
      ReadsAs e ((LogicNode.compare op).treeIn b.values t) := by
  have hoption : (b.site attached).optionIn "OP" Site.comparisons = .ok op.text :=
    Site.optionIn_eq_ok (Head.option?_map Operator.text hop)
  have horder : (Site.comparisonOrder op.text).level = op.level ∧
      (Site.comparisonOrder op.text).slotLevel = op.level - 1 := by
    obtain ⟨name, hmem⟩ := Head.mem_of_option? hop
    simp only [LogicNode.comparisons, List.mem_cons, Prod.mk.injEq, List.not_mem_nil,
      or_false] at hmem
    rcases hmem with ⟨-, rfl⟩ | ⟨-, rfl⟩ | ⟨-, rfl⟩ | ⟨-, rfl⟩ | ⟨-, rfl⟩ | ⟨-, rfl⟩ <;> decide
  have hlevel := op.level_le_five
  rw [Site.compare, hoption]
  refine (Yields.lift (Q := fun _ operator => operator = op.text) hp fun _ _ => rfl).bind
    fun operator p₁ hp₁ hoperator => ?_
  obtain rfl := hoperator p₁.names (.refl _)
  have hp₁ := hp.trans hp₁
  refine (valueOr_yields hslots hp₁ (denotes_zero _)).bind fun left p₂ hp₂ _ => ?_
  have hp₂ := hp₁.trans hp₂
  refine (valueOr_yields hslots hp₂ (denotes_zero _)).bind fun right p₃ hp₃ _ => ?_
  refine Yields.pure hp₃ fun t _ hright hleft _ => ?_
  rw [horder.2] at hleft hright
  have h := Denotes.binary (joint_text op) (hleft.mono (Nat.sub_le _ _)) hright
  have htext : left ++ " " ++ op.text ++ " " ++ right = left ++ (" " ++ op.text ++ " ") ++ right := by
    simp only [String.append_assoc]
  rw [htext]
  exact .of_level horder.1 (by omega) h

/-- What the rule for junctions needs of its option. -/
theorem junction_option (site : Site) {op : Operator}
    (hop : site.head.option? "OP" LogicNode.junctions = some op) :
    site.optionAmong "OP" Site.junctions = .ok (op.text, junctionOrder op, identityText op) ∧
      (op = .and ∨ op = .or) := by
  constructor
  · exact Site.optionAmong_eq_ok (Head.option?_map
      (fun op : Operator => (op.text, junctionOrder op, identityText op)) hop)
  · obtain ⟨name, hmem⟩ := Head.mem_of_option? hop
    simp only [LogicNode.junctions, List.mem_cons, Prod.mk.injEq, List.not_mem_nil,
      or_false] at hmem
    rcases hmem with ⟨-, rfl⟩ | ⟨-, rfl⟩
    · exact Or.inl rfl
    · exact Or.inr rfl

theorem junction_yields (hslots : Block.ReadBack o t₀ b.values) (hp : p.Ready t₀) {op : Operator}
    (hop : b.head.option? "OP" LogicNode.junctions = some op) :
    Yields o (b.site attached).junction p fun t e =>
      ReadsAs e ((LogicNode.junction op).treeIn b.values t) := by
  obtain ⟨hoption, hjunction⟩ := junction_option (b.site attached) hop
  have horder : (junctionOrder op).level = op.level ∧ (junctionOrder op).slotLevel = op.level := by
    rcases hjunction with rfl | rfl <;> decide
  have hlevel := op.level_le_five
  rw [Site.junction, hoption]
  refine (Yields.lift (Q := fun _ choice => choice = (op.text, junctionOrder op, identityText op))
    hp fun _ _ => rfl).bind fun choice p₁ hp₁ hchoice => ?_
  obtain rfl := hchoice p₁.names (.refl _)
  have hp₁ := hp.trans hp₁
  refine (value_yields hslots hp₁ "A" (junctionOrder op)).bind fun left p₂ hp₂ _ => ?_
  have hp₂ := hp₁.trans hp₂
  refine (value_yields hslots hp₂ "B" (junctionOrder op)).bind fun right p₃ hp₃ _ => ?_
  refine Yields.pure hp₃ fun t _ hright hleft _ => ?_
  rw [horder.2] at hleft hright
  -- Both slots have the default that goes with what is missing.
  have hmissing : Denotes op.level
      (if left = "" && right = "" then "false" else identityText op)
      (if Block.slotTree t b.values "A" = none ∧ Block.slotTree t b.values "B" = none then
        .truth false else LogicNode.identity op) := by
    by_cases hboth : left = "" ∧ right = ""
    · rw [if_pos (by simp [hboth.1, hboth.2]),
        if_pos ⟨hleft.eq_empty_iff.mp hboth.1, hright.eq_empty_iff.mp hboth.2⟩]
      exact denotes_truth _ false
    · rw [if_neg (by simpa using hboth), if_neg (by
        rwa [← hleft.eq_empty_iff, ← hright.eq_empty_iff])]
      exact denotes_identity _ op
  have h := Denotes.chain hjunction (joint_text op) (hleft.getD hmissing) (hright.getD hmissing)
  refine .of_level horder.1 (by omega) ?_
  show Denotes op.level _ (.binary op _ _)
  simpa only [String.append_assoc] using h

theorem negate_yields (hslots : Block.ReadBack o t₀ b.values) (hp : p.Ready t₀) :
    Yields o (b.site attached).negate p fun t e =>
      ReadsAs e (LogicNode.negate.treeIn b.values t) := by
  rw [Site.negate]
  refine (valueOr_yields hslots hp (denotes_truth _ true)).bind fun operand p' hp' _ => ?_
  exact Yields.pure hp' fun t _ h => .of_level rfl (by decide) (Denotes.not h)

theorem ternary_yields (hslots : Block.ReadBack o t₀ b.values) (hp : p.Ready t₀) :
    Yields o (b.site attached).ternary p fun t e =>
      ReadsAs e (LogicNode.choice.treeIn b.values t) := by
  have hquestion : Joint .question " ? " := by decide
  have hcolon : Joint .colon " : " := by decide
  rw [Site.ternary]
  refine (valueOr_yields hslots hp (denotes_truth _ false)).bind fun condition p₁ hp₁ _ => ?_
  have hp₁ := hp.trans hp₁
  refine (valueOr_yields hslots hp₁ (denotes_null _)).bind fun yes p₂ hp₂ _ => ?_
  have hp₂ := hp₁.trans hp₂
  refine (valueOr_yields hslots hp₂ (denotes_null _)).bind fun no p₃ hp₃ _ => ?_
  refine Yields.pure hp₃ fun t _ hno hyes hcondition => ?_
  have h := Denotes.choice hquestion hcolon hcondition (hyes.mono (by decide))
    (hno.mono (by decide))
  have htext : condition ++ " ? " ++ yes ++ " : " ++ no =
      condition ++ " ? " ++ (yes ++ " : " ++ no) := by
    simp only [String.append_assoc]
  rw [htext]
  exact .of_level rfl (Nat.le_refl 6) h

theorem boolean_yields (hp : p.Ready t₀) {value : Bool}
    (hvalue : b.head.option? "BOOL" LogicNode.truths = some value) :
    Yields o (b.site attached).boolean p fun _ e => ReadsAs e (.truth value) := by
  have hoption : (b.site attached).optionAmong "BOOL" [("TRUE", "true"), ("FALSE", "false")] =
      .ok (toString value) :=
    Site.optionAmong_eq_ok (Head.option?_map (toString : Bool → String) hvalue)
  rw [Site.boolean, hoption]
  refine (Yields.lift (Q := fun _ name => name = toString value) hp fun _ _ => rfl).bind
    fun name p' hp' _ => Yields.pure hp' fun t _ hname => ?_
  exact .of_level rfl (by decide) (hname ▸ denotes_truth 0 value)

theorem number_yields (hp : p.Ready t₀) {n : Int}
    (hn : Site.numberOf ((b.head.fields.get? "NUM").getD (.num (.int 0))) = .ok (.int n)) :
    Yields o (b.site attached).number p fun _ e => ReadsAs e (LogicNode.integerTree n) := by
  have hrule : (b.site attached).number =
      pure (toString n, if 0 ≤ n then .atomic else .unaryNegation) := by
    have hvalue : Site.numberOf (((b.site attached).head.fields.get? "NUM").getD (.num (.int 0))) =
        .ok (.int n) := hn
    rw [Site.number, hvalue]
    simp [Number.numeral, Number.isNonneg]
  have h := denotes_integer n
  rw [hrule]
  refine Yields.pure hp fun _ _ => ?_
  by_cases hsign : 0 ≤ n
  · rw [if_pos hsign] at h ⊢
    exact .of_level rfl (by decide) h
  · rw [if_neg hsign] at h ⊢
    exact .of_level rfl (by decide) h

theorem getVariable_yields (hp : p.Ready t₀)
    (hname : t₀.meant (b.head.field "VAR").shown .userVariable ∉ constants) :
    Yields o (b.site attached).getVariable p fun t e =>
      ReadsAs e (.name (t.emitted (b.head.field "VAR").shown)) := by
  rw [Site.getVariable]
  refine (Yields.variableName hp hname).bind fun text p' hp' _ => Yields.pure hp' fun t _ h => ?_
  exact .of_level rfl (by decide) h

/-- The rule for a block of logic gives an expression that reads as its tree. -/
theorem expression_yields (attached : Bool) (hslots : Block.ReadBack o t₀ b.values)
    (hp : p.Ready t₀) {node : LogicNode} (hnode : b.head.logicNode? = some node)
    (hname : ∀ name, node = .named name → t₀.meant name .userVariable ∉ constants) :
    ∃ kind, b.kind = .value kind ∧ Yields o ((b.site attached).expression kind) p fun t e =>
      ReadsAs e (node.treeIn b.values t) := by
  rw [Head.logicNode?] at hnode
  split at hnode
  · rename_i hkind
    obtain ⟨op, hop, rfl⟩ := Option.map_eq_some_iff.mp hnode
    exact ⟨_, hkind, compare_yields hslots hp hop⟩
  · rename_i hkind
    obtain ⟨op, hop, rfl⟩ := Option.map_eq_some_iff.mp hnode
    exact ⟨_, hkind, junction_yields hslots hp hop⟩
  · rename_i hkind
    obtain rfl := Option.some.inj hnode
    exact ⟨_, hkind, negate_yields hslots hp⟩
  · rename_i hkind
    obtain ⟨value, hvalue, rfl⟩ := Option.map_eq_some_iff.mp hnode
    exact ⟨_, hkind, boolean_yields hp hvalue⟩
  · rename_i hkind
    obtain rfl := Option.some.inj hnode
    exact ⟨_, hkind, Yields.pure hp fun _ _ => .of_level rfl (by decide) (denotes_null 0)⟩
  · rename_i hkind
    obtain rfl := Option.some.inj hnode
    exact ⟨_, hkind, ternary_yields hslots hp⟩
  · rename_i hkind
    split at hnode
    · rename_i n hn
      obtain rfl := Option.some.inj hnode
      exact ⟨_, hkind, number_yields hp hn⟩
    · cases hnode
  · rename_i hkind
    obtain rfl := Option.some.inj hnode
    exact ⟨_, hkind, getVariable_yields hp (hname _ rfl)⟩
  · cases hnode

end Rules

/-! ## Blocks -/

/-- The code of a tree of logic reads as the tree that it builds. -/
theorem Block.LogicTree.code_yields {o : Options} {t₀ : NameTable} {b : Block}
    (h : b.LogicTree t₀) : ∀ (attached alone : Bool) (p : Pass), p.Ready t₀ →
      Yields o (b.code attached alone) p fun t code => code.Means (b.operatorTree t.emitted) := by
  induction h with
  | @mk head values node henabled houtput hcomment hnode hname hvalues ih =>
    intro attached alone p hp
    let b := Block.mk head values [] none
    have hslots : Block.ReadBack o t₀ b.values := fun name c hc => ih name c hc true false
    have hcomments : (b.site attached).comments = pure "" :=
      Site.comments_eq_pure (Block.LogicTree.nestedComments
        (.mk henabled houtput hcomment hnode hname hvalues)) attached
    have htree : ∀ t : NameTable, b.operatorTree t.emitted = node.treeIn b.values t := by
      intro t
      have hslot : (fun name => ((Block.operands t.emitted values).lookup name).join) =
          Block.slotTree t values :=
        funext fun name => Block.lookup_operands t.emitted values name
      rw [Block.operatorTree, hnode, hslot]
      rfl
    have hrule : ∀ p₁ : Pass, p₁.Ready t₀ → Yields o (b.site attached).rule p₁ fun t result =>
        ∃ e, result = some (.expression e.1 e.2) ∧ ReadsAs e (b.operatorTree t.emitted) := by
      intro p₁ hp₁
      obtain ⟨kind, hkind, hexpression⟩ := expression_yields attached hslots hp₁ hnode hname
      rw [Site.rule, show (b.site attached).kind = .value kind from hkind]
      refine hexpression.bind fun e p₂ hp₂ _ => Yields.pure hp₂ fun t _ h => ?_
      exact ⟨e, rfl, htree t ▸ h⟩
    rw [Block.code_eq_site_code, Site.code]
    refine (Yields.requirePass hp).bind fun _ p₁ hp₁ _ => ?_
    rw [show (b.site attached).head.enabled = true from henabled]
    refine (hrule p₁ (hp.trans hp₁)).bind fun result p₂ hp₂ hresult => ?_
    obtain ⟨e, rfl, -⟩ := hresult p₂.names (.refl _)
    show Yields o ((b.site attached).finished alone (some (.expression e.1 e.2))) p₂ _
    rw [Site.finished_eq_pure (b.site attached) houtput rfl hcomments alone]
    refine Yields.pure hp₂ fun t _ h _ => ?_
    obtain ⟨e', hsame, hreads⟩ := h
    exact ⟨e'.1, e'.2, Option.some.inj hsame, hreads.level, hreads.denotes⟩

/-- A pass that has begun over legible names is ready. -/
theorem Pass.ready_start {names : NameTable} (h : names.variablePrefix? = some "")
    (variableNames : VariableNames) :
    (Pass.start names variableNames).Ready (Pass.start names variableNames).names := by
  refine ⟨rfl, ⟨h, fun _ hentry => absurd hentry List.not_mem_nil, ?_⟩, .refl _⟩
  intro source candidate hlookup
  cases hlookup

/-- A tree of logic yields code, whatever the settings. The code has one tree by the grammar of
    expressions: the one that the blocks build, with the names that variables have behind the step,
    up to the grouping of chains of one conjunction or disjunction. So both have one value. -/
theorem code_reads_back {o : Options} {p : Pass} {b : Block} (hp : p.isActive = true)
    (hnames : p.names.Legible) (hb : b.LogicTree p.names) (attached alone : Bool) :
    ∃ text order p', b.code attached alone o p = .ok (.expression text order) p' ∧
      Script.Closed text ∧
      ∃ e, (∀ e', Script.Reads 6 (Script.tokens text) e' ↔ e' = e) ∧
        Script.Regrouped e (b.operatorTree p'.names.emitted) ∧
        ∀ (V : Type) (v : Script.Values V), v.eval e = v.eval (b.operatorTree p'.names.emitted) := by
  have hready : p.Ready p.names := ⟨hp, hnames, .refl _⟩
  obtain ⟨code, p', hrun, -, hcode⟩ := hb.code_yields (o := o) attached alone p hready
  obtain ⟨text, order, rfl, hlevel, hdenotes⟩ := hcode p'.names (.refl _)
  obtain ⟨e, hreads, hsame⟩ := hdenotes.reads
  refine ⟨text, order, p', hrun, hdenotes.whole.closed, e, ?_, hsame, fun V v => hsame.eval_eq v⟩
  intro e'
  constructor
  · exact fun h => h.unique hreads rfl
  · rintro rfl
    exact hreads.mono hlevel

/-- A conjunction of a variable and a conjunction of a comparison with a negative number and an empty
    slot. -/
def nestedConjunction : Block :=
  let head (kind : ValueKind) (id : String) (fields : List (Json × Json)) : Head :=
    ⟨.value kind, id, fields, .null, .bool true, true, []⟩
  .mk (head .junction "outer" [(.str "OP", .str "AND")])
    [("A", some (.mk (head .getVariable "items" [(.str "VAR", .str "item list")]) [] [] none)),
      ("B", some (.mk (head .junction "inner" [(.str "OP", .str "AND")])
        [("A", some (.mk (head .compare "less" [(.str "OP", .str "LT")])
          [("B", some (.mk (head .number "number" [(.str "NUM", .num (.int (-5)))]) [] [] none))]
          [] none)), ("B", none)] [] none))] [] none

theorem logicTree_nestedConjunction {t : NameTable} (ht : t.variableNames = []) :
    nestedConjunction.LogicTree t := by
  have hconstant : t.meant "item list" .userVariable ∉ constants := by
    rw [NameTable.meant, ht]
    decide
  have hunnamed : ∀ {node : LogicNode}, (∀ name, node ≠ .named name) →
      ∀ name, node = .named name → t.meant name .userVariable ∉ constants :=
    fun hne name h => absurd h (hne name)
  refine .mk rfl rfl rfl rfl (hunnamed fun _ => LogicNode.noConfusion) ?_
  simp only [List.mem_cons, Prod.mk.injEq, Option.some.injEq, List.not_mem_nil, or_false]
  rintro name c (⟨-, rfl⟩ | ⟨-, rfl⟩)
  · refine .mk rfl rfl rfl rfl ?_ fun _ _ h => absurd h List.not_mem_nil
    rintro name hname
    rwa [← LogicNode.named.inj hname]
  · refine .mk rfl rfl rfl rfl (hunnamed fun _ => LogicNode.noConfusion) ?_
    simp only [List.mem_cons, Prod.mk.injEq, Option.some.injEq, List.not_mem_nil, or_false]
    rintro name c (⟨-, rfl⟩ | ⟨-, h⟩)
    · refine .mk rfl rfl rfl rfl (hunnamed fun _ => LogicNode.noConfusion) ?_
      simp only [List.mem_cons, Prod.mk.injEq, Option.some.injEq, List.not_mem_nil, or_false]
      rintro name c ⟨-, rfl⟩
      exact .mk rfl rfl rfl rfl (hunnamed fun _ => LogicNode.noConfusion) fun _ _ h =>
        absurd h List.not_mem_nil
    · cases h

theorem code_nestedConjunction :
    ∃ q, nestedConjunction.code true true .default (.start (.new reservedWords (some "")) []) =
      .ok (.expression "item_list && 0 < -5 && true" .logicalAnd) q ∧
      q.names.emitted "item list" = "item_list" :=
  ⟨_, rfl, rfl⟩

theorem code_reads_back_nestedConjunction :
    ∃ e, (∀ e', Script.Reads 6 (Script.tokens "item_list && 0 < -5 && true") e' ↔ e' = e) ∧
      Script.Regrouped e (.binary .and (.name "item_list")
        (.binary .and (.binary .less (.numeral "0") (.signed .minus (.numeral "5"))) (.truth true))) := by
  let p := Pass.start (.new reservedWords (some "")) []
  have hready : p.Ready p.names := Pass.ready_start rfl []
  obtain ⟨text, order, p', hrun, -, e, hunique, hsame, -⟩ := code_reads_back (o := Options.default)
    hready.isActive hready.legible (logicTree_nestedConjunction rfl) true true
  obtain ⟨q, hcode, hemitted⟩ := code_nestedConjunction
  have htree : nestedConjunction.operatorTree q.names.emitted =
      .binary .and (.name (q.names.emitted "item list"))
        (.binary .and (.binary .less (.numeral "0") (.signed .minus (.numeral "5")))
          (.truth true)) := rfl
  rw [hcode] at hrun
  obtain ⟨hexpression, rfl⟩ := EStateM.Result.ok.inj hrun
  obtain ⟨rfl, rfl⟩ := Code.expression.inj hexpression
  rw [htree, hemitted] at hsame
  exact ⟨e, hunique, hsame⟩

end BlockScript
