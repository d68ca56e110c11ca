/-
  BlockScript.Proofs.Generate.Placed

  Trees in which every block stands where its kind belongs: values in value slots, with nothing behind
  them, and statements in chains. The code of a statement in such a tree is text of statements, also
  where blocks of the chain are passed over.
-/
import BlockScript.Proofs.Literal.Placement

namespace BlockScript

/-- A block that yields a value if and only if its kind does, with values that nothing follows in its
    value slots and statements in its chains. -/
structure Block.IsPlaced (b : Block) : Prop where
  output : b.head.output = .bool b.kind.isValue
  values : ∀ c ∈ connected b.values, c.kind.isValue = true ∧ c.next = none
  statements : ∀ c ∈ connected b.statements, c.kind.isValue = false
  next : ∀ c, b.next = some c → c.kind.isValue = false

/-- A block that is placed, as everything that hangs on it. -/
def Block.IsPlacedTree (b : Block) : Prop :=
  ∀ c, Within c b → c.IsPlaced

/-- Text of statements, or no code as that of a procedure. -/
def Code.IsText : Option Code → Prop
  | none | some (.statement _) => True
  | some (.expression _ _) => False

namespace Block

theorem IsPlaced.hasOutput {b : Block} (h : b.IsPlaced) : b.head.hasOutput = b.kind.isValue := by
  rw [Head.hasOutput, h.output]
  rfl

theorem IsPlacedTree.isPlaced {b : Block} (h : b.IsPlacedTree) : b.IsPlaced :=
  h b .self

theorem IsPlacedTree.child {b c : Block} (h : b.IsPlacedTree) (hc : c ∈ b.children) :
    c.IsPlacedTree :=
  fun d hd => h d (.child hc hd)

/-- A placed tree is put together from placed trees. -/
theorem isPlacedTree_mk {head : Head} {values statements : Slots} {next : Option Block}
    (houtput : head.output = .bool head.kind.isValue)
    (hvalues : ∀ c ∈ connected values, c.kind.isValue = true ∧ c.next = none ∧ c.IsPlacedTree)
    (hstatements : ∀ c ∈ connected statements, c.kind.isValue = false ∧ c.IsPlacedTree)
    (hnext : ∀ c ∈ next, c.kind.isValue = false ∧ c.IsPlacedTree) :
    (mk head values statements next).IsPlacedTree := by
  apply forall_within_of_children
  case hself =>
    exact ⟨houtput, fun c hc => ⟨(hvalues c hc).1, (hvalues c hc).2.1⟩,
      fun c hc => (hstatements c hc).1, fun c hc => (hnext c hc).1⟩
  case hchildren =>
    exact forall_children_mk (fun c hc => (hvalues c hc).2.2) (fun c hc => (hstatements c hc).2)
      fun c hc => (hnext c hc).2

/-! ## Trees of values -/

theorem mem_children_of_values {b c : Block} (h : c ∈ connected b.values) : c ∈ b.children :=
  List.mem_append_left _ (List.mem_append_left _ h)

theorem mem_children_of_statements {b c : Block} (h : c ∈ connected b.statements) :
    c ∈ b.children :=
  List.mem_append_left _ (List.mem_append_right _ h)

/-- A value that nothing follows is a tree of values. -/
theorem IsPlacedTree.valueTree {b : Block} (h : b.IsPlacedTree) (hkind : b.kind.isValue = true)
    (hnext : b.next = none) : b.ValueTree := by
  induction b using forall_of_children with
  | h b ih =>
    have hvalues := h.isPlaced.values
    obtain ⟨head, values, statements, next⟩ := b
    obtain rfl : next = none := hnext
    change head.kind.isValue = true at hkind
    cases hhead : head.kind with
    | statement kind =>
      rw [hhead] at hkind
      cases hkind
    | value kind =>
      refine .mk hhead fun name c hc => ?_
      have hmem : c ∈ connected values := List.mem_filterMap.mpr ⟨(name, some c), hc, rfl⟩
      have hchild : c ∈ (mk head values statements none).children := mem_children_of_values hmem
      exact ih c hchild (h.child hchild) (hvalues c hmem).1 (hvalues c hmem).2

/-! ## Chains -/

/-- The code of a chain; none has no code. -/
def linkCode (attached : Bool) : Option Block → Gen Code
  | none => pure (.statement "")
  | some b => b.code attached false

/-- What follows a block is a chain that is attached to it. -/
theorem nextCode_site (b : Block) (attached : Bool) :
    (b.site attached).nextCode = linkCode true b.next := by
  obtain ⟨head, values, statements, next⟩ := b
  cases next <;> rfl

/-! ## Code of statements -/

variable {o : Options}

theorem rule_allows_text {b : Block} (hkind : b.kind.isValue = false) (attached : Bool) :
    Gen.Allows o (fun _ => True) (b.site attached).rule Code.IsText := by
  have hsite : (b.site attached).kind = b.kind := rfl
  rw [Site.rule, hsite]
  cases hb : b.kind with
  | value kind =>
    rw [hb] at hkind
    cases hkind
  | statement kind =>
    apply (Gen.Allows.unknown _).bind
    rintro (_ | text) - <;> exact .pure trivial

/-- The code of a statement in a placed tree is text. -/
theorem code_allows_statement {b : Block} (h : b.IsPlacedTree) (hkind : b.kind.isValue = false)
    (attached alone : Bool) :
    Gen.Allows o (fun _ => True) (b.code attached alone) fun code => ∃ text, code = .statement text := by
  induction b using forall_of_children generalizing attached alone with
  | h b ih =>
    rw [code_eq_site_code]
    apply Site.code_allows
    case hskip =>
      intro _
      apply (Gen.Allows.unknown _).bind
      intro _ _
      split
      · exact .pure ⟨"", rfl⟩
      · -- The block that follows is a statement as well.
        rw [nextCode_site]
        cases hnext : b.next with
        | none => exact .pure ⟨"", rfl⟩
        | some c =>
          have hchild := mem_children_of_next hnext
          exact ih c hchild (h.child hchild) (h.isPlaced.next c hnext) true false
    case hrule => exact rule_allows_text hkind attached
    case hfinish =>
      rintro (_ | text | ⟨text, order⟩) hresult
      · exact .pure ⟨"", rfl⟩
      · apply (Gen.Allows.unknown _).bind
        intro text _
        exact (Gen.Allows.unknown _).bind fun text _ => .pure ⟨text, rfl⟩
      · exact hresult.elim

end Block

end BlockScript
