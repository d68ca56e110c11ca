/-
  BlockScript.Proofs.Variable.Renaming

  Other ids for the variables of a workspace: the ids of the variables and the fields that hold them
  change, and nothing else does. A pass asks for ids when it names a variable only, so the two passes
  differ in the table of the variables alone, as long as what they ask for means the same in both.
-/
import BlockScript.Proofs.Generate.Heads
import BlockScript.Proofs.Generate.Lockstep

namespace BlockScript

/-! ## Other ids -/

namespace VariableNames

/-- The ids of the variables. -/
def ids (names : VariableNames) : List String :=
  names.map (·.1)

/-- The variables with other ids. -/
def renamed (ρ : String → String) (names : VariableNames) : VariableNames :=
  names.map fun entry => (ρ entry.1, entry.2)

variable {ρ : String → String} {names : VariableNames} {id : String}

/-- A variable is found by its other id, if no two variables come to one id. -/
theorem lookup_renamed (hρ : ∀ i ∈ names.ids, ∀ j ∈ names.ids, ρ i = ρ j → i = j)
    (hid : id ∈ names.ids) : (names.renamed ρ).lookup (ρ id) = names.lookup id := by
  induction names with
  | nil => cases hid
  | cons entry rest ih =>
    obtain ⟨i, name⟩ := entry
    rw [renamed, List.map_cons, List.lookup_cons, List.lookup_cons]
    by_cases hsame : id = i
    · subst hsame
      simp
    · have hrest : id ∈ ids rest := (List.mem_cons.mp hid).resolve_left hsame
      have hother : ρ id ≠ ρ i := fun h => hsame (hρ id hid i List.mem_cons_self h)
      rw [beq_false_of_ne hsame, beq_false_of_ne hother]
      exact ih (fun a ha b hb => hρ a (List.mem_cons_of_mem _ ha) b (List.mem_cons_of_mem _ hb)) hrest

end VariableNames

namespace Table

/-- A table with another id in place of that of the variable. -/
def renamed (ρ : String → String) (table : Table) : Table :=
  table.map fun entry => if entry.1.isText "VAR" then (entry.1, .str (ρ entry.2.shown)) else entry

variable (ρ : String → String) (table : Table)

theorem get?_renamed {name : String} (hname : name ≠ "VAR") :
    (table.renamed ρ).get? name = table.get? name := by
  induction table with
  | nil => rfl
  | cons entry rest ih =>
    rw [get?, get?] at ih ⊢
    rw [renamed, List.map_cons, List.find?_cons, List.find?_cons]
    by_cases hvariable : entry.1.isText "VAR" = true
    · have hother : entry.1.isText name = false := by
        cases hkey : entry.1 with
        | str s =>
          rw [hkey] at hvariable
          obtain rfl : s = "VAR" := of_decide_eq_true hvariable
          exact decide_eq_false hname.symm
        | _ => rfl
      rw [if_pos hvariable]
      simp only [hother]
      exact ih
    · rw [if_neg hvariable]
      cases entry.1.isText name with
      | true => rfl
      | false => exact ih

theorem get?_renamed_variable :
    (table.renamed ρ).get? "VAR" = (table.get? "VAR").map fun value => .str (ρ value.shown) := by
  induction table with
  | nil => rfl
  | cons entry rest ih =>
    rw [get?, get?] at ih ⊢
    rw [renamed, List.map_cons, List.find?_cons, List.find?_cons]
    cases hvariable : entry.1.isText "VAR" with
    | true =>
      rw [if_pos rfl, hvariable]
      rfl
    | false =>
      rw [if_neg Bool.false_ne_true, hvariable]
      exact ih

end Table

/-- The head of a block with another id of its variable. -/
def Head.renamed (ρ : String → String) (head : Head) : Head :=
  { head with fields := head.fields.renamed ρ }

namespace Block

mutual

/-- The block with other ids of the variables on it and on everything that hangs on it. -/
def renamed (ρ : String → String) : Block → Block
  | mk head values statements next =>
    mk (head.renamed ρ) (renamedSlots ρ values) (renamedSlots ρ statements) (renamedLink ρ next)

/-- The slots with other ids in the blocks in them. -/
def renamedSlots (ρ : String → String) : Slots → Slots
  | [] => []
  | (name, link) :: rest => (name, renamedLink ρ link) :: renamedSlots ρ rest

/-- A block with other ids, if there is a block. -/
def renamedLink (ρ : String → String) : Option Block → Option Block
  | none => none
  | some b => some (renamed ρ b)

end

variable (ρ : String → String)

mutual

/-- Other ids of the variables show in the heads of the blocks only. -/
theorem renamed_eq_mapHeads : ∀ b : Block, b.renamed ρ = b.mapHeads (Head.renamed ρ)
  | mk head values statements next => by
    rw [renamed, mapHeads, renamedSlots_eq_mapHeadsSlots values,
      renamedSlots_eq_mapHeadsSlots statements, renamedLink_eq_mapHeadsLink next]

theorem renamedSlots_eq_mapHeadsSlots : ∀ slots : Slots,
    renamedSlots ρ slots = mapHeadsSlots (Head.renamed ρ) slots
  | [] => by rw [renamedSlots, mapHeadsSlots]
  | (name, link) :: rest => by
    rw [renamedSlots, mapHeadsSlots, renamedLink_eq_mapHeadsLink link,
      renamedSlots_eq_mapHeadsSlots rest]

theorem renamedLink_eq_mapHeadsLink : ∀ link : Option Block,
    renamedLink ρ link = mapHeadsLink (Head.renamed ρ) link
  | none => by rw [renamedLink, mapHeadsLink]
  | some b => by rw [renamedLink, mapHeadsLink, renamed_eq_mapHeads b]

end

theorem head_renamed (b : Block) : (b.renamed ρ).head = b.head.renamed ρ := by
  rw [renamed_eq_mapHeads, head_mapHeads]

end Block

/-- Other ids of the variables leave what the rules read. -/
theorem Head.keepsRules_renamed (ρ : String → String) : Head.KeepsRules (Head.renamed ρ) where
  kind _ := rfl
  fields head _ hname := head.fields.get?_renamed ρ hname
  mutation _ := rfl
  comment _ := rfl
  output _ := rfl
  enabled _ := rfl

/-- A workspace with other ids of its variables. -/
def Workspace.renamed (ρ : String → String) (w : Workspace) : Workspace :=
  { w with
    variableNames := w.variableNames.renamed ρ
    blocks := w.blocks.map (Block.renamed ρ) }

/-! ## Passes that differ in the variables -/

namespace NameTable

variable {t : NameTable} {other : VariableNames} {name name' : String} {category : Category}

theorem freeSuffixed_withVariables (t : NameTable) (other : VariableNames) (base : String)
    (fuel suffix : Nat) : { t with variableNames := other }.freeSuffixed base fuel suffix =
      t.freeSuffixed base fuel suffix := by
  induction fuel generalizing suffix with
  | zero => rfl
  | succ fuel ih =>
    rw [freeSuffixed, freeSuffixed, ih]
    rfl

theorem allot_withVariables (t : NameTable) (other : VariableNames) (source : String) :
    { t with variableNames := other }.allot source =
      ((t.allot source).1, { (t.allot source).2 with variableNames := other }) := by
  have hfree : { t with variableNames := other }.freeName (Name.safe source) =
      t.freeName (Name.safe source) := by
    rw [freeName, freeName, freeSuffixed_withVariables]
    rfl
  rw [allot, allot, hfree]

theorem variableNames_name (t : NameTable) (name : String) (category : Category) :
    (t.name name category).table.variableNames = t.variableNames := by
  rw [NameTable.name]
  cases t.memo.lookup (memoKey (t.meant name category) category) with
  | some candidate => rfl
  | none => cases t.prefixFor category <;> rfl

/-- Where two tables differ in the variables only, names that mean the same get the same. -/
theorem name_withVariables
    (hmeant : { t with variableNames := other }.meant name' category = t.meant name category) :
    ({ t with variableNames := other }.name name' category).answer = (t.name name category).answer ∧
    ({ t with variableNames := other }.name name' category).records =
      (t.name name category).records ∧
    ({ t with variableNames := other }.name name' category).table =
      { (t.name name category).table with variableNames := other } := by
  have hlead : { t with variableNames := other }.prefixFor category = t.prefixFor category := by
    cases category <;> rfl
  rw [NameTable.name, NameTable.name, hmeant]
  simp only [hlead, allot_withVariables]
  cases t.memo.lookup (memoKey (t.meant name category) category) with
  | some candidate => exact ⟨rfl, rfl, rfl⟩
  | none => cases t.prefixFor category <;> exact ⟨rfl, rfl, rfl⟩

theorem distinct_withVariables (t : NameTable) (other : VariableNames) (name : String) :
    ({ t with variableNames := other }.distinct name .procedure).answer =
      (t.distinct name .procedure).answer ∧
    ({ t with variableNames := other }.distinct name .procedure).records =
      (t.distinct name .procedure).records ∧
    ({ t with variableNames := other }.distinct name .procedure).table =
      { (t.distinct name .procedure).table with variableNames := other } ∧
    (t.distinct name .procedure).table.variableNames = t.variableNames := by
  rw [distinct, distinct, allot_withVariables]
  exact ⟨rfl, rfl, rfl, rfl⟩

end NameTable

/-- Two passes with the variables of two tables, and the same apart from that. -/
structure Pass.Renames (known other : VariableNames) (p q : Pass) : Prop where
  variableNames : p.names.variableNames = known
  eq : q = p.withNames { p.names with variableNames := other }

namespace Pass

variable {known other : VariableNames} {p q : Pass}

/-- A request for a name that means the same in both. -/
theorem Renames.name (h : p.Renames known other q) {name name' : String} {category : Category}
    (hmeant : q.names.meant name' category = p.names.meant name category) :
    (p.name name category).1 = (q.name name' category).1 ∧
      (p.name name category).2.Renames known other (q.name name' category).2 := by
  obtain ⟨rfl, rfl⟩ := h
  obtain ⟨hanswer, hrecords, htable⟩ := NameTable.name_withVariables hmeant
  refine ⟨hanswer.symm, p.names.variableNames_name name category, ?_⟩
  have hnames : (p.withNames { p.names with variableNames := other }).names =
      { p.names with variableNames := other } := rfl
  rw [Pass.name, Pass.named, hnames, hrecords, htable]
  rfl

theorem Renames.provide (h : p.Renames known other q) (indent : Except Fault String) (name : String)
    (template : List String) :
    (p.provide indent name template).1 = (q.provide indent name template).1 ∧
      (p.provide indent name template).2.Renames known other (q.provide indent name template).2 := by
  obtain ⟨rfl, rfl⟩ := h
  obtain ⟨hanswer, hrecords, htable, hkept⟩ :=
    NameTable.distinct_withVariables p.registry.names other name
  have hregistry : (p.withNames { p.names with variableNames := other }).registry =
      { p.registry with names := { p.registry.names with variableNames := other } } := rfl
  rw [Pass.provide, Pass.provide, hregistry, Registry.provide, Registry.provide]
  cases p.registry.helpers.lookup name with
  | some emitted => exact ⟨rfl, rfl, rfl⟩
  | none =>
    simp only [hanswer, hrecords, htable]
    cases (p.registry.names.distinct name .procedure).answer with
    | error fault => exact ⟨rfl, hkept, rfl⟩
    | ok emitted => cases indent <;> exact ⟨rfl, hkept, rfl⟩

theorem Renames.define (h : p.Renames known other q) (name text : String) :
    (p.define name text).Renames known other (q.define name text) :=
  ⟨h.variableNames, by rw [h.eq]; rfl⟩

/-- Passes that differ in the variables give the same to all steps but those for variables. -/
theorem isAligned_renames : IsAligned (Renames known other) where
  isActive p q h := by rw [h.eq]; rfl
  record p q entry h := ⟨h.variableNames, by rw [h.eq]; rfl⟩
  procedureName p q name h := h.name rfl
  provide p q indent name template h := h.provide indent name template

end Pass

end BlockScript
