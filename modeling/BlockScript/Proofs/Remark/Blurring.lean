/-
  BlockScript.Proofs.Remark.Blurring

  Blocks that are the same but for the wording of comments. Comments are blurred: of a text it is left
  whether there is anything in it. Blocks that are the same where their comments are blurred have as
  many comments, in the same places, and the same values.
-/
import BlockScript.Proofs.Remark.Cargo
import BlockScript.Proofs.Remark.Collection

namespace BlockScript

open Gen (Agree Conveys)
open Text (Retold)

/-! ## Blurred comments -/

/-- A comment without its wording; a text stays one, and an empty text stays empty. -/
def Json.blurred : Json → Json
  | .str text => .str (if text = "" then "" else "…")
  | comment => comment

/-- The head of a block with its comment blurred. -/
def Head.blurred (head : Head) : Head :=
  { head with comment := head.comment.blurred }

/-- The block with the comments of everything that hangs on it blurred. -/
def Block.blurred (b : Block) : Block :=
  b.mapHeads Head.blurred

theorem Head.recomments_blurred : Head.Recomments Head.blurred :=
  fun _ => rfl

namespace Json

theorem isTruthy_blurred (comment : Json) : comment.blurred.isTruthy = comment.isTruthy := by
  cases comment with
  | str text => by_cases htext : text = "" <;> simp [blurred, isTruthy, htext]
  | null | bool | num | arr | obj => rfl

theorem isSome_remark_blurred (comment : Json) :
    comment.blurred.remark?.isSome = comment.remark?.isSome := by
  cases comment with
  | str text => by_cases htext : text = "" <;> simp [blurred, remark?, htext]
  | null | bool | num | arr | obj => rfl

theorem isRemark_blurred (comment : Json) : comment.blurred.isRemark = comment.isRemark := by
  rw [isRemark, isRemark, isSome_remark_blurred, isTruthy_blurred]

end Json

namespace Block

/-! ### Blurred trees -/

theorem head_blurred (b : Block) : b.blurred.head = b.head.blurred :=
  b.head_mapHeads _

theorem length_nestedRemarks_blurred (b : Block) :
    b.blurred.nestedRemarks.length = b.nestedRemarks.length := by
  rw [nestedRemarks, nestedRemarks, blurred, nested_mapHeads, List.filterMap_map,
    List.length_filterMap_eq_countP, List.length_filterMap_eq_countP]
  simp only [Function.comp_apply, head_mapHeads]
  simp only [Head.blurred, Json.isSome_remark_blurred]

theorem all_isRemark_blurred (b : Block) :
    b.blurred.nested.all (·.head.comment.isRemark) = b.nested.all (·.head.comment.isRemark) := by
  rw [blurred, nested_mapHeads, List.all_map]
  simp only [Function.comp_def, head_mapHeads]
  simp only [Head.blurred, Json.isRemark_blurred]

theorem connected_mapHeadsSlots (f : Head → Head) (slots : Slots) :
    connected (mapHeadsSlots f slots) = (connected slots).map (mapHeads f) := by
  rw [mapHeadsSlots_eq_map, connected, connected, List.filterMap_map, List.map_filterMap]
  rfl

theorem children_mapHeads (f : Head → Head) (b : Block) :
    (b.mapHeads f).children = b.children.map (mapHeads f) := by
  rw [children, children, values_mapHeads, statements_mapHeads, next_mapHeads,
    connected_mapHeadsSlots, connected_mapHeadsSlots, List.map_append, List.map_append]
  cases b.next <;> rfl

mutual

theorem standing_mapHeads (f : Head → Head) : ∀ b : Block,
    (b.mapHeads f).standing = b.standing.map (mapHeads f)
  | mk head values statements next => by
    rw [mapHeads, standing, standing, standingInSlots_mapHeadsSlots f statements,
      standingInLink_mapHeadsLink f next, List.map_cons, List.map_append, mapHeads]

theorem standingInSlots_mapHeadsSlots (f : Head → Head) : ∀ slots : Slots,
    standingInSlots (mapHeadsSlots f slots) = (standingInSlots slots).map (mapHeads f)
  | [] => by rw [mapHeadsSlots, standingInSlots, List.map_nil]
  | (name, link) :: rest => by
    rw [mapHeadsSlots, standingInSlots, standingInSlots, standingInLink_mapHeadsLink f link,
      standingInSlots_mapHeadsSlots f rest, List.map_append]

theorem standingInLink_mapHeadsLink (f : Head → Head) : ∀ link : Option Block,
    standingInLink (mapHeadsLink f link) = (standingInLink link).map (mapHeads f)
  | none => by rw [mapHeadsLink, standingInLink, List.map_nil]
  | some b => by rw [mapHeadsLink, standingInLink, standingInLink, standing_mapHeads f b]

end

/-- Whether a block is placed does not depend on comments. -/
theorem isPlaced_mapHeads {f : Head → Head} (hf : Head.Recomments f) (b : Block) :
    (b.mapHeads f).IsPlaced ↔ b.IsPlaced := by
  have hfields : ∀ b : Block, b.IsPlaced ↔ b.head.output = .bool b.kind.isValue ∧
      (∀ c ∈ connected b.values, c.kind.isValue = true ∧ c.next = none) ∧
      (∀ c ∈ connected b.statements, c.kind.isValue = false) ∧
      ∀ c, b.next = some c → c.kind.isValue = false :=
    fun b => ⟨fun h => ⟨h.output, h.values, h.statements, h.next⟩,
      fun ⟨houtput, hvalues, hstatements, hnext⟩ => ⟨houtput, hvalues, hstatements, hnext⟩⟩
  have houtput : (b.mapHeads f).head.output = b.head.output := by
    rw [head_mapHeads]
    exact (congrArg Head.output (hf b.head) :)
  rw [hfields, hfields, houtput, values_mapHeads, statements_mapHeads, connected_mapHeadsSlots,
    connected_mapHeadsSlots]
  simp only [List.forall_mem_map, hf.kind, next_mapHeads, Option.map_eq_none_iff,
    Option.map_eq_some_iff, forall_exists_index, and_imp, forall_apply_eq_imp_iff₂]

theorem isPlacedTree_iff {b : Block} :
    b.IsPlacedTree ↔ b.IsPlaced ∧ ∀ c ∈ b.children, c.IsPlacedTree := by
  constructor
  · exact fun h => ⟨h.isPlaced, fun c => h.child⟩
  · exact fun ⟨hself, hchildren⟩ => forall_within_of_children hself hchildren

theorem isPlacedTree_mapHeads {f : Head → Head} (hf : Head.Recomments f) (b : Block) :
    (b.mapHeads f).IsPlacedTree ↔ b.IsPlacedTree := by
  induction b using forall_of_children with
  | h b ih =>
    rw [isPlacedTree_iff, isPlacedTree_iff, isPlaced_mapHeads hf, children_mapHeads,
      List.forall_mem_map]
    exact and_congr_right fun _ => forall₂_congr ih

/-! ## The same but for wording -/

/-- Two trees that are the same but for the wording of comments. -/
def Rewords (b b' : Block) : Prop :=
  b.blurred = b'.blurred

/-- Lists that are the same behind a function are so item by item. -/
theorem forall₂_of_map_eq {α β : Type} {f : α → β} {l l' : List α} (h : l.map f = l'.map f) :
    List.Forall₂ (fun a a' => f a = f a') l l' := by
  rw [← List.forall₂_eq_eq_eq, List.forall₂_map_left_iff, List.forall₂_map_right_iff] at h
  exact h

theorem rel_of_map_eq {α β : Type} {f : α → β} {x y : Option α} (h : x.map f = y.map f) :
    Option.Rel (fun a a' => f a = f a') x y := by
  cases x <;> cases y
  case none.none => exact .none
  case some.some => exact .some (Option.some.inj h)
  all_goals cases h

namespace Rewords

variable {b b' : Block} (h : b.Rewords b')
include h

theorem blurred_head : b.head.blurred = b'.head.blurred := by
  rw [← head_blurred, ← head_blurred]
  exact congrArg Block.head h

theorem comment : b.head.comment.blurred = b'.head.comment.blurred :=
  congrArg Head.comment h.blurred_head

theorem head : b.head.uncommented = b'.head.uncommented :=
  (congrArg Head.uncommented h.blurred_head :)

theorem kind : b.kind = b'.kind :=
  (congrArg Head.kind h.head :)

theorem next : Option.Rel Rewords b.next b'.next := by
  have hnext := congrArg Block.next h
  rw [blurred, blurred, next_mapHeads, next_mapHeads] at hnext
  exact rel_of_map_eq hnext

/-- The slots are the same ones, with chains in them that are the same but for wording. -/
theorem statements : List.Forall₂ (fun slot slot' => slot.1 = slot'.1 ∧
    Option.Rel Rewords slot.2 slot'.2) b.statements b'.statements := by
  have hslots := congrArg Block.statements h
  rw [blurred, blurred, statements_mapHeads, statements_mapHeads, mapHeadsSlots_eq_map,
    mapHeadsSlots_eq_map] at hslots
  refine (forall₂_of_map_eq hslots).imp fun slot slot' hslot => ?_
  exact ⟨(Prod.mk.inj hslot).1, rel_of_map_eq (Prod.mk.inj hslot).2⟩

theorem inSlot_statements (name : String) :
    Option.Rel Rewords (inSlot b.statements name) (inSlot b'.statements name) := by
  have hslots := congrArg (fun c => inSlot (Block.statements c) name) h
  simp only [blurred, statements_mapHeads, inSlot_mapHeadsSlots] at hslots
  exact rel_of_map_eq hslots

theorem values : List.Forall₂ Rewords (connected b.values) (connected b'.values) := by
  have hslots := congrArg (fun c => connected (Block.values c)) h
  simp only [blurred, values_mapHeads, connected_mapHeadsSlots] at hslots
  exact forall₂_of_map_eq hslots

theorem standing : List.Forall₂ Rewords b.standing b'.standing := by
  have hall := congrArg Block.standing h
  rw [blurred, blurred, standing_mapHeads, standing_mapHeads] at hall
  exact forall₂_of_map_eq hall

theorem isPlacedTree (hb : b.IsPlacedTree) : b'.IsPlacedTree := by
  rw [← isPlacedTree_mapHeads Head.recomments_blurred] at hb ⊢
  have hsame : b.mapHeads Head.blurred = b'.mapHeads Head.blurred := h
  rwa [← hsame]

theorem children : List.Forall₂ Rewords b.children b'.children := by
  have hchildren := congrArg Block.children h
  rw [blurred, blurred, children_mapHeads, children_mapHeads] at hchildren
  exact forall₂_of_map_eq hchildren

omit h in
/-- A block in the one tree has one in its place in the other. -/
theorem exists_within {c' : Block} (hc : Within c' b') :
    ∀ {b : Block}, b.Rewords b' → ∃ c, Within c b ∧ c.Rewords c' := by
  induction hc with
  | self => exact fun h => ⟨_, .self, h⟩
  | child hchild _ ih =>
    intro b h
    obtain ⟨c, hmem, hrewords⟩ := exists_of_mem_forall₂ h.children.flip _ hchild
    obtain ⟨d, hd, hsame⟩ := ih hrewords
    exact ⟨d, .child hmem hd, hsame⟩

/-! ### Comments -/

theorem isSome_remark : b.head.comment.remark?.isSome = b'.head.comment.remark?.isSome := by
  rw [← Json.isSome_remark_blurred b.head.comment, h.comment, Json.isSome_remark_blurred]

theorem isTruthy_comment : b.head.comment.isTruthy = b'.head.comment.isTruthy := by
  rw [← Json.isTruthy_blurred b.head.comment, h.comment, Json.isTruthy_blurred]

theorem length_nestedRemarks : b.nestedRemarks.length = b'.nestedRemarks.length := by
  rw [← b.length_nestedRemarks_blurred, show b.blurred = b'.blurred from h,
    length_nestedRemarks_blurred]

theorem length_remarks_values : ((connected b.values).flatMap nestedRemarks).length =
    ((connected b'.values).flatMap nestedRemarks).length := by
  have hvalues := h.values
  generalize connected b.values = l, connected b'.values = l' at hvalues
  induction hvalues with
  | nil => rfl
  | cons hfirst _ ih =>
    rw [List.flatMap_cons, List.flatMap_cons, List.length_append, List.length_append,
      hfirst.length_nestedRemarks, ih]

theorem all_isRemark_values :
    (connected b.values).all (fun c => c.nested.all (·.head.comment.isRemark)) =
      (connected b'.values).all fun c => c.nested.all (·.head.comment.isRemark) := by
  have hvalues := h.values
  generalize connected b.values = l, connected b'.values = l' at hvalues
  induction hvalues with
  | nil => rfl
  | @cons c c' _ _ hfirst _ ih =>
    rw [List.all_cons, List.all_cons, ← c.all_isRemark_blurred, ← c'.all_isRemark_blurred,
      show c.blurred = c'.blurred from hfirst, ih]

/-- The two blocks have as many comments ahead of their code. -/
theorem length_remarksAhead (o : Options) :
    (b.remarksAhead o).length = (b'.remarksAhead o).length := by
  have hlength : ∀ text? : Option String, (text?.map o.wrapped).toList.length = text?.isSome.toNat :=
    fun text? => by cases text? <;> rfl
  rw [remarksAhead, remarksAhead, List.length_append, List.length_append, h.length_remarks_values,
    hlength, hlength, h.isSome_remark]

end Rewords

/-! ### Code -/

variable {b b' : Block} {o : Options}

/-- The two blocks have the same values. -/
theorem Rewords.alike (h : b.Rewords b') (hb : b.IsPlacedTree) (attached : Bool) :
    (b.site attached).Alike (b'.site attached) := by
  have hblurred : ∀ {c : Block}, c.IsPlacedTree →
      (c.blurred.site attached).Alike (c.site attached) := by
    intro c hc
    apply Head.recomments_blurred.alike
    intro d hd
    obtain ⟨hvalue, hnext⟩ := hc.isPlaced.values d hd
    have hchild := hc.child (mem_children_of_values hd)
    exact Head.recomments_blurred.code_of_value hchild hvalue hnext false
  have hb' := hblurred (h.isPlacedTree hb)
  rw [← show b.blurred = b'.blurred from h] at hb'
  exact (hblurred hb).symm.trans hb'

theorem Rewords.isOrderly (h : b.Rewords b') (hb : b.IsOrderlyTree) : b'.IsOrderly where
  toIsPlaced := (h.isPlacedTree hb.isPlacedTree).isPlaced
  enabled := (congrArg Head.enabled h.head).symm.trans hb.isOrderly.enabled
  slots := by
    have hnames : b.statements.map (·.1) = b'.statements.map (·.1) := by
      rw [← List.forall₂_eq_eq_eq, List.forall₂_map_left_iff, List.forall₂_map_right_iff]
      exact h.statements.imp fun _ _ hslot => hslot.1
    exact hnames ▸ hb.isOrderly.slots
  read slot c' hc := by
    have halike := h.alike hb.isPlacedTree false
    obtain ⟨⟨name, link⟩, hmem, rfl, hrel⟩ := exists_of_mem_forall₂ h.statements.flip _ hc
    have hslots : (b.site false).chainSlots = (b'.site false).chainSlots := by
      rw [Site.chainSlots, Site.chainSlots, halike.kind]
      simp only [Site.branchSlots, halike.branchCount, halike.hasSlot]
    cases hrel with
    | some hrewords => exact hslots ▸ hb.isOrderly.read _ _ hmem

theorem Rewords.isOrderlyTree (h : b.Rewords b') (hb : b.IsOrderlyTree) : b'.IsOrderlyTree := by
  intro c' hc'
  obtain ⟨c, hc, hsame⟩ := exists_within hc' h
  exact hsame.isOrderly fun d hd => hb d (hd.trans hc)

/-- A value slot takes up no comments. -/
theorem agree_value (hb : b.IsPlacedTree) (attached : Bool) (name : String) (outer : Order) :
    Agree o ((b.site attached).value name outer) ((b.site attached).value name outer) := by
  apply Site.value_related (Gen.agree_congruence o)
  apply rel_inSlot
  intro c hc
  have hmem : c ∈ connected b.values := List.mem_filterMap.mpr ⟨_, mem_of_inSlot hc, rfl⟩
  obtain ⟨hvalue, hnext⟩ := hb.isPlaced.values c hmem
  have htree := (hb.child (mem_children_of_values hmem)).valueTree hvalue hnext
  refine ⟨rfl, htree.code_related (Gen.agree_congruence o) ?_ (Gen.agree_variableName o) false⟩
  rintro _ _ ⟨rfl, rfl⟩
  rfl

/-- The two blocks are paired, with values that take up no comments. -/
theorem Rewords.paired (h : b.Rewords b') (hb : b.IsPlacedTree) (attached : Bool) :
    Site.Paired (Agree o) (b.site attached) (b'.site attached) := by
  have halike := h.alike hb attached
  constructor
  case kind => exact halike.kind
  case record => exact Site.record_of_id (Gen.agree_congruence o) halike.id
  case fields => exact fun name _ => congrArg (·.get? name) halike.fields
  case mutation => exact halike.mutation
  case value => exact fun name outer => halike.value name outer ▸ agree_value hb attached name outer

end Block

end BlockScript
