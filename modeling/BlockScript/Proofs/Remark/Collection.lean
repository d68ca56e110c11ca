/-
  BlockScript.Proofs.Remark.Collection

  The comments of a tree, block by block, and the comments ahead of the code of one block. A block that
  stands on its own, in a chain or among the blocks of a workspace, has its own comment ahead, wrapped,
  and the comments of all that is plugged into it, as they are. So every comment is ahead of the code
  of one block.
-/
import BlockScript.Proofs.Comment.Erasure
import BlockScript.Proofs.Literal.Statement
import BlockScript.Proofs.Remark.Wording

namespace BlockScript

open Text (Reworded Retold commentAt commentLine)

/-! ## Comments as texts -/

/-- The text of a comment, if it is one and has something in it. -/
def Json.remark? : Json → Option String
  | .str text => if text = "" then none else some text
  | _ => none

/-- Whether a comment is a text, or counts as none. -/
def Json.isRemark (comment : Json) : Bool :=
  comment.remark?.isSome || !comment.isTruthy

/-- A comment counts as none, is a text with something in it, or is something else. -/
theorem Json.remark_cases (comment : Json) :
    (comment.isTruthy = false ∧ comment.remark? = none) ∨
      (∃ text, comment = .str text ∧ text ≠ "") ∨
      comment.isTruthy = true ∧ comment.remark? = none ∧ ∀ text, comment ≠ .str text := by
  by_cases htext : ∃ text, comment = .str text
  · obtain ⟨text, rfl⟩ := htext
    by_cases hempty : text = ""
    · exact Or.inl ⟨by simp [isTruthy, hempty], if_pos hempty⟩
    · exact Or.inr (Or.inl ⟨text, rfl, hempty⟩)
  · have hother : ∀ text, comment ≠ .str text := fun text h => htext ⟨text, h⟩
    have hremark : comment.remark? = none := by
      cases comment with
      | str text => exact absurd rfl (hother text)
      | null | bool | num | arr | obj => rfl
    cases htruthy : comment.isTruthy with
    | true => exact Or.inr (Or.inr ⟨rfl, hremark, hother⟩)
    | false => exact Or.inl ⟨rfl, hremark⟩

/-- A comment wrapped at the column of the settings, if that is one. -/
def Options.wrapping (o : Options) (text : String) : Except Fault String := do
  Site.wrapped text (← Site.commentWidth o.commentWrap)

/-- A comment of a block on its own, wrapped at the column of the settings. -/
def Options.wrapped (o : Options) (text : String) : String :=
  (o.wrapping text).toOption.getD text

/-- A column that is none is a fault for all comments. -/
theorem Options.wrapping_cases (o : Options) :
    (∃ fault, ∀ text, o.wrapping text = .error fault) ∨
      ∀ text, o.wrapping text = .ok (o.wrapped text) := by
  cases hwidth : Site.commentWidth o.commentWrap with
  | error fault =>
    left
    refine ⟨fault, fun text => ?_⟩
    rw [wrapping, hwidth]
    rfl
  | ok width =>
    cases hlimit : Text.Limit.ofWidth? width with
    | none =>
      left
      refine ⟨if width.isNaN then .endlessWrap else .widthNotPositive, fun text => ?_⟩
      rw [wrapping, hwidth]
      show Site.wrapped text width = _
      rw [Site.wrapped, hlimit]
      rfl
    | some limit =>
      right
      intro text
      have hwrapping : o.wrapping text = .ok (Text.wrap limit text) := by
        rw [wrapping, hwidth]
        show Site.wrapped text width = _
        rw [Site.wrapped, hlimit]
        rfl
      rw [wrapped, hwrapping]
      rfl

/-- A block that is placed and enabled, with every chain in a slot of its own that its rule reads. -/
structure Block.IsOrderly (b : Block) : Prop extends Block.IsPlaced b where
  enabled : b.head.enabled = true
  slots : (b.statements.map (·.1)).Nodup
  read : ∀ slot c, (slot, some c) ∈ b.statements → slot ∈ (b.site false).chainSlots

/-- A block that is orderly, as everything that hangs on it. -/
def Block.IsOrderlyTree (b : Block) : Prop :=
  ∀ c, Within c b → c.IsOrderly

namespace Block

theorem IsOrderlyTree.isOrderly {b : Block} (h : b.IsOrderlyTree) : b.IsOrderly :=
  h b .self

theorem IsOrderlyTree.child {b c : Block} (h : b.IsOrderlyTree) (hc : c ∈ b.children) :
    c.IsOrderlyTree :=
  fun d hd => h d (.child hc hd)

theorem IsOrderlyTree.isPlacedTree {b : Block} (h : b.IsOrderlyTree) : b.IsPlacedTree :=
  fun c hc => (h c hc).toIsPlaced

/-- An orderly tree is put together from orderly trees. -/
theorem isOrderlyTree_mk {head : Head} {values statements : Slots} {next : Option Block}
    (houtput : head.output = .bool head.kind.isValue) (henabled : head.enabled = true)
    (hvalues : ∀ c ∈ connected values, c.kind.isValue = true ∧ c.next = none ∧ c.IsOrderlyTree)
    (hstatements : ∀ c ∈ connected statements, c.kind.isValue = false ∧ c.IsOrderlyTree)
    (hnext : ∀ c ∈ next, c.kind.isValue = false ∧ c.IsOrderlyTree)
    (hslots : (statements.map (·.1)).Nodup)
    (hread : ∀ slot ∈ statements.map (·.1),
      slot ∈ ((mk head values statements next).site false).chainSlots) :
    (mk head values statements next).IsOrderlyTree := by
  apply forall_within_of_children
  case hself =>
    exact ⟨⟨houtput, fun c hc => ⟨(hvalues c hc).1, (hvalues c hc).2.1⟩,
      fun c hc => (hstatements c hc).1, fun c hc => (hnext c hc).1⟩, henabled, hslots,
      fun slot c hc => hread slot (List.mem_map_of_mem hc)⟩
  case hchildren =>
    exact forall_children_mk (fun c hc => (hvalues c hc).2.2) (fun c hc => (hstatements c hc).2)
      fun c hc => (hnext c hc).2

/-! ## Comments of a tree -/

/-- All blocks that hang on a block. -/
def descendants (b : Block) : List Block :=
  nestedInSlots b.values ++ nestedInSlots b.statements ++ chain b.next

/-- The comment of a block, if it has one: that of a value that is plugged into another block as it is,
    any other one wrapped. -/
def remark? (o : Options) (attached : Bool) (b : Block) : Option String :=
  b.head.comment.remark?.map fun text => if b.kind.isValue && attached then text else o.wrapped text

/-- The comments of a tree that nothing holds, those of all its blocks. -/
def remarks (o : Options) (b : Block) : List String :=
  (b.remark? o false).toList ++ b.descendants.filterMap (remark? o true)

/-- The names of the procedures in a tree, in lower case. -/
def procedureNames (b : Block) : List String :=
  ((b :: b.descendants).filter fun c => c.kind.definesProcedure).map fun c =>
    Text.lower (c.head.field "NAME").shown

/-- The comments on a block and on all that is nested in it, as they are. -/
def nestedRemarks (b : Block) : List String :=
  b.nested.filterMap fun c => c.head.comment.remark?

/-- The comments ahead of the code of a block on its own. -/
def remarksAhead (o : Options) (b : Block) : List String :=
  (b.head.comment.remark?.map o.wrapped).toList ++ (connected b.values).flatMap nestedRemarks

mutual

/-- The blocks of a tree that stand on their own: the block itself, those in its chains, and those that
    follow it. -/
def standing : Block → List Block
  | mk head values statements next =>
    mk head values statements next :: (standingInSlots statements ++ standingInLink next)

/-- The blocks in slots that stand on their own. -/
def standingInSlots : Slots → List Block
  | [] => []
  | (_, link) :: rest => standingInLink link ++ standingInSlots rest

/-- The blocks of a chain that stand on their own. -/
def standingInLink : Option Block → List Block
  | none => []
  | some b => b.standing

end

theorem standing_eq (b : Block) :
    b.standing = b :: (standingInSlots b.statements ++ standingInLink b.next) := by
  obtain ⟨head, values, statements, next⟩ := b
  rw [standing]
  rfl

theorem standingInSlots_eq (slots : Slots) :
    standingInSlots slots = (connected slots).flatMap standing := by
  induction slots with
  | nil => rfl
  | cons slot rest ih =>
    obtain ⟨name, link⟩ := slot
    rw [standingInSlots, ih]
    cases link <;> rfl

theorem nestedInSlots_eq (slots : Slots) :
    nestedInSlots slots = (connected slots).flatMap fun c => chain (some c) := by
  induction slots with
  | nil =>
    rw [nestedInSlots]
    rfl
  | cons slot rest ih =>
    obtain ⟨name, link⟩ := slot
    rw [nestedInSlots, ih]
    cases link with
    | none =>
      rw [chain]
      rfl
    | some c => rfl

theorem chain_eq_descendants (b : Block) : chain (some b) = b :: b.descendants := by
  rw [chain_some, nested_eq, descendants]
  rfl

/-! ### One comment ahead of the code of one block -/

theorem chainSlots_of_isValue {b : Block} (h : b.kind.isValue = true) :
    (b.site false).chainSlots = [] := by
  have hsite : (b.site false).kind = b.kind := rfl
  rw [Site.chainSlots, hsite]
  cases hkind : b.kind with
  | value kind => rfl
  | statement kind =>
    rw [hkind] at h
    cases h

section
variable {o : Options} {b : Block}

/-- What is nested in a value are values. -/
theorem isValue_of_mem_nested (hb : b.IsOrderlyTree) (hvalue : b.kind.isValue = true) {c : Block}
    (hc : c ∈ b.nested) : c.kind.isValue = true := by
  induction b using forall_of_children with
  | h b ih =>
    rw [nested_eq, List.mem_cons, List.mem_append] at hc
    rcases hc with rfl | hc | hc
    · exact hvalue
    · obtain ⟨name, d, hd, hc⟩ := exists_of_mem_nestedInSlots hc
      have hmem : d ∈ connected b.values := List.mem_filterMap.mpr ⟨_, hd, rfl⟩
      have hchild := mem_children_of_values hmem
      obtain ⟨hkind, hnext⟩ := hb.isOrderly.values d hmem
      rw [chain_eq_nested hnext] at hc
      exact ih d hchild (hb.child hchild) hkind hc
    · -- A value reads no chains.
      obtain ⟨name, d, hd, -⟩ := exists_of_mem_nestedInSlots hc
      have hslot := hb.isOrderly.read name d hd
      rw [chainSlots_of_isValue hvalue] at hslot
      exact absurd hslot List.not_mem_nil

/-- The comments of what is in value slots, as they are. -/
theorem filterMap_nestedInSlots_values (hb : b.IsOrderlyTree) :
    (nestedInSlots b.values).filterMap (remark? o true) =
      (connected b.values).flatMap nestedRemarks := by
  rw [nestedInSlots_eq, List.filterMap_flatMap]
  apply List.flatMap_congr
  intro c hc
  have hchild := mem_children_of_values hc
  obtain ⟨hvalue, hnext⟩ := hb.isOrderly.values c hc
  rw [chain_eq_nested hnext, nestedRemarks]
  apply List.filterMap_congr
  intro d hd
  have hd : d.kind.isValue = true := isValue_of_mem_nested (hb.child hchild) hvalue hd
  rw [remark?, hd]
  simp

/-- The comments of all that hangs on a block are ahead of the code of blocks on their own. -/
theorem filterMap_descendants (hb : b.IsOrderlyTree) :
    b.descendants.filterMap (remark? o true) = (connected b.values).flatMap nestedRemarks ++
      (standingInSlots b.statements ++ standingInLink b.next).flatMap (remarksAhead o) := by
  induction b using forall_of_children with
  | h b ih =>
    have hchain : ∀ c ∈ b.children, c.kind.isValue = false →
        (chain (some c)).filterMap (remark? o true) = c.standing.flatMap (remarksAhead o) := by
      intro c hc hkind
      have hself : c.remark? o true = c.head.comment.remark?.map o.wrapped := by
        rw [remark?, hkind]
        rfl
      have hrest := ih c hc (hb.child hc)
      rw [chain_eq_descendants, List.filterMap_cons, hrest, standing_eq, List.flatMap_cons,
        remarksAhead, List.append_assoc, ← hself]
      cases c.remark? o true <;> rfl
    have hstatements : (nestedInSlots b.statements).filterMap (remark? o true) =
        (standingInSlots b.statements).flatMap (remarksAhead o) := by
      rw [nestedInSlots_eq, standingInSlots_eq, List.filterMap_flatMap, List.flatMap_assoc]
      exact List.flatMap_congr fun c hc =>
        hchain c (mem_children_of_statements hc) (hb.isOrderly.statements c hc)
    have hnext : (chain b.next).filterMap (remark? o true) =
        (standingInLink b.next).flatMap (remarksAhead o) := by
      cases hlink : b.next with
      | none =>
        rw [chain, standingInLink]
        rfl
      | some c => exact hchain c (mem_children_of_next hlink) (hb.isOrderly.next c hlink)
    rw [descendants, List.filterMap_append, List.filterMap_append, filterMap_nestedInSlots_values hb,
      hstatements, hnext, List.append_assoc, List.flatMap_append]

/-- The comments of a tree that nothing holds, in the order of the blocks that have them ahead. -/
theorem remarks_eq (hb : b.IsOrderlyTree) :
    b.remarks o = b.standing.flatMap (remarksAhead o) := by
  have hself : b.remark? o false = b.head.comment.remark?.map o.wrapped := by
    rw [remark?, Bool.and_false]
    rfl
  rw [remarks, filterMap_descendants hb, standing_eq, List.flatMap_cons, remarksAhead, hself,
    List.append_assoc]

end

/-! ### Blocks on their own -/

/-- Blocks on their own are blocks of the tree, each once. -/
theorem standing_sublist (b : Block) : b.standing.Sublist (chain (some b)) := by
  induction b using forall_of_children with
  | h b ih =>
    have hstatements : (standingInSlots b.statements).Sublist (nestedInSlots b.statements) := by
      rw [standingInSlots_eq, nestedInSlots_eq]
      exact List.Sublist.flatMap_right _ fun c hc => ih c (mem_children_of_statements hc)
    have hnext : (standingInLink b.next).Sublist (chain b.next) := by
      cases hlink : b.next with
      | none => exact List.nil_sublist _
      | some c => exact ih c (mem_children_of_next hlink)
    rw [standing_eq, chain_eq_descendants, descendants, List.append_assoc]
    exact ((hstatements.append hnext).trans (List.sublist_append_right _ _)).cons_cons b

end Block

/-! ## Comments of one block -/

namespace Site

/-- Comments that are texts are taken as they are; another one is a fault. -/
theorem mapM_commentText (comments : List Json) :
    (comments.filter (·.isTruthy)).mapM commentText =
      if comments.all Json.isRemark then .ok (comments.filterMap Json.remark?)
      else .error .nestedCommentNotText := by
  induction comments with
  | nil => rfl
  | cons comment rest ih =>
    rw [List.all_cons]
    rcases comment.remark_cases with ⟨hnone, hremark⟩ | ⟨text, rfl, htext⟩ |
      ⟨htruthy, hremark, hother⟩
    · have hskip : comment.isRemark = true := by
        rw [Json.isRemark, hnone, Bool.not_false, Bool.or_true]
      rw [List.filter_cons_of_neg (by rw [hnone]; exact Bool.false_ne_true), ih, hskip, Bool.true_and,
        List.filterMap_cons_none hremark]
    · have htruthy : (Json.str text).isTruthy = true := by simpa [Json.isTruthy] using htext
      have hremark : (Json.str text).remark? = some text := if_neg htext
      have hkeep : (Json.str text).isRemark = true := by
        rw [Json.isRemark, hremark]
        rfl
      rw [List.filter_cons_of_pos htruthy, List.mapM_cons, ih, hkeep, Bool.true_and,
        List.filterMap_cons_some hremark]
      split <;> rfl
    · have hfault : commentText comment = .error .nestedCommentNotText := by
        cases comment with
        | str text => exact absurd rfl (hother text)
        | null | bool | num | arr | obj => rfl
      have hnot : comment.isRemark = false := by
        rw [Json.isRemark, hremark, htruthy]
        rfl
      rw [List.filter_cons_of_pos htruthy, List.mapM_cons, hfault, hnot]
      rfl

end Site

namespace Text

/-- The lines of some comments, one comment behind the other. -/
def commentsAhead (comments : List String) : String :=
  String.ofList (comments.flatMap (commentAt commentLine []))

theorem toList_commentsAhead (comments : List String) :
    (commentsAhead comments).toList = comments.flatMap (commentAt commentLine []) :=
  String.toList_ofList

theorem commentsAhead_append (comments comments' : List String) :
    commentsAhead (comments ++ comments') = commentsAhead comments ++ commentsAhead comments' := by
  rw [commentsAhead, List.flatMap_append, String.ofList_append]
  rfl

/-- The mark of comments ahead of every line of a text. -/
theorem commentLines_eq (s : String) :
    (Site.commentLines (s ++ "\n")).toList = marked "// ".toList (lines s.toList) := by
  rw [← marked_lines]
  simp [Site.commentLines, prefixed]

theorem commentLines_eq_commentsAhead (comment : String) :
    Site.commentLines (comment ++ "\n") = commentsAhead [comment] := by
  apply String.toList_injective
  rw [commentLines_eq, toList_commentsAhead, marked_comment, List.flatMap_singleton]

/-- The comment lines of texts that are joined are those of the texts. -/
theorem commentLines_join {comments : List String} (h : comments ≠ []) :
    Site.commentLines (join "\n" (comments ++ [""])) = commentsAhead comments := by
  have hfeed : ∀ l : List String, l ≠ [] → join "\n" (l ++ [""]) = join "\n" l ++ "\n" := by
    intro l hl
    induction l with
    | nil => exact absurd rfl hl
    | cons s rest ih =>
      cases rest with
      | nil => simp [join]
      | cons t rest =>
        have hrest := ih (List.cons_ne_nil t rest)
        rw [List.cons_append] at hrest
        rw [List.cons_append, List.cons_append, join, hrest, join]
        simp only [String.append_assoc]
  have hlines : ∀ l : List String, l ≠ [] →
      marked "// ".toList (lines (join "\n" l).toList) = l.flatMap (commentAt commentLine []) := by
    intro l hl
    induction l with
    | nil => exact absurd rfl hl
    | cons s rest ih =>
      cases rest with
      | nil => rw [join, List.flatMap_singleton, marked_comment]
      | cons t rest =>
        have hjoin : (join "\n" (s :: t :: rest)).toList =
            s.toList ++ '\n' :: (join "\n" (t :: rest)).toList := by
          simp [join]
        rw [hjoin, lines_append, marked_append, marked_comment, ih (List.cons_ne_nil t rest)]
        rfl
  apply String.toList_injective
  rw [hfeed comments h, commentLines_eq, hlines comments h, toList_commentsAhead]

/-- Comments one behind the other, with as many others. -/
theorem Retold.commentsAhead {comments comments' : List String}
    (h : comments.length = comments'.length) : Retold (comments.zip comments')
      (commentsAhead comments) (commentsAhead comments') := by
  rw [Retold, toList_commentsAhead, toList_commentsAhead]
  induction comments generalizing comments' with
  | nil =>
    obtain rfl := List.eq_nil_of_length_eq_zero h.symm
    exact .nil
  | cons before rest ih =>
    cases comments' with
    | nil => cases h
    | cons after rest' =>
      rw [List.zip_cons_cons, List.flatMap_cons, List.flatMap_cons, ← Multiset.cons_coe]
      exact .comment [] before after (ih (Nat.succ.inj h))

end Text

namespace Site

open Block (connected)

/-- A comment that is a text is wrapped, and its lines are marked. -/
theorem ownComment_of_remark {site : Site} {text : String}
    (h : site.head.comment.remark? = some text) : site.ownComment = (do
      let options ← Gen.options
      let wrapped ← Gen.lift (options.wrapping text)
      return commentLines (wrapped ++ "\n")) := by
  obtain ⟨hcomment, htext⟩ : site.head.comment = .str text ∧ text ≠ "" := by
    rcases site.head.comment.remark_cases with ⟨-, hnone⟩ | ⟨text', hcomment, htext⟩ | ⟨-, hnone, -⟩
    · rw [hnone] at h
      cases h
    · rw [hcomment, Json.remark?, if_neg htext] at h
      obtain rfl := Option.some.inj h
      exact ⟨hcomment, htext⟩
    · rw [hnone] at h
      cases h
  have htruthy : (Json.str text).isTruthy = true := by simpa [Json.isTruthy] using htext
  rw [ownComment, hcomment, htruthy]
  refine congrArg (bind Gen.options) (funext fun options => ?_)
  rw [Options.wrapping]
  cases commentWidth options.commentWrap <;> rfl

/-- A comment that is no text counts as none, or is a fault. -/
theorem ownComment_of_none {site : Site} (h : site.head.comment.remark? = none) :
    site.ownComment =
      if site.head.comment.isTruthy then throw .commentNotText else pure "" := by
  rw [ownComment]
  rcases site.head.comment.remark_cases with ⟨htruthy, -⟩ | ⟨text, hcomment, htext⟩ |
    ⟨htruthy, -, hother⟩
  · rw [htruthy]
    rfl
  · rw [hcomment, Json.remark?, if_neg htext] at h
    cases h
  · rw [htruthy]
    cases hcomment : site.head.comment with
    | str text => exact absurd hcomment (hother text)
    | null | bool | num | arr | obj => rfl

/-- The comments of a block that is plugged into another one, as the text that is marked. -/
theorem nestedComments_eq (b : Block) :
    nestedComments b = if b.nested.all (·.head.comment.isRemark) then
      .ok (if b.nestedRemarks.isEmpty then "" else Text.join "\n" (b.nestedRemarks ++ [""]))
      else .error .nestedCommentNotText := by
  have hall : (b.nested.map (·.head.comment)).all Json.isRemark =
      b.nested.all (·.head.comment.isRemark) := List.all_map
  have htexts : (b.nested.map (·.head.comment)).filterMap Json.remark? = b.nestedRemarks :=
    List.filterMap_map
  rw [nestedComments, Block.nestedComments, mapM_commentText, hall, htexts]
  split <;> rfl

theorem commentLines'_eq (comments : List String) :
    inputComments.commentLines' (if comments.isEmpty then "" else Text.join "\n" (comments ++ [""])) =
      Text.commentsAhead comments := by
  by_cases h : comments = []
  · subst h
    rfl
  · have hempty : comments.isEmpty = false := by simpa using h
    have hne : Text.join "\n" (comments ++ [""]) ≠ "" := by
      obtain ⟨s, rest, rfl⟩ := List.exists_cons_of_ne_nil h
      obtain ⟨t, more, hmore⟩ := List.exists_cons_of_ne_nil
        (List.append_ne_nil_of_right_ne_nil rest (List.cons_ne_nil "" []))
      rw [List.cons_append, hmore, Text.join]
      intro hnil
      have hfeed := (String.append_eq_empty_iff.mp (String.append_eq_empty_iff.mp hnil).1).2
      exact absurd hfeed (by decide)
    rw [hempty, if_neg Bool.false_ne_true, inputComments.commentLines', if_neg hne,
      Text.commentLines_join h]

/-- Steps for a list that fail in one way succeed if none of them fails. -/
theorem mapM_ite {α β : Type} (succeeds : α → Bool) (result : α → β) (fault : Fault) (l : List α) :
    (l.mapM fun a => if succeeds a then Except.ok (result a) else Except.error fault) =
      if l.all succeeds then Except.ok (l.map result) else Except.error fault := by
  induction l with
  | nil => rfl
  | cons a rest ih =>
    rw [List.mapM_cons, ih, List.all_cons]
    cases succeeds a with
    | false => rfl
    | true => cases rest.all succeeds <;> rfl

/-- The comment lines of the inputs of a block. -/
theorem inputComments_eq (slots : Slots) :
    inputComments (Block.inputs slots) =
      if (connected slots).all (fun c => c.nested.all (·.head.comment.isRemark)) then
        .ok (Text.commentsAhead ((connected slots).flatMap Block.nestedRemarks))
      else .error .nestedCommentNotText := by
  have hlines : ∀ l : List Block, String.join ((l.map fun c => if c.nestedRemarks.isEmpty then ""
      else Text.join "\n" (c.nestedRemarks ++ [""])).map inputComments.commentLines') =
        Text.commentsAhead (l.flatMap Block.nestedRemarks) := by
    intro l
    induction l with
    | nil => rfl
    | cons c rest ih =>
      rw [List.map_cons, List.map_cons, String.join_cons, ih, commentLines'_eq, List.flatMap_cons,
        Text.commentsAhead_append]
  rw [inputComments, Block.filterMap_inputs, List.mapM_map]
  simp only [Function.comp_def, nestedComments_eq]
  rw [mapM_ite]
  split
  · exact congrArg Except.ok (hlines _)
  · rfl

end Site

end BlockScript
