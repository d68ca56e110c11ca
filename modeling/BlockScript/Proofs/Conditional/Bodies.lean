/-
  BlockScript.Proofs.Conditional.Bodies

  The bodies of a conditional that are reached. The chain in a numbered slot for bodies is generated
  once if its number is below the first one, from one on, that has no slot of a condition. The chain
  in any later slot for bodies is not looked at: whatever stands there, the code is the same.
-/
import BlockScript.Proofs.Conditional.Branches

namespace BlockScript

namespace Block

/-! ## Another chain in a slot -/

/-- The slots with another block in the slot of a name. -/
def setSlot (name : String) (d : Block) : Slots → Slots
  | [] => []
  | (key, link) :: rest =>
    if key = name then (key, some d) :: rest else (key, link) :: setSlot name d rest

/-- The block with another chain in one of its slots for statements. -/
def withChain (b : Block) (slot : String) (d : Block) : Block :=
  mk b.head b.values (setSlot slot d b.statements) b.next

theorem map_fst_setSlot (name : String) (d : Block) (slots : Slots) :
    (setSlot name d slots).map (·.1) = slots.map (·.1) := by
  induction slots with
  | nil => rfl
  | cons slot rest ih =>
    rw [setSlot]
    split
    · rfl
    · rw [List.map_cons, List.map_cons, ih]

theorem lookup_setSlot {name : String} {slots : Slots} {link : Option Block}
    (h : slots.lookup name = some link) (d : Block) (other : String) :
    (setSlot name d slots).lookup other =
      if other = name then some (some d) else slots.lookup other := by
  induction slots with
  | nil => cases h
  | cons slot rest ih =>
    obtain ⟨key, old⟩ := slot
    rw [setSlot]
    by_cases hkey : key = name
    · rw [if_pos hkey, List.lookup_cons, List.lookup_cons, hkey]
      by_cases hother : other = name
      · rw [if_pos hother, hother, beq_self_eq_true]
      · rw [if_neg hother, beq_eq_false_iff_ne.mpr hother]
    · rw [List.lookup_cons, beq_eq_false_iff_ne.mpr (Ne.symm hkey)] at h
      rw [if_neg hkey, List.lookup_cons, List.lookup_cons, ih h]
      by_cases hother : other = name
      · rw [if_pos hother, if_pos hother, hother, beq_eq_false_iff_ne.mpr (Ne.symm hkey)]
      · rw [if_neg hother, if_neg hother]

/-- Only the slot itself holds another block. -/
theorem inSlot_setSlot {name : String} {slots : Slots} {c : Block} (h : inSlot slots name = some c)
    (d : Block) (other : String) :
    inSlot (setSlot name d slots) other = if other = name then some d else inSlot slots other := by
  rw [inSlot, Option.join_eq_some_iff] at h
  rw [inSlot, inSlot, lookup_setSlot h]
  split <;> rfl

theorem setSlot_self {name : String} {slots : Slots} {c : Block} (h : inSlot slots name = some c) :
    setSlot name c slots = slots := by
  induction slots with
  | nil => rfl
  | cons slot rest ih =>
    obtain ⟨key, link⟩ := slot
    rw [inSlot, List.lookup_cons] at h
    rw [setSlot]
    by_cases hkey : key = name
    · rw [hkey, beq_self_eq_true] at h
      rw [if_pos hkey, show some c = link from h.symm]
    · rw [beq_eq_false_iff_ne.mpr (Ne.symm hkey)] at h
      rw [if_neg hkey, ih h]

/-- The chain that is in a slot may be put there. -/
theorem withChain_self {b c : Block} {slot : String} (h : inSlot b.statements slot = some c) :
    b.withChain slot c = b := by
  rw [withChain, setSlot_self h]
  cases b
  rfl

theorem hasSlot_withChain (b : Block) (slot : String) (d : Block) (name : String) :
    (b.withChain slot d).hasSlot name = b.hasSlot name := by
  have hany := congrArg (List.any · (· = name)) (map_fst_setSlot slot d b.statements)
  rw [List.any_map, List.any_map] at hany
  exact congrArg (b.values.any (·.1 = name) || ·) hany

theorem branchCount_withChain (b : Block) (slot : String) (d : Block) (attached : Bool) :
    ((b.withChain slot d).site attached).branchCount = (b.site attached).branchCount := by
  -- The count reads no more of the slots than their names.
  have hleast := (b.withChain slot d).isLeast_branchCount attached
  simp only [hasSlot_withChain] at hleast
  exact hleast.unique (b.isLeast_branchCount attached)

section
variable {b c : Block} {slot : String} (h : inSlot b.statements slot = some c) (d : Block)
  (attached : Bool)
include h

/-- Another chain in a slot is what the slot gives. -/
theorem chain_withChain_self : ((b.withChain slot d).site attached).chain slot =
    d.code true false >>= Site.chainLines d.kind := by
  have hslot : Site.inSlot ((b.withChain slot d).site attached).statements slot = _ :=
    inSlot_inputs (setSlot slot d b.statements) slot
  rw [Site.chain_eq, hslot, inSlot_setSlot h, if_pos rfl]
  rfl

/-- The other slots give what they give. -/
theorem chain_withChain_of_ne {other : String} (hother : other ≠ slot) :
    ((b.withChain slot d).site attached).chain other = (b.site attached).chain other := by
  have hslot : Site.inSlot ((b.withChain slot d).site attached).statements other =
      Site.inSlot (b.site attached).statements other := by
    change Site.inSlot (inputs (setSlot slot d b.statements)) other =
      Site.inSlot (inputs b.statements) other
    rw [inSlot_inputs, inSlot_inputs, inSlot_setSlot h, if_neg hother]
  rw [Site.chain_eq, Site.chain_eq, hslot]

end

end Block

/-! ## Around a body -/

/-- The numbers below a bound split at one of them. -/
theorem range_around {n k : Nat} (h : n < k) :
    List.range k = List.range n ++ n :: List.range' (n + 1) (k - (n + 1)) := by
  have hsplit : k = n + (k - (n + 1) + 1) := by omega
  have happend := List.range'_append_1 (s := 0) (m := n) (n := k - (n + 1) + 1)
  rw [Nat.zero_add, ← hsplit] at happend
  rw [List.range_eq_range', List.range_eq_range', ← happend, List.range'_succ]

namespace Text

/-- Where there is a text ahead, a separator goes between it and the others. -/
theorem join_cons {texts : List String} (h : texts ≠ []) (separator s : String) :
    join separator (s :: texts) = s ++ separator ++ join separator texts := by
  obtain ⟨t, rest, rfl⟩ := List.exists_cons_of_ne_nil h
  rfl

/-- A separator goes behind each text ahead of one of them, and ahead of each text behind it. -/
theorem join_around (separator : String) (before after : List String) (s : String) :
    join separator (before ++ s :: after) =
      String.join (before.map (· ++ separator)) ++ s ++
        String.join (after.map (separator ++ ·)) := by
  have hbehind : ∀ t,
      join separator (t :: after) = t ++ String.join (after.map (separator ++ ·)) := by
    induction after with
    | nil => exact fun t => (String.append_empty (s := t)).symm
    | cons u rest ih =>
      intro t
      rw [join_cons (List.cons_ne_nil u rest), ih, List.map_cons, String.join_cons]
      simp only [String.append_assoc]
  induction before with
  | nil => rw [List.nil_append, hbehind, List.map_nil, String.join_nil, String.empty_append]
  | cons t rest ih =>
    have hne : rest ++ s :: after ≠ [] :=
      List.append_ne_nil_of_right_ne_nil _ (List.cons_ne_nil _ _)
    rw [List.cons_append, join_cons hne, ih, List.map_cons, String.join_cons]
    simp only [String.append_assoc]

end Text

namespace Site

variable (site : Site)

/-- What a conditional writes ahead of the chain of a branch: the branches ahead, and the
    condition. -/
def aheadOfBody (n : Nat) : Gen String := do
  let options ← Gen.options
  let hook ← Gen.lift (site.hookText options.statementPrefix)
  let branches ← (List.range n).mapM site.conditionalBranch
  let condition ← site.valueOr ("IF" ++ toString n) .none "false"
  let line ← site.branchHook
  return hook ++ String.join (branches.map (· ++ " else ")) ++ "if (" ++ condition ++ ") \x7b\n"
    ++ line

/-- What a conditional writes behind the chain of a branch: the branches behind it, and the last
    one. -/
def behindBody (n : Nat) : Gen String := do
  let branches ← (List.range' (n + 1) (site.branchCount - (n + 1))).mapM site.conditionalBranch
  let options ← Gen.options
  let last ← Block.lastBranch site options
  return "\x7d" ++ String.join (branches.map (" else " ++ ·)) ++ last ++ "\n"

/-- A conditional writes the chain of each of its branches once. -/
theorem conditional_around {n : Nat} (h : n < site.branchCount) : site.conditional = (do
    let ahead ← site.aheadOfBody n
    let body ← site.chain ("DO" ++ toString n)
    let behind ← site.behindBody n
    return ahead ++ body ++ behind) := by
  -- The settings of a run are the same in both parts and in the rounds that they are made of.
  funext o
  have hahead : site.aheadOfBody n o = (do
      let hook ← Gen.lift (site.hookText o.statementPrefix)
      let branches ← (List.range n).mapM site.conditionalBranch
      let condition ← site.valueOr ("IF" ++ toString n) .none "false"
      let line ← site.branchHook
      return hook ++ String.join (branches.map (· ++ " else ")) ++ "if (" ++ condition ++ ") \x7b\n"
        ++ line : Gen String) o := rfl
  have hbehind : site.behindBody n o = (do
      let branches ← (List.range' (n + 1) (site.branchCount - (n + 1))).mapM site.conditionalBranch
      let last ← Block.lastBranch site o
      return "\x7d" ++ String.join (branches.map (" else " ++ ·)) ++ last ++ "\n" : Gen String) o :=
    (Gen.congruence_at o).bind rfl fun _ => rfl
  rw [site.conditional_at]
  refine Eq.trans ?_ ((Gen.congruence_at o).bind hahead.symm fun _ =>
    (Gen.congruence_at o).bind rfl fun _ => (Gen.congruence_at o).bind hbehind.symm fun _ => rfl)
  simp only [range_around h, List.mapM_append, List.mapM_cons, conditionalBranch, branch, bind_assoc,
    pure_bind, Text.join_around, String.append_assoc]

end Site

namespace Block

/-! ## Bodies -/

theorem body_ne_else (n : Nat) : "ELSE" ≠ "DO" ++ toString n := by
  intro h
  have hfirst := congrArg (fun s => s.toList.head?) h
  simp at hfirst

section
variable {b c : Block} {n : Nat} (h : inSlot b.statements ("DO" ++ toString n) = some c) (d : Block)
  (attached : Bool)
include h

/-- The other branches of a conditional are the same with another chain in one of them. -/
theorem conditionalBranch_withChain {i : Nat} (hi : i ≠ n) :
    ((b.withChain ("DO" ++ toString n) d).site attached).conditionalBranch i =
      (b.site attached).conditionalBranch i := by
  have hslot : "DO" ++ toString i ≠ "DO" ++ toString n :=
    fun heq => hi (NameTable.append_toString_injective "DO" heq)
  rw [Site.conditionalBranch, Site.branch, chain_withChain_of_ne h d attached hslot]
  rfl

theorem lastBranch_withChain (options : Options) :
    lastBranch ((b.withChain ("DO" ++ toString n) d).site attached) options =
      lastBranch (b.site attached) options := by
  rw [lastBranch, lastBranch, hasSlot_site, hasSlot_site, hasSlot_withChain, Site.branch,
    Site.branch, chain_withChain_of_ne h d attached (body_ne_else n)]
  rfl

theorem aheadOfBody_withChain :
    ((b.withChain ("DO" ++ toString n) d).site attached).aheadOfBody n =
      (b.site attached).aheadOfBody n := by
  have hbranches : (List.range n).mapM
      ((b.withChain ("DO" ++ toString n) d).site attached).conditionalBranch =
      (List.range n).mapM (b.site attached).conditionalBranch :=
    Gen.Congruence.eq.mapM fun i hi =>
      conditionalBranch_withChain h d attached (List.mem_range.mp hi).ne
  rw [Site.aheadOfBody, hbranches]
  rfl

theorem behindBody_withChain :
    ((b.withChain ("DO" ++ toString n) d).site attached).behindBody n =
      (b.site attached).behindBody n := by
  rw [Site.behindBody, Site.behindBody, branchCount_withChain]
  refine Gen.Congruence.eq.bind (Gen.Congruence.eq.mapM fun i hi => ?_) fun branches => ?_
  · exact conditionalBranch_withChain h d attached (by
      have := List.mem_range'_1.mp hi
      omega)
  · simp only [lastBranch_withChain h]

/-- A conditional that does not reach a body is the same with another chain there. -/
theorem conditional_withChain (hn : (b.site attached).branchCount ≤ n) :
    ((b.withChain ("DO" ++ toString n) d).site attached).conditional =
      (b.site attached).conditional := by
  have hbranches : (List.range (b.site attached).branchCount).mapM
      ((b.withChain ("DO" ++ toString n) d).site attached).conditionalBranch =
      (List.range (b.site attached).branchCount).mapM (b.site attached).conditionalBranch := by
    refine Gen.Congruence.eq.mapM fun i hi => conditionalBranch_withChain h d attached ?_
    have := List.mem_range.mp hi
    omega
  rw [conditional_eq, conditional_eq, branchCount_withChain, hbranches]
  simp only [lastBranch_withChain h]
  rfl

end

/-- The chain in a numbered slot for bodies is generated once, in its place, whatever chain it is, if
    its number is below the first one, from one on, that has no slot of a condition; it may be zero
    without a condition. Whatever chain is in a later slot for bodies, the code is the same. -/
theorem rule_body {b : Block}
    (hkind : b.kind = .statement .conditional ∨ b.kind = .statement .conditionalElse)
    (attached : Bool) :
    ∃ k, IsLeast {n | 1 ≤ n ∧ b.hasSlot ("IF" ++ toString n) = false} k ∧
      ∀ n c, inSlot b.statements ("DO" ++ toString n) = some c →
        b.withChain ("DO" ++ toString n) c = b ∧
        (n < k → ∃ before after : Gen String, ∀ d,
          ((b.withChain ("DO" ++ toString n) d).site attached).rule = (do
            let ahead ← before
            let body ← d.code true false >>= Site.chainLines d.kind
            let behind ← after
            return some (.statement (ahead ++ body ++ behind)))) ∧
        (k ≤ n → ∀ d alone, (b.withChain ("DO" ++ toString n) d).code attached alone =
          b.code attached alone) := by
  refine ⟨(b.site attached).branchCount, b.isLeast_branchCount attached, fun n c h => ?_⟩
  -- The count is the same for each chain, so one round reads the slot for all of them, or none does.
  refine ⟨withChain_self h, fun hn => ?_, fun hn d alone => ?_⟩
  · refine ⟨(b.site attached).aheadOfBody n, (b.site attached).behindBody n, fun d => ?_⟩
    have hreached : n < ((b.withChain ("DO" ++ toString n) d).site attached).branchCount := by
      rw [branchCount_withChain]
      exact hn
    rw [rule_eq_conditional (b := b.withChain ("DO" ++ toString n) d) hkind,
      Site.conditional_around _ hreached,
      aheadOfBody_withChain h, chain_withChain_self h, behindBody_withChain h]
    simp only [map_eq_pure_bind, bind_assoc, pure_bind]
  · have hrule : ((b.withChain ("DO" ++ toString n) d).site attached).rule =
        (b.site attached).rule := by
      rw [rule_eq_conditional (b := b.withChain ("DO" ++ toString n) d) hkind,
        rule_eq_conditional hkind, conditional_withChain h d attached hn]
    rw [code_eq_site_code, code_eq_site_code, Site.code_eq, Site.code_eq, hrule]
    rfl

end Block

/-- A conditional without a slot for its first condition and with a gap in the slots for the
    others. -/
def gappedConditions : Block :=
  .mk ⟨.statement .conditional, "if", [], .null, .bool false, true, []⟩
    [("IF1", none), ("IF3", none)]
    [("DO0", some (plainAssignment "a")), ("DO1", some (plainAssignment "b")),
      ("DO3", some (plainAssignment "c"))] none

theorem rule_body_gappedConditions :
    (∀ slot ∈ ["DO0", "DO1"], ∃ before after : Gen String, ∀ d,
      ((gappedConditions.withChain slot d).site false).rule = (do
        let ahead ← before
        let body ← d.code true false >>= Site.chainLines d.kind
        let behind ← after
        return some (.statement (ahead ++ body ++ behind)))) ∧
    ∀ d alone, (gappedConditions.withChain "DO3" d).code false alone =
      gappedConditions.code false alone := by
  obtain ⟨k, hleast, hbody⟩ := Block.rule_body (b := gappedConditions) (Or.inl rfl) false
  obtain rfl := hleast.unique
    (Block.isLeast_two (b := gappedConditions) (by decide +kernel) (by decide +kernel))
  refine ⟨List.forall_mem_cons.mpr ⟨?_, List.forall_mem_singleton.mpr ?_⟩, ?_⟩
  · exact (hbody 0 (plainAssignment "a") (by with_unfolding_all rfl)).2.1 (by decide)
  · exact (hbody 1 (plainAssignment "b") (by with_unfolding_all rfl)).2.1 (by decide)
  · exact (hbody 3 (plainAssignment "c") (by with_unfolding_all rfl)).2.2 (by decide)

/-- A conditional with a body for a second branch, but without a slot for its condition. -/
def bodyWithoutCondition : Block :=
  .mk ⟨.statement .conditional, "if", [], .null, .bool false, true, []⟩ []
    [("DO1", some (plainAssignment "x"))] none

/-- A body is not generated if there is no slot for its condition. -/
theorem programText_bodyWithoutCondition :
    Block.inSlot bodyWithoutCondition.statements "DO1" = some (plainAssignment "x") ∧
    (Workspace.mk [] [plainAssignment "x"] .default).programText .default = .ok "x = 0;\n" ∧
    (Workspace.mk [] [bodyWithoutCondition] .default).programText .default =
      .ok "if (false) \x7b\n\x7d\n" :=
  ⟨rfl, by with_unfolding_all rfl, by with_unfolding_all rfl⟩

end BlockScript
