/-
  BlockScript.Proofs.Conditional.Branches

  What a conditional is made of. It has a branch for each numbered slot of a condition up to the
  first number that has none, and one for number zero in any case; the slots are read in that order,
  each condition ahead of its body. Without hooks its text is that of the branches, with the bodies
  behind an indent.
-/
import BlockScript.Proofs.Comment.Insertion
import BlockScript.Proofs.Generate.Congruence
import BlockScript.Proofs.Literal.Forced
import BlockScript.Proofs.Literal.Statement
import BlockScript.Proofs.Name.Allocation
import BlockScript.Proofs.Substring.Index
import Mathlib.Order.Bounds.Basic

namespace BlockScript

/-! ## Numbered slots -/

/-- The numbers at the front of a range that have a property are those below the first one that does
    not, if that is in the range or right behind it. -/
theorem takeWhile_range {p : Nat → Bool} {first n : Nat} (hle : first ≤ n)
    (hbelow : ∀ j < first, p j = true) (hfirst : p first = false) :
    (List.range n).takeWhile p = List.range first := by
  obtain ⟨m, rfl⟩ := Nat.exists_eq_add_of_le hle
  rw [List.range_add, List.takeWhile_append_of_pos fun j hj => hbelow j (List.mem_range.mp hj)]
  cases m with
  | zero => simp
  | succ m =>
    have hstop : ¬ p (first + 0) = true := by
      rw [Nat.add_zero, hfirst]
      exact Bool.false_ne_true
    rw [List.range_succ_eq_map, List.map_cons, List.takeWhile_cons_of_neg hstop, List.append_nil]

/-- So there are as many of them as the least number without the property says. -/
theorem isLeast_takeWhile_range {p : Nat → Bool} {n i : Nat} (hi : i ≤ n) (hnot : p i = false) :
    IsLeast {j | p j = false} ((List.range n).takeWhile p).length := by
  have hexists : ∃ j, p j = false := ⟨i, hnot⟩
  have hbelow : ∀ j < Nat.find hexists, p j = true :=
    fun j hj => Bool.eq_true_of_not_eq_false (Nat.find_min hexists hj)
  have hle : Nat.find hexists ≤ n := (Nat.find_min' hexists hnot).trans hi
  rw [takeWhile_range hle hbelow (Nat.find_spec hexists), List.length_range]
  exact ⟨Nat.find_spec hexists, fun j hj => Nat.find_min' hexists hj⟩

namespace Block

variable (b : Block) (attached : Bool)

theorem hasSlot_site (name : String) : (b.site attached).hasSlot name = b.hasSlot name := by
  have hany : ∀ slots : Slots, (inputs slots).any (·.1 = name) = slots.any (·.1 = name) := by
    intro slots
    have hnames := congrArg (List.any · (· = name)) (map_fst_inputs slots)
    rwa [List.any_map, List.any_map] at hnames
  rw [Site.hasSlot, hasSlot]
  exact congrArg₂ _ (hany b.values) (hany b.statements)

theorem mem_slots_of_hasSlot {name : String} (h : b.hasSlot name = true) :
    name ∈ (b.values ++ b.statements).map (·.1) := by
  rw [hasSlot, ← List.any_append, List.any_eq_true] at h
  obtain ⟨slot, hslot, hname⟩ := h
  exact List.mem_map.mpr ⟨slot, hslot, of_decide_eq_true hname⟩

/-- Among numbers from one on, one more than there are slots, one has no slot of a condition. -/
theorem exists_hasSlot_eq_false :
    ∃ i ≤ b.values.length + b.statements.length, b.hasSlot ("IF" ++ toString (i + 1)) = false := by
  -- Otherwise there would be more numbered names of slots, all distinct, than there are slots.
  by_contra hall
  have hnodup : ((List.range (b.values.length + b.statements.length + 1)).map
      fun i => "IF" ++ toString (i + 1)).Nodup := by
    refine List.Nodup.map (fun i j hij => ?_) List.nodup_range
    have := NameTable.append_toString_injective "IF" hij
    omega
  have hsub : (List.range (b.values.length + b.statements.length + 1)).map
      (fun i => "IF" ++ toString (i + 1)) ⊆ (b.values ++ b.statements).map (·.1) := by
    intro name hname
    obtain ⟨i, hi, rfl⟩ := List.mem_map.mp hname
    apply b.mem_slots_of_hasSlot
    by_contra hnot
    have hle : i ≤ b.values.length + b.statements.length := by
      have := List.mem_range.mp hi
      omega
    exact hall ⟨i, hle, Bool.eq_false_of_not_eq_true hnot⟩
  have hlength := hnodup.length_le_of_subset hsub
  simp at hlength

/-- A conditional has as many branches as the least number, from one on, that has no slot of a
    condition. -/
theorem isLeast_branchCount :
    IsLeast {n | 1 ≤ n ∧ b.hasSlot ("IF" ++ toString n) = false} (b.site attached).branchCount := by
  have hlength : ∀ slots : Slots, (inputs slots).length = slots.length := by
    intro slots
    simpa using congrArg List.length (map_fst_inputs slots)
  have hvalues : (b.site attached).values.length = b.values.length := hlength b.values
  have hstatements : (b.site attached).statements.length = b.statements.length :=
    hlength b.statements
  obtain ⟨i, hi, hnot⟩ := b.exists_hasSlot_eq_false
  -- The count is of numbers from zero on, each of which stands for the slot of the next number.
  have hleast :=
    isLeast_takeWhile_range (p := fun i => b.hasSlot ("IF" ++ toString (i + 1))) hi hnot
  simp only [Site.branchCount, hvalues, hstatements, hasSlot_site]
  refine ⟨⟨Nat.le_add_left 1 _, hleast.1⟩, fun n hn => ?_⟩
  obtain ⟨hpositive, hslot⟩ := hn
  obtain ⟨m, rfl⟩ := Nat.exists_eq_add_of_le' hpositive
  exact Nat.add_le_add_right (hleast.2 hslot) 1

/-- With a slot of a condition for number one, and none for number two, there are two branches. -/
theorem isLeast_two {b : Block} (hone : b.hasSlot ("IF" ++ toString 1) = true)
    (htwo : b.hasSlot ("IF" ++ toString 2) = false) :
    IsLeast {n | 1 ≤ n ∧ b.hasSlot ("IF" ++ toString n) = false} 2 := by
  refine ⟨⟨by decide, htwo⟩, fun n hn => ?_⟩
  obtain ⟨hpositive, hslot⟩ := hn
  by_contra hlt
  obtain rfl : n = 1 := by omega
  rw [hone] at hslot
  cases hslot

end Block

/-! ## Lines -/

namespace Text

/-- The lines of a text, each with the line feed that ends it; the last one need not have any. -/
def endedLines : List Char → List (List Char)
  | [] => []
  | c :: rest =>
    if c = '\n' then [c] :: endedLines rest
    else match endedLines rest with
      | line :: lines => (c :: line) :: lines
      | [] => [[c]]

/-- A text with an indent ahead of each of its lines. -/
def indentedLines (lead s : String) : String :=
  String.ofList ((endedLines s.toList).flatMap (lead.toList ++ ·))

theorem endedLines_ne_nil {s : List Char} (h : s ≠ []) : endedLines s ≠ [] := by
  cases s with
  | nil => exact absurd rfl h
  | cons c rest =>
    rw [endedLines]
    split
    · exact List.cons_ne_nil _ _
    · split <;> exact List.cons_ne_nil _ _

/-- An indent ahead of a text and behind each line feed that something follows is one ahead of each
    line. -/
theorem flatMap_endedLines {s : List Char} (h : s ≠ []) (lead : List Char) :
    (endedLines s).flatMap (lead ++ ·) = lead ++ insertAfterBreaks lead s := by
  induction s with
  | nil => exact absurd rfl h
  | cons c rest ih =>
    rw [insertAfterBreaks_cons, endedLines]
    cases hrest : rest with
    | nil =>
      rw [endedLines]
      split <;> simp [insertAfterBreaks]
    | cons d more =>
      have hne : rest ≠ [] := hrest ▸ List.cons_ne_nil d more
      rw [← hrest]
      by_cases hc : c = '\n'
      · rw [if_pos hc, if_pos ⟨hc, hne⟩, List.flatMap_cons, ih hne]
        simp
      · rw [if_neg hc, if_neg fun h => hc h.1]
        obtain ⟨line, lines, hlines⟩ := List.exists_cons_of_ne_nil (endedLines_ne_nil hne)
        have hbehind := ih hne
        rw [hlines, List.flatMap_cons, List.append_assoc] at hbehind
        rw [hlines, List.flatMap_cons, ← List.append_cancel_left hbehind]
        simp

/-- An indent that is no template goes ahead of each line. -/
theorem prefixLines_eq {lead s : String} (hlead : Script.Inert lead.toList) (hs : s ≠ "") :
    prefixLines s lead = .ok (indentedLines lead s) := by
  have hne : s.toList ≠ [] := fun h => hs (String.toList_eq_nil_iff.mp h)
  rw [Script.prefixLines_of_inert hlead, indentedLines, flatMap_endedLines hne,
    String.ofList_append, String.ofList_toList]

end Text

/-! ## Steps under settings -/

namespace Gen

/-- Steps that are equal under certain settings may be put together. -/
theorem congruence_at (o : Options) :
    Congruence (fun a b => a = o ∧ b = o) fun m m' => m o = m' o where
  pure _ := rfl
  throw _ _ := rfl
  wrapped _ _ _ _ _ _ := rfl
  bind := bind_at
  options hf := hf o o ⟨rfl, rfl⟩
  requirePass := rfl
  record _ := rfl
  call source _ _ h := bind_at rfl fun _ => bind_at h fun _ => rfl
  routine _ _ _ := rfl
where
  bind_at {α β : Type} {m m' : Gen α} {f f' : α → Gen β} (hm : m o = m' o)
      (hf : ∀ a, f a o = f' a o) : (m >>= f) o = (m' >>= f') o := by
    funext p
    simp only [bind_apply, hm, hf]

variable {α β γ : Type}

/-- What is made of each result of a list may be made of all of them. -/
theorem mapM_map (m : α → Gen β) (f : β → γ) (l : List α) :
    (l.mapM fun a => f <$> m a) = List.map f <$> l.mapM m := by
  induction l with
  | nil => simp
  | cons a rest ih =>
    rw [List.mapM_cons, List.mapM_cons, ih]
    simp only [map_eq_pure_bind, bind_assoc, pure_bind, List.map_cons]

/-- What comes behind steps for the items of a list finds as many results, so one at least if there
    is an item. -/
theorem mapM_bind_congr {m : α → Gen β} {f f' : List β → Gen γ} {l : List α} (hl : l ≠ [])
    (h : ∀ b bs, f (b :: bs) = f' (b :: bs)) : l.mapM m >>= f = l.mapM m >>= f' := by
  obtain ⟨a, rest, rfl⟩ := List.exists_cons_of_ne_nil hl
  rw [List.mapM_cons]
  simp only [bind_assoc, pure_bind, h]

end Gen

/-- A conditional under given settings. -/
theorem Site.conditional_at (site : Site) (o : Options) : site.conditional o = (do
    let hook ← Gen.lift (site.hookText o.statementPrefix)
    let branches ← (List.range site.branchCount).mapM site.conditionalBranch
    let last ← Block.lastBranch site o
    return hook ++ Text.join " else " branches ++ last ++ "\n" : Gen String) o := by
  rw [Block.conditional_eq]
  rfl

/-! ## Branches -/

/-- Settings without hooks for statements, and with an indent of spaces and tabs. -/
structure Options.IsUnhooked (o : Options) (lead : String) : Prop where
  statementPrefix : o.statementPrefix.isTruthy = false
  statementSuffix : o.statementSuffix.isTruthy = false
  indent : o.indent = .str lead
  blank : ∀ c ∈ lead.toList, c = ' ' ∨ c = '\t'

/-- A condition with its body, up to the bracket that ends it. -/
def branchText (lead : String) (branch : String × String) : String :=
  "if (" ++ branch.1 ++ ") \x7b\n" ++ Text.indentedLines lead branch.2

/-- The text of a conditional: its branches, and the last body if there is one. -/
def conditionalText (lead : String) (branches : List (String × String)) (last : Option String) :
    String :=
  Text.join "\x7d else " (branches.map (branchText lead))
    ++ (last.elim "" fun body => "\x7d else \x7b\n" ++ Text.indentedLines lead body) ++ "\x7d\n"

namespace Block

/-- The condition of a branch without parentheses of its own; a missing one is false. -/
def condition (b : Block) (i : Nat) : Gen String := do
  let (text, _) ← (b.site false).supplied ("IF" ++ toString i) "false"
  return text

/-- The text of the chain in a slot without an indent. An empty slot has no text. -/
def body (b : Block) (slot : String) : Gen String :=
  match inSlot b.statements slot with
  | none => pure ""
  | some c => do
    match ← c.code true false with
    | .statement text => return text
    | .expression _ _ => throw (.valueInStatementSlot c.kind)

/-- A branch: its condition, and then its body. -/
def round (b : Block) (i : Nat) : Gen (String × String) := do
  let condition ← b.condition i
  let body ← b.body ("DO" ++ toString i)
  return (condition, body)

/-- The body of the last branch, if there is a slot for it. -/
def lastBody (b : Block) : Gen (Option String) :=
  if b.hasSlot "ELSE" then some <$> b.body "ELSE" else pure none

section

variable {o : Options} {lead : String} (ho : o.IsUnhooked lead) (b : Block) (attached : Bool)
include ho

/-- An indent of spaces and tabs goes ahead of each line. -/
theorem indented_at {s : String} (hs : s ≠ "") :
    Site.indented s o = (pure (Text.indentedLines lead s) : Gen String) o := by
  have hinert : Script.Inert lead.toList := by
    intro c hc
    rcases ho.blank c hc with rfl | rfl <;> decide
  have hindent : o.indentText = .ok lead := by
    rw [Options.indentText, ho.indent]
    rfl
  change (Gen.lift o.indentText >>= fun lead => Gen.lift (Text.prefixLines s lead)) o = _
  rw [hindent, Gen.lift_ok, pure_bind, Text.prefixLines_eq hinert hs, Gen.lift_ok]

/-- A slot gives its chain with an indent ahead of each line. -/
theorem chain_at (slot : String) :
    (b.site attached).chain slot o = (Text.indentedLines lead <$> b.body slot) o := by
  have hslot : Site.inSlot (b.site attached).statements slot = _ := inSlot_inputs b.statements slot
  rw [Site.chain_eq, hslot, body]
  cases inSlot b.statements slot with
  | none => rfl
  | some c =>
    rw [map_bind]
    apply (Gen.congruence_at o).bind rfl
    intro code
    cases code with
    | expression text order => rfl
    | statement text =>
      rw [Site.chainLines]
      -- An empty text has no line, so the indent is not asked for.
      split
      · rename_i hempty
        rw [hempty]
        rfl
      · rename_i hne
        exact indented_at ho hne

/-- Without hooks a branch has nothing ahead of its chain. -/
theorem branch_at (slot : String) :
    (b.site attached).branch slot o = (Text.indentedLines lead <$> b.body slot) o := by
  have hhook : (b.site attached).branchHook o = (pure "" : Gen String) o := by
    change (Gen.lift ((b.site attached).hookText o.statementSuffix) >>= fun hook =>
      if hook = "" then pure "" else Site.indented hook : Gen String) o = _
    rw [hookText_eq_empty _ ho.statementSuffix]
    rfl
  rw [← chain_at ho b attached slot, Site.branch]
  refine ((Gen.congruence_at o).bind hhook fun _ => rfl).trans ?_
  simp only [pure_bind, String.empty_append, bind_pure]

theorem conditionalBranch_at (i : Nat) :
    (b.site attached).conditionalBranch i o =
      ((fun branch => branchText lead branch ++ "\x7d") <$> b.round i) o := by
  have hcondition :
      (b.site attached).valueOr ("IF" ++ toString i) .none "false" = b.condition i := by
    rw [Site.valueOr_eq]
    simp only [wrap_none]
    rfl
  rw [Site.conditionalBranch, hcondition, round, map_bind]
  apply (Gen.congruence_at o).bind rfl
  intro condition
  refine ((Gen.congruence_at o).bind (branch_at ho b attached _) fun _ => rfl).trans ?_
  simp only [map_eq_pure_bind, bind_assoc, pure_bind]
  rfl

theorem lastBranch_at :
    lastBranch (b.site attached) o o = ((fun last => last.elim "" fun body =>
      " else \x7b\n" ++ Text.indentedLines lead body ++ "\x7d") <$> b.lastBody) o := by
  rw [lastBranch, hasSlot_site, ho.statementSuffix, Bool.or_false, lastBody]
  split
  · refine ((Gen.congruence_at o).bind (branch_at ho b attached _) fun _ => rfl).trans ?_
    simp only [map_eq_pure_bind, bind_assoc, pure_bind]
    rfl
  · rfl

end

end Block

/-- An ending behind each of several texts goes ahead of each separator, and behind the last
    text. -/
theorem Text.join_ended (separator ending s : String) (texts : List String) :
    join separator ((s :: texts).map (· ++ ending)) =
      join (ending ++ separator) (s :: texts) ++ ending := by
  induction texts generalizing s with
  | nil => rfl
  | cons t rest ih =>
    have hrest := ih t
    rw [List.map_cons] at hrest
    rw [List.map_cons, List.map_cons, join, hrest, join]
    simp only [String.append_assoc]

/-- A conditional is made of branches that have a bracket each behind them. -/
theorem conditionalText_eq (lead : String) (branch : String × String)
    (branches : List (String × String)) (last : Option String) :
    Text.join " else " ((branch :: branches).map fun branch => branchText lead branch ++ "\x7d")
      ++ (last.elim "" fun body => " else \x7b\n" ++ Text.indentedLines lead body ++ "\x7d")
      ++ "\n" =
    conditionalText lead (branch :: branches) last := by
  have hended := Text.join_ended " else " "\x7d" (branchText lead branch)
    (branches.map (branchText lead))
  rw [← List.map_cons, List.map_map] at hended
  have hbranches : ((branch :: branches).map fun branch => branchText lead branch ++ "\x7d") =
      (branch :: branches).map ((· ++ "\x7d") ∘ branchText lead) := rfl
  have hbracket : "\x7d" ++ " else \x7b\n" = "\x7d else \x7b\n" := rfl
  have hfeed : "\x7d" ++ "\n" = "\x7d\n" := rfl
  have hseparator : "\x7d" ++ " else " = "\x7d else " := rfl
  rw [hbranches, hended, conditionalText, hseparator]
  cases last with
  | none => rw [Option.elim_none, Option.elim_none, String.append_empty, String.append_empty,
      String.append_assoc, hfeed]
  | some body =>
    rw [Option.elim_some, Option.elim_some, ← hbracket, ← hfeed]
    simp only [String.append_assoc]

namespace Block

/-- The rule for conditionals gives their text. -/
theorem rule_eq_conditional {b : Block}
    (hkind : b.kind = .statement .conditional ∨ b.kind = .statement .conditionalElse)
    (attached : Bool) : (b.site attached).rule =
      (fun text => some (.statement text)) <$> (b.site attached).conditional := by
  have hsite : (b.site attached).kind = b.kind := rfl
  rcases hkind with hkind | hkind
  · rw [Site.rule, hsite, hkind]
    simp only [Site.statement, map_eq_pure_bind, bind_assoc, pure_bind, Option.map_some]
  · rw [Site.rule, hsite, hkind]
    simp only [Site.statement, map_eq_pure_bind, bind_assoc, pure_bind, Option.map_some]

/-- The rule for conditionals gives a branch for each number ahead of the first one, from one on,
    that has no slot of a condition, and a last branch if there is a slot for it. -/
theorem rule_conditional {o : Options} {lead : String} {b : Block}
    (hkind : b.kind = .statement .conditional ∨ b.kind = .statement .conditionalElse)
    (ho : o.IsUnhooked lead) (attached : Bool) :
    ∃ k, IsLeast {n | 1 ≤ n ∧ b.hasSlot ("IF" ++ toString n) = false} k ∧
      (b.site attached).rule o = (do
        let branches ← (List.range k).mapM b.round
        let last ← b.lastBody
        return some (.statement (conditionalText lead branches last)) : Gen (Option Code)) o := by
  refine ⟨(b.site attached).branchCount, b.isLeast_branchCount attached, ?_⟩
  -- There is a branch, so a bracket behind each is one ahead of each separator and one at the end.
  have hcount : List.range (b.site attached).branchCount ≠ [] := by
    rw [Site.branchCount, List.range_succ]
    exact List.append_ne_nil_of_right_ne_nil _ (List.cons_ne_nil _ _)
  have hbranches :
      (List.range (b.site attached).branchCount).mapM (b.site attached).conditionalBranch o =
      (List.map (fun branch => branchText lead branch ++ "\x7d") <$>
        (List.range (b.site attached).branchCount).mapM b.round) o := by
    rw [← Gen.mapM_map]
    exact (Gen.congruence_at o).mapM fun i _ => conditionalBranch_at ho b attached i
  have hconditional : (b.site attached).conditional o = (do
      let branches ←
        (List.range (b.site attached).branchCount).mapM (b.site attached).conditionalBranch
      let last ← lastBranch (b.site attached) o
      return Text.join " else " branches ++ last ++ "\n" : Gen String) o := by
    rw [Site.conditional_at, hookText_eq_empty _ ho.statementPrefix, Gen.lift_ok, pure_bind]
    simp only [String.empty_append]
  rw [rule_eq_conditional hkind, map_eq_pure_bind]
  refine ((Gen.congruence_at o).bind hconditional fun _ => rfl).trans ?_
  rw [bind_assoc]
  refine ((Gen.congruence_at o).bind hbranches fun branches =>
    (Gen.congruence_at o).bind ((Gen.congruence_at o).bind (lastBranch_at ho b attached)
      fun _ => rfl) fun _ => rfl).trans ?_
  simp only [map_eq_pure_bind, bind_assoc, pure_bind]
  rw [Gen.mapM_bind_congr hcount]
  intro branch branches
  simp only [conditionalText_eq]

end Block

/-- An assignment to a variable. -/
def plainAssignment (name : String) : Block :=
  .mk ⟨.statement .assign, name, [(.str "VAR", .str name)], .null, .bool false, true, []⟩ [] [] none

/-- A conditional of two branches, the second one with an empty slot for its condition and without a
    body, and of a last branch. -/
def twoBranches : Block :=
  .mk ⟨.statement .conditional, "if", [], .null, .bool false, true, []⟩
    [("IF0", some (.mk
      ⟨.value .getVariable, "a", [(.str "VAR", .str "a")], .null, .bool true, true, []⟩ [] [] none)),
      ("IF1", none), ("IF3", none)]
    [("DO0", some (plainAssignment "b")), ("ELSE", some (plainAssignment "c"))] none

theorem rule_conditional_twoBranches :
    Options.default.IsUnhooked "  " ∧ ∃ q, (twoBranches.site false).rule .default
        (.start (.new reservedWords (some "")) []) = .ok (some (.statement
      "if (a) \x7b\n  b = 0;\n\x7d else if (false) \x7b\n\x7d else \x7b\n  c = 0;\n\x7d\n")) q := by
  have hdefault : Options.default.IsUnhooked "  " := by
    refine ⟨rfl, rfl, rfl, fun c hc => Or.inl ?_⟩
    simpa using hc
  obtain ⟨k, hleast, hrule⟩ := Block.rule_conditional (b := twoBranches) (Or.inl rfl) hdefault false
  obtain rfl := hleast.unique
    (Block.isLeast_two (b := twoBranches) (by decide +kernel) (by decide +kernel))
  refine ⟨hdefault, ?_⟩
  rw [hrule]
  exact ⟨_, by with_unfolding_all rfl⟩

end BlockScript
