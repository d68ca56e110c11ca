/-
  BlockScript.Proofs.Generate.Alone

  The code of a statement on its own. A chain is generated block by block: on its own a statement
  gives code that what follows has no part in, and with what follows it gives that code and goes on
  from the pass that it leaves. The exception is the definition of a procedure, in whose text the
  blocks that follow are written whether they are asked for or not.
-/
import BlockScript.Proofs.Generate.Composed
import BlockScript.Proofs.Generate.Placed

namespace BlockScript

/-! ## Sites -/

namespace Site

variable (site : Site)

/-- The block with nothing behind it. -/
def last : Site :=
  { site with next := none }

/-- A text with the code of what follows the block behind it. -/
def follow (text : String) : Gen String := do
  match ← site.nextCode with
  | .statement rest => return text ++ rest
  | .expression _ _ => throw .valueInChain

theorem complete_alone (code : String) :
    site.complete code true = (· ++ code) <$> site.comments := by
  rw [complete, map_eq_pure_bind]
  rfl

/-- What follows goes behind the code that is complete without it. -/
theorem complete_eq_follow (code : String) :
    site.complete code false = site.complete code true >>= site.follow := by
  rw [complete_alone, map_eq_pure_bind, bind_assoc, complete]
  simp only [pure_bind]
  rfl

/-- With nothing behind a block its code is complete without it. -/
theorem complete_last (code : String) :
    site.last.complete code false = site.complete code true := by
  have hfollow : site.last.follow = (pure : String → Gen String) := by
    funext text
    change (pure (text ++ "") : Gen String) = pure text
    rw [String.append_empty]
  rw [complete_eq_follow, hfollow, bind_pure]
  rfl

/-- What follows a procedure goes behind the text that it has without it. -/
theorem procedureText_eq_follow (options : Options) (name : String) :
    site.procedureText options name = site.last.procedureText options name >>= site.follow := by
  -- The text asks for what follows only where it is complete; the rest of it reads the block alone.
  have hcomplete : ∀ code,
      site.complete code false = site.last.complete code false >>= site.follow := by
    intro code
    rw [complete_last, complete_eq_follow]
  have hhook : site.last.hookText = site.hookText := rfl
  have hchain : site.last.chain = site.chain := rfl
  have hvalue : site.last.value = site.value := rfl
  have hhead : site.last.head = site.head := rfl
  simp only [procedureText, bind_assoc, hcomplete, hhook, hchain, hvalue, hhead]

/-- The definition of a procedure without what follows it: its emitted name and its text. -/
def definition : Gen (String × String) := do
  let options ← Gen.options
  let name ← site.procedureName
  let text ← site.last.procedureText options name
  return (name, text)

/-- A procedure is defined by its text with what follows it. -/
theorem defineProcedure_eq_follow : site.defineProcedure = (do
    let (name, text) ← site.definition
    let text ← site.follow text
    Gen.define name text) := by
  simp only [defineProcedure_eq, definition, procedureText_eq_follow site, bind_assoc, pure_bind]

/-- What a rule sees of a block does not change with what follows. -/
theorem matched_next (next : Option Input) :
    Matched Eq (fun m m' => m = m') { site with next } site where
  kind := rfl
  record _ _ _ := rfl
  fields _ _ := rfl
  mutation := rfl
  value _ _ := rfl
  hooks := .of_id rfl
  chain _ := rfl
  hasSlot _ := rfl
  slots := rfl

variable {site}

/-- The rule of a block that defines no procedure does not see what follows. -/
theorem rule_next (h : site.kind.definesProcedure = false) (next : Option Input) :
    ({ site with next } : Site).rule = site.rule := by
  apply (site.matched_next next).rule Gen.Congruence.eq fun _ _ h => h
  case hvariable => exact fun _ => rfl
  case hprocedure =>
    intro hdefines
    rw [h] at hdefines
    cases hdefines

/-- On its own a block does not see what follows, unless it defines a procedure. -/
theorem code_next (h : site.head.enabled = true → site.kind.definesProcedure = false)
    (next : Option Input) : ({ site with next } : Site).code true = site.code true := by
  -- What follows is asked for where the code is finished or passed over, and there the flag is read.
  have hpassed : passedOver { site with next } true = site.passedOver true := by
    rw [passedOver, passedOver, if_pos rfl, if_pos rfl]
    rfl
  have hfinished : finished { site with next } true = site.finished true := by
    funext result
    rcases result with _ | ⟨text⟩ | ⟨text, order⟩ <;> rfl
  rw [code_eq, code_eq, hpassed, hfinished]
  apply congrArg (bind Gen.requirePass)
  funext _
  change (if (!site.head.enabled) = true then _ else _) = _
  cases henabled : site.head.enabled with
  | false => simp only [Bool.not_false, if_true]
  | true => rw [rule_next (h henabled)]

/-- The rule for a statement that defines no procedure gives text. -/
theorem exists_statement {kind : StatementKind} (site : Site)
    (h : (Kind.statement kind).definesProcedure = false) :
    ∃ m : Gen String, site.statement kind = some <$> m := by
  cases kind with
  | function | procedure => cases h
  | _ => exact ⟨_, rfl⟩

end Site

namespace Block

/-! ## Blocks -/

/-- The block with another chain behind it, or none. -/
def withNext (next : Option Block) : Block → Block
  | mk head values statements _ => mk head values statements next

/-- The code of a block and the code of what follows it as one. Behind a block that is passed over
    the latter stays as it is; behind any other one it has to be text of statements. -/
def followed (b : Block) (code : Code) : Code → Gen Code
  | .statement rest => pure (.statement (code.text ++ rest))
  | .expression text order =>
    if b.head.enabled then throw .valueInChain else pure (.expression text order)

theorem site_withNext (b : Block) (next : Option Block) (attached : Bool) :
    (b.withNext next).site attached = { b.site attached with next := input next } := by
  cases b
  rfl

theorem definesProcedure_of_registers {b : Block} (h : b.registers = false)
    (henabled : b.head.enabled = true) : b.kind.definesProcedure = false := by
  rw [registers, henabled, Bool.true_and, Bool.or_eq_false_iff, decide_eq_false_iff_not,
    decide_eq_false_iff_not] at h
  obtain ⟨hfunction, hprocedure⟩ := h
  cases hkind : b.kind with
  | value kind => rfl
  | statement kind =>
    cases kind with
    | function => exact absurd hkind hfunction
    | procedure => exact absurd hkind hprocedure
    | _ => rfl

variable {b : Block} (attached : Bool)

/-- On its own a block that registers no definition gives what it gives with any other chain behind
    it. -/
theorem code_withNext (h : b.registers = false) (next : Option Block) :
    (b.withNext next).code attached true = b.code attached true := by
  rw [code_eq_site_code, code_eq_site_code, site_withNext]
  exact Site.code_next (definesProcedure_of_registers h) (input next)

/-- A block that is passed over leaves the code of what follows as it is. -/
theorem followed_of_disabled (henabled : b.head.enabled = false) :
    b.followed (.statement "") = pure := by
  funext code
  cases code with
  | statement rest => rw [followed, Code.text, String.empty_append]
  | expression text order => exact if_neg (ne_true_of_eq_false henabled)

/-- The text of a statement with the code of what follows it. -/
theorem followed_of_enabled (henabled : b.head.enabled = true) (text : String) :
    (b.site attached).nextCode >>= b.followed (.statement text) =
      Code.statement <$> (b.site attached).follow text := by
  have hfollowed : b.followed (.statement text) = fun rest => Code.statement <$> (match rest with
      | .statement rest => pure (text ++ rest)
      | .expression _ _ => throw .valueInChain : Gen String) := by
    funext rest
    cases rest with
    | statement rest => rfl
    | expression rest order => exact if_pos henabled
  rw [hfollowed, Site.follow, map_bind]

/-- With what follows a statement that registers no definition gives the code that it gives on its
    own, and then goes on. -/
theorem code_eq_followed {kind : StatementKind} (hkind : b.kind = .statement kind)
    (h : b.registers = false) : b.code attached false = (do
      let code ← b.code attached true
      let rest ← linkCode true b.next
      b.followed code rest) := by
  rw [code_eq_site_code, code_eq_site_code, Site.code_eq, Site.code_eq, ← nextCode_site b attached]
  simp only [bind_assoc]
  apply congrArg (bind Gen.requirePass)
  funext _
  cases henabled : b.head.enabled with
  | false =>
    -- Nothing is joined to the code of what follows, so it may be that of a value as well.
    have hdisabled : (b.site attached).head.enabled = false := henabled
    simp only [hdisabled, Bool.not_false, if_true, Site.passedOver, bind_assoc, pure_bind,
      Bool.false_eq_true, if_false, followed_of_disabled henabled, bind_pure]
  | true =>
    have henabled' : (b.site attached).head.enabled = true := henabled
    have hsite : (b.site attached).kind = .statement kind := hkind
    -- The rule gives text, so what the block gives on its own is text that another may follow.
    have hdefines := hkind ▸ definesProcedure_of_registers h henabled
    obtain ⟨m, hm⟩ := Site.exists_statement (b.site attached) hdefines
    simp only [henabled', Bool.not_true, Bool.false_eq_true, if_false, Site.rule, hsite, hm,
      map_eq_pure_bind, bind_assoc, pure_bind, Option.map_some, Site.finished,
      Site.complete_eq_follow, followed_of_enabled attached henabled]

/-- With or without what follows, the definition of a procedure takes it in: the code of the chain
    goes behind the text of the procedure, and the block itself has no code. -/
theorem code_of_registers (h : b.registers = true) (alone : Bool) : b.code attached alone = (do
    Gen.requirePass
    let (name, text) ← (b.site attached).definition
    let text ← (b.site attached).follow text
    Gen.define name text
    return .statement "") := by
  rw [registers, Bool.and_eq_true, Bool.or_eq_true, decide_eq_true_eq, decide_eq_true_eq] at h
  obtain ⟨henabled, hkind⟩ := h
  have henabled' : (b.site attached).head.enabled = true := henabled
  have hrule : (b.site attached).rule = (do
      (b.site attached).defineProcedure
      return none) := by
    have hsite : (b.site attached).kind = b.kind := rfl
    rcases hkind with hkind | hkind
    · rw [Site.rule, hsite, hkind]
      simp only [Site.statement, bind_assoc, pure_bind, Option.map_none]
    · rw [Site.rule, hsite, hkind]
      simp only [Site.statement, bind_assoc, pure_bind, Option.map_none]
  rw [code_eq_site_code, Site.code_eq]
  simp only [henabled', Bool.not_true, Bool.false_eq_true, if_false, hrule,
    Site.defineProcedure_eq_follow, bind_assoc, pure_bind, Site.finished]

/-! ## On its own -/

/-- A statement that registers no definition gives on its own what it gives with any other chain
    behind it, or none, and leaves the same pass; with the chain that follows it gives that, and the
    code of the chain from that pass behind it. A procedure gives no code of its own in either case.
    The code of what follows it, whether asked for or not, goes behind the text that it has without
    it, into its definition. -/
theorem code_alone {kind : StatementKind} (hkind : b.kind = .statement kind) :
    (b.registers = false →
      (∀ next, (b.withNext next).code attached true = b.code attached true) ∧
      b.code attached false = (do
        let code ← b.code attached true
        let rest ← linkCode true b.next
        b.followed code rest)) ∧
    (b.registers = true → ∃ definition : Gen (String × String), ∀ next alone,
      (b.withNext next).code attached alone = (do
        let (name, text) ← definition
        match ← linkCode true next with
        | .statement rest =>
          Gen.define name (text ++ rest)
          return .statement ""
        | .expression _ _ => throw .valueInChain)) := by
  constructor
  · exact fun h => ⟨code_withNext attached h, code_eq_followed attached hkind h⟩
  · intro h
    refine ⟨Gen.requirePass >>= fun _ => (b.site attached).definition, fun next alone => ?_⟩
    have hregisters : (b.withNext next).registers = true := by
      cases b
      exact h
    -- The definition is taken of the block with nothing behind it, so it is one for all chains.
    have hlast : ((b.withNext next).site attached).definition = (b.site attached).definition := by
      rw [site_withNext]
      rfl
    have hnext : (b.withNext next).next = next := by
      cases b
      rfl
    rw [code_of_registers attached hregisters, hlast, bind_assoc]
    simp only [Site.follow, nextCode_site, hnext, bind_assoc]
    refine congrArg (bind _) (funext fun _ => congrArg (bind _) (funext fun definition =>
      congrArg (bind _) (funext fun code => ?_)))
    cases code with
    | statement rest => simp only [pure_bind]
    | expression text order => rfl

end Block

/-- A text that is shown, with a block behind it. -/
def shownAhead (text : String) (next : Option Block) : Block :=
  .mk ⟨.statement .print, "print", [], .null, .bool false, true, []⟩
    [("TEXT", some (.mk
      ⟨.value .text, "text", [(.str "TEXT", .str text)], .null, .bool true, true, []⟩ [] [] none))]
    [] next

/-- A procedure with an empty body and a block behind it. -/
def definedAhead (next : Option Block) : Block :=
  .mk ⟨.statement .procedure, "define", [(.str "NAME", .str "f")], .null, .bool false, true, []⟩
    [] [] next

/-- A pass that has just begun. -/
def freshPass : Pass :=
  .start (.new reservedWords (some "")) []

theorem code_alone_shown :
    (∀ next, (shownAhead "a" next).code false true .default freshPass =
      .ok (.statement "window.alert('a');\n") freshPass) ∧
    (shownAhead "a" (some (shownAhead "b" none))).code false false .default freshPass =
      .ok (.statement "window.alert('a');\nwindow.alert('b');\n") freshPass ∧
    ∀ next, (definedAhead next).code false true = (definedAhead next).code false false := by
  have hshown : (shownAhead "a" (some (shownAhead "b" none))).kind = .statement .print := rfl
  have hdefined : (definedAhead none).kind = .statement .procedure := rfl
  obtain ⟨hown, hchain⟩ := (Block.code_alone false hshown).1 rfl
  obtain ⟨definition, hdefinition⟩ := (Block.code_alone false hdefined).2 rfl
  refine ⟨fun next => ?_, ?_, fun next => ?_⟩
  · rw [show (shownAhead "a" next).code false true = _ from hown next]
    with_unfolding_all rfl
  · rw [hchain]
    with_unfolding_all rfl
  · exact (hdefinition next true).trans (hdefinition next false).symm

/-- A procedure on its own takes in what follows it. -/
theorem code_definedAhead :
    ∃ p q, (definedAhead (some (shownAhead "a" none))).code false true .default freshPass =
        .ok (.statement "") p ∧
      p.definitions = [("%f", "function f() \x7b\n\x7dwindow.alert('a');\n")] ∧
      (definedAhead none).code false true .default freshPass = .ok (.statement "") q ∧
      q.definitions = [("%f", "function f() \x7b\n\x7d")] :=
  ⟨_, _, by with_unfolding_all rfl, by with_unfolding_all rfl, by with_unfolding_all rfl,
    by with_unfolding_all rfl⟩

end BlockScript
