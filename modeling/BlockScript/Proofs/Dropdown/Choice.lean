/-
  BlockScript.Proofs.Dropdown.Choice

  The dropdowns that have no fallback. A rule asks for the option of each of its dropdowns before it
  looks at anything else. A value that is no option is refused with the fault that names the kind of
  the block, the field and the value; a rule that looks the value up in a table by its name refuses a
  list or an object with a fault that names none of them. An option is never refused so.
-/
import BlockScript.Proofs.Generate.Congruence
import BlockScript.Proofs.Generate.Failure

namespace BlockScript

/-! ## Dropdowns -/

/-- A dropdown of a kind of value that has no fallback. -/
structure Dropdown where
  kind : ValueKind
  field : String
  options : List String
  /-- Whether the rule looks its value up in a table by its name. -/
  isKeyed : Bool
  deriving DecidableEq

namespace Dropdown

/-- Whether a value is an option of the dropdown. -/
def Lists (d : Dropdown) (value : Json) : Prop :=
  ∃ name ∈ d.options, value = .str name

theorem lists_str {d : Dropdown} {name : String} : d.Lists (.str name) ↔ name ∈ d.options := by
  simp [Lists]

theorem not_lists_arr (d : Dropdown) (items : List Json) : ¬ d.Lists (.arr items) := by
  rintro ⟨name, -, hname⟩
  cases hname

/-- What the rule of a block refuses a value with that is no option. -/
def refusal (d : Dropdown) (value : Json) : Fault :=
  if d.isKeyed && value.isCompound then .compoundOption
  else .unhandledOption (.value d.kind) d.field value

/-- An option is found for a value just if it is one, and the value is refused otherwise. -/
def Decides (d : Dropdown) (value : Json) {α : Type} (result : Except Fault α) : Prop :=
  (d.Lists value ∧ ∃ choice, result = .ok choice) ∨
    ¬ d.Lists value ∧ result = .error (d.refusal value)

section
variable {d : Dropdown} {value : Json} {α : Type} {result : Except Fault α}
  (h : d.Decides value result)
include h

theorem Decides.chosen (hlists : d.Lists value) : ∃ choice, result = .ok choice := by
  rcases h with ⟨-, hchoice⟩ | ⟨hnot, -⟩
  · exact hchoice
  · exact absurd hlists hnot

theorem Decides.refused (hnot : ¬ d.Lists value) : result = .error (d.refusal value) := by
  rcases h with ⟨hlists, -⟩ | ⟨-, hresult⟩
  · exact absurd hlists hnot
  · exact hresult

end

/-- The dropdowns that have no fallback. -/
def all : List Dropdown := [
  ⟨.compare, "OP", ["EQ", "NEQ", "LT", "LTE", "GT", "GTE"], true⟩,
  ⟨.junction, "OP", ["AND", "OR"], false⟩,
  ⟨.boolean, "BOOL", ["TRUE", "FALSE"], false⟩,
  ⟨.indexOf, "END", ["FIRST", "LAST"], false⟩,
  ⟨.substring, "WHERE1", ["FIRST", "FROM_START", "FROM_END"], false⟩,
  ⟨.substring, "WHERE2", ["LAST", "FROM_START", "FROM_END"], false⟩,
  ⟨.changeCase, "CASE", ["UPPERCASE", "LOWERCASE", "TITLECASE"], true⟩,
  ⟨.trim, "MODE", ["LEFT", "RIGHT", "BOTH"], true⟩]

theorem eq_of_mem_all {d e : Dropdown} (he : e ∈ all) (hd : d ∈ all) (hkind : e.kind = d.kind)
    (hfield : e.field = d.field) : e = d := by
  have hchecked : ∀ e ∈ all, ∀ d ∈ all, Dropdown.kind e = Dropdown.kind d →
      Dropdown.field e = Dropdown.field d → e = d := by
    decide
  exact hchecked e he d hd hkind hfield

end Dropdown

/-! ## Tables -/

namespace Site

variable {site : Site} {kind : ValueKind} (hkind : site.kind = .value kind) (field : String)
  {α : Type} (table : List (String × α))
include hkind

/-- A value that is looked up in a table is an option if it is one of the names there. -/
theorem optionIn_decides :
    Dropdown.Decides ⟨kind, field, table.map (·.1), true⟩ (site.head.field field)
      (site.optionIn field table) := by
  rw [optionIn, unhandled, hkind]
  cases hfield : site.head.field field with
  | str name =>
    cases hlookup : table.lookup name with
    | some choice =>
      have hname : name ∈ table.map (·.1) := by
        obtain ⟨before, after, rfl, -⟩ := List.lookup_eq_some_iff.mp hlookup
        simp
      simp only [hlookup]
      exact Or.inl ⟨⟨name, hname, rfl⟩, choice, rfl⟩
    | none =>
      simp only [hlookup]
      refine Or.inr ⟨?_, rfl⟩
      rintro ⟨other, hmem, hname⟩
      obtain rfl := Json.str.inj hname
      obtain ⟨entry, hentry, rfl⟩ := List.mem_map.mp hmem
      simpa using List.lookup_eq_none_iff.mp hlookup entry hentry
  | null | bool | num | arr | obj =>
    refine Or.inr ⟨?_, rfl⟩
    rintro ⟨name, -, hname⟩
    cases hname

/-- A value that is compared with the names of a table is an option if it is one of them. -/
theorem optionAmong_decides :
    Dropdown.Decides ⟨kind, field, table.map (·.1), false⟩ (site.head.field field)
      (site.optionAmong field table) := by
  rw [optionAmong, unhandled, hkind]
  have htext : ∀ name, (site.head.field field).isText name = true ↔
      site.head.field field = .str name := by
    intro name
    cases site.head.field field <;> simp [Json.isText]
  cases hfind : table.find? fun entry => (site.head.field field).isText entry.1 with
  | some entry =>
    have hname := List.find?_some hfind
    have hmem := List.mem_of_find?_eq_some hfind
    exact Or.inl ⟨⟨entry.1, List.mem_map_of_mem hmem, (htext entry.1).mp hname⟩, entry.2, rfl⟩
  | none =>
    refine Or.inr ⟨?_, rfl⟩
    rintro ⟨name, hmem, hname⟩
    obtain ⟨entry, hentry, rfl⟩ := List.mem_map.mp hmem
    exact List.find?_eq_none.mp hfind entry hentry ((htext entry.1).mpr hname)

end Site

/-! ## Rules -/

namespace Site

open Gen (FailsWith)

variable {site : Site}

/-- A rule asks for the options of its dropdowns first. A value that is no option is refused, if the
    other dropdowns have one. -/
theorem expression_of_not_lists {d : Dropdown} (hd : d ∈ Dropdown.all)
    (hkind : site.kind = .value d.kind) (hnot : ¬ d.Lists (site.head.field d.field))
    (hothers : ∀ e ∈ Dropdown.all, e.kind = d.kind → e.field ≠ d.field →
      e.Lists (site.head.field e.field)) :
    site.expression d.kind = throw (d.refusal (site.head.field d.field)) := by
  simp only [Dropdown.all, List.mem_cons, List.not_mem_nil, or_false] at hd
  rcases hd with rfl | rfl | rfl | rfl | rfl | rfl | rfl | rfl
  · change compare site = _
    rw [compare, (optionIn_decides hkind "OP" comparisons).refused hnot]
    rfl
  · change junction site = _
    rw [junction, (optionAmong_decides hkind "OP" junctions).refused hnot]
    rfl
  · change boolean site = _
    rw [boolean,
      (optionAmong_decides hkind "BOOL" [("TRUE", "true"), ("FALSE", "false")]).refused hnot]
    rfl
  · change indexOf site = _
    rw [indexOf,
      (optionAmong_decides hkind "END" [("FIRST", "indexOf"), ("LAST", "lastIndexOf")]).refused hnot]
    rfl
  · change substring site = _
    rw [substring, (optionAmong_decides hkind "WHERE1" startEdges).refused hnot]
    rfl
  · -- The beginning is asked for ahead of the end.
    obtain ⟨start, hstart⟩ := (optionAmong_decides hkind "WHERE1" startEdges).chosen
      (hothers ⟨.substring, "WHERE1", startEdges.map (·.1), false⟩
        (by simp [Dropdown.all, startEdges]) rfl (by decide))
    change substring site = _
    rw [substring, hstart, (optionAmong_decides hkind "WHERE2" stopEdges).refused hnot]
    rfl
  · change changeCase site = _
    rw [changeCase, (optionIn_decides hkind "CASE" caseChanges).refused hnot]
    rfl
  · change trim site = _
    rw [trim, (optionIn_decides hkind "MODE" trims).refused hnot]
    rfl

section
variable {P : Fault → Prop} (hpass : ∀ fault, fault.IsOfPass → P fault) (hnumeral : P .notANumeral)
  (hrange : P .indexOutOfRange) (hvalue : ∀ name outer, FailsWith P (site.value name outer))
include hpass hnumeral hrange hvalue

theorem substring_failsWith (hkind : site.kind = .value .substring)
    (hlists : ∀ e ∈ Dropdown.all, e.kind = .substring → e.Lists (site.head.field e.field)) :
    FailsWith P site.substring := by
  obtain ⟨start, hstart⟩ := (optionAmong_decides hkind "WHERE1" startEdges).chosen
    (hlists ⟨.substring, "WHERE1", _, false⟩ (by simp [Dropdown.all, startEdges]) rfl)
  obtain ⟨stop, hstop⟩ := (optionAmong_decides hkind "WHERE2" stopEdges).chosen
    (hlists ⟨.substring, "WHERE2", _, false⟩ (by simp [Dropdown.all, stopEdges]) rfl)
  rw [substring, hstart, hstop, Gen.lift_ok, Gen.lift_ok, pure_bind, pure_bind]
  refine (valueOr_failsWith hpass hvalue _ _ _).bind fun text => ?_
  split
  · exact .pure _
  · split
    · exact inlineSubstring_failsWith hpass hvalue hnumeral hrange text start stop
    · exact helperSubstring_failsWith hpass hvalue hnumeral hrange text start stop

/-- With an option in each of its dropdowns a rule fails with nothing but the faults of the steps on
    a pass, of its values and of its indices. -/
theorem expression_failsWith {d : Dropdown} (hd : d ∈ Dropdown.all)
    (hkind : site.kind = .value d.kind)
    (hlists : ∀ e ∈ Dropdown.all, e.kind = d.kind → e.Lists (site.head.field e.field)) :
    FailsWith P (site.expression d.kind) := by
  -- Behind its options a rule only reads its values, adjusts indices and asks for helpers.
  have hvalueOr := valueOr_failsWith hpass hvalue
  have hself := hlists d hd rfl
  have hd' := hd
  simp only [Dropdown.all, List.mem_cons, List.not_mem_nil, or_false] at hd'
  rcases hd' with rfl | rfl | rfl | rfl | rfl | rfl | rfl | rfl
  · obtain ⟨operator, hoperator⟩ := (optionIn_decides hkind "OP" comparisons).chosen hself
    change FailsWith P (compare site)
    rw [compare, hoperator]
    exact (hvalueOr _ _ _).bind fun _ => (hvalueOr _ _ _).bind fun _ => .pure _
  · obtain ⟨operator, hoperator⟩ := (optionAmong_decides hkind "OP" junctions).chosen hself
    change FailsWith P (junction site)
    rw [junction, hoperator]
    exact (hvalue _ _).bind fun _ => (hvalue _ _).bind fun _ => .pure _
  · obtain ⟨name, hname⟩ :=
      (optionAmong_decides hkind "BOOL" [("TRUE", "true"), ("FALSE", "false")]).chosen hself
    change FailsWith P (boolean site)
    rw [boolean, hname]
    exact .pure _
  · obtain ⟨operator, hoperator⟩ :=
      (optionAmong_decides hkind "END" [("FIRST", "indexOf"), ("LAST", "lastIndexOf")]).chosen hself
    change FailsWith P (indexOf site)
    rw [indexOf, hoperator, Gen.lift_ok, pure_bind]
    refine (hvalueOr _ _ _).bind fun part => (hvalueOr _ _ _).bind fun text =>
      FailsWith.options.bind fun options => ?_
    split <;> exact .pure _
  · exact substring_failsWith hpass hnumeral hrange hvalue hkind fun e he => hlists e he
  · exact substring_failsWith hpass hnumeral hrange hvalue hkind fun e he => hlists e he
  · obtain ⟨change, hchange⟩ := (optionIn_decides hkind "CASE" caseChanges).chosen hself
    change FailsWith P (changeCase site)
    rw [changeCase, hchange]
    cases change with
    | some call => exact (hvalueOr _ _ _).bind fun _ => .pure _
    | none =>
      exact (hvalueOr _ _ _).bind fun _ => (FailsWith.helper hpass _ _).bind fun _ => .pure _
  · obtain ⟨call, hcall⟩ := (optionIn_decides hkind "MODE" trims).chosen hself
    change FailsWith P (trim site)
    rw [trim, hcall]
    exact (hvalueOr _ _ _).bind fun _ => .pure _

end

end Site

/-! ## Blocks -/

/-- A fault that is not that of a field that holds none of its options. -/
def Fault.IsOther (fault : Fault) : Prop :=
  ∀ kind field value, fault ≠ .unhandledOption kind field value

namespace Block

open Gen (FailsWith)

section
variable {b : Block} {kind : ValueKind} (hkind : b.kind = .value kind)
  (henabled : b.head.enabled = true) (attached alone : Bool)
include hkind henabled

/-- What is refused by the rule of a block is refused by the block. -/
theorem code_of_throw {fault : Fault} (hrule : (b.site attached).expression kind = throw fault)
    (o : Options) {p : Pass} (hp : p.isActive = true) :
    b.code attached alone o p = .error fault p := by
  have hpass : Gen.requirePass o p = .ok () p := Gen.onPass_apply _ hp
  rw [code_of_value hkind henabled, hrule, Gen.bind_apply, hpass]
  rfl

/-- Without blocks in its value slots and behind it a block fails with the faults of its rule, those
    of the steps on a pass, that of its comment, or where it is said to yield no value. -/
theorem code_failsWith {P : Fault → Prop} (hpass : ∀ fault, fault.IsOfPass → P fault)
    (hcomment : ∀ fault, fault.IsOfComment → P fault)
    (houtput : ∀ kind, P (.valueWithoutOutput kind))
    (hrule : FailsWith P ((b.site attached).expression kind)) (hvalues : connected b.values = [])
    (hnext : alone = true ∨ b.next = none) : FailsWith P (b.code attached alone) := by
  have hinputs : (b.site attached).values.filterMap (·.2) = [] := by
    have h := filterMap_inputs b.values
    rwa [hvalues] at h
  rw [code_of_value hkind henabled]
  refine (FailsWith.requirePass hpass).bind fun _ => hrule.bind fun (text, order) => ?_
  have hcomplete : FailsWith P ((b.site attached).complete text alone) := by
    refine (Site.comments_failsWith hcomment hinputs).bind fun comments => ?_
    rcases hnext with rfl | hnext
    · exact .pure _
    · -- The code of what follows could fail itself, or be that of a value.
      have hbehind : (b.site attached).next = none := by
        change input b.next = none
        rw [hnext, input]
      have hnone : (b.site attached).nextCode = pure (.statement "") := by
        rw [Site.nextCode, hbehind]
      rw [hnone]
      split <;> exact .pure _
  change FailsWith P ((b.site attached).finished alone (some (.expression text order)))
  rw [Site.finished.eq_def]
  dsimp only
  split
  · exact .throw (houtput _)
  · exact hcomplete.bind fun _ => .pure _

end

/-- Without blocks in its value slots a block reads no code from them. -/
theorem value_of_connected_eq_nil {b : Block} (h : connected b.values = []) (attached : Bool)
    (name : String) (outer : Order) : (b.site attached).value name outer = pure "" := by
  have hempty : inSlot b.values name = none := by
    cases hslot : inSlot b.values name with
    | none => rfl
    | some c =>
      have hmem : c ∈ connected b.values := List.mem_filterMap.mpr ⟨_, mem_of_inSlot hslot, rfl⟩
      rw [h] at hmem
      cases hmem
  have hslot : Site.inSlot (b.site attached).values name = _ := inSlot_inputs b.values name
  rw [Site.value_eq, hslot, hempty]
  rfl

/-- A value that is no option of a dropdown without a fallback is refused, where the other dropdowns
    of the block have options: with the fault that names the kind of the block, the field and the
    value, unless the value is a list or an object that is looked up by its name. With an option, and
    without blocks in the value slots and behind it, a block never fails so. -/
theorem code_dropdown {b : Block} {d : Dropdown} (hd : d ∈ Dropdown.all)
    (hkind : b.kind = .value d.kind) (henabled : b.head.enabled = true)
    (hothers : ∀ e ∈ Dropdown.all, e.kind = d.kind → e.field ≠ d.field →
      e.Lists (b.head.field e.field))
    (attached alone : Bool) (o : Options) {p : Pass} (hp : p.isActive = true) :
    let value := b.head.field d.field
    (¬ d.Lists value →
      (¬ (d.isKeyed = true ∧ value.isCompound = true) →
        b.code attached alone o p = .error (.unhandledOption b.kind d.field value) p) ∧
      (d.isKeyed = true ∧ value.isCompound = true →
        b.code attached alone o p = .error .compoundOption p)) ∧
    (d.Lists value → connected b.values = [] → (alone = true ∨ b.next = none) →
      ∀ fault q, b.code attached alone o p = .error fault q →
        ∀ kind field value, fault ≠ .unhandledOption kind field value) := by
  intro value
  have hsite : (b.site attached).kind = .value d.kind := hkind
  refine ⟨fun hnot => ?_, fun hlists hvalues hnext fault q hrun => ?_⟩
  · have hrefused : b.code attached alone o p = .error (d.refusal value) p :=
      code_of_throw hkind henabled attached alone
        (Site.expression_of_not_lists hd hsite hnot hothers) o hp
    rw [hrefused, Dropdown.refusal, hkind]
    refine ⟨fun hnamed => ?_, fun hkeyed => ?_⟩
    · rw [if_neg fun h => hnamed (Bool.and_eq_true_iff.mp h)]
    · rw [if_pos (Bool.and_eq_true_iff.mpr hkeyed)]
  · have hall : ∀ e ∈ Dropdown.all, e.kind = d.kind →
        e.Lists ((b.site attached).head.field e.field) := by
      intro e he hekind
      by_cases hfield : e.field = d.field
      · obtain rfl := Dropdown.eq_of_mem_all he hd hekind hfield
        exact hlists
      · exact hothers e he hekind hfield
    have hvalue : ∀ name outer, FailsWith Fault.IsOther ((b.site attached).value name outer) := by
      intro name outer
      rw [value_of_connected_eq_nil hvalues]
      exact .pure ""
    have hpass : ∀ fault : Fault, fault.IsOfPass → fault.IsOther := by
      rintro _ hfault kind field value rfl
      exact hfault
    have hcomment : ∀ fault : Fault, fault.IsOfComment → fault.IsOther := by
      rintro _ hfault kind field value rfl
      exact hfault
    have hrule := Site.expression_failsWith hpass nofun nofun hvalue hd hsite hall
    exact code_failsWith hkind henabled attached alone hpass hcomment (fun _ => nofun) hrule hvalues
      hnext o p fault q hrun

end Block

/-- A comparison without values. -/
def comparedBy (operator : Json) : Block :=
  .mk ⟨.value .compare, "compare", [(.str "OP", operator)], .null, .bool true, true, []⟩ [] [] none

theorem code_dropdown_comparedBy :
    ∃ p : Pass, p.isActive = true ∧
      (comparedBy (.str "IS")).code false false .default p =
        .error (.unhandledOption (.value .compare) "OP" (.str "IS")) p ∧
      (comparedBy (.arr [])).code false false .default p = .error .compoundOption p ∧
      ∀ fault q, (comparedBy (.str "EQ")).code false false .default p = .error fault q →
        ∀ kind field value, fault ≠ .unhandledOption kind field value := by
  have hd : (⟨.compare, "OP", ["EQ", "NEQ", "LT", "LTE", "GT", "GTE"], true⟩ : Dropdown) ∈
      Dropdown.all := by decide
  have hothers : ∀ operator, ∀ e ∈ Dropdown.all, e.kind = .compare → e.field ≠ "OP" →
      e.Lists ((comparedBy operator).head.field e.field) := by
    intro operator e he hkind hfield
    have hchecked : ∀ e ∈ Dropdown.all, Dropdown.kind e = .compare → Dropdown.field e = "OP" := by
      decide
    exact absurd (hchecked e he hkind) hfield
  obtain ⟨p, hp⟩ : ∃ p : Pass, p.isActive = true :=
    ⟨.start (.new reservedWords (some "")) [], rfl⟩
  have hcode := fun operator => Block.code_dropdown (b := comparedBy operator) hd rfl rfl
    (hothers operator) false false .default hp
  have hname : ¬ Dropdown.Lists ⟨.compare, "OP", ["EQ", "NEQ", "LT", "LTE", "GT", "GTE"], true⟩
      (.str "IS") := by
    rw [Dropdown.lists_str]
    decide
  refine ⟨p, hp, ?_, ?_, ?_⟩
  · exact ((hcode (.str "IS")).1 hname).1 (by decide)
  · exact ((hcode (.arr [])).1 (Dropdown.not_lists_arr _ [])).2 (by decide)
  · exact (hcode (.str "EQ")).2 (Dropdown.lists_str.mpr (by decide)) rfl (Or.inr rfl)

/-- A list for an operator is refused with a fault that names neither the block nor the field. -/
theorem programText_listOperator :
    (Workspace.mk [] [comparedBy (.arr [])] .default).programText .default =
      .error .compoundOption ∧
    (Workspace.mk [] [comparedBy (.arr [])] .default).programText .default ≠
      .error (.unhandledOption (.value .compare) "OP" (.arr [])) := by
  have hrun : (Workspace.mk [] [comparedBy (.arr [])] .default).programText .default =
      .error .compoundOption := by with_unfolding_all rfl
  rw [hrun]
  exact ⟨rfl, nofun⟩

end BlockScript
