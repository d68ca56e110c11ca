/-
  BlockScript.Proofs.Number.Field

  The two fields that hold a number: the number of a literal, and how many items a joined text has.
  Any value can stand there. A block without blocks in its slots has code, or its value is refused
  with a fault that names it as malformed input.

  One value is neither taken nor refused so: as a count of items, an infinite number fails where it
  is made an integer.
-/
import BlockScript.Proofs.Comment.Lines
import BlockScript.Proofs.Dropdown.Choice

namespace BlockScript

/-! ## Values and faults -/

/-- Whether a value is an infinite number. -/
def Json.IsInfinite : Json → Prop
  | .num (.float x) => x.isInfinite = true
  | _ => False

/-- Whether a fault refuses a value as no number, or as no count. -/
def Fault.RefusesNumber (value : Json) : Fault → Prop
  | notANumberField refused | notAnItemCount refused | negativeItemCount refused => refused = value
  | _ => False

/-- What is refused as a number is malformed input. -/
theorem Fault.RefusesNumber.isMalformed {value : Json} {fault : Fault}
    (h : fault.RefusesNumber value) : fault.isMalformed = true := by
  cases fault with
  | notANumberField | notAnItemCount | negativeItemCount => rfl
  | _ => exact h.elim

theorem Binary64.isNaN_of_isInfinite {x : Binary64} (h : x.isInfinite = true) : x.isNaN = false := by
  rw [isInfinite, Bool.and_eq_true, decide_eq_true_eq, decide_eq_true_eq] at h
  simp [isNaN, h.2]

namespace Site

open Gen (Meets)

/-! ## Counts -/

/-- An infinite number is no count of items, and it is not refused as none. -/
theorem itemCount_of_isInfinite {value : Json} (h : value.IsInfinite) :
    itemCount value = .error .infiniteItemCount := by
  match value, h with
  | .num (.float x), h =>
    have hinfinite : x.isInfinite = true := h
    simp only [itemCount, Json.number?, Binary64.isNaN_of_isInfinite hinfinite, hinfinite, if_true,
      Bool.false_eq_true, if_false]
    rfl

/-- An integer is a count, or it is refused as negative. -/
theorem itemCount_of_integer {value : Json} (n : Int) {result : Except Fault Nat}
    (h : result = if n < 0 then throw (.negativeItemCount value) else pure n.toNat) :
    (∃ count, result = .ok count) ∨
      ∃ fault, result = .error fault ∧ fault.RefusesNumber value := by
  subst h
  split
  · exact Or.inr ⟨_, rfl, rfl⟩
  · exact Or.inl ⟨_, rfl⟩

/-- Every value that is not infinite is a count of items, or it is refused as none. -/
theorem itemCount_cases (value : Json) (h : ¬ value.IsInfinite) :
    (∃ count, itemCount value = .ok count) ∨
      ∃ fault, itemCount value = .error fault ∧ fault.RefusesNumber value := by
  cases value with
  | null => exact Or.inr ⟨_, rfl, rfl⟩
  | bool b => exact itemCount_of_integer _ rfl
  | num n =>
    cases n with
    | int n => exact itemCount_of_integer n rfl
    | float x =>
      have hfinite : ¬ x.isInfinite = true := h
      by_cases hnan : x.isNaN = true
      · refine Or.inr ⟨.notAnItemCount _, ?_, rfl⟩
        simp only [itemCount, Json.number?, hnan, if_true]
        rfl
      · apply itemCount_of_integer x.truncate
        simp only [itemCount, Json.number?, hnan, hfinite]
        rfl
  | str s =>
    cases hread : Numeral.readInteger? s with
    | some n =>
      apply itemCount_of_integer n
      simp only [itemCount, hread]
      rfl
    | none =>
      refine Or.inr ⟨.notAnItemCount _, ?_, rfl⟩
      simp only [itemCount, hread]
      rfl
  | arr items => exact Or.inr ⟨_, rfl, rfl⟩
  | obj entries => exact Or.inr ⟨_, rfl, rfl⟩

/-! ## Rules -/

variable {site : Site} {o : Options} {p : Pass}

/-- The value that is to be a number. -/
def numeral (site : Site) : Json :=
  (site.head.fields.get? "NUM").getD (.num (.int 0))

/-- The value that is to be a count of items. -/
def items (site : Site) : Json :=
  (site.head.mutation.get? "items").getD (.num (.int 2))

/-- The value of a number is a number, or it is refused as none. -/
theorem number_cases (site : Site) :
    (∃ text order, site.number = pure (text, order)) ∨
      site.number = throw (.notANumberField site.numeral) := by
  cases hnumber : numberOf site.numeral with
  | ok n =>
    refine Or.inl ⟨n.numeral, if n.isNonneg then .atomic else .unaryNegation, ?_⟩
    rw [numeral] at hnumber
    simp only [number, hnumber]
  | error fault =>
    refine Or.inr ?_
    rw [numeral] at hnumber
    simp only [number, hnumber, numeral]

section
variable (hempty : ∀ name outer, site.value name outer = pure "")
include hempty

/-- An empty slot is read as the empty text literal, with a record. -/
theorem textValue_meets (name : String) (hp : p.isActive = true) :
    Meets o (site.textValue name) p fun _ q => q.isActive = true := by
  have hvalue : Meets o (site.value name .none) p fun code q => code = "" ∧ q = p := by
    rw [hempty]
    exact Meets.pure ⟨rfl, rfl⟩
  rw [textValue, valueOr]
  apply hvalue.bind
  rintro code q ⟨rfl, rfl⟩
  rw [if_pos rfl]
  exact (Meets.onPass hp rfl hp).bind fun _ _ hq => Meets.pure hq

theorem textValues_meets (names : List Nat) (hp : p.isActive = true) :
    Meets o (names.mapM fun i => site.textValue ("ADD" ++ toString i)) p
      fun _ q => q.isActive = true := by
  induction names generalizing p with
  | nil =>
    rw [List.mapM_nil]
    exact Meets.pure hp
  | cons i rest ih =>
    rw [List.mapM_cons]
    apply (textValue_meets hempty _ hp).bind
    intro first q hq
    exact (ih hq).bind fun _ _ hq' => Meets.pure hq'

/-- A joined text of any number of empty items has code. -/
theorem joined_meets {count : Nat} (hcount : itemCount site.items = .ok count)
    (hp : p.isActive = true) : Meets o site.joined p fun _ q => q.isActive = true := by
  rw [items] at hcount
  rw [joined, hcount, Gen.lift_ok, pure_bind]
  apply (textValues_meets hempty _ hp).bind
  intro texts q hq
  split <;> exact Meets.pure hq

end

theorem joined_of_error {fault : Fault} (h : itemCount site.items = .error fault) :
    site.joined = throw fault := by
  rw [items] at h
  rw [joined, h]
  rfl

/-! ## The end of a block -/

/-- The code of a value without inputs that nothing follows is complete with its comments. -/
theorem finished_meets (hwrap : Options.IsColumn o.commentWrap)
    (houtput : site.head.hasOutput = true) (hnext : site.next = none)
    (hvalues : site.values.filterMap (·.2) = []) (hcomment : site.head.HasTextComment)
    (alone : Bool) (text : String) (order : Order) :
    Meets o (site.finished alone (some (.expression text order))) p fun _ _ => True := by
  have hcomments : Meets o site.comments p fun _ _ => True := by
    apply (comments_meets hwrap hcomment ?_ p).mono fun _ _ _ => trivial
    rw [hvalues]
    exact fun input hinput => absurd hinput List.not_mem_nil
  have hcomplete : Meets o (site.complete text alone) p fun _ _ => True := by
    rw [complete]
    apply hcomments.bind
    intro comments q _
    cases alone with
    | true => exact Meets.pure trivial
    | false =>
      have hnone : site.nextCode = pure (.statement "") := by
        rw [nextCode, hnext]
      rw [hnone]
      exact Meets.pure trivial
  rw [finished, houtput]
  exact hcomplete.bind fun _ _ _ => Meets.pure trivial

end Site

/-! ## Blocks -/

namespace Block

open Gen (Meets)

/-- The value in the field of a block that holds a number. -/
def number (b : Block) : Json :=
  if b.kind = .value .number then (b.site false).numeral else (b.site false).items

/-- Whether a block is to join infinitely many items. -/
def CountsInfinity (b : Block) : Prop :=
  b.head.enabled = true ∧ b.kind = .value .joined ∧ b.number.IsInfinite

variable {b : Block} {o : Options} {p : Pass}

/-- A block that is passed over has the code of what follows. -/
theorem code_meets_of_disabled (hdisabled : b.head.enabled = false) (hnext : b.next = none)
    (attached alone : Bool) (hp : p.isActive = true) :
    Meets o (b.code attached alone) p fun _ _ => True := by
  have hskip : (b.site attached).head.enabled = false := hdisabled
  have hnone : (b.site attached).nextCode = pure (.statement "") := by
    have hbehind : (b.site attached).next = none := congrArg input hnext
    rw [Site.nextCode, hbehind]
  have hpassed : Meets o ((b.site attached).passedOver alone) p fun _ _ => True := by
    refine (Meets.onPass (Q := fun _ _ => True) hp rfl trivial).bind fun _ q _ => ?_
    rw [hnone]
    cases alone <;> exact Meets.pure trivial
  rw [code_eq_site_code, Site.code_eq, hskip]
  refine (Meets.onPass (Q := fun _ q => q = p) hp rfl rfl).bind ?_
  rintro _ q rfl
  exact hpassed

/-- A number or a joined text without blocks in its slots, whatever its field holds. It has code, or
    the value is refused as malformed input and the pass stays as it was; only an infinite number of
    items, which cannot be made an integer, fails otherwise. -/
theorem code_number (hkind : b.kind = .value .number ∨ b.kind = .value .joined)
    (houtput : b.head.hasOutput = true) (hvalues : connected b.values = []) (hnext : b.next = none)
    (hcomment : b.head.HasTextComment) (hwrap : Options.IsColumn o.commentWrap)
    (attached alone : Bool) (hp : p.isActive = true) :
    (¬ b.CountsInfinity →
      (∃ code q, b.code attached alone o p = .ok code q) ∨
      ∃ fault, b.code attached alone o p = .error fault p ∧ fault.RefusesNumber b.number ∧
        fault.isMalformed = true) ∧
    (b.CountsInfinity → b.code attached alone o p = .error .infiniteItemCount p) := by
  have hempty := fun name outer => value_of_connected_eq_nil hvalues attached name outer
  have hinputs : (b.site attached).values.filterMap (·.2) = [] := by
    rw [show (b.site attached).values.filterMap (·.2) = _ from filterMap_inputs b.values, hvalues]
    rfl
  -- Where the rule has code, so has the block.
  have hmeets : ∀ {kind}, b.kind = .value kind → b.head.enabled = true →
      Meets o ((b.site attached).expression kind) p (fun _ q => q.isActive = true) →
      ∃ code q, b.code attached alone o p = .ok code q := by
    intro kind hkind henabled hrule
    have hwhole : Meets o (b.code attached alone) p fun _ _ => True := by
      rw [code_of_value hkind henabled]
      refine (Meets.onPass (Q := fun _ q => q = p) hp rfl rfl).bind ?_
      rintro _ q rfl
      exact hrule.bind fun (text, order) _ _ => Site.finished_meets hwrap houtput
        (congrArg input hnext) hinputs hcomment alone text order
    obtain ⟨code, q, hrun, -⟩ := hwhole
    exact ⟨code, q, hrun⟩
  cases henabled : b.head.enabled with
  | false =>
    refine ⟨fun _ => Or.inl ?_, fun h => absurd h.1 (by simp [henabled])⟩
    obtain ⟨code, q, hrun, -⟩ := code_meets_of_disabled (o := o) henabled hnext attached alone hp
    exact ⟨code, q, hrun⟩
  | true =>
    rcases hkind with hkind | hkind
    · have hnumber : b.number = (b.site attached).numeral := if_pos hkind
      refine ⟨fun _ => ?_, fun h => absurd (hkind.symm.trans h.2.1) (by decide)⟩
      rcases Site.number_cases (b.site attached) with ⟨text, order, hrule⟩ | hrule
      · refine Or.inl (hmeets hkind henabled ?_)
        change Meets o (Site.number _) p _
        rw [hrule]
        exact Meets.pure hp
      · refine Or.inr ⟨_, code_of_throw hkind henabled attached alone hrule o hp, ?_, rfl⟩
        exact hnumber.symm
    · have hnumber : b.number = (b.site attached).items := if_neg (by rw [hkind]; decide)
      have hthrow : ∀ {fault}, Site.itemCount (b.site attached).items = .error fault →
          b.code attached alone o p = .error fault p := fun herror =>
        code_of_throw hkind henabled attached alone (Site.joined_of_error herror) o hp
      constructor
      · intro hfinite
        have hcases := Site.itemCount_cases (b.site attached).items fun hinfinite =>
          hfinite ⟨henabled, hkind, hnumber ▸ hinfinite⟩
        rcases hcases with ⟨count, hcount⟩ | ⟨fault, herror, hrefuses⟩
        · exact Or.inl (hmeets hkind henabled (Site.joined_meets hempty hcount hp))
        · exact Or.inr ⟨fault, hthrow herror, hnumber ▸ hrefuses, hrefuses.isMalformed⟩
      · intro hinfinite
        exact hthrow (Site.itemCount_of_isInfinite (hnumber ▸ hinfinite.2.2))

end Block

/-- A joined text without items in its slots, for a count. -/
def joining (count : Json) : Block :=
  .mk ⟨.value .joined, "join", [], .null, .bool true, true, [(.str "items", count)]⟩ [] [] none

theorem code_number_joining :
    ∃ p : Pass, p.isActive = true ∧
      ((∃ code q, (joining (.str "two")).code false false .default p = .ok code q) ∨
        ∃ fault, (joining (.str "two")).code false false .default p = .error fault p ∧
          fault.RefusesNumber (.str "two") ∧ fault.isMalformed = true) ∧
      (joining (.num (.float (.infinity false)))).code false false .default p =
        .error .infiniteItemCount p := by
  obtain ⟨p, hp⟩ : ∃ p : Pass, p.isActive = true :=
    ⟨.start (.new reservedWords (some "")) [], rfl⟩
  have hcode := fun count => Block.code_number (b := joining count) (o := .default) (Or.inr rfl) rfl
    rfl rfl (Or.inl rfl) ⟨rfl, rfl⟩ false false hp
  refine ⟨p, hp, (hcode (.str "two")).1 ?_, (hcode (.num (.float (.infinity false)))).2 ?_⟩
  · exact fun h => h.2.2
  · exact ⟨rfl, rfl, rfl⟩

/-- An infinite count of items is not refused as malformed input, though the same number is taken
    where a number is written. -/
theorem programText_infiniteItems :
    (Workspace.mk [] [joining (.num (.float (.infinity false)))] .default).programText .default =
      .error .infiniteItemCount ∧
    Fault.infiniteItemCount.isMalformed = false ∧
    Json.read "1e999" = .ok (.num (.float (.infinity false))) ∧
    Site.numberOf (.num (.float (.infinity false))) = .ok (.float (.infinity false)) := by
  refine ⟨?_, rfl, ?_, rfl⟩
  · with_unfolding_all rfl
  · with_unfolding_all rfl

end BlockScript
