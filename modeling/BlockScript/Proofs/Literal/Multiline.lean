/-
  BlockScript.Proofs.Literal.Multiline

  The precedence of a text of several lines. Its code is the literal of the line, or a sum of the
  literals of the lines. Which of the two it is, the rule tells from the code, by a plus sign: there is
  one in every sum, but also in the literal of a line that has one. Such a line is taken for a sum, and
  slots that a sum does not fit put its only literal in parentheses.
-/
import BlockScript.Proofs.Dropdown.Choice
import BlockScript.Proofs.Literal.RoundTrip

namespace BlockScript

/-! ## Literals of lines -/

namespace Literal

open Text

/-- There is one line more than there are line feeds. -/
theorem length_lines (s : List Char) : (lines s).length = s.count '\n' + 1 := by
  induction s with
  | nil => rfl
  | cons c rest ih =>
    by_cases hc : c = '\n'
    · rw [hc, lines_break, List.length_cons, ih, List.count_cons_self]
    · obtain ⟨first, others, hlines⟩ := exists_lines rest
      rw [lines_char hc hlines, List.length_cons, List.count_cons_of_ne hc, ← ih, hlines,
        List.length_cons]

/-- A character that needs no backslash is in a literal exactly if it is in its text. -/
theorem mem_quoteChars_iff {c : Char} (hc : c ≠ '\\' ∧ c ≠ '\'') (s : List Char) :
    c ∈ quoteChars s ↔ c ∈ s := by
  have hescaped : ∀ d : Char, c ∈ escapeChar d ↔ c = d := by
    intro d
    rw [escapeChar]
    split
    · simp [hc.1]
    · exact List.mem_singleton
  simp [quoteChars, hescaped, hc.2]

/-- The code of a text has a plus sign exactly if the text has one, or several lines. -/
theorem mem_quoteLines_iff (text : String) :
    '+' ∈ (quoteLines text).toList ↔ '\n' ∈ text.toList ∨ '+' ∈ text.toList := by
  rw [toList_quoteLines]
  by_cases hfeed : '\n' ∈ text.toList
  · -- A second line comes behind the sum with a line feed.
    have hlength : 1 < (lines text.toList).length := by
      rw [length_lines]
      exact Nat.succ_lt_succ (List.count_pos_iff.mpr hfeed)
    obtain ⟨first, second, others, hlines⟩ : ∃ first second others,
        lines text.toList = first :: second :: others := by
      match lines text.toList, hlength with
      | first :: second :: others, _ => exact ⟨first, second, others, rfl⟩
    have hplus : '+' ∈ feedTerm := by decide
    simp only [hfeed, true_or, iff_true]
    rw [hlines, List.map_cons, List.map_cons, List.intercalate_cons_cons]
    exact List.mem_append_left _ (List.mem_append_right _ hplus)
  · simp only [hfeed, false_or]
    rw [lines_of_not_mem hfeed, List.map_singleton, List.intercalate_singleton]
    exact mem_quoteChars_iff (by decide) _

theorem quoteLines_ne_empty (text : String) : quoteLines text ≠ "" := by
  intro h
  have hread := readLines?_quoteLines text
  rw [h, readLines?] at hread
  cases hread

/-- The precedence of a sum of so many literals; one literal alone is an atom. -/
def sumOrder (count : Nat) : Order :=
  if 1 < count then .addition else .atomic

end Literal

/-! ## In slots -/

/-- An atom needs no parentheses in any slot. -/
theorem Order.needsParens_atomic (outer : Order) : outer.needsParens .atomic = false := by
  cases outer <;> rfl

theorem Order.wrap_of_needsParens {code : String} {outer inner : Order}
    (h : outer.needsParens inner = false) : wrap code outer inner = code := by
  rw [wrap, h, Bool.and_false, if_neg Bool.false_ne_true]

/-- Where members are used, a sum is in parentheses. -/
theorem Order.wrap_member_addition_ne {code : String} (hne : code ≠ "") :
    wrap code .member .addition ≠ code := by
  intro h
  have hneeds : needsParens .member .addition = true := rfl
  have hparens : "(" ++ code ++ ")" = code := by simpa [wrap, hne, hneeds] using h
  have hlength := congrArg String.length hparens
  rw [String.length_append, String.length_append] at hlength
  have hparen : "(".length = 1 := rfl
  omega

/-- The precedence that the rule for texts of several lines gives. -/
def Literal.foundOrder (text : String) : Order :=
  if '\n' ∈ text.toList ∨ '+' ∈ text.toList then .addition else .atomic

/-- The rule for texts of several lines. -/
theorem Site.multiline_eq (site : Site) : site.multiline =
    pure (Literal.quoteLines (site.fieldText "TEXT" ""),
      Literal.foundOrder (site.fieldText "TEXT" "")) := by
  simp only [multiline, Literal.foundOrder, ← Literal.mem_quoteLines_iff, List.contains_iff_mem]

namespace Block

variable {o : Options} {p q : Pass} {b c : Block} {slot : String}

/-- The text of a block that holds one. -/
def text (c : Block) : String :=
  (c.site true).fieldText "TEXT" ""

/-- A slot gives the code of its block, in parentheses if it needs them. -/
theorem value_of_expression {text : String} {order : Order}
    (hslot : inSlot b.values slot = some c)
    (hrun : c.code true false o p = .ok (.expression text order) q) (attached : Bool)
    (outer : Order) :
    (b.site attached).value slot outer o p = .ok (Order.wrap text outer order) q := by
  have hinput : Site.inSlot (b.site attached).values slot = _ := inSlot_inputs b.values slot
  rw [Site.value, hinput, hslot]
  change (c.code true false >>= _) o p = _
  rw [Gen.bind_apply, hrun]
  rfl

/-- A text of several lines, whatever it is. Its code reads as its lines. The precedence is that of a
    sum of so many literals exactly if the text has several lines or no plus sign; and the literal of
    a single line stays without parentheses in all slots of all blocks exactly if the line has no plus
    sign. -/
theorem code_multiline (hkind : c.kind = .value .multiline) (henabled : c.head.enabled = true)
    (houtput : c.head.hasOutput = true) (hactive : p.isActive = true)
    (hnext : (c.site true).nextCode o p = .ok (.statement "") q) :
    c.code true false o p =
        .ok (.expression (Literal.quoteLines c.text) (Literal.foundOrder c.text)) q ∧
      Literal.readLines? (Literal.quoteLines c.text).toList = some (Text.lines c.text.toList) ∧
      (Literal.foundOrder c.text = Literal.sumOrder (Text.lines c.text.toList).length ↔
        '\n' ∈ c.text.toList ∨ '+' ∉ c.text.toList) ∧
      ('\n' ∉ c.text.toList →
        ((∀ (b : Block) (slot : String), inSlot b.values slot = some c → ∀ attached outer,
            (b.site attached).value slot outer o p = .ok (Literal.quoteLines c.text) q) ↔
          '+' ∉ c.text.toList)) := by
  have hrun : c.code true false o p =
      .ok (.expression (Literal.quoteLines c.text) (Literal.foundOrder c.text)) q :=
    code_of_expression hkind henabled houtput (Site.multiline_eq _) hactive hnext
  refine ⟨hrun, Literal.readLines?_quoteLines c.text, ?_, fun hfeed => ?_⟩
  · have hseveral : 1 < (Text.lines c.text.toList).length ↔ '\n' ∈ c.text.toList := by
      rw [Literal.length_lines, Nat.lt_add_left_iff_pos, List.count_pos_iff]
    rw [Literal.foundOrder, Literal.sumOrder, if_congr hseveral rfl rfl]
    by_cases hfeed : '\n' ∈ c.text.toList
    · simp [hfeed]
    · by_cases hplus : '+' ∈ c.text.toList <;> simp [hfeed, hplus]
  · have hfound : Literal.foundOrder c.text =
        if '+' ∈ c.text.toList then .addition else .atomic := by
      rw [Literal.foundOrder, if_congr (or_iff_right hfeed) rfl rfl]
    constructor
    · -- A slot whose members are used puts a sum in parentheses.
      intro hbare hplus
      have hslot : inSlot (mk c.head [("VALUE", some c)] [] none).values "VALUE" = some c := rfl
      have hvalue := value_of_expression hslot hrun false .member
      rw [hbare _ _ hslot, hfound, if_pos hplus] at hvalue
      exact Order.wrap_member_addition_ne (Literal.quoteLines_ne_empty c.text)
        (EStateM.Result.ok.inj hvalue).1.symm
    · intro hplus b slot hslot attached outer
      rw [value_of_expression hslot hrun, hfound, if_neg hplus,
        Order.wrap_of_needsParens outer.needsParens_atomic]

end Block

/-- A text of several lines. -/
def linesBlock (text : String) : Block :=
  .mk ⟨.value .multiline, "lines", [(.str "TEXT", .str text)], .null, .bool true, true, []⟩ [] [] none

/-- Two lines are a sum; a backslash and a quote in a single line change nothing. -/
theorem code_multiline_twoLines :
    let p := Pass.start (.new reservedWords (some "")) []
    (linesBlock "a\nb").code true false .default p =
        .ok (.expression "'a' + '\\n' +\n'b'" .addition) p ∧
      ∀ (b : Block) (slot : String), Block.inSlot b.values slot = some (linesBlock "it's \\") →
        ∀ attached outer, (b.site attached).value slot outer .default p = .ok "'it\\'s \\\\'" p := by
  intro p
  have htwo := Block.code_multiline (c := linesBlock "a\nb") (o := .default) (p := p) rfl rfl rfl
    rfl rfl
  have hone := Block.code_multiline (c := linesBlock "it's \\") (o := .default) (p := p) rfl rfl rfl
    rfl rfl
  have hfeed : '\n' ∉ (linesBlock "it's \\").text.toList := by decide
  have hplus : '+' ∉ (linesBlock "it's \\").text.toList := by decide
  have hcode : Literal.quoteLines (linesBlock "it's \\").text = "'it\\'s \\\\'" := by decide
  have hbare := (hone.2.2.2 hfeed).mpr hplus
  rw [hcode] at hbare
  exact ⟨htwo.1, hbare⟩

/-- The literal of a single line with a plus sign is taken for a sum, and put in parentheses where its
    length is asked for. -/
theorem code_multiline_plus :
    let p := Pass.start (.new reservedWords (some "")) []
    (linesBlock "a+b").code true false .default p = .ok (.expression "'a+b'" .addition) p ∧
      Literal.readLines? "'a+b'".toList = some ["a+b".toList] ∧
      (Workspace.mk [] [.mk ⟨.value .length, "length", [], .null, .bool true, true, []⟩
        [("VALUE", some (linesBlock "a+b"))] [] none] .default).programText .default =
          .ok "('a+b').length;\n" := by
  intro p
  have hread : Literal.read? "'a+b'".toList = some ("a+b".toList, []) := rfl
  exact ⟨by with_unfolding_all rfl, Literal.readLines?_of_end hread, by with_unfolding_all rfl⟩

end BlockScript
