/-
  BlockScript.Proofs.Helper.Indent

  Another indent for a template, as a loop. Each round puts a null character in the place of the last
  pair of the leading spaces of every line, and the loop ends with the first round that changes
  nothing; then the null characters become indents. A line has as many rounds to go as it has pairs,
  and what is behind the pairs stays as it is.
-/
import BlockScript.Proofs.Comment.Words
import BlockScript.Proofs.Literal.Multiline
import BlockScript.Proofs.Script.Routine

namespace BlockScript.Helper

open Script (joinLines)
open Text (lines)

/-! ## The loop -/

/-- How many spaces a line begins with. -/
def leadingSpaces (line : List Char) : Nat :=
  (line.takeWhile (· = ' ')).length

/-- A line after one round: the last whole pair of its leading spaces is a null character. -/
def peelLine (line : List Char) : List Char :=
  let pairs := leadingSpaces line / 2
  if pairs = 0 then line
  else List.replicate (2 * (pairs - 1)) ' ' ++ '\x00' :: line.drop (2 * pairs)

/-- A text after one round. -/
def peel (text : List Char) : List Char :=
  joinLines ((lines text).map peelLine)

/-- The loop from a text on, with the number of its rounds and the text that it ends with. -/
inductive Peels : List Char → Nat → List Char → Prop
  | stable {text : List Char} (hsame : peel text = text) : Peels text 1 text
  | round {text final : List Char} {rounds : Nat} (hchanged : peel text ≠ text)
      (hrest : Peels (peel text) rounds final) : Peels text (rounds + 1) final

/-- A text with an indent in the place of every null character. -/
def exchangeMarks (indent : List Char) (text : List Char) : List Char :=
  text.flatMap fun c => if c = '\x00' then indent else [c]

/-- The loop goes one way only. -/
theorem Peels.unique {text final final' : List Char} {rounds rounds' : Nat}
    (h : Peels text rounds final) (h' : Peels text rounds' final') :
    rounds' = rounds ∧ final' = final := by
  induction h generalizing rounds' with
  | stable hsame =>
    cases h' with
    | stable => exact ⟨rfl, rfl⟩
    | round hchanged => exact absurd hsame hchanged
  | round hchanged _ ih =>
    cases h' with
    | stable hsame => exact absurd hsame hchanged
    | round _ hrest =>
      obtain ⟨rfl, rfl⟩ := ih hrest
      exact ⟨rfl, rfl⟩

/-! ## Lines -/

theorem replicate_leadingSpaces_append (line : List Char) :
    List.replicate (leadingSpaces line) ' ' ++ line.dropWhile (· = ' ') = line := by
  have hspaces : line.takeWhile (· = ' ') = List.replicate (leadingSpaces line) ' ' := by
    refine List.eq_replicate_iff.mpr ⟨rfl, fun c hc => ?_⟩
    exact of_decide_eq_true (List.all_eq_true.mp List.all_takeWhile c hc)
  rw [← hspaces, List.takeWhile_append_dropWhile]

theorem leadingSpaces_replicate_append (n : Nat) (s : List Char) :
    leadingSpaces (List.replicate n ' ' ++ s) = n + leadingSpaces s := by
  induction n with
  | zero => rw [List.replicate_zero, List.nil_append, Nat.zero_add]
  | succ n ih =>
    have hcons : ∀ t, leadingSpaces (' ' :: t) = leadingSpaces t + 1 := fun t => rfl
    rw [List.replicate_succ, List.cons_append, hcons, ih]
    omega

theorem leadingSpaces_dropWhile (line : List Char) :
    leadingSpaces (line.dropWhile (· = ' ')) = 0 := by
  have hall := leadingSpaces_replicate_append (leadingSpaces line) (line.dropWhile (· = ' '))
  rw [replicate_leadingSpaces_append] at hall
  omega

theorem drop_leadingSpaces (line : List Char) :
    line.drop (leadingSpaces line) = line.dropWhile (· = ' ') := by
  conv_lhs => rw [← replicate_leadingSpaces_append line]
  rw [leadingSpaces_replicate_append, leadingSpaces_dropWhile]
  exact List.drop_left' List.length_replicate

/-- A line after some rounds: the pairs that are left, a null character for each pair that is gone, an
    odd space, and the rest of the line. -/
def peeled (rounds : Nat) (line : List Char) : List Char :=
  List.replicate (2 * (leadingSpaces line / 2 - rounds)) ' ' ++
    (List.replicate (min rounds (leadingSpaces line / 2)) '\x00' ++
      (List.replicate (leadingSpaces line % 2) ' ' ++ line.dropWhile (· = ' ')))

theorem peeled_zero (line : List Char) : peeled 0 line = line := by
  rw [peeled, Nat.zero_min, List.replicate_zero, List.nil_append, ← List.append_assoc,
    List.replicate_append_replicate, Nat.sub_zero, Nat.div_add_mod, replicate_leadingSpaces_append]

/-- Each round takes one pair, as long as there is one. -/
theorem leadingSpaces_peeled (rounds : Nat) (line : List Char) :
    leadingSpaces (peeled rounds line) / 2 = leadingSpaces line / 2 - rounds := by
  rw [peeled, leadingSpaces_replicate_append]
  cases hmarks : min rounds (leadingSpaces line / 2) with
  | zero =>
    rw [List.replicate_zero, List.nil_append, leadingSpaces_replicate_append,
      leadingSpaces_dropWhile]
    omega
  | succ marks =>
    -- A null character ends the leading spaces.
    have hnull : ∀ s, leadingSpaces ('\x00' :: s) = 0 := fun s => rfl
    rw [List.replicate_succ, List.cons_append, hnull]
    omega

theorem peeled_of_le {rounds : Nat} {line : List Char} (h : leadingSpaces line / 2 ≤ rounds) :
    peeled (rounds + 1) line = peeled rounds line := by
  rw [peeled, peeled, Nat.sub_eq_zero_of_le h, Nat.sub_eq_zero_of_le (h.trans rounds.le_succ),
    Nat.min_eq_right h, Nat.min_eq_right (h.trans rounds.le_succ)]

/-- One round more. -/
theorem peelLine_peeled (rounds : Nat) (line : List Char) :
    peelLine (peeled rounds line) = peeled (rounds + 1) line := by
  rw [peelLine, leadingSpaces_peeled]
  by_cases hpairs : leadingSpaces line / 2 ≤ rounds
  · rw [peeled_of_le hpairs]
    exact if_pos (Nat.sub_eq_zero_of_le hpairs)
  · -- The pair next to the null characters becomes one more of them.
    have hleft : leadingSpaces line / 2 - rounds ≠ 0 := by omega
    have hgone : min rounds (leadingSpaces line / 2) = rounds := by omega
    have hnext : min (rounds + 1) (leadingSpaces line / 2) = rounds + 1 := by omega
    show (if leadingSpaces line / 2 - rounds = 0 then _ else _) = _
    rw [if_neg hleft, peeled, peeled, hgone, hnext, List.drop_left' List.length_replicate,
      List.replicate_succ, List.cons_append, Nat.sub_sub]

theorem length_peeled (rounds : Nat) (line : List Char) :
    (peeled rounds line).length = 2 * (leadingSpaces line / 2 - rounds) +
      (min rounds (leadingSpaces line / 2) + (leadingSpaces line % 2 +
        (line.dropWhile (· = ' ')).length)) := by
  simp only [peeled, List.length_append, List.length_replicate]

/-- A line that has a pair left is shorter after the next round. -/
theorem peeled_ne {rounds : Nat} {line : List Char} (h : rounds < leadingSpaces line / 2) :
    peeled (rounds + 1) line ≠ peeled rounds line := by
  intro hsame
  have hlength := congrArg List.length hsame
  rw [length_peeled, length_peeled] at hlength
  omega

theorem not_mem_peeled {line : List Char} (h : '\n' ∉ line) (rounds : Nat) :
    '\n' ∉ peeled rounds line := by
  have hrest : '\n' ∉ line.dropWhile (· = ' ') := fun hmem =>
    h ((List.dropWhile_sublist _).mem hmem)
  simp only [peeled, List.mem_append, List.mem_replicate, not_or]
  exact ⟨by simp, by simp, by simp, hrest⟩

/-! ## Texts -/

/-- A text after some rounds. -/
def textAfter (rounds : Nat) (text : List Char) : List Char :=
  joinLines ((lines text).map (peeled rounds))

/-- How many pairs of leading spaces a line of a text has at most. -/
def indentDepth (text : List Char) : Nat :=
  (lines text).toFinset.sup fun line => leadingSpaces line / 2

theorem pairs_le_indentDepth {text line : List Char} (h : line ∈ lines text) :
    leadingSpaces line / 2 ≤ indentDepth text :=
  Finset.le_sup (f := fun line => leadingSpaces line / 2) (List.mem_toFinset.mpr h)

theorem textAfter_zero (text : List Char) : textAfter 0 text = text := by
  rw [textAfter, List.map_congr_left fun line _ => peeled_zero line, List.map_id',
    Script.joinLines_lines]

theorem lines_textAfter (rounds : Nat) (text : List Char) :
    lines (textAfter rounds text) = (lines text).map (peeled rounds) := by
  have hne : (lines text).map (peeled rounds) ≠ [] := by
    rw [ne_eq, List.map_eq_nil_iff]
    exact Script.splitOn_ne_nil '\n' text
  apply Text.lines_joinLines hne
  intro l hl
  obtain ⟨line, hline, rfl⟩ := List.mem_map.mp hl
  exact not_mem_peeled (Text.not_mem_of_mem_lines hline) rounds

theorem peel_textAfter (rounds : Nat) (text : List Char) :
    peel (textAfter rounds text) = textAfter (rounds + 1) text := by
  rw [peel, lines_textAfter, List.map_map, textAfter]
  exact congrArg joinLines (List.map_congr_left fun line _ => peelLine_peeled rounds line)

/-- A round changes a text exactly if a line has a pair left. -/
theorem peel_textAfter_eq_iff (rounds : Nat) (text : List Char) :
    peel (textAfter rounds text) = textAfter rounds text ↔ indentDepth text ≤ rounds := by
  rw [peel_textAfter]
  constructor
  · intro hsame
    -- No character is a line feed that was none before, so the lines can be compared one by one.
    have hlines := congrArg lines hsame
    rw [lines_textAfter, lines_textAfter] at hlines
    refine Finset.sup_le fun line hline => ?_
    by_contra hleft
    have hline := List.map_inj_left.mp hlines line (List.mem_toFinset.mp hline)
    exact peeled_ne (Nat.lt_of_not_le hleft) hline
  · intro hdepth
    rw [textAfter, textAfter]
    exact congrArg joinLines (List.map_congr_left fun line hline =>
      peeled_of_le ((pairs_le_indentDepth hline).trans hdepth))

/-- From any round on the loop goes on until no line has a pair left. -/
theorem peels_textAfter (text : List Char) (count : Nat) {rounds : Nat}
    (h : rounds + count = indentDepth text) :
    Peels (textAfter rounds text) (count + 1) (textAfter (indentDepth text) text) := by
  -- The induction is on the rounds that are left, which the round at hand makes fewer.
  induction count generalizing rounds with
  | zero =>
    obtain rfl : rounds = indentDepth text := h
    exact .stable ((peel_textAfter_eq_iff _ text).mpr le_rfl)
  | succ count ih =>
    have hchanged : peel (textAfter rounds text) ≠ textAfter rounds text := by
      rw [ne_eq, peel_textAfter_eq_iff]
      omega
    refine .round hchanged ?_
    rw [peel_textAfter]
    exact ih (by omega)

/-- The loop ends, with one round more than there are pairs in a line at most. -/
theorem peels_iff (text : List Char) (rounds : Nat) (final : List Char) :
    Peels text rounds final ↔
      rounds = indentDepth text + 1 ∧ final = textAfter (indentDepth text) text := by
  have hrun := peels_textAfter text (indentDepth text) (Nat.zero_add _)
  rw [textAfter_zero] at hrun
  refine ⟨hrun.unique, ?_⟩
  rintro ⟨rfl, rfl⟩
  exact hrun

/-! ## The new indent -/

theorem exchangeMarks_append (indent s t : List Char) :
    exchangeMarks indent (s ++ t) = exchangeMarks indent s ++ exchangeMarks indent t :=
  List.flatMap_append

theorem exchangeMarks_joinLines (indent : List Char) (ls : List (List Char)) :
    exchangeMarks indent (joinLines ls) = joinLines (ls.map (exchangeMarks indent)) := by
  induction ls with
  | nil => rfl
  | cons l rest ih =>
    by_cases hrest : rest = []
    · rw [hrest]
      rfl
    · have hmap : rest.map (exchangeMarks indent) ≠ [] := by rwa [ne_eq, List.map_eq_nil_iff]
      rw [List.map_cons, Script.joinLines_cons hrest, Script.joinLines_cons hmap,
        exchangeMarks_append, ← ih]
      rfl

/-- When no pair is left, the marks of a line become its indents. -/
theorem exchangeMarks_peeled (indent : List Char) {rounds : Nat} {line : List Char}
    (h : leadingSpaces line / 2 ≤ rounds) :
    exchangeMarks indent (peeled rounds line) = reindentLine indent line := by
  have hmarks : ∀ n, exchangeMarks indent (List.replicate n '\x00') =
      (List.replicate n indent).flatten := by
    intro n
    rw [exchangeMarks, List.flatMap_replicate]
    rfl
  have hspaces : ∀ n, exchangeMarks indent (List.replicate n ' ') = List.replicate n ' ' := by
    intro n
    have hspace : (if ' ' = '\x00' then indent else [' ']) = [' '] := if_neg (by decide)
    rw [exchangeMarks, List.flatMap_replicate, hspace, List.flatten_replicate_singleton]
  rw [peeled, Nat.sub_eq_zero_of_le h, Nat.min_eq_right h, Nat.mul_zero, List.replicate_zero,
    List.nil_append, exchangeMarks_append, exchangeMarks_append, hmarks, hspaces,
    ← List.append_assoc]
  rfl

/-- The text of the loop with its marks exchanged is the lines with the new indent. -/
theorem exchangeMarks_textAfter (indent text : List Char) :
    exchangeMarks indent (textAfter (indentDepth text) text) =
      joinLines ((lines text).map (reindentLine indent)) := by
  rw [textAfter, exchangeMarks_joinLines, List.map_map]
  exact congrArg joinLines (List.map_congr_left fun line hline =>
    exchangeMarks_peeled indent (pairs_le_indentDepth hline))

/-- An indent of two spaces leaves a line as it is. -/
theorem reindentLine_two {line : List Char} (h : '\x00' ∉ line) :
    reindentLine "  ".toList line = line := by
  have htwo : ∀ n, (List.replicate n "  ".toList).flatten = List.replicate (n * 2) ' ' := by
    intro n
    change (List.replicate n (List.replicate 2 ' ')).flatten = _
    exact List.flatten_replicate_replicate
  rw [Script.reindentLine_eq _ h, htwo, List.replicate_append_replicate, Nat.mul_comm]
  exact (congrArg (List.replicate · ' ' ++ _) (Nat.div_add_mod _ 2)).trans
    (replicate_leadingSpaces_append line)

theorem mem_of_mem_lines {text line : List Char} (h : line ∈ lines text) {c : Char} (hc : c ∈ line) :
    c ∈ text := by
  rw [← Script.joinLines_lines text]
  exact Script.mem_joinLines h hc

theorem joinLines_reindentLine_two {text : List Char} (h : '\x00' ∉ text) :
    joinLines ((lines text).map (reindentLine "  ".toList)) = text := by
  have hlines : ∀ line ∈ lines text, reindentLine "  ".toList line = line :=
    fun line hline => reindentLine_two fun hmem => h (mem_of_mem_lines hline hmem)
  rw [List.map_congr_left hlines, List.map_id', Script.joinLines_lines]

/-- The lines of a template without null characters, each with its new indent. The short way for two
    spaces comes to the same. -/
theorem toList_reindent {text : String} (h : '\x00' ∉ text.toList) (indent : String) :
    (reindent indent text).toList =
      joinLines ((lines text.toList).map (reindentLine indent.toList)) := by
  by_cases htwo : indent = "  "
  · rw [htwo, joinLines_reindentLine_two h, reindent, if_pos rfl]
  · exact Script.toList_reindent_of_ne htwo text

/-! ## Line feeds -/

/-- Lines have their own line feeds, and one more between each two of them. -/
theorem count_joinLines {ls : List (List Char)} (h : ls ≠ []) :
    (joinLines ls).count '\n' + 1 = (ls.map (List.count '\n')).sum + ls.length := by
  induction ls with
  | nil => exact absurd rfl h
  | cons l rest ih =>
    by_cases hrest : rest = []
    · rw [hrest]
      rfl
    · have hbehind := ih hrest
      rw [Script.joinLines_cons hrest, List.count_append, List.count_cons_self, List.map_cons,
        List.sum_cons, List.length_cons]
      omega

/-- A line has the line feeds of its indents. -/
theorem count_reindentLine (indent : List Char) {line : List Char} (hnull : '\x00' ∉ line)
    (hfeed : '\n' ∉ line) :
    (reindentLine indent line).count '\n' = leadingSpaces line / 2 * indent.count '\n' := by
  have hrest : (line.dropWhile (· = ' ')).count '\n' = 0 :=
    List.count_eq_zero.mpr fun hmem => hfeed ((List.dropWhile_sublist _).mem hmem)
  have hodd : ∀ n, (List.replicate n ' ').count '\n' = 0 := fun n =>
    List.count_eq_zero.mpr fun hmem => absurd (List.eq_of_mem_replicate hmem) (by decide)
  rw [Script.reindentLine_eq indent hnull, List.count_append, List.count_append, hrest, hodd,
    List.count_flatten, List.map_replicate, List.sum_replicate]
  rfl

/-- How many indents a text gets. -/
def indentCount (text : List Char) : Nat :=
  ((lines text).map fun line => leadingSpaces line / 2).sum

/-- A text gets as many lines more as there are line feeds in its indents. -/
theorem length_lines_reindent {text : String} (h : '\x00' ∉ text.toList) (indent : String) :
    (lines (reindent indent text).toList).length =
      (lines text.toList).length + indentCount text.toList * indent.toList.count '\n' := by
  have hne : (lines text.toList).map (reindentLine indent.toList) ≠ [] := by
    rw [ne_eq, List.map_eq_nil_iff]
    exact Script.splitOn_ne_nil '\n' text.toList
  have hcount : ∀ line ∈ lines text.toList, (reindentLine indent.toList line).count '\n' =
      leadingSpaces line / 2 * indent.toList.count '\n' := fun line hline =>
    count_reindentLine _ (fun hmem => h (mem_of_mem_lines hline hmem))
      (Text.not_mem_of_mem_lines hline)
  have hsum : ((lines text.toList).map (List.count '\n' ∘ reindentLine indent.toList)).sum =
      indentCount text.toList * indent.toList.count '\n' := by
    rw [indentCount, ← List.sum_map_mul_right]
    exact congrArg List.sum (List.map_congr_left hcount)
  rw [Literal.length_lines, toList_reindent h, count_joinLines hne, List.map_map, List.length_map,
    hsum, Nat.add_comm]

/-! ## The template -/

/-- A template without null characters in any indent. The loop ends, with one round more than a line
    has pairs of leading spaces at most. Its text with the marks exchanged is the template in the new
    indent, also where the short way for two spaces is taken, which leaves the template as it is. Every
    two leading spaces of a line become one indent; an odd one stays, and so does the rest of the line.
    There are as many lines as before, and one more for each line feed in an indent that is put in. -/
theorem reindent_rounds {text : String} (hnull : '\x00' ∉ text.toList) (indent : String) :
    ∃ final,
      (∀ rounds final', Peels text.toList rounds final' ↔
        rounds = indentDepth text.toList + 1 ∧ final' = final) ∧
      (reindent indent text).toList = exchangeMarks indent.toList final ∧
      reindent "  " text = text ∧ exchangeMarks "  ".toList final = text.toList ∧
      (reindent indent text).toList = joinLines ((lines text.toList).map fun line =>
        (List.replicate (leadingSpaces line / 2) indent.toList).flatten ++
          List.replicate (leadingSpaces line % 2) ' ' ++ line.drop (leadingSpaces line)) ∧
      (lines (reindent indent text).toList).length =
        (lines text.toList).length + indentCount text.toList * indent.toList.count '\n' := by
  refine ⟨textAfter (indentDepth text.toList) text.toList, peels_iff text.toList, ?_, if_pos rfl,
    ?_, ?_, length_lines_reindent hnull indent⟩
  · rw [toList_reindent hnull, exchangeMarks_textAfter]
  · rw [exchangeMarks_textAfter, joinLines_reindentLine_two hnull]
  · rw [toList_reindent hnull]
    refine congrArg joinLines (List.map_congr_left fun line hline => ?_)
    rw [Script.reindentLine_eq _ fun hmem => hnull (mem_of_mem_lines hline hmem),
      drop_leadingSpaces]
    rfl

/-- Three lines with five, no and two leading spaces, in an indent of a tab: the loop changes the text
    twice, its text serves both indents, and there are three lines as before. -/
theorem reindent_rounds_tab :
    '\x00' ∉ "     a b\n\n  c".toList ∧
      (∃ final, Peels "     a b\n\n  c".toList 3 final ∧
        exchangeMarks "\t".toList final = "\t\t a b\n\n\tc".toList ∧
        exchangeMarks "  ".toList final = "     a b\n\n  c".toList) ∧
      (lines (reindent "\t" "     a b\n\n  c").toList).length = 3 := by
  have hnull : '\x00' ∉ "     a b\n\n  c".toList := by decide
  obtain ⟨final, hloop, htab, -, htwo, -, hlength⟩ := reindent_rounds hnull "\t"
  have hresult : reindent "\t" "     a b\n\n  c" = "\t\t a b\n\n\tc" := by decide
  rw [hresult] at htab
  exact ⟨hnull, ⟨final, (hloop 3 final).mpr ⟨by decide, rfl⟩, htab.symm, htwo⟩, hlength⟩

/-- An indent with a line feed gives a text of one line a second one. -/
theorem reindent_feed :
    '\x00' ∉ "  a".toList ∧ (lines "  a".toList).length = 1 ∧ reindent "\n" "  a" = "\na" ∧
      (lines (reindent "\n" "  a").toList).length = 2 := by
  decide

end BlockScript.Helper
