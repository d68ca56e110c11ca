/-
  BlockScript.Proofs.Literal.RoundTrip

  String literals read back. The reader of a literal knows nothing of scripts: behind the opening
  quote a backslash stands for the character behind it, and the first other quote is the end. What
  is written for a text reads as the text, whatever stands behind it, so that no text ends its
  literal early. A text of several lines reads back from the literals of its lines, and none of them
  has a line feed in it.
-/
import BlockScript.Proofs.Comment.LineEnd
import BlockScript.Proofs.Script.Routine

namespace BlockScript.Literal

open Text

/-! ## Reading -/

/-- The text that the rest of a literal stands for, and what is behind the literal. `escaped` tells
    of a backslash just ahead, which makes the next character stand for itself. -/
def readBody (escaped : Bool) : List Char → Option (List Char × List Char)
  | [] => none
  | c :: rest =>
    if !escaped && c = '\'' then some ([], rest)
    else if !escaped && c = '\\' then readBody true rest
    else (readBody false rest).map fun (text, behind) => (c :: text, behind)

/-- The text of the literal that begins here, and what is behind it. -/
def read? : List Char → Option (List Char × List Char)
  | '\'' :: rest => readBody false rest
  | _ => none

/-- What stands between the literals of two lines: the sum with a line feed. -/
def feedTerm : List Char :=
  " + '\\n' +\n".toList

/-- A text and what is behind its literal are shorter than both with the quote between them. -/
theorem length_lt_of_readBody {escaped : Bool} {s text behind : List Char}
    (h : readBody escaped s = some (text, behind)) : text.length + behind.length < s.length := by
  induction s generalizing escaped text with
  | nil => cases h
  | cons c rest ih =>
    rw [List.length_cons]
    rw [readBody] at h
    split at h
    · obtain ⟨rfl, rfl⟩ := Prod.mk.inj (Option.some.inj h)
      simp
    · split at h
      · exact Nat.lt_succ_of_lt (ih h)
      · obtain ⟨⟨text', behind'⟩, hrest, heq⟩ := Option.map_eq_some_iff.mp h
        obtain ⟨rfl, rfl⟩ := Prod.mk.inj heq
        have hshorter := ih hrest
        rw [List.length_cons]
        omega

theorem length_lt_of_read? {s text behind : List Char} (h : read? s = some (text, behind)) :
    behind.length < s.length := by
  rw [read?.eq_def] at h
  split at h
  · have hshorter := length_lt_of_readBody h
    rw [List.length_cons]
    omega
  · cases h

/-- The texts of literals with the sum with a line feed between each two, if nothing else is
    there. -/
def readLines? (s : List Char) : Option (List (List Char)) :=
  match _hread : read? s with
  | none => none
  | some (line, behind) =>
    if behind = [] then some [line]
    else if feedTerm.isPrefixOf behind then
      (readLines? (behind.drop feedTerm.length)).map (line :: ·)
    else none
termination_by s.length
decreasing_by
  have hshorter := length_lt_of_read? _hread
  rw [List.length_drop]
  omega

/-! ## What is written -/

/-- The rest of a literal is read up to its quote. -/
theorem readBody_escaped (text behind : List Char) :
    readBody false (text.flatMap escapeChar ++ '\'' :: behind) = some (text, behind) := by
  induction text with
  | nil => rfl
  | cons c rest ih =>
    rw [List.flatMap_cons, List.append_assoc, escapeChar]
    by_cases hc : (c = '\\' || c = '\n' || c = '\'') = true
    · rw [if_pos hc, List.cons_append, List.cons_append, List.nil_append]
      simp [readBody, ih]
    · rw [if_neg hc, List.cons_append, List.nil_append]
      simp only [Bool.or_eq_true, decide_eq_true_eq, not_or] at hc
      simp [readBody, ih, hc.1.1, hc.2]

/-- A literal is read as its text, and no further than to its end. -/
theorem read?_quoteChars (text behind : List Char) :
    read? (quoteChars text ++ behind) = some (text, behind) := by
  rw [quoteChars, List.cons_append, List.append_assoc]
  exact readBody_escaped text behind

theorem read?_quote (text : String) (behind : List Char) :
    read? ((quote text).toList ++ behind) = some (text.toList, behind) := by
  rw [quote, String.toList_ofList, read?_quoteChars]

theorem quote_inj : Function.Injective quote := by
  intro s t h
  have hs := read?_quote s []
  rw [h, read?_quote, Option.some.injEq, Prod.mk.injEq] at hs
  exact String.toList_injective hs.1.symm

/-- No character is written with a line feed but the line feed. -/
theorem not_mem_quoteChars {text : List Char} (h : '\n' ∉ text) : '\n' ∉ quoteChars text := by
  simp only [quoteChars, List.mem_cons, List.mem_append, List.mem_flatMap, List.not_mem_nil,
    or_false, not_or, not_exists, not_and]
  refine ⟨by decide, ?_, by decide⟩
  intro c hc hmem
  rw [escapeChar] at hmem
  have hfeed : '\n' = c := by
    split at hmem
    · simpa using hmem
    · simpa using hmem
  exact h (hfeed ▸ hc)

/-! ## One replacement behind the other -/

/-- A single character is replaced wherever it occurs. -/
theorem replaceFrom_char (d : Char) (replacement s : List Char) :
    replaceFrom [d] replacement 0 s = s.flatMap fun c => if c = d then replacement else [c] := by
  induction s with
  | nil => rfl
  | cons c rest ih =>
    have hfound : List.isPrefixOf [d] (c :: rest) = decide (c = d) := by
      simp [List.isPrefixOf, beq_eq_decide, eq_comm]
    rw [replaceFrom, List.flatMap_cons, hfound]
    by_cases hc : c = d
    · rw [if_pos (decide_eq_true hc), if_pos hc]
      exact congrArg (replacement ++ ·) ih
    · rw [if_neg (by simp [hc]), if_neg hc, ih]
      rfl

/-- A literal can be written by replacing backslashes, then line feeds, then quotes. Backslashes
    come first, because the other replacements write some. -/
theorem quote_eq_replace (text : String) : quote text =
    "'" ++ replace (replace (replace text "\\" "\\\\") "\n" "\\\n") "'" "\\'" ++ "'" := by
  have hchar : ∀ c : Char, escapeChar c =
      (if c = '\\' then ['\\', '\\'] else [c]).flatMap fun d =>
        (if d = '\n' then ['\\', '\n'] else [d]).flatMap fun e =>
          if e = '\'' then ['\\', '\''] else [e] := by
    intro c
    rw [escapeChar]
    by_cases hbackslash : c = '\\'
    · subst hbackslash
      rfl
    · by_cases hfeed : c = '\n'
      · subst hfeed
        rfl
      · by_cases hquote : c = '\''
        · subst hquote
          rfl
        · simp [hbackslash, hfeed, hquote]
  have hreplaced : ∀ (s : String) (d : Char) (r : List Char),
      (replace s (String.ofList [d]) (String.ofList r)).toList =
        s.toList.flatMap fun c => if c = d then r else [c] := by
    intro s d r
    rw [replace, String.toList_ofList, String.toList_ofList, String.toList_ofList, replaceFrom_char]
  apply String.toList_injective
  have hthree : (replace (replace (replace text "\\" "\\\\") "\n" "\\\n") "'" "\\'").toList =
      text.toList.flatMap escapeChar := by
    refine (hreplaced _ '\'' ['\\', '\'']).trans ?_
    rw [show (replace (replace text "\\" "\\\\") "\n" "\\\n").toList = _ from
        hreplaced _ '\n' ['\\', '\n'],
      show (replace text "\\" "\\\\").toList = _ from hreplaced _ '\\' ['\\', '\\'],
      List.flatMap_assoc, List.flatMap_assoc]
    exact congrArg (List.flatMap · text.toList) (funext fun c => (hchar c).symm)
  rw [String.toList_append, String.toList_append, hthree, quote, String.toList_ofList]
  rfl

/-! ## Several lines -/

/-- The text of the last literal. -/
theorem readLines?_of_end {s line : List Char} (h : read? s = some (line, [])) :
    readLines? s = some [line] := by
  rw [readLines?]
  split
  · rename_i hnone
    rw [h] at hnone
    cases hnone
  · rename_i hsome
    obtain ⟨rfl, rfl⟩ := Prod.mk.inj (Option.some.inj (h.symm.trans hsome))
    exact if_pos rfl

/-- The text of a literal with a sum behind it. -/
theorem readLines?_of_sum {s line rest : List Char} (h : read? s = some (line, feedTerm ++ rest)) :
    readLines? s = (readLines? rest).map (line :: ·) := by
  rw [readLines?]
  split
  · rename_i hnone
    rw [h] at hnone
    cases hnone
  · rename_i hsome
    obtain ⟨rfl, rfl⟩ := Prod.mk.inj (Option.some.inj (h.symm.trans hsome))
    have hne : feedTerm ++ rest ≠ [] := List.cons_ne_nil _ _
    have hfeed : feedTerm.isPrefixOf (feedTerm ++ rest) = true :=
      List.isPrefixOf_iff_prefix.mpr (List.prefix_append feedTerm rest)
    rw [if_neg hne, if_pos hfeed, List.drop_left]

/-- Texts joined with a separator, as characters. -/
theorem toList_join (separator : String) (texts : List String) :
    (join separator texts).toList = separator.toList.intercalate (texts.map String.toList) := by
  induction texts with
  | nil => rfl
  | cons text rest ih =>
    cases rest with
    | nil => simp [join]
    | cons next rest =>
      rw [join, String.toList_append, String.toList_append, ih]
      simp only [List.map_cons, List.intercalate_cons_cons, List.append_assoc]

/-- The literals of lines read as the lines. -/
theorem readLines?_intercalate {line : List Char} {others : List (List Char)} :
    readLines? (feedTerm.intercalate ((line :: others).map quoteChars)) =
      some (line :: others) := by
  induction others generalizing line with
  | nil =>
    have hread := read?_quoteChars line []
    rw [List.append_nil] at hread
    simpa using readLines?_of_end hread
  | cons next rest ih =>
    rw [List.map_cons, List.map_cons, List.intercalate_cons_cons, List.append_assoc,
      readLines?_of_sum (read?_quoteChars line _), ← List.map_cons, ih]
    rfl

/-- Several lines are written as the literals of the lines. -/
theorem toList_quoteLines (text : String) : (quoteLines text).toList =
    feedTerm.intercalate ((lines text.toList).map quoteChars) := by
  rw [quoteLines, toList_join, List.map_map]
  congr 2
  exact funext fun line => String.toList_ofList

theorem readLines?_quoteLines (text : String) :
    readLines? (quoteLines text).toList = some (lines text.toList) := by
  obtain ⟨line, others, hlines⟩ := exists_lines text.toList
  rw [toList_quoteLines, hlines, readLines?_intercalate]

/-! ## Round trip -/

/-- A literal reads as its text up to its own last character, whatever stands behind it, so texts
    have different literals; it is what the three replacements write. A text of several lines is
    written as the literals of its lines, with the sum with a line feed between each two. They read
    as the lines, which make up the text, and none of them has a line feed in it. -/
theorem literals_read_back :
    (∀ (text : String) (behind : List Char),
      read? ((quote text).toList ++ behind) = some (text.toList, behind)) ∧
    Function.Injective quote ∧
    (∀ text : String, quote text =
      "'" ++ replace (replace (replace text "\\" "\\\\") "\n" "\\\n") "'" "\\'" ++ "'") ∧
    ∀ text : String,
      (quoteLines text).toList = feedTerm.intercalate ((lines text.toList).map quoteChars) ∧
      readLines? (quoteLines text).toList = some (lines text.toList) ∧
      Script.joinLines (lines text.toList) = text.toList ∧
      ∀ line ∈ lines text.toList, '\n' ∉ quoteChars line := by
  refine ⟨read?_quote, quote_inj, quote_eq_replace, fun text => ?_⟩
  have hfeeds : ∀ line ∈ lines text.toList, '\n' ∉ quoteChars line :=
    fun line hline => not_mem_quoteChars (not_mem_of_mem_lines hline)
  exact ⟨toList_quoteLines text, readLines?_quoteLines text, Script.joinLines_lines text.toList,
    hfeeds⟩

end BlockScript.Literal
