/-
  BlockScript.Proofs.Script.Routine

  The texts of helpers. A name in the place of its mark and another indent ahead of the lines leave
  a text that ends in code one that ends in code, because they stand where the reader takes every
  character for itself.
-/
import BlockScript.Proofs.Script.Atom
import BlockScript.Proofs.Script.Indent
import BlockScript.Registry

namespace BlockScript.Script

open Text

/-! ## Where the reader stands -/

/-- Where the reader stands, whatever it has of a literal. -/
def Mode.place : Mode → Mode
  | .literal _ => .literal []
  | .escaped _ => .escaped []
  | mode => mode

theorem place_step (mode : Mode) (c : Char) :
    (mode.step c).2.place = (mode.place.step c).2.place := by
  cases mode with
  | code | slash | escaped _ | comment | broken => rfl
  | literal read =>
    change ((Mode.literal read).step c).2.place = ((Mode.literal []).step c).2.place
    rw [Mode.step, Mode.step]
    by_cases hquote : c = '\''
    · rw [if_pos hquote, if_pos hquote]
    · rw [if_neg hquote, if_neg hquote]
      by_cases hbackslash : c = '\\'
      · rw [if_pos hbackslash, if_pos hbackslash]
        rfl
      · rw [if_neg hbackslash, if_neg hbackslash]
        split <;> rfl

theorem place_modeAfter {mode mode' : Mode} (h : mode.place = mode'.place) (s : List Char) :
    (modeAfter mode s).place = (modeAfter mode' s).place := by
  induction s generalizing mode mode' with
  | nil => exact h
  | cons c rest ih =>
    apply ih
    rw [place_step, h, ← place_step]

theorem code_of_place {mode : Mode} (h : mode.place = .code) : mode = .code := by
  cases mode with
  | code => rfl
  | slash | literal _ | escaped _ | comment | broken => cases h

/-- Where inert characters leave the reader. -/
def Mode.calmed : Mode → Mode
  | .code | .slash => .code
  | .literal _ | .escaped _ => .literal []
  | .comment => .comment
  | .broken => .broken

theorem calmed_of_place {mode mode' : Mode} (h : mode.place = mode'.calmed) :
    mode.calmed = mode'.calmed := by
  have hplace : mode.calmed = mode.place.calmed := by cases mode <;> rfl
  rw [hplace, h]
  cases mode' <;> rfl

theorem place_step_of_inert {c : Char} (h : isInert c = true) (mode : Mode) :
    (mode.step c).2.place = mode.calmed := by
  simp only [isInert, isPlainChar, Bool.and_eq_true, decide_eq_true_eq] at h
  obtain ⟨⟨⟨hquote, hslash⟩, hbackslash⟩, hbreak⟩ := h
  cases mode with
  | code | slash => simp [Mode.step, hquote, hslash, Mode.place, Mode.calmed]
  | literal read => simp [Mode.step, hquote, hbackslash, hbreak, Mode.place, Mode.calmed]
  | escaped read => rfl
  | comment => simp [Mode.step, hbreak, Mode.place, Mode.calmed]
  | broken => rfl

theorem place_of_inert {s : List Char} (h : Inert s) (hne : s ≠ []) (mode : Mode) :
    (modeAfter mode s).place = mode.calmed := by
  induction s generalizing mode with
  | nil => exact absurd rfl hne
  | cons c rest ih =>
    have hstep := place_step_of_inert (h c List.mem_cons_self) mode
    rw [modeAfter]
    cases rest with
    | nil => exact hstep
    | cons d tail =>
      rw [ih (fun e he => h e (List.mem_cons_of_mem c he)) (List.cons_ne_nil d tail)]
      exact calmed_of_place hstep

/-! ## Names in the place of a mark -/

theorem replaceFrom_drop (pattern replacement : List Char) (n : Nat) (s : List Char) :
    replaceFrom pattern replacement n s = replaceFrom pattern replacement 0 (s.drop n) := by
  induction n generalizing s with
  | zero => rfl
  | succ n ih =>
    cases s with
    | nil => rfl
    | cons c rest => exact ih rest

/-- A replacement of inert characters by others leaves the reader where it was. -/
theorem place_replaceFrom {pattern replacement : List Char} (hpattern : Inert pattern)
    (hreplacement : Inert replacement) (hne : pattern ≠ []) (hne' : replacement ≠ [])
    (s : List Char) (mode : Mode) :
    (modeAfter mode (replaceFrom pattern replacement 0 s)).place = (modeAfter mode s).place := by
  match s with
  | [] => rfl
  | c :: rest =>
    rw [replaceFrom]
    split
    · rename_i hfound
      obtain ⟨tail, htail⟩ := List.isPrefixOf_iff_prefix.mp hfound
      have hrest : rest.drop (pattern.length - 1) = tail := by
        obtain ⟨d, more, rfl⟩ := List.exists_cons_of_ne_nil hne
        obtain ⟨-, rfl⟩ := List.cons.inj htail
        exact List.drop_left
      have hlt : tail.length < (c :: rest).length := by
        rw [← htail, List.length_append]
        have := List.length_pos_iff.mpr hne
        omega
      rw [replaceFrom_drop, hrest, modeAfter_append, ← htail, modeAfter_append,
        place_replaceFrom hpattern hreplacement hne hne' tail]
      apply place_modeAfter
      rw [place_of_inert hreplacement hne', place_of_inert hpattern hne]
    · rw [modeAfter, modeAfter, place_replaceFrom hpattern hreplacement hne hne' rest]
termination_by s.length

/-! ## Indents in the place of spaces -/

/-- Whether the reader stands where a line begins that no comment reaches. -/
def Mode.isSettled : Mode → Bool
  | .code | .literal _ | .broken => true
  | _ => false

theorem isSettled_break (mode : Mode) : (mode.step '\n').2.isSettled = true := by
  cases mode <;> rfl

/-- Where a line begins, inert characters leave the reader, whether there are any or not. -/
theorem place_of_settled {mode : Mode} (hmode : mode.isSettled = true) {s : List Char}
    (h : Inert s) : (modeAfter mode s).place = mode.place := by
  by_cases hs : s = []
  · rw [hs]
    rfl
  · rw [place_of_inert h hs]
    cases mode with
    | code | literal _ | broken => rfl
    | slash | escaped _ | comment => cases hmode

/-- A line without null characters has spaces exchanged only. -/
theorem reindentLine_eq (indent : List Char) {line : List Char} (hline : '\x00' ∉ line) :
    Helper.reindentLine indent line =
      (List.replicate ((line.takeWhile (· = ' ')).length / 2) indent).flatten
        ++ List.replicate ((line.takeWhile (· = ' ')).length % 2) ' '
        ++ line.dropWhile (· = ' ') := by
  have hchar : ∀ c ∈ line.dropWhile (· = ' '), (if c = '\x00' then indent else [c]) = [c] := by
    intro c hc
    rw [if_neg]
    rintro rfl
    exact hline ((List.dropWhile_sublist _).mem hc)
  rw [Helper.reindentLine, List.flatMap_congr hchar, List.flatMap_singleton']

/-- A line with another indent leaves the reader where the line does. -/
theorem place_reindentLine {mode : Mode} (hmode : mode.isSettled = true) {indent line : List Char}
    (hindent : Inert indent) (hline : '\x00' ∉ line) :
    (modeAfter mode (Helper.reindentLine indent line)).place = (modeAfter mode line).place := by
  have hlead : ∀ n k, Inert ((List.replicate n indent).flatten ++ List.replicate k ' ') := by
    intro n k c hc
    rcases List.mem_append.mp hc with hc | hc
    · obtain ⟨l, hl, hc⟩ := List.mem_flatten.mp hc
      exact hindent c ((List.eq_of_mem_replicate hl) ▸ hc)
    · rw [List.eq_of_mem_replicate hc]
      rfl
  have hspaces : Inert (line.takeWhile (· = ' ')) := by
    intro c hc
    have hspace := List.all_eq_true.mp List.all_takeWhile c hc
    rw [decide_eq_true_eq] at hspace
    rw [hspace]
    rfl
  rw [reindentLine_eq indent hline, modeAfter_append]
  conv_rhs => rw [← List.takeWhile_append_dropWhile (p := (· = ' ')) (l := line), modeAfter_append]
  apply place_modeAfter
  rw [place_of_settled hmode (hlead _ _), place_of_settled hmode hspaces]

/-- The characters of lines with a line feed between each two. -/
def joinLines : List (List Char) → List Char
  | [] => []
  | [l] => l
  | l :: l' :: rest => l ++ '\n' :: joinLines (l' :: rest)

theorem toList_join_ofList (ls : List (List Char)) :
    (Text.join "\n" (ls.map String.ofList)).toList = joinLines ls := by
  induction ls with
  | nil => rfl
  | cons l rest ih =>
    cases rest with
    | nil => exact String.toList_ofList
    | cons l' tail =>
      rw [List.map_cons, List.map_cons, Text.join, String.toList_append, String.toList_append,
        String.toList_ofList, ← List.map_cons, ih, joinLines, List.append_assoc]
      rfl

theorem joinLines_cons {l : List Char} {ls : List (List Char)} (h : ls ≠ []) :
    joinLines (l :: ls) = l ++ '\n' :: joinLines ls := by
  obtain ⟨l', rest, rfl⟩ := List.exists_cons_of_ne_nil h
  rfl

/-- A text is its lines with a line feed between each two. -/
theorem joinLines_lines (s : List Char) : joinLines (Text.lines s) = s := by
  rw [Text.lines]
  induction s with
  | nil => rfl
  | cons c rest ih =>
    have hne := splitOn_ne_nil '\n' rest
    rw [Text.splitOn]
    by_cases hc : c = '\n'
    · rw [if_pos hc, joinLines_cons hne, ih, hc]
      rfl
    · rw [if_neg hc]
      cases hpieces : Text.splitOn '\n' rest with
      | nil => exact absurd hpieces hne
      | cons piece pieces =>
        rw [hpieces] at ih
        simp only
        rw [← ih]
        cases pieces <;> rfl

/-- A text in another indent is its lines in that indent. -/
theorem toList_reindent_of_ne {indent : String} (h : indent ≠ "  ") (text : String) :
    (Helper.reindent indent text).toList =
      joinLines ((lines text.toList).map (Helper.reindentLine indent.toList)) := by
  have hmap : (lines text.toList).map
      (fun line => String.ofList (Helper.reindentLine indent.toList line)) =
      ((lines text.toList).map (Helper.reindentLine indent.toList)).map String.ofList := by
    rw [List.map_map]
    rfl
  rw [Helper.reindent, if_neg h, hmap, toList_join_ofList]

/-- Lines with another indent leave the reader where the lines do. -/
theorem place_reindent {indent : List Char} (hindent : Inert indent) {ls : List (List Char)}
    (hls : ∀ l ∈ ls, '\x00' ∉ l) {mode : Mode} (hmode : mode.isSettled = true) :
    (modeAfter mode (joinLines (ls.map (Helper.reindentLine indent)))).place =
      (modeAfter mode (joinLines ls)).place := by
  induction ls generalizing mode with
  | nil => rfl
  | cons l rest ih =>
    have hl := place_reindentLine hmode hindent (hls l List.mem_cons_self)
    by_cases hrest : rest = []
    · rw [hrest]
      exact hl
    · have hmap : rest.map (Helper.reindentLine indent) ≠ [] := by simpa using hrest
      rw [List.map_cons, joinLines_cons hmap, joinLines_cons hrest, modeAfter_append,
        modeAfter_append, modeAfter, modeAfter,
        ih (fun l' h => hls l' (List.mem_cons_of_mem l h)) (isSettled_break _)]
      apply place_modeAfter
      rw [place_step, hl, ← place_step]

/-! ## Helpers -/

/-- Whether a line ends in code and has no character that stands for an indent. -/
def FairLine (line : String) : Prop :=
  Closed line ∧ '\x00' ∉ line.toList

instance (line : String) : Decidable (FairLine line) :=
  inferInstanceAs (Decidable (_ ∧ _))

/-- A template of a helper of which all lines end in code and keep the indents of the template. -/
def FairTemplate (template : List String) : Prop :=
  ∀ line ∈ template, FairLine line

instance (template : List String) : Decidable (FairTemplate template) :=
  inferInstanceAs (Decidable (∀ line ∈ template, FairLine line))

theorem FairLine.append {s t : String} (hs : FairLine s) (ht : FairLine t) : FairLine (s ++ t) := by
  refine ⟨hs.1.append ht.1, ?_⟩
  rw [String.toList_append, List.mem_append, not_or]
  exact ⟨hs.2, ht.2⟩

theorem FairTemplate.join {template : List String} (h : FairTemplate template) :
    FairLine (Text.join "\n" template) := by
  induction template with
  | nil => exact ⟨rfl, List.not_mem_nil⟩
  | cons line rest ih =>
    have hrest := ih fun l hl => h l (List.mem_cons_of_mem line hl)
    have hline := h line List.mem_cons_self
    have hfeed : FairLine "\n" := by decide
    cases rest with
    | nil => exact hline
    | cons line' tail => exact (hline.append hfeed).append hrest

theorem inert_of_isName {name : String} (h : isName name.toList = true) : Inert name.toList := by
  obtain ⟨first, rest, heq, -, hfirst, hrest⟩ := isName_iff.mp h
  intro c hc
  have hword : Literal.isWordChar c = true := by
    rw [heq] at hc
    rcases List.mem_cons.mp hc with rfl | hc
    · exact hfirst
    · exact hrest c hc
  have hplain := isPlainChar_of_isWordChar hword
  rw [isInert, hplain, Bool.true_and, Bool.and_eq_true, decide_eq_true_eq, decide_eq_true_eq]
  constructor
  · rintro rfl
    exact absurd hword (by decide)
  · rintro rfl
    exact absurd hword (by decide)

/-- What a replacement leaves was in the text or in the replacement. -/
theorem mem_of_mem_replaceFrom {pattern replacement : List Char} {c : Char} (n : Nat)
    (s : List Char) (h : c ∈ replaceFrom pattern replacement n s) : c ∈ replacement ∨ c ∈ s := by
  induction s generalizing n with
  | nil =>
    rw [replaceFrom] at h
    exact absurd h List.not_mem_nil
  | cons d rest ih =>
    cases n with
    | succ n =>
      rw [replaceFrom] at h
      exact (ih n h).imp_right (List.mem_cons_of_mem d)
    | zero =>
      rw [replaceFrom] at h
      split at h
      · rcases List.mem_append.mp h with h | h
        · exact Or.inl h
        · exact (ih _ h).imp_right (List.mem_cons_of_mem d)
      · rcases List.mem_cons.mp h with rfl | h
        · exact Or.inr List.mem_cons_self
        · exact (ih _ h).imp_right (List.mem_cons_of_mem d)

/-- The characters of a line are characters of the text. -/
theorem mem_joinLines {ls : List (List Char)} {l : List Char} (hl : l ∈ ls) {c : Char}
    (hc : c ∈ l) : c ∈ joinLines ls := by
  induction ls with
  | nil => exact absurd hl List.not_mem_nil
  | cons l' rest ih =>
    by_cases hrest : rest = []
    · rw [hrest, List.mem_singleton] at hl
      rw [hrest, ← hl]
      exact hc
    · rw [joinLines_cons hrest, List.mem_append, List.mem_cons]
      rcases List.mem_cons.mp hl with rfl | hl
      · exact Or.inl hc
      · exact Or.inr (Or.inr (ih hl))

/-- Between lines there are line feeds. -/
theorem eq_or_mem_of_mem_joinLines {ls : List (List Char)} {c : Char} (h : c ∈ joinLines ls) :
    c = '\n' ∨ ∃ l ∈ ls, c ∈ l := by
  induction ls with
  | nil => exact absurd h List.not_mem_nil
  | cons l rest ih =>
    by_cases hrest : rest = []
    · rw [hrest] at h
      exact Or.inr ⟨l, List.mem_cons_self, h⟩
    · rw [joinLines_cons hrest, List.mem_append, List.mem_cons] at h
      rcases h with h | h | h
      · exact Or.inr ⟨l, List.mem_cons_self, h⟩
      · exact Or.inl h
      · rcases ih h with h | ⟨l', hl', hc⟩
        · exact Or.inl h
        · exact Or.inr ⟨l', List.mem_cons_of_mem l hl', hc⟩

/-- The text of a helper ends in code. -/
theorem closed_helper {template : List String} (h : FairTemplate template) {emitted indent : String}
    (hname : isName emitted.toList = true) (hindent : Inert indent.toList) :
    Closed (Helper.reindent indent (Helper.instantiate template emitted)) := by
  obtain ⟨hclosed, hnull⟩ := h.join
  have hmark : Inert Helper.nameMark.toList := by decide
  have hemitted := inert_of_isName hname
  have hne : emitted.toList ≠ [] := by
    obtain ⟨first, rest, heq, -⟩ := isName_iff.mp hname
    rw [heq]
    exact List.cons_ne_nil first rest
  -- The name in the place of its mark.
  have hchars : (Helper.instantiate template emitted).toList =
      replaceFrom Helper.nameMark.toList emitted.toList 0 (Text.join "\n" template).toList := by
    rw [Helper.instantiate, Text.replace, String.toList_ofList]
  have hnamed : Closed (Helper.instantiate template emitted) := by
    apply code_of_place
    rw [hchars, place_replaceFrom hmark hemitted (by decide) hne, hclosed]
    rfl
  by_cases hother : indent = "  "
  · rw [Helper.reindent, if_pos hother]
    exact hnamed
  · -- The indent in the place of spaces.
    have hlines : ∀ l ∈ Text.lines (Helper.instantiate template emitted).toList, '\x00' ∉ l := by
      intro l hl hmem
      have hmem' := mem_joinLines hl hmem
      rw [joinLines_lines, hchars] at hmem'
      rcases mem_of_mem_replaceFrom 0 _ hmem' with hmem' | hmem'
      · obtain ⟨first, rest, heq, -, hfirst, hrest⟩ := isName_iff.mp hname
        rw [heq] at hmem'
        rcases List.mem_cons.mp hmem' with rfl | hmem'
        · exact absurd hfirst (by decide)
        · exact absurd (hrest _ hmem') (by decide)
      · exact hnull hmem'
    apply code_of_place
    rw [toList_reindent_of_ne hother, place_reindent hindent hlines rfl, joinLines_lines, hnamed]
    rfl

end BlockScript.Script
