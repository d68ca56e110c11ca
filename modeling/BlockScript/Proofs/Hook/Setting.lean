/-
  BlockScript.Proofs.Hook.Setting

  What hooks are once they are instantiated. A hook is lines with something in each, and the mark in
  it stands for the id of a block in quotes. An id may have line feeds, so an instantiated hook may
  have more lines than the hook, and empty ones among them; but the quotes leave something in the
  first of its lines and in the last. That is what can be inserted into a text.
-/
import BlockScript.Proofs.Comment.Depth
import BlockScript.Proofs.Comment.Solid
import BlockScript.Proofs.Generate.Lockstep
import BlockScript.Proofs.Hook.Tidy
import BlockScript.Proofs.Literal.Statement

namespace BlockScript

namespace Text

/-! ## Lines with something in them -/

theorem insertAfterBreaks_nil (s : List Char) : insertAfterBreaks [] s = s := by
  induction s with
  | nil => rfl
  | cons c rest ih => rw [insertAfterBreaks_cons, ih, ite_self, List.nil_append]

/-- A text with a line feed behind it is its lines with line feeds behind them. -/
theorem concat_eq_marked (s : List Char) : s ++ ['\n'] = marked [] (lines s) := by
  rw [← marked_lines, insertAfterBreaks_nil, List.nil_append]

/-- In a line it does not matter where something is. -/
theorem isSolid_iff_of_not_mem {s : List Char} (h : '\n' ∉ s) :
    isSolid s = true ↔ ∃ c ∈ s, isBlank c = false := by
  induction s with
  | nil => simp [isSolid]
  | cons c rest ih =>
    rw [List.mem_cons, not_or] at h
    rw [isSolid_cons_iff, ih h.2]
    simp only [List.mem_cons, exists_eq_or_imp, ne_eq, Ne.symm h.1, not_false_eq_true, true_and]

theorem isSolid_reverse_iff {s : List Char} (h : '\n' ∉ s) :
    isSolid s.reverse = true ↔ isSolid s = true := by
  rw [isSolid_iff_of_not_mem h, isSolid_iff_of_not_mem fun hmem => h (List.mem_reverse.mp hmem)]
  simp only [List.mem_reverse]

/-- Whether there is something in a line does not depend on what follows it. -/
theorem isSolid_of_line {line s : List Char} (h : isSolid (line ++ '\n' :: s) = true) :
    isSolid line = true := by
  induction line with
  | nil =>
    rcases isSolid_cons_iff.mp h with h | ⟨h, -⟩
    · cases h
    · exact absurd rfl h
  | cons c rest ih =>
    rw [isSolid_cons_iff]
    exact (isSolid_cons_iff.mp h).imp_right fun h => ⟨h.1, ih h.2⟩

/-- The lines of a text go in together, if there is something in the first and in the last. -/
theorem isInsertion_lines {s : List Char} (hs : isSolid s = true) (hs' : isSolid s.reverse = true) :
    IsInsertion (· ∈ lines s) (lines s) where
  lines l hl := ⟨hl, not_mem_of_mem_lines hl⟩
  first := by
    obtain ⟨first, others, hlines⟩ := exists_lines s
    have hsplit : s ++ ['\n'] = first ++ '\n' :: marked [] others := by
      rw [concat_eq_marked, hlines, marked_cons, List.nil_append]
    have hfirst : isSolid (first ++ '\n' :: marked [] others) = true :=
      hsplit ▸ isSolid_append hs ['\n']
    exact ⟨first, others, hlines, isSolid_of_line hfirst⟩
  last := by
    obtain ⟨front, last, hlines⟩ : ∃ front last, lines s = front ++ [last] := by
      have hne : lines s ≠ [] := Script.splitOn_ne_nil '\n' s
      exact ⟨_, _, (List.dropLast_append_getLast hne).symm⟩
    have hfeed : '\n' ∉ last :=
      not_mem_of_mem_lines (hlines ▸ List.mem_append_right front List.mem_cons_self)
    have hsplit : s = marked [] front ++ last := by
      apply (List.append_left_inj ['\n']).mp
      rw [concat_eq_marked, hlines, marked_append, marked_cons, List.nil_append, List.append_assoc]
      rfl
    refine ⟨front, last, hlines, ?_⟩
    -- Read backwards the last line is the first one.
    rw [← isSolid_reverse_iff hfeed]
    rw [hsplit, List.reverse_append] at hs'
    rcases List.eq_nil_or_concat front with rfl | ⟨more, l, rfl⟩
    · simpa [marked] using hs'
    · have hlast : (marked [] (more ++ [l])).reverse = '\n' :: (marked [] more ++ l).reverse := by
        simp [marked]
      rw [List.concat_eq_append, hlast] at hs'
      exact isSolid_of_line hs'

/-! ## Replacing in lines -/

theorem prefix_of_prefix_line {pattern line s : List Char} (hpattern : '\n' ∉ pattern)
    (h : pattern <+: line ++ '\n' :: s) : pattern <+: line := by
  induction line generalizing pattern with
  | nil =>
    cases pattern with
    | nil => exact List.nil_prefix
    | cons c rest =>
      have hc : c = '\n' := (List.cons_prefix_cons.mp h).1
      exact absurd (hc ▸ List.mem_cons_self) hpattern
  | cons d line ih =>
    cases pattern with
    | nil => exact List.nil_prefix
    | cons c rest =>
      rw [List.mem_cons, not_or] at hpattern
      obtain ⟨rfl, hrest⟩ := List.cons_prefix_cons.mp h
      exact List.cons_prefix_cons.mpr ⟨rfl, ih hpattern.2 hrest⟩

variable {pattern replacement : List Char}

/-- A pattern without a line feed is replaced line by line. -/
theorem replaceFrom_line (hpattern : '\n' ∉ pattern) (hne : pattern ≠ []) (line s : List Char)
    {n : Nat} (hn : n ≤ line.length) : replaceFrom pattern replacement n (line ++ '\n' :: s) =
      replaceFrom pattern replacement n line ++ '\n' :: replaceFrom pattern replacement 0 s := by
  induction line generalizing n with
  | nil =>
    obtain rfl : n = 0 := Nat.le_zero.mp hn
    have hnot : ¬ pattern.isPrefixOf ('\n' :: s) = true := by
      intro hfound
      have hnil : pattern <+: [] :=
        prefix_of_prefix_line hpattern (List.isPrefixOf_iff_prefix.mp hfound)
      exact hne (List.prefix_nil.mp hnil)
    rw [List.nil_append, replaceFrom, replaceFrom, if_neg hnot]
    rfl
  | cons c rest ih =>
    cases n with
    | succ n =>
      rw [List.cons_append, replaceFrom, replaceFrom, ih (Nat.le_of_succ_le_succ hn)]
    | zero =>
      rw [List.cons_append, replaceFrom, replaceFrom]
      by_cases hfound : pattern <+: c :: rest
      · have hlength : pattern.length - 1 ≤ rest.length := by
          have hle := hfound.length_le
          rw [List.length_cons] at hle
          omega
        have hmore : pattern <+: c :: (rest ++ '\n' :: s) :=
          hfound.trans (List.prefix_append (c :: rest) _)
        rw [if_pos (List.isPrefixOf_iff_prefix.mpr hmore),
          if_pos (List.isPrefixOf_iff_prefix.mpr hfound), ih hlength, List.append_assoc]
      · have hnot : ¬ pattern <+: c :: (rest ++ '\n' :: s) := by
          intro hmore
          have hline : pattern <+: c :: rest := prefix_of_prefix_line hpattern hmore
          exact hfound hline
        rw [if_neg fun h => hnot (List.isPrefixOf_iff_prefix.mp h),
          if_neg fun h => hfound (List.isPrefixOf_iff_prefix.mp h), ih (Nat.zero_le _),
          List.cons_append]

theorem isSolid_replaceFrom (hreplacement : isSolid replacement = true) {s : List Char}
    (hs : isSolid s = true) : isSolid (replaceFrom pattern replacement 0 s) = true := by
  induction s with
  | nil => cases hs
  | cons c rest ih =>
    rw [replaceFrom]
    split
    · exact isSolid_append hreplacement _
    · rw [isSolid_cons_iff]
      exact (isSolid_cons_iff.mp hs).imp_right fun h => ⟨h.1, ih h.2⟩

/-- What a replacement makes of a line ends with something in it, or nothing is replaced. -/
theorem isSolid_reverse_replaceFrom (hreplacement : isSolid replacement.reverse = true)
    {line : List Char} (hline : '\n' ∉ line) (n : Nat) :
    isSolid (replaceFrom pattern replacement n line).reverse = true ∨
      '\n' ∉ replaceFrom pattern replacement n line ∧
        (n = 0 → replaceFrom pattern replacement n line = line) := by
  induction line generalizing n with
  | nil =>
    rw [replaceFrom]
    exact Or.inr ⟨List.not_mem_nil, fun _ => rfl⟩
  | cons c rest ih =>
    rw [List.mem_cons, not_or] at hline
    cases n with
    | succ n =>
      rw [replaceFrom]
      exact (ih hline.2 n).imp_right fun h => ⟨h.1, fun hn => absurd hn (Nat.succ_ne_zero n)⟩
    | zero =>
      rw [replaceFrom]
      split
      · left
        rw [List.reverse_append]
        -- The replacement is in the last line, or something else is.
        rcases ih hline.2 (pattern.length - 1) with hrest | ⟨hfeed, -⟩
        · exact isSolid_append hrest _
        · exact isSolid_behind hreplacement fun h => hfeed (List.mem_reverse.mp h)
      · rw [List.reverse_cons]
        rcases ih hline.2 0 with hrest | ⟨hfeed, hsame⟩
        · exact Or.inl (isSolid_append hrest _)
        · rw [List.mem_cons, not_or]
          exact Or.inr ⟨⟨hline.1, hfeed⟩, fun _ => congrArg _ (hsame rfl)⟩

/-- Lines with something in each. -/
def HasSolidLines (s : String) : Prop :=
  ∃ ls, (∀ l ∈ ls, isSolid l = true ∧ '\n' ∉ l) ∧ s.toList = marked [] ls

/-- Lines in which a pattern is replaced can be inserted, if there is something in the first line of
    the replacement and in the last. -/
theorem HasSolidLines.replace {s pattern replacement : String} (h : HasSolidLines s)
    (hpattern : '\n' ∉ pattern.toList) (hne : pattern.toList ≠ [])
    (hfirst : isSolid replacement.toList = true) (hlast : isSolid replacement.toList.reverse = true) :
    IsInsertText (· ∈ (lines (Text.replace s pattern replacement).toList).dropLast)
      (Text.replace s pattern replacement) := by
  obtain ⟨ls, hls, hs⟩ := h
  have hreplace : (Text.replace s pattern replacement).toList =
      replaceFrom pattern.toList replacement.toList 0 (marked [] ls) := by
    rw [Text.replace, String.toList_ofList, hs]
  -- Every line becomes lines of its own.
  have hms : ls = [] ∨ ∃ ms, IsInsertion (· ∈ ms) ms ∧
      replaceFrom pattern.toList replacement.toList 0 (marked [] ls) = marked [] ms := by
    clear hs hreplace
    induction ls with
    | nil => exact Or.inl rfl
    | cons l rest ih =>
      obtain ⟨hsolid, hfeed⟩ := hls l List.mem_cons_self
      have hlines : IsInsertion (· ∈ lines (replaceFrom pattern.toList replacement.toList 0 l))
          (lines (replaceFrom pattern.toList replacement.toList 0 l)) := by
        apply isInsertion_lines (isSolid_replaceFrom hfirst hsolid)
        rcases isSolid_reverse_replaceFrom hlast hfeed 0 with h | ⟨-, hsame⟩
        · exact h
        · rw [hsame rfl]
          exact (isSolid_reverse_iff hfeed).mpr hsolid
      have hline : replaceFrom pattern.toList replacement.toList 0 (marked [] (l :: rest)) =
          marked [] (lines (replaceFrom pattern.toList replacement.toList 0 l)) ++
            replaceFrom pattern.toList replacement.toList 0 (marked [] rest) := by
        rw [marked_cons, List.nil_append, replaceFrom_line hpattern hne _ _ (Nat.zero_le _),
          ← concat_eq_marked, List.append_assoc, List.singleton_append]
      right
      rw [hline]
      rcases ih fun l' hl' => hls l' (List.mem_cons_of_mem l hl') with rfl | ⟨ms, hms, heq⟩
      · exact ⟨_, hlines, List.append_nil _⟩
      · rw [heq, ← marked_append]
        refine ⟨_, IsInsertion.append ?_ ?_, rfl⟩
        · exact hlines.mono fun l hl => List.mem_append_left ms hl
        · exact hms.mono fun l hl => List.mem_append_right _ hl
  rcases hms with rfl | ⟨ms, hms, heq⟩
  · exact Or.inl (String.toList_eq_nil_iff.mp (hreplace.trans rfl))
  · refine Or.inr ⟨ms, ?_, hreplace.trans heq⟩
    rw [hreplace, heq, lines_marked List.not_mem_nil fun l hl => (hms.lines l hl).2]
    apply hms.mono
    intro l hl
    simpa using hl

/-- Lines that can be inserted can be inserted with an indent. -/
theorem IsInsertText.indented {P : List Char → Prop} {s lead : String} (h : IsInsertText P s)
    (hs : s ≠ "") (hlead : ∀ c ∈ lead.toList, c = ' ' ∨ c = '\t')
    (hP : ∀ l, P l → P (lead.toList ++ l)) :
    IsInsertText P (lead ++ String.ofList (insertAfterBreaks lead.toList s.toList)) := by
  have hbreak := not_mem_of_spaces hlead
  obtain ⟨ls, hls, hlines⟩ := h.resolve_left hs
  refine Or.inr ⟨ls.map (lead.toList ++ ·), ?_, ?_⟩
  · apply hls.map
    · intro l hl hfeed
      rw [List.mem_append, not_or]
      exact ⟨hP l hl, hbreak, hfeed⟩
    · exact fun l hl => isSolid_behind hl hbreak
  · have hindent : indentFrom true lead.toList (marked [] ls ++ []) =
        marked [] (ls.map (lead.toList ++ ·)) ++ indentFrom true lead.toList [] :=
      indentFrom_marked (fun l hl => (hls.lines l hl).2) []
    rw [indentFrom_nil, List.append_nil, List.append_nil, indentFrom,
      if_pos ⟨rfl, marked_ne_nil hls.ne_nil⟩] at hindent
    rw [String.toList_append, String.toList_ofList, hlines, hindent]

/-- A text with lines inserted, indented on both sides. -/
theorem Extended.indented {P : List Char → Prop} {s t lead : String} (h : Extended P .start s t)
    (hs : s ≠ "") (hlead : ∀ c ∈ lead.toList, c = ' ' ∨ c = '\t')
    (hP : ∀ l, P l → P (lead.toList ++ l)) :
    Extended P .start (lead ++ String.ofList (insertAfterBreaks lead.toList s.toList))
      (lead ++ String.ofList (insertAfterBreaks lead.toList t.toList)) := by
  have hindent : ∀ x : String, x ≠ "" →
      (lead ++ String.ofList (insertAfterBreaks lead.toList x.toList)).toList =
        indentFrom true lead.toList x.toList := by
    intro x hx
    rw [String.toList_append, String.toList_ofList, indentFrom,
      if_pos ⟨rfl, fun hnil => hx (String.toList_eq_nil_iff.mp hnil)⟩]
  rw [Extended, hindent s hs, hindent t fun ht => hs (h.eq_empty_iff.mpr ht)]
  exact Inserted.indent h hlead hP

end Text

/-! ## Settings -/

open Text (LinePlace Extended IsInsertText EndsFresh Solid)

/-- Whether a setting gives no hook, or one of lines with something in each. -/
def Json.IsHook (setting : Json) : Prop :=
  setting.isTruthy = false ∨ ∃ hook, setting = .str hook ∧ Text.HasSolidLines hook

namespace Options

/-- The settings without hooks. -/
def unhooked (o : Options) : Options :=
  { o with statementPrefix := .null, statementSuffix := .null, loopTrap := .null }

/-- Settings with hooks of lines with something in each, without a prefix for variables, and with an
    indent of spaces and tabs. -/
structure IsHooked (o : Options) (lead : String) : Prop where
  hook : ∀ setting ∈ o.hooks, setting.IsHook
  indent : o.indent = .str lead
  blank : ∀ c ∈ lead.toList, c = ' ' ∨ c = '\t'
  variablePrefix : o.variablePrefix = .str ""

/-- A line of a hook, instantiated for one of some ids, behind any number of indents; spaces and tabs
    at its end may be missing. -/
def IsHookLine (o : Options) (lead : String) (ids : String → Prop) (line : List Char) : Prop :=
  ∃ hook id n l blanks, .str hook ∈ o.hooks ∧ ids id ∧
    l ∈ (Text.lines (Site.instantiate hook id).toList).dropLast ∧
    (∀ c ∈ blanks, c = ' ' ∨ c = '\t') ∧ line ++ blanks = Text.indentation lead n ++ l

/-- A text without hooks and with hooks for blocks of some ids. -/
abbrev Hooked (o : Options) (lead : String) (ids : String → Prop) :
    LinePlace → String → String → Prop :=
  Extended (o.IsHookLine lead ids)

/-- Whether the hook ahead of a statement, if there is one, has a line of its own at a place. -/
def Admits (o : Options) (place : LinePlace) : Prop :=
  place = .start ∨ o.statementPrefix.isTruthy = false

variable {o : Options} {lead : String} {ids : String → Prop}

theorem IsHookLine.indented {line : List Char} (h : o.IsHookLine lead ids line) :
    o.IsHookLine lead ids (lead.toList ++ line) := by
  obtain ⟨hook, id, n, l, blanks, hhook, hid, hl, hblanks, heq⟩ := h
  refine ⟨hook, id, n + 1, l, blanks, hhook, hid, hl, hblanks, ?_⟩
  rw [List.append_assoc, heq, Text.indentation, Text.indentation, List.replicate_succ,
    List.flatten_cons, List.append_assoc]

theorem IsHookLine.trimmed {line : List Char} (h : o.IsHookLine lead ids line) :
    o.IsHookLine lead ids (Text.trimRightOf Text.isSpace line) := by
  obtain ⟨hook, id, n, l, blanks, hhook, hid, hl, hblanks, heq⟩ := h
  obtain ⟨margin, hline, hmargin⟩ := Text.exists_trimRightOf Text.isSpace line
  refine ⟨hook, id, n, l, margin ++ blanks, hhook, hid, hl, ?_, ?_⟩
  · intro c hc
    rcases List.mem_append.mp hc with hc | hc
    · exact Text.isSpace_iff.mp (hmargin c hc)
    · exact hblanks c hc
  · rw [← List.append_assoc, ← hline, heq]

theorem IsHooked.indentText (ho : o.IsHooked lead) : o.indentText = .ok lead := by
  rw [Options.indentText, ho.indent]
  rfl

theorem IsHooked.inert (ho : o.IsHooked lead) : Script.Inert lead.toList := by
  intro c hc
  rcases ho.blank c hc with rfl | rfl <;> rfl

/-- A hook that is instantiated can be inserted. -/
theorem IsHooked.instantiate (ho : o.IsHooked lead) {hook id : String} (hhook : .str hook ∈ o.hooks)
    (hid : ids id) : IsInsertText (o.IsHookLine lead ids) (Site.instantiate hook id) := by
  rcases ho.hook _ hhook with hempty | ⟨_, hhook', hlines⟩
  · -- The only text that does not count as given is the empty one.
    obtain rfl : hook = "" := by simpa [Json.isTruthy] using hempty
    exact Text.isInsertText_empty
  · obtain rfl := Json.str.inj hhook'
    have hquotes : Text.isSolid ("'" ++ id ++ "'").toList = true ∧
        Text.isSolid ("'" ++ id ++ "'").toList.reverse = true := by
      constructor
      · rw [String.toList_append, String.toList_append]
        rfl
      · rw [String.toList_append, List.reverse_append]
        rfl
    have hmark : '\n' ∉ "%1".toList ∧ "%1".toList ≠ [] := by decide
    have hinsert := hlines.replace hmark.1 hmark.2 hquotes.1 hquotes.2
    apply hinsert.mono
    exact fun l hl => ⟨hook, id, 0, l, [], hhook, hid, hl, fun _ h => absurd h List.not_mem_nil,
      List.append_nil l⟩

end Options

/-! ## Hooks -/

namespace Site

open Gen (Abreast Meets)

variable {M : Pass → Pass → Prop} {o : Options} {lead : String} {ids : String → Prop} {site : Site}
  {s t text : String}

theorem exists_hookText (ho : o.IsHooked lead) {setting : Json} (hsetting : setting ∈ o.hooks)
    (hid : ids site.id) : ∃ text, site.hookText setting = .ok text ∧
      IsInsertText (o.IsHookLine lead ids) text ∧ (setting.isTruthy = false → text = "") := by
  cases htruthy : setting.isTruthy with
  | false => exact ⟨"", Block.hookText_eq_empty site htruthy, Text.isInsertText_empty, fun _ => rfl⟩
  | true =>
    have hhook := ho.hook setting hsetting
    rw [Json.IsHook, htruthy] at hhook
    obtain ⟨hook, rfl, -⟩ := hhook.resolve_left (by decide)
    have hrun : site.hookText (.str hook) = .ok (instantiate hook site.id) := by
      rw [hookText, htruthy]
      rfl
    exact ⟨_, hrun, ho.instantiate hsetting hid, fun h => absurd h (by decide)⟩

theorem indented_abreast (ho : o.IsHooked lead) (h : o.Hooked lead ids .start s t) (hs : s ≠ "") :
    Abreast M o.unhooked o (indented s) (indented t) fun s' t' => o.Hooked lead ids .start s' t' ∧
      Text.atLineStart true s'.toList = Text.atLineStart true s.toList := by
  have hindent : o.unhooked.indentText = .ok lead := ho.indentText
  have hchars : s.toList ≠ [] := fun hnil => hs (String.toList_eq_nil_iff.mp hnil)
  apply Abreast.options.bind
  rintro _ o ⟨rfl, rfl⟩
  rw [hindent, ho.indentText, Gen.lift_ok, pure_bind, pure_bind,
    Script.prefixLines_of_inert ho.inert, Script.prefixLines_of_inert ho.inert]
  apply Abreast.pure
  refine ⟨h.indented hs ho.blank fun _ => Options.IsHookLine.indented, ?_⟩
  have hended : Text.atLineStart true (Text.indentFrom true lead.toList s.toList) =
      Text.atLineStart true s.toList := Text.atLineStart_indentFrom hchars true
  rw [Text.indentFrom, if_pos ⟨rfl, hchars⟩] at hended
  rw [String.toList_append, String.toList_ofList, hended]

/-- Beside no hook an indented one can be inserted. -/
theorem indentedHook_abreast (ho : o.IsHooked lead)
    (h : IsInsertText (o.IsHookLine lead ids) text) :
    Abreast M o.unhooked o (indentedHook "") (indentedHook text)
      fun a b => a = "" ∧ IsInsertText (o.IsHookLine lead ids) b ∧ (text = "" → b = "") := by
  by_cases hempty : text = ""
  · subst hempty
    exact .pure ⟨rfl, Text.isInsertText_empty, fun _ => rfl⟩
  · have hmeets : ∀ q, Meets o (indented text) q fun b q' => q' = q ∧
        IsInsertText (o.IsHookLine lead ids) b ∧ (text = "" → b = "") := by
      intro q
      have hinsert := h.indented hempty ho.blank fun _ => Options.IsHookLine.indented
      refine ⟨_, q, ?_, rfl, hinsert, fun h => absurd h hempty⟩
      rw [indented, Gen.bind_apply, Gen.options_apply]
      simp only [ho.indentText, Gen.lift_ok, pure_bind, Script.prefixLines_of_inert ho.inert]
      rfl
    rw [indentedHook, indentedHook, if_pos rfl, if_neg hempty]
    exact .of_meets "" hmeets

/-- The hook at the top of a branch. -/
theorem branchHook_abreast (ho : o.IsHooked lead) (hid : ids site.id) :
    Abreast M o.unhooked o site.branchHook site.branchHook fun a b => a = "" ∧
      IsInsertText (o.IsHookLine lead ids) b ∧ (o.statementSuffix.isTruthy = false → b = "") := by
  have hmem : o.statementSuffix ∈ o.hooks := by simp [Options.hooks]
  obtain ⟨hook, hrun, hinsert, hnone⟩ := exists_hookText ho hmem hid
  have hbare : site.hookText o.unhooked.statementSuffix = .ok "" :=
    Block.hookText_eq_empty site rfl
  apply Abreast.options.bind
  rintro _ o ⟨rfl, rfl⟩
  rw [hbare, hrun, Gen.lift_ok, Gen.lift_ok, pure_bind, pure_bind]
  apply (indentedHook_abreast ho hinsert).mono
  exact fun a b hab => ⟨hab.1, hab.2.1, fun h => hab.2.2 (hnone h)⟩

/-- Statement code with hooks ahead of it and behind it. The one ahead needs a line of its own. -/
theorem withHooks_abreast (ho : o.IsHooked lead) (hid : ids site.id)
    (h : ∀ place, o.Admits place → o.Hooked lead ids place s t)
    (hs : site.kind.placesHooks = false → Solid s ∧ EndsFresh s) :
    Abreast M o.unhooked o (site.withHooks s) (site.withHooks t) fun s' t' => s' = s ∧
      ∀ place, o.Admits place → o.Hooked lead ids place s t' := by
  rw [withHooks, withHooks]
  split
  · exact .pure ⟨rfl, h⟩
  · rename_i hplaces
    obtain ⟨hsolid, hfresh⟩ := hs (by simpa using hplaces)
    have hmem : o.statementPrefix ∈ o.hooks ∧ o.statementSuffix ∈ o.hooks := by
      simp [Options.hooks]
    obtain ⟨ahead, hahead, hinsert, hnone⟩ := site.exists_hookText ho hmem.1 hid
    obtain ⟨behind, hbehind, hinsert', -⟩ := site.exists_hookText ho hmem.2 hid
    have hbare : site.hookText o.unhooked.statementPrefix = .ok "" ∧
        site.hookText o.unhooked.statementSuffix = .ok "" :=
      ⟨Block.hookText_eq_empty site rfl, Block.hookText_eq_empty site rfl⟩
    have hwhole : ∀ place, o.Admits place → o.Hooked lead ids place s (ahead ++ t ++ behind) := by
      intro place hplace
      have hlead : o.Hooked lead ids place s (ahead ++ t) := by
        rcases hplace with rfl | hfalse
        · exact (h .start (Or.inl rfl)).insert_ahead hinsert rfl hsolid
        · rw [hnone hfalse, String.empty_append]
          exact h place (Or.inr hfalse)
      exact hlead.insert_behind hinsert' (hfresh place)
    have hsame : "" ++ s ++ "" = s := by rw [String.empty_append, String.append_empty]
    apply Abreast.options.bind
    rintro _ o ⟨rfl, rfl⟩
    rw [hbare.1, hbare.2, hahead, hbehind]
    simp only [Gen.lift_ok, pure_bind]
    exact .pure ⟨hsame, hwhole⟩

end Site

end BlockScript
