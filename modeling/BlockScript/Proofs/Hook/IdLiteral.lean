/-
  BlockScript.Proofs.Hook.IdLiteral

  The ids of blocks in hooks. Every mark in a hook becomes the id between quotes, and nothing else
  of the hook changes. Nothing in the id is escaped: the quotes and what is between them read as the
  id just if the id has neither a quote nor a backslash. Then they do so at every depth of nesting,
  with the indents behind the line feeds of the id.
-/
import BlockScript.Proofs.Literal.RoundTrip
import BlockScript.Session

namespace BlockScript

namespace Text

/-! ## Replacements -/

/-- The pieces of a text between the occurrences of a pattern, from the left. The count tells how
    many characters of the last occurrence are still to be passed over. -/
def piecesFrom (pattern : List Char) : Nat → List Char → List (List Char)
  | _, [] => [[]]
  | skip + 1, _ :: rest => piecesFrom pattern skip rest
  | 0, c :: rest =>
    if pattern.isPrefixOf (c :: rest) then [] :: piecesFrom pattern (pattern.length - 1) rest
    else match piecesFrom pattern 0 rest with
      | piece :: pieces => (c :: piece) :: pieces
      | [] => [[c]]

variable {pattern : List Char}

theorem piecesFrom_ne_nil (pattern : List Char) (skip : Nat) (s : List Char) :
    piecesFrom pattern skip s ≠ [] := by
  induction skip, s using piecesFrom.induct pattern with
  | case1 => exact List.cons_ne_nil _ _
  | case2 skip c rest ih => exact ih
  | case3 c rest hfound ih =>
    rw [piecesFrom, if_pos hfound]
    exact List.cons_ne_nil _ _
  | case4 c rest hnot piece pieces hpieces ih =>
    rw [piecesFrom, if_neg hnot, hpieces]
    exact List.cons_ne_nil _ _
  | case5 c rest hnot hnil ih => exact absurd hnil ih

/-- A replacement stands between the pieces of the text. -/
theorem replaceFrom_eq_intercalate (replacement : List Char) (skip : Nat) (s : List Char) :
    replaceFrom pattern replacement skip s =
      replacement.intercalate (piecesFrom pattern skip s) := by
  induction skip, s using piecesFrom.induct pattern with
  | case1 => cases ‹Nat› <;> rfl
  | case2 skip c rest ih => exact ih
  | case3 c rest hfound ih =>
    obtain ⟨piece, pieces, hpieces⟩ :=
      List.exists_cons_of_ne_nil (piecesFrom_ne_nil pattern (pattern.length - 1) rest)
    rw [replaceFrom, if_pos hfound, piecesFrom, if_pos hfound, ih, hpieces,
      List.intercalate_cons_cons, List.nil_append]
  | case4 c rest hnot piece pieces hpieces ih =>
    rw [replaceFrom, if_neg hnot, piecesFrom, if_neg hnot, ih, hpieces]
    cases pieces with
    | nil => simp
    | cons next pieces => simp [List.intercalate_cons_cons]
  | case5 c rest hnot hnil ih => exact absurd hnil (piecesFrom_ne_nil pattern 0 rest)

/-- A pattern that stands for itself changes nothing. -/
theorem replaceFrom_self (hne : pattern ≠ []) (s : List Char) :
    replaceFrom pattern pattern 0 s = s := by
  -- An occurrence is passed over as a whole, so that this is by the length of what is left.
  match s with
  | [] => rfl
  | c :: rest =>
    rw [replaceFrom]
    split
    · rename_i hfound
      obtain ⟨tail, htail⟩ := List.isPrefixOf_iff_prefix.mp hfound
      have hdrop : rest.drop (pattern.length - 1) = tail := by
        obtain ⟨first, more, rfl⟩ := List.exists_cons_of_ne_nil hne
        obtain ⟨-, hrest⟩ := List.cons.inj htail
        rw [← hrest]
        exact List.drop_left
      have hshorter : tail.length < (c :: rest).length := by
        rw [← htail, List.length_append]
        have := List.length_pos_iff.mpr hne
        omega
      rw [Script.replaceFrom_drop, hdrop, replaceFrom_self hne tail, htail]
    · rw [replaceFrom_self hne rest]
termination_by s.length

/-- The first piece stands at the beginning of the text. -/
theorem prefix_of_piecesFrom {s piece : List Char} {pieces : List (List Char)}
    (h : piecesFrom pattern 0 s = piece :: pieces) : piece <+: s := by
  induction s generalizing piece pieces with
  | nil =>
    obtain ⟨rfl, -⟩ := List.cons.inj h
    exact List.nil_prefix
  | cons c rest ih =>
    rw [piecesFrom] at h
    split at h
    · obtain ⟨rfl, -⟩ := List.cons.inj h
      exact List.nil_prefix
    · obtain ⟨first, others, hpieces⟩ :=
        List.exists_cons_of_ne_nil (piecesFrom_ne_nil pattern 0 rest)
      rw [hpieces] at h
      obtain ⟨rfl, -⟩ := List.cons.inj h
      exact List.cons_prefix_cons.mpr ⟨rfl, ih hpieces⟩

/-- A piece has no occurrence of the pattern in it. -/
theorem not_infix_of_mem_piecesFrom (hne : pattern ≠ []) {skip : Nat} {s piece : List Char}
    (h : piece ∈ piecesFrom pattern skip s) : ¬ pattern <:+: piece := by
  have hnil : ¬ pattern <:+: [] := fun hinfix => hne (List.infix_nil.mp hinfix)
  induction skip, s using piecesFrom.induct pattern generalizing piece with
  | case1 =>
    rw [piecesFrom] at h
    rwa [List.mem_singleton.mp h]
  | case2 skip c rest ih => exact ih h
  | case3 c rest hfound ih =>
    rw [piecesFrom, if_pos hfound] at h
    rcases List.mem_cons.mp h with rfl | h
    · exact hnil
    · exact ih h
  | case4 c rest hnot first others hpieces ih =>
    rw [piecesFrom, if_neg hnot, hpieces] at h
    rw [hpieces] at ih
    rcases List.mem_cons.mp h with rfl | h
    · intro hinfix
      rcases List.infix_cons_iff.mp hinfix with hbegins | hinfix
      · have hpiece : c :: first <+: c :: rest :=
          List.cons_prefix_cons.mpr ⟨rfl, prefix_of_piecesFrom hpieces⟩
        exact hnot (List.isPrefixOf_iff_prefix.mpr (hbegins.trans hpiece))
      · exact ih List.mem_cons_self hinfix
    · exact ih (List.mem_cons_of_mem first h)
  | case5 c rest hnot hnone ih => exact absurd hnone (piecesFrom_ne_nil pattern 0 rest)

/-! ## Indents -/

/-- A text behind a number of indents, each ahead of all of its lines. -/
def indentedTimes (lead : String) : Nat → String → Except Fault String
  | 0, s => pure s
  | depth + 1, s => do prefixLines (← indentedTimes lead depth s) lead

/-- A quote in a text stays, and every line feed ahead of it has the indent behind it. -/
theorem insertAfterBreaks_quote (lead before behind : List Char) :
    insertAfterBreaks lead (before ++ '\'' :: behind) =
      Script.indentChars lead before ++ '\'' :: insertAfterBreaks lead behind := by
  have hquote : '\'' ≠ '\n' := by decide
  rw [Script.insertAfterBreaks_append lead before (List.cons_ne_nil '\'' behind),
    insertAfterBreaks_cons, if_neg fun h => hquote h.1, List.nil_append]

end Text

/-! ## Ids -/

/-- An id between quotes, as it is. -/
def idLiteral (id : String) : List Char :=
  '\'' :: (id.toList ++ ['\''])

/-- A text in which no character means anything to the reader of a literal. -/
def IsBare (s : List Char) : Prop :=
  '\'' ∉ s ∧ '\\' ∉ s

instance (s : List Char) : Decidable (IsBare s) :=
  inferInstanceAs (Decidable (_ ∧ _))

theorem readBody_of_isBare {s : List Char} (h : IsBare s) (behind : List Char) :
    Literal.readBody false (s ++ '\'' :: behind) = some (s, behind) := by
  induction s with
  | nil => rfl
  | cons c rest ih =>
    obtain ⟨hquote, hbackslash⟩ := h
    rw [List.mem_cons, not_or] at hquote hbackslash
    rw [List.cons_append, Literal.readBody, ih ⟨hquote.2, hbackslash.2⟩]
    simp [Ne.symm hquote.1, Ne.symm hbackslash.1]

/-- An id between quotes reads as the id, if nothing in it means anything to the reader. -/
theorem read?_idLiteral {id : String} (h : IsBare id.toList) (behind : List Char) :
    Literal.read? (idLiteral id ++ behind) = some (id.toList, behind) := by
  rw [idLiteral, List.cons_append, List.append_assoc]
  exact readBody_of_isBare h behind

/-- Only such an id does. -/
theorem isBare_of_readBody {s : List Char}
    (h : Literal.readBody false (s ++ ['\'']) = some (s, [])) : IsBare s := by
  induction s with
  | nil => exact ⟨List.not_mem_nil, List.not_mem_nil⟩
  | cons c rest ih =>
    rw [List.cons_append, Literal.readBody] at h
    split at h
    · cases h
    · rename_i hquote
      split at h
      · -- A backslash is not read, so that the text would be longer than what it is read from.
        have hshorter := Literal.length_lt_of_readBody h
        simp at hshorter
      · rename_i hbackslash
        obtain ⟨⟨text, behind⟩, hrest, heq⟩ := Option.map_eq_some_iff.mp h
        obtain ⟨hcons, rfl⟩ := Prod.mk.inj heq
        obtain ⟨-, rfl⟩ := List.cons.inj hcons
        obtain ⟨hquotes, hbackslashes⟩ := ih hrest
        simp only [Bool.not_false, Bool.true_and, decide_eq_true_eq] at hquote hbackslash
        rw [IsBare, List.mem_cons, List.mem_cons, not_or, not_or]
        exact ⟨⟨Ne.symm hquote, hquotes⟩, Ne.symm hbackslash, hbackslashes⟩

theorem read?_idLiteral_iff (id : String) :
    Literal.read? (idLiteral id) = some (id.toList, []) ↔ IsBare id.toList := by
  constructor
  · exact fun h => isBare_of_readBody h
  · intro h
    have hread := read?_idLiteral h []
    rwa [List.append_nil] at hread

/-! ## Nesting -/

theorem isBare_indentChars {lead s : List Char} (hlead : IsBare lead) (hs : IsBare s) :
    IsBare (Script.indentChars lead s) := by
  have hmem : ∀ c ∈ Script.indentChars lead s, c ∈ s ∨ c ∈ lead := by
    intro c hc
    obtain ⟨d, hd, hc⟩ := List.mem_flatMap.mp hc
    rw [Script.breakChar] at hc
    split at hc
    · rename_i hbreak
      rcases List.mem_cons.mp hc with rfl | hc
      · exact Or.inl (hbreak ▸ hd)
      · exact Or.inr hc
    · exact Or.inl (List.mem_singleton.mp hc ▸ hd)
  exact ⟨fun h => (hmem _ h).elim hs.1 hlead.1, fun h => (hmem _ h).elim hs.2 hlead.2⟩

theorem isBare_nestedLines {lead id : String} (hlead : IsBare lead.toList)
    (hid : IsBare id.toList) (depth : Nat) : IsBare (Script.nestedLines lead depth id).toList := by
  induction depth with
  | zero => exact hid
  | succ depth ih =>
    rw [Script.nestedLines, Script.indentLines, String.toList_ofList]
    exact isBare_indentChars hlead ih

/-- Behind an indent, the literal of an id has the indent behind the line feeds of the id, whatever
    stands around it. -/
theorem prefixLines_idLiteral {lead : String} (hlead : IsBare lead.toList) (id : String)
    (before after : List Char) : ∃ before' after',
      Text.prefixLines (String.ofList (before ++ idLiteral id ++ after)) lead =
        .ok (String.ofList (before' ++ idLiteral (Script.indentLines lead id) ++ after')) := by
  refine ⟨lead.toList ++ Script.indentChars lead.toList before,
    Text.insertAfterBreaks lead.toList after, ?_⟩
  have hliteral : ∀ (id : String) (after : List Char),
      idLiteral id ++ after = '\'' :: (id.toList ++ '\'' :: after) := by
    intro id after
    rw [idLiteral, List.cons_append, List.append_assoc]
    rfl
  rw [Text.prefixLines, Text.expand, Script.expandFrom_of_no_backslash hlead.2]
  refine congrArg Except.ok (String.toList_injective ?_)
  rw [String.toList_append, String.toList_ofList, String.toList_ofList, String.toList_ofList,
    List.append_assoc, hliteral, Text.insertAfterBreaks_quote, Text.insertAfterBreaks_quote,
    List.append_assoc, List.append_assoc, hliteral, Script.indentLines, String.toList_ofList]

/-- So it is at every depth. -/
theorem indentedTimes_idLiteral {lead : String} (hlead : IsBare lead.toList) (id : String)
    (depth : Nat) (before after : List Char) : ∃ before' after',
      Text.indentedTimes lead depth (String.ofList (before ++ idLiteral id ++ after)) =
        .ok (String.ofList (before' ++ idLiteral (Script.nestedLines lead depth id) ++ after')) := by
  induction depth with
  | zero => exact ⟨before, after, rfl⟩
  | succ depth ih =>
    obtain ⟨before', after', hinner⟩ := ih
    rw [Text.indentedTimes, hinner]
    exact prefixLines_idLiteral hlead _ before' after'

/-! ## Hooks -/

theorem Site.hookText_str (site : Site) (hook : String) :
    site.hookText (.str hook) = .ok (instantiate hook site.id) := by
  by_cases hempty : hook = ""
  · rw [hempty]
    rfl
  · have htruthy : Json.isTruthy (.str hook) = true := by simp [Json.isTruthy, hempty]
    rw [hookText, htruthy]
    rfl

/-- A hook for a block is the hook with the quoted id of the block in the place of every mark. What
    is quoted reads as the id, up to its own last character, just if the id has no quote and no
    backslash. Such an id does not end its literal early at any depth of nesting, wherever it
    stands, and it changes there only by the indents behind its line feeds. -/
theorem hookText_ids (hook : String) :
    (∃ pieces : List (List Char), "%1".toList.intercalate pieces = hook.toList ∧
      (∀ piece ∈ pieces, ¬ "%1".toList <:+: piece) ∧
      ∀ site : Site, ∃ text, site.hookText (.str hook) = .ok text ∧
        text.toList = (idLiteral site.id).intercalate pieces) ∧
    (∀ id : String, Literal.read? (idLiteral id) = some (id.toList, []) ↔ IsBare id.toList) ∧
    ∀ (id lead : String) (depth : Nat) (before after : List Char),
      IsBare id.toList → IsBare lead.toList →
      (∃ before' after',
        Text.indentedTimes lead depth (String.ofList (before ++ idLiteral id ++ after)) =
          .ok (String.ofList (before' ++ idLiteral (Script.nestedLines lead depth id) ++ after')) ∧
        Literal.read? (idLiteral (Script.nestedLines lead depth id) ++ after') =
          some ((Script.nestedLines lead depth id).toList, after')) ∧
      ('\n' ∉ lead.toList →
        (Script.nestedLines lead depth id = id ↔ depth = 0 ∨ lead = "" ∨ '\n' ∉ id.toList)) := by
  have hmark : "%1".toList ≠ [] := List.cons_ne_nil _ _
  refine ⟨⟨Text.piecesFrom "%1".toList 0 hook.toList, ?_, ?_, ?_⟩, read?_idLiteral_iff, ?_⟩
  · rw [← Text.replaceFrom_eq_intercalate, Text.replaceFrom_self hmark]
  · exact fun piece hpiece => Text.not_infix_of_mem_piecesFrom hmark hpiece
  · intro site
    refine ⟨_, site.hookText_str hook, ?_⟩
    rw [Site.instantiate, Text.replace, String.toList_ofList, Text.replaceFrom_eq_intercalate,
      String.toList_append, String.toList_append]
    rfl
  · intro id lead depth before after hid hlead
    refine ⟨?_, fun hfeed => Script.nestedLines_eq_iff hfeed depth id⟩
    obtain ⟨before', after', htext⟩ := indentedTimes_idLiteral hlead id depth before after
    exact ⟨before', after', htext, read?_idLiteral (isBare_nestedLines hlead hid depth) after'⟩

/-- An id of two lines in the branch of a conditional. -/
theorem hookText_ids_twoLines :
    IsBare "a\nb".toList ∧ IsBare "  ".toList ∧
    ∃ before after,
      Text.indentedTimes "  " 1
          (String.ofList ("step(".toList ++ idLiteral "a\nb" ++ ");\n".toList)) =
        .ok (String.ofList (before ++ idLiteral "a\n  b" ++ after)) ∧
      Literal.read? (idLiteral "a\n  b" ++ after) = some ("a\n  b".toList, after) := by
  have hid : IsBare "a\nb".toList := by decide
  have hlead : IsBare "  ".toList := by decide
  exact ⟨hid, hlead, ((hookText_ids "step(%1);\n").2.2 "a\nb" "  " 1 "step(".toList ");\n".toList
    hid hlead).1⟩

/-! ## An id with a quote -/

/-- A block with a quote in its id. -/
def quotedIdBlock : Block :=
  .mk ⟨.statement .print, "a'b", [], .null, .bool false, true, []⟩ [] [] none

/-- A hook that hands the id of the block on. -/
def stepOptions : Options :=
  { Options.default with statementPrefix := .str "step(%1);\n" }

/-- The literal ends at the quote of the id, and the rest of the id is read as code. -/
theorem programText_quotedId :
    (Workspace.mk [] [quotedIdBlock] stepOptions).programText stepOptions =
      .ok "step('a'b');\nwindow.alert('');\n" ∧
    Literal.read? (idLiteral "a'b" ++ ");\n".toList) = some ("a".toList, "b');\n".toList) ∧
    Literal.read? (idLiteral "a'b") ≠ some ("a'b".toList, []) :=
  ⟨by with_unfolding_all rfl, by decide, by decide⟩

end BlockScript
