/-
  BlockScript.Proofs.Statement.Indent

  Line prefixes as they are. The first line of a text gets the prefix as it is written, the others what
  it stands for as a template, so the prefix goes ahead of all lines as it is exactly if it stands for
  itself, or if there is no other line. It stands for itself if each backslash has a mark behind it that
  begins no escape: every other escape stands for less than is written.
-/
import BlockScript.Proofs.Comment.Insertion
import BlockScript.Proofs.Generate.Inputs
import BlockScript.Session

namespace BlockScript

namespace Text

/-! ## Templates that stand for themselves -/

/-- Whether each backslash of a template has a mark behind it that begins no escape: no letter, no
    digit and no other backslash. -/
def isVerbatim : List Char → Bool
  | [] => true
  | c :: rest =>
    (c ≠ '\\' || rest.head?.any fun d => !d.isAlphanum && d ≠ '\\') && isVerbatim rest

theorem isVerbatim_cons {c : Char} (hc : c ≠ '\\') (rest : List Char) :
    isVerbatim (c :: rest) = isVerbatim rest := by
  simp [isVerbatim, hc]

theorem isVerbatim_escape (d : Char) (tail : List Char) :
    isVerbatim ('\\' :: d :: tail) = (!d.isAlphanum && d ≠ '\\' && isVerbatim tail) := by
  rw [isVerbatim]
  by_cases hd : d = '\\'
  · simp [hd]
  · simp [isVerbatim_cons hd, hd]

/-- A mark that begins no escape stays behind its backslash. -/
theorem escapeText_of_mark {d : Char} (hmark : d.isAlphanum = false) (hd : d ≠ '\\')
    (tail : List Char) : escapeText d tail = .ok (['\\', d], 0) := by
  have hkinds : d.isAlpha = false ∧ d.isDigit = false := by
    rwa [Char.isAlphanum, Bool.or_eq_false_iff] at hmark
  rw [escapeText.eq_def]
  split
  case h_9 => exact absurd rfl hd
  case h_10 =>
    rw [if_neg (Bool.eq_false_iff.mp hkinds.2), if_neg (Bool.eq_false_iff.mp hkinds.1)]
    rfl
  all_goals exact absurd hmark (by decide)

/-- A reference to a group stands for one character. -/
theorem length_of_groupReference {s text : List Char} {count : Nat}
    (h : groupReference s = .ok (text, count)) : text.length = 1 := by
  rw [groupReference.eq_def] at h
  split at h
  · dsimp only at h
    split at h
    · cases h
    · split at h
      · cases h
      · split at h
        · cases h
        · split at h
          · cases h
            rfl
          · cases h
  · cases h

/-- An octal code stands for one character. -/
theorem length_of_octalEscape {d : Char} {tail text : List Char} {count : Nat}
    (h : octalEscape d tail = .ok (text, count)) : text.length = 1 := by
  rw [octalEscape] at h
  split at h
  · cases h
    rfl
  · dsimp only at h
    split at h
    · cases h
      rfl
    · cases h

/-- Any other escape stands for one character. -/
theorem length_of_escapeText {d : Char} {tail text : List Char} {count : Nat}
    (h : escapeText d tail = .ok (text, count)) (hd : ¬(d.isAlphanum = false ∧ d ≠ '\\')) :
    text.length = 1 := by
  rw [escapeText.eq_def] at h
  split at h
  case h_1 => exact length_of_groupReference h
  case h_10 =>
    split at h
    · exact length_of_octalEscape h
    · split at h
      · cases h
      · rename_i hslash hdigit halpha
        refine absurd ⟨?_, hslash⟩ hd
        rw [Char.isAlphanum, Bool.eq_false_iff.mpr hdigit, Bool.eq_false_iff.mpr halpha]
        rfl
  all_goals
    cases h
    rfl

/-! ### Reading a template -/

theorem expandFrom_drop (taken : Nat) (s : List Char) :
    expandFrom taken s = expandFrom 0 (s.drop taken) := by
  induction s generalizing taken with
  | nil => rw [List.drop_nil, expandFrom, expandFrom]
  | cons c rest ih =>
    cases taken with
    | zero => rfl
    | succ taken => rw [expandFrom, ih, List.drop_succ_cons]

theorem expandFrom_cons {c : Char} (hc : c ≠ '\\') (rest : List Char) :
    expandFrom 0 (c :: rest) = (expandFrom 0 rest).map (c :: ·) := by
  rw [expandFrom.eq_def]
  simp only [if_neg hc]
  cases expandFrom 0 rest <;> rfl

theorem expandFrom_escape (d : Char) (tail : List Char) :
    expandFrom 0 ('\\' :: d :: tail) = (escapeText d tail).bind fun escape =>
      (expandFrom 0 (tail.drop escape.2)).map (escape.1 ++ ·) := by
  rw [expandFrom.eq_def]
  simp only [if_true]
  cases escapeText d tail with
  | error fault => rfl
  | ok escape =>
    show (expandFrom (escape.2 + 1) (d :: tail) >>= fun t => pure (escape.1 ++ t)) = _
    rw [expandFrom_drop, List.drop_succ_cons]
    show _ = (expandFrom 0 (tail.drop escape.2)).map (escape.1 ++ ·)
    cases expandFrom 0 (tail.drop escape.2) <;> rfl

theorem eq_ok_of_map_eq_ok {α β : Type} {f : α → β} {e : Except Fault α} {b : β}
    (h : e.map f = .ok b) : ∃ a, e = .ok a ∧ b = f a := by
  cases e with
  | error fault => cases h
  | ok a => exact ⟨a, rfl, (Except.ok.inj h).symm⟩

theorem exists_of_escape {d : Char} {tail t : List Char}
    (h : expandFrom 0 ('\\' :: d :: tail) = .ok t) : ∃ text count behind,
      escapeText d tail = .ok (text, count) ∧ expandFrom 0 (tail.drop count) = .ok behind ∧
        t = text ++ behind := by
  rw [expandFrom_escape] at h
  cases hescape : escapeText d tail with
  | error fault => rw [hescape] at h; cases h
  | ok escape =>
    rw [hescape] at h
    obtain ⟨behind, hbehind, rfl⟩ := eq_ok_of_map_eq_ok h
    exact ⟨escape.1, escape.2, behind, rfl, hbehind, rfl⟩

/-- A template stands for no more than is written. -/
theorem length_expandFrom_le {s t : List Char} (h : expandFrom 0 s = .ok t) :
    t.length ≤ s.length := by
  -- An escape takes a part of the text behind it, so the induction is on the length.
  induction hlength : s.length using Nat.strongRecOn generalizing s t with
  | _ n ih =>
    match s with
    | [] =>
      rw [expandFrom] at h
      cases h
      exact Nat.zero_le _
    | c :: rest =>
      rw [List.length_cons] at hlength
      by_cases hc : c = '\\'
      · subst hc
        match rest with
        | [] => cases h
        | d :: tail =>
          obtain ⟨text, count, behind, hescape, hbehind, rfl⟩ := exists_of_escape h
          rw [List.length_cons] at hlength
          have hdropped : (tail.drop count).length = tail.length - count := List.length_drop
          have hrest := ih (tail.drop count).length (by omega) hbehind rfl
          have htext : text.length ≤ 2 := by
            by_cases hmark : d.isAlphanum = false ∧ d ≠ '\\'
            · rw [escapeText_of_mark hmark.1 hmark.2] at hescape
              cases hescape
              exact Nat.le_refl 2
            · rw [length_of_escapeText hescape hmark]
              exact Nat.le_succ 1
          rw [List.length_append]
          omega
      · rw [expandFrom_cons hc] at h
        obtain ⟨behind, hbehind, rfl⟩ := eq_ok_of_map_eq_ok h
        have hrest := ih rest.length (by omega) hbehind rfl
        rw [List.length_cons]
        omega

/-- A template stands for itself exactly if no escape begins in it. -/
theorem expandFrom_eq_self_iff (s : List Char) :
    expandFrom 0 s = .ok s ↔ isVerbatim s = true := by
  induction hlength : s.length using Nat.strongRecOn generalizing s with
  | _ n ih =>
    match s with
    | [] => exact iff_of_true rfl rfl
    | c :: rest =>
      rw [List.length_cons] at hlength
      by_cases hc : c = '\\'
      · subst hc
        match rest with
        | [] => exact iff_of_false (fun h => by cases h) (by decide)
        | d :: tail =>
          rw [List.length_cons] at hlength
          by_cases hmark : d.isAlphanum = false ∧ d ≠ '\\'
          · have hbehind := ih tail.length (by omega) tail rfl
            rw [isVerbatim_escape, hmark.1, decide_eq_true hmark.2, Bool.not_false, Bool.true_and,
              Bool.true_and, ← hbehind, expandFrom_escape, escapeText_of_mark hmark.1 hmark.2]
            show (expandFrom 0 tail).map (['\\', d] ++ ·) = _ ↔ _
            cases expandFrom 0 tail with
            | error fault => exact iff_of_false (fun h => by cases h) (fun h => by cases h)
            | ok t => simp [Except.map]
          · refine iff_of_false (fun h => ?_) ?_
            · -- The escape is two characters and stands for one.
              obtain ⟨text, count, behind, hescape, hbehind, ht⟩ := exists_of_escape h
              have htext := length_of_escapeText hescape hmark
              have hle := length_expandFrom_le hbehind
              have hdropped : (tail.drop count).length = tail.length - count := List.length_drop
              have hsum := congrArg List.length ht
              rw [List.length_append, List.length_cons, List.length_cons] at hsum
              omega
            · rw [isVerbatim_escape]
              simp only [Bool.and_eq_true, Bool.not_eq_true', decide_eq_true_eq]
              exact fun h => hmark h.1
      · have hbehind := ih rest.length (by omega) rest rfl
        rw [isVerbatim_cons hc, ← hbehind, expandFrom_cons hc]
        cases expandFrom 0 rest with
        | error fault => exact iff_of_false (fun h => by cases h) (fun h => by cases h)
        | ok t => simp [Except.map]

/-! ## Lines with a prefix -/

/-- A text with another at its start and behind each line feed that is not its last character. -/
def leadAhead (lead s : List Char) : List Char :=
  lead ++ s.zipIdx.flatMap fun (c, i) => c :: if c = '\n' ∧ i + 1 < s.length then lead else []

/-- A text without so many characters at its start and behind each of its own line feeds. The count
    tells how many are still to be dropped. -/
def dropLeads (width : Nat) : Nat → List Char → List Char
  | _, [] => []
  | count + 1, _ :: rest => dropLeads width count rest
  | 0, c :: rest => c :: dropLeads width (if c = '\n' then width else 0) rest

theorem insertAfterBreaks_eq_flatMap (lead s : List Char) (first : Nat) :
    insertAfterBreaks lead s = (s.zipIdx first).flatMap fun (c, i) =>
      c :: if c = '\n' ∧ i + 1 < first + s.length then lead else [] := by
  induction s generalizing first with
  | nil => rfl
  | cons c rest ih =>
    have hlast : rest ≠ [] ↔ first + 1 < first + (c :: rest).length := by
      cases rest <;> simp
    have hlength : first + 1 + rest.length = first + (c :: rest).length := by
      rw [List.length_cons]
      omega
    rw [insertAfterBreaks_cons, List.zipIdx_cons, List.flatMap_cons, ih (first + 1), hlength]
    simp only [hlast, List.cons_append]

theorem leadAhead_eq (lead s : List Char) : leadAhead lead s = lead ++ insertAfterBreaks lead s := by
  rw [leadAhead, insertAfterBreaks_eq_flatMap lead s 0]
  simp only [Nat.zero_add]

theorem dropLeads_append (width : Nat) (lead s : List Char) :
    dropLeads width lead.length (lead ++ s) = dropLeads width 0 s := by
  induction lead with
  | nil => rfl
  | cons c rest ih => exact ih

/-- Without the prefix at each of its places the text is as it was, whatever the prefix is. -/
theorem dropLeads_leadAhead (lead s : List Char) :
    dropLeads lead.length lead.length (leadAhead lead s) = s := by
  rw [leadAhead_eq, dropLeads_append]
  induction s with
  | nil => rfl
  | cons c rest ih =>
    rw [insertAfterBreaks_cons, dropLeads]
    by_cases hc : c = '\n'
    · rw [if_pos hc]
      by_cases hrest : rest = []
      · rw [hrest, if_neg fun h => h.2 rfl]
        cases lead.length <;> rfl
      · rw [if_pos ⟨hc, hrest⟩, dropLeads_append, ih]
    · rw [if_neg hc, if_neg fun h => hc h.1, List.nil_append, ih]

theorem insertAfterBreaks_nil_right (lead : List Char) : insertAfterBreaks lead [] = [] := by
  rw [insertAfterBreaks]

theorem length_insertAfterBreaks (lead s : List Char) :
    (insertAfterBreaks lead s).length = s.length + s.dropLast.count '\n' * lead.length := by
  induction s with
  | nil => simp [insertAfterBreaks_nil_right]
  | cons c rest ih =>
    rw [insertAfterBreaks_cons, List.length_cons, List.length_append, ih, List.length_cons]
    by_cases hrest : rest = []
    · simp [hrest]
    · rw [List.dropLast_cons_of_ne_nil hrest]
      by_cases hc : c = '\n'
      · rw [if_pos ⟨hc, hrest⟩, hc, List.count_cons_self, Nat.succ_mul]
        omega
      · rw [if_neg fun h => hc h.1, List.count_cons_of_ne hc, List.length_nil]
        omega

/-- A line feed is ahead of the last character if it begins a text with more in it, or if it is ahead
    of the last character of what follows. -/
theorem mem_dropLast_cons_iff {c d : Char} {rest : List Char} :
    d ∈ (c :: rest).dropLast ↔ d = c ∧ rest ≠ [] ∨ d ∈ rest.dropLast := by
  cases rest with
  | nil => simp
  | cons e tail => simp [List.dropLast]

/-- Nothing goes into a text without a line feed ahead of its last character. -/
theorem insertAfterBreaks_of_not_mem {s : List Char} (h : '\n' ∉ s.dropLast) (lead : List Char) :
    insertAfterBreaks lead s = s := by
  induction s with
  | nil => exact insertAfterBreaks_nil_right lead
  | cons c rest ih =>
    rw [mem_dropLast_cons_iff, not_or] at h
    rw [insertAfterBreaks_cons, if_neg fun hc => h.1 ⟨hc.1.symm, hc.2⟩, ih h.2, List.nil_append]

/-- Of two prefixes of one length, each is what stands behind the first line feed. -/
theorem eq_of_insertAfterBreaks_eq {x y s : List Char} (hlength : x.length = y.length)
    (hfeed : '\n' ∈ s.dropLast) (h : insertAfterBreaks x s = insertAfterBreaks y s) : x = y := by
  induction s with
  | nil => cases hfeed
  | cons c rest ih =>
    rw [insertAfterBreaks_cons, insertAfterBreaks_cons, List.cons_inj_right] at h
    by_cases hc : c = '\n' ∧ rest ≠ []
    · rw [if_pos hc, if_pos hc] at h
      exact (List.append_inj h hlength).1
    · rw [if_neg hc, if_neg hc] at h
      refine ih ?_ h
      exact (mem_dropLast_cons_iff.mp hfeed).resolve_left fun hc' => hc ⟨hc'.1.symm, hc'.2⟩

/-- Two prefixes behind line feeds give the same exactly if they are the same, or if there is no line
    feed but at the end. -/
theorem insertAfterBreaks_eq_iff {x y s : List Char} :
    insertAfterBreaks x s = insertAfterBreaks y s ↔ x = y ∨ '\n' ∉ s.dropLast := by
  constructor
  · intro hsame
    by_cases hfeed : '\n' ∈ s.dropLast
    · have hlength := congrArg List.length hsame
      rw [length_insertAfterBreaks, length_insertAfterBreaks, Nat.add_left_cancel_iff] at hlength
      have hxy := Nat.eq_of_mul_eq_mul_left (List.count_pos_iff.mpr hfeed) hlength
      exact .inl (eq_of_insertAfterBreaks_eq hxy hfeed hsame)
    · exact .inr hfeed
  · rintro (rfl | hfeed)
    · rfl
    · rw [insertAfterBreaks_of_not_mem hfeed, insertAfterBreaks_of_not_mem hfeed]

/-- Whether a prefix goes ahead of all lines of a text as it is: it stands for itself, or it stands for
    something and the text has no line feed but at the end. -/
def IsTakenLiterally (lead s : String) : Prop :=
  isVerbatim lead.toList = true ∨ '\n' ∉ s.toList.dropLast ∧ ∃ text, expand lead.toList = .ok text

theorem prefixLines_eq_iff (s lead : String) :
    prefixLines s lead = .ok (String.ofList (leadAhead lead.toList s.toList)) ↔
      IsTakenLiterally lead s := by
  rw [IsTakenLiterally, ← expandFrom_eq_self_iff, ← expand, prefixLines]
  cases expand lead.toList with
  | error fault =>
    refine iff_of_false (fun h => by cases h) ?_
    rintro (h | ⟨-, text, h⟩) <;> cases h
  | ok text =>
    have hsame : lead ++ String.ofList (insertAfterBreaks text s.toList) =
        String.ofList (leadAhead lead.toList s.toList) ↔
          insertAfterBreaks text s.toList = insertAfterBreaks lead.toList s.toList := by
      rw [← String.toList_inj, String.toList_append, String.toList_ofList, String.toList_ofList,
        leadAhead_eq, List.append_cancel_left_eq]
    show Except.ok (lead ++ String.ofList (insertAfterBreaks text s.toList)) = _ ↔ _
    rw [Except.ok.injEq, hsame, insertAfterBreaks_eq_iff, Except.ok.injEq]
    exact or_congr_right (and_iff_left ⟨text, rfl⟩).symm

end Text

/-! ## Chains -/

namespace Block

variable {o : Options} {p q : Pass} {b c : Block} {slot lead text : String}

/-- A slot gives the code of its chain, with the prefix of the settings. -/
theorem chain_of_statement (hslot : inSlot b.statements slot = some c)
    (hindent : o.indent = .str lead) (hrun : c.code true false o p = .ok (.statement text) q)
    (hne : text ≠ "") (attached : Bool) :
    (b.site attached).chain slot o p = Gen.lift (Text.prefixLines text lead) o q := by
  have hinput : Site.inSlot (b.site attached).statements slot = _ := inSlot_inputs b.statements slot
  have hlead : o.indentText = .ok lead := by
    rw [Options.indentText, hindent]
    rfl
  rw [Site.chain, hinput, hslot]
  change (c.code true false >>= _) o p = _
  rw [Gen.bind_apply, hrun]
  show (if text = "" then pure "" else Site.indented text : Gen String) o q = _
  rw [if_neg hne]
  change (Gen.lift o.indentText >>= fun lead => Gen.lift (Text.prefixLines text lead)) o q = _
  rw [hlead, Gen.lift_ok, pure_bind]

end Block

/-- The prefix of lines, whatever it is and whatever the text. With the prefix at its start and behind
    each line feed but one at the end, a text is as it was when it is dropped there. This text is what
    comes of the prefix exactly if the prefix is taken literally; and then, and only then, every line of
    the chain in a slot has the indent of the settings ahead. -/
theorem Text.prefixLines_verbatim (s lead : String) :
    Text.dropLeads lead.toList.length lead.toList.length
        (Text.leadAhead lead.toList s.toList) = s.toList ∧
      (Text.prefixLines s lead = .ok (String.ofList (Text.leadAhead lead.toList s.toList)) ↔
        Text.IsTakenLiterally lead s) ∧
      ∀ (b c : Block) (slot : String) (o : Options) (p q : Pass),
        Block.inSlot b.statements slot = some c → o.indent = .str lead →
        c.code true false o p = .ok (.statement s) q → s ≠ "" → ∀ attached,
          ((b.site attached).chain slot o p =
              .ok (String.ofList (Text.leadAhead lead.toList s.toList)) q ↔
            Text.IsTakenLiterally lead s) := by
  refine ⟨Text.dropLeads_leadAhead _ _, Text.prefixLines_eq_iff s lead, ?_⟩
  intro b c slot o p q hslot hindent hrun hne attached
  rw [Block.chain_of_statement hslot hindent hrun hne, ← Text.prefixLines_eq_iff]
  cases Text.prefixLines s lead with
  | error fault => exact iff_of_false (fun h => by cases h) (fun h => by cases h)
  | ok text =>
    refine ⟨fun h => ?_, fun h => ?_⟩
    · rw [(EStateM.Result.ok.inj h).1]
    · rw [Except.ok.inj h]
      rfl

/-- Two prints, one behind the other. -/
def twoPrints : Block :=
  .mk ⟨.statement .print, "first", [], .null, .bool false, true, []⟩ [] []
    (some (.mk ⟨.statement .print, "second", [], .null, .bool false, true, []⟩ [] [] none))

/-- A conditional with two prints in its branch. -/
def twoPrintsInBranch : Block :=
  .mk ⟨.statement .conditional, "if", [], .null, .null, true, []⟩ [] [("DO0", some twoPrints)] none

/-- A backslash with a bar behind it stands for itself, and goes ahead of both prints. -/
theorem prefixLines_verbatim_bar :
    let p := Pass.start (.new reservedWords (some "")) []
    let o := { Options.default with indent := .str "\\| " }
    ∃ q, twoPrints.code true false o p =
        .ok (.statement "window.alert('');\nwindow.alert('');\n") q ∧
      (twoPrintsInBranch.site false).chain "DO0" o p =
        .ok "\\| window.alert('');\n\\| window.alert('');\n" q ∧
      Text.dropLeads 3 3 "\\| window.alert('');\n\\| window.alert('');\n".toList =
        "window.alert('');\nwindow.alert('');\n".toList := by
  intro p o
  have hliteral : Text.IsTakenLiterally "\\| " "window.alert('');\nwindow.alert('');\n" :=
    .inl (by decide)
  have hlines : String.ofList (Text.leadAhead "\\| ".toList
      "window.alert('');\nwindow.alert('');\n".toList) =
        "\\| window.alert('');\n\\| window.alert('');\n" := by decide
  obtain ⟨hdrop, -, hchain⟩ :=
    Text.prefixLines_verbatim "window.alert('');\nwindow.alert('');\n" "\\| "
  have hrun : ∃ q, twoPrints.code true false o p =
      .ok (.statement "window.alert('');\nwindow.alert('');\n") q :=
    ⟨_, by with_unfolding_all rfl⟩
  obtain ⟨q, hrun⟩ := hrun
  have hbranch := (hchain twoPrintsInBranch twoPrints "DO0" o p q rfl rfl hrun (by decide) false).mpr
    hliteral
  rw [hlines] at hbranch
  exact ⟨q, hrun, hbranch, by decide⟩

/-- A backslash with a letter behind it is a tab in the second line only. -/
theorem prefixLines_escape :
    Text.prefixLines "a\nb" "\\t" = .ok "\\ta\n\tb" ∧
      String.ofList (Text.leadAhead "\\t".toList "a\nb".toList) = "\\ta\n\\tb" ∧
      (Workspace.mk [] [twoPrintsInBranch] .default).programText
          { Options.default with indent := .str "\\t" } =
        .ok "if (false) \x7b\n\\twindow.alert('');\n\twindow.alert('');\n\x7d\n" :=
  ⟨rfl, by decide, by with_unfolding_all rfl⟩

end BlockScript
