/-
  BlockScript.Proofs.Script.Atom

  The operands that are not put together from others: names, numerals and string literals, and the
  tests that tell from a text that it is one of them.
-/
import BlockScript.Proofs.Script.Exposure

namespace BlockScript.Script

/-! ## Characters -/

theorem isPlainChar_of_isWordChar {c : Char} (h : Literal.isWordChar c = true) :
    isPlainChar c = true := by
  rw [isPlainChar, Bool.and_eq_true]
  constructor
  · rw [decide_eq_true_eq]
    rintro rfl
    exact absurd h (by decide)
  · rw [decide_eq_true_eq]
    rintro rfl
    exact absurd h (by decide)

theorem isWordChar_of_isDigit {c : Char} (h : c.isDigit = true) :
    Literal.isWordChar c = true := by
  rw [Literal.isWordChar, Char.isAlphanum, h, Bool.or_true, Bool.true_or]

/-- The characters of words are ASCII characters between the digits and the last letter. -/
theorem toNat_of_isWordChar {c : Char} (h : Literal.isWordChar c = true) :
    48 ≤ c.toNat ∧ c.toNat ≤ 122 := by
  rw [Literal.isWordChar, Bool.or_eq_true, decide_eq_true_eq] at h
  rcases h with h | rfl
  · have hkind : ((c.isUpper || c.isLower) || c.isDigit) = true := h
    rw [Bool.or_eq_true, Bool.or_eq_true] at hkind
    rcases hkind with (hupper | hlower) | hdigit
    · have hrange : 65 ≤ c.toNat ∧ c.toNat ≤ 90 := of_decide_eq_true hupper
      omega
    · have hrange := Bool.and_eq_true_iff.mp hlower
      have hfirst : 97 ≤ c.toNat := of_decide_eq_true hrange.1
      have hlast : c.toNat ≤ 122 := of_decide_eq_true hrange.2
      omega
    · have hrange := Bool.and_eq_true_iff.mp hdigit
      have hfirst : 48 ≤ c.toNat := of_decide_eq_true hrange.1
      have hlast : c.toNat ≤ 57 := of_decide_eq_true hrange.2
      omega
  · decide

theorem isBlank_of_isWordChar {c : Char} (h : Literal.isWordChar c = true) :
    Text.isBlank c = false := by
  have hrange := toNat_of_isWordChar h
  simp only [Text.isBlank, Bool.or_eq_false_iff, Bool.and_eq_false_iff, decide_eq_false_iff_not,
    beq_eq_false_iff_ne]
  omega

theorem isCalm_map_char {s : List Char} (h : '\\' ∉ s) : isCalm (s.map .char) = true := by
  induction s with
  | nil => rfl
  | cons c rest ih =>
    rw [List.mem_cons, not_or] at h
    cases rest with
    | nil => simpa [isCalm] using Ne.symm h.1
    | cons d tail => exact ih h.2

/-- A text of plain characters without a backslash can be put together with others, unless an
    equals sign is ahead. -/
theorem whole_of_plain {s : String} (hplain : ∀ c ∈ s.toList, isPlainChar c = true)
    (hhead : s.toList.head? ≠ some '=') (hcalm : '\\' ∉ s.toList) : Whole s where
  closed := closed_of_plain hplain
  negatable := by
    rw [Negatable, parts_of_plain hplain, List.head?_map]
    intro h
    obtain ⟨c, hc, heq⟩ := Option.map_eq_some_iff.mp h
    rw [Part.char.injEq] at heq
    exact hhead (heq ▸ hc)
  calm := by
    rw [parts_of_plain hplain]
    exact isCalm_map_char hcalm

/-! ## Names -/

/-- Whether characters are a name: letters, digits and underscores, not beginning with a digit. -/
def isName : List Char → Bool
  | [] => false
  | c :: rest => !c.isDigit && Literal.isWordChar c && rest.all Literal.isWordChar

theorem isName_iff {s : List Char} :
    isName s = true ↔ ∃ c rest, s = c :: rest ∧ c.isDigit = false ∧
      Literal.isWordChar c = true ∧ ∀ d ∈ rest, Literal.isWordChar d = true := by
  cases s with
  | nil => simp [isName]
  | cons c rest => simp [isName, and_assoc]

theorem tokensFrom_word {s : List Char} (h : ∀ c ∈ s, Literal.isWordChar c = true)
    (read : List Char) :
    tokensFrom (.word read) (s.map .char) = [.word (String.ofList (read ++ s))] := by
  induction s generalizing read with
  | nil => rw [List.append_nil]; rfl
  | cons c rest ih =>
    have hstep : Pending.step (.word read) (.char c) = ([], .word (read ++ [c])) := by
      simp only [Pending.step, Pending.extend?, h c List.mem_cons_self, if_true]
    rw [List.map_cons, tokensFrom, hstep, ih fun d hd => h d (List.mem_cons_of_mem c hd),
      List.append_assoc]
    rfl

/-- A name is one token. -/
theorem tokens_name {s : String} (h : isName s.toList = true) : tokens s = [.word s] := by
  obtain ⟨c, rest, hs, hdigit, hc, hrest⟩ := isName_iff.mp h
  have hplain : ∀ d ∈ s.toList, isPlainChar d = true := by
    intro d hd
    rw [hs] at hd
    rcases List.mem_cons.mp hd with rfl | hd
    · exact isPlainChar_of_isWordChar hc
    · exact isPlainChar_of_isWordChar (hrest d hd)
  have hstep : Pending.step .nothing (.char c) = ([], .word [c]) := by
    simp [Pending.step, Pending.extend?, Pending.tokens, Pending.begin, hdigit, hc]
  rw [tokens, parts_of_plain hplain, hs, List.map_cons, tokensFrom, hstep, tokensFrom_word hrest]
  rw [List.nil_append, List.singleton_append, ← hs, String.ofList_toList]

theorem whole_name {s : String} (h : isName s.toList = true) : Whole s := by
  obtain ⟨c, rest, hs, -, hc, hrest⟩ := isName_iff.mp h
  have hword : ∀ d ∈ s.toList, Literal.isWordChar d = true := by
    intro d hd
    rw [hs] at hd
    rcases List.mem_cons.mp hd with rfl | hd
    · exact hc
    · exact hrest d hd
  apply whole_of_plain fun d hd => isPlainChar_of_isWordChar (hword d hd)
  · rw [hs, List.head?_cons, Ne, Option.some.injEq]
    rintro rfl
    exact absurd hc (by decide)
  · intro hmem
    exact absurd (hword _ hmem) (by decide)

theorem operand_name {s : String} (h : isName s.toList = true) : Operand 0 s := by
  refine ⟨whole_name h, ?_⟩
  rw [tokens_name h]
  rfl

/-! ## Numerals -/

/-- The phase of a numeral behind characters, if the numeral has all of them. -/
def Phase.run? : Phase → List Char → Option Phase
  | phase, [] => some phase
  | phase, c :: rest => (phase.extend? c).bind (Phase.run? · rest)

/-- Whether a numeral may end in a phase. -/
def Phase.isComplete : Phase → Bool
  | .whole | .fraction | .exponent => true
  | .point | .mark | .sign => false

/-- Whether characters are an unsigned numeral. -/
def isUnsigned : List Char → Bool
  | [] => false
  | c :: rest => c.isDigit && (Phase.run? .whole rest).any Phase.isComplete

theorem Phase.run?_append (phase : Phase) (s t : List Char) :
    phase.run? (s ++ t) = (phase.run? s).bind (Phase.run? · t) := by
  induction s generalizing phase with
  | nil => rfl
  | cons c rest ih =>
    rw [List.cons_append, run?, run?, Option.bind_assoc]
    exact Option.bind_congr fun next _ => ih next

/-- Digits do not lead out of a phase that takes digits. -/
theorem Phase.run?_digits {phase : Phase} (hphase : ∀ c, c.isDigit = true →
    phase.extend? c = some phase) {s : List Char} (h : ∀ c ∈ s, c.isDigit = true) :
    phase.run? s = some phase := by
  induction s with
  | nil => rfl
  | cons c rest ih =>
    rw [run?, hphase c (h c List.mem_cons_self), Option.bind_some]
    exact ih fun d hd => h d (List.mem_cons_of_mem c hd)

theorem Phase.whole_digits {s : List Char} (h : ∀ c ∈ s, c.isDigit = true) :
    Phase.run? .whole s = some .whole :=
  run?_digits (fun c hc => by simp [extend?, hc]) h

theorem Phase.fraction_digits {s : List Char} (h : ∀ c ∈ s, c.isDigit = true) :
    Phase.run? .fraction s = some .fraction :=
  run?_digits (fun c hc => by simp [extend?, hc]) h

theorem Phase.exponent_digits {s : List Char} (h : ∀ c ∈ s, c.isDigit = true) :
    Phase.run? .exponent s = some .exponent :=
  run?_digits (fun c hc => by simp [extend?, hc]) h

theorem Phase.point_digits {s : List Char} (hne : s ≠ []) (h : ∀ c ∈ s, c.isDigit = true) :
    Phase.run? .point s = some .fraction := by
  cases s with
  | nil => exact absurd rfl hne
  | cons c rest =>
    have hc : Phase.extend? .point c = some .fraction := by
      simp [extend?, h c List.mem_cons_self]
    rw [run?, hc]
    exact fraction_digits fun d hd => h d (List.mem_cons_of_mem c hd)

theorem Phase.sign_digits {s : List Char} (hne : s ≠ []) (h : ∀ c ∈ s, c.isDigit = true) :
    Phase.run? .sign s = some .exponent := by
  cases s with
  | nil => exact absurd rfl hne
  | cons c rest =>
    have hc : Phase.extend? .sign c = some .exponent := by
      simp [extend?, h c List.mem_cons_self]
    rw [run?, hc]
    exact exponent_digits fun d hd => h d (List.mem_cons_of_mem c hd)

/-- The characters of a numeral are plain. -/
theorem Phase.isPlainChar_of_extend? {phase next : Phase} {c : Char}
    (h : phase.extend? c = some next) : isPlainChar c = true ∧ c ≠ '\\' := by
  have hdigit : c.isDigit = true → isPlainChar c = true ∧ c ≠ '\\' := by
    intro hc
    refine ⟨isPlainChar_of_isWordChar (isWordChar_of_isDigit hc), ?_⟩
    rintro rfl
    exact absurd hc (by decide)
  by_cases hc : c.isDigit = true
  · exact hdigit hc
  · have hcases : c = '.' ∨ c = 'e' ∨ c = 'E' ∨ c = '+' ∨ c = '-' := by
      cases phase <;> grind [extend?]
    rcases hcases with rfl | rfl | rfl | rfl | rfl <;> decide

theorem Phase.plain_of_run? {phase next : Phase} {s : List Char}
    (h : phase.run? s = some next) : ∀ c ∈ s, isPlainChar c = true ∧ c ≠ '\\' := by
  induction s generalizing phase with
  | nil => exact fun c hc => absurd hc List.not_mem_nil
  | cons d rest ih =>
    obtain ⟨mid, hmid, hrest⟩ := Option.bind_eq_some_iff.mp h
    intro c hc
    rcases List.mem_cons.mp hc with rfl | hc
    · exact isPlainChar_of_extend? hmid
    · exact ih hrest c hc

theorem tokensFrom_numeral {phase next : Phase} {s : List Char} (h : phase.run? s = some next)
    (read : List Char) : tokensFrom (.numeral phase read) (s.map .char) =
      Pending.tokens (.numeral next (read ++ s)) := by
  induction s generalizing phase read with
  | nil =>
    rw [Phase.run?, Option.some.injEq] at h
    rw [h, List.append_nil]
    rfl
  | cons c rest ih =>
    obtain ⟨mid, hmid, hrest⟩ := Option.bind_eq_some_iff.mp h
    have hstep : Pending.step (.numeral phase read) (.char c) =
        ([], .numeral mid (read ++ [c])) := by
      simp only [Pending.step, Pending.extend?, hmid, Option.map_some]
    rw [List.map_cons, tokensFrom, hstep, ih hrest, List.append_assoc]
    rfl

/-- An unsigned numeral is one token. -/
theorem tokens_unsigned {s : String} (h : isUnsigned s.toList = true) :
    tokens s = [.numeral s] ∧ Whole s := by
  cases hs : s.toList with
  | nil =>
    rw [hs] at h
    exact absurd h (by simp [isUnsigned])
  | cons c rest =>
    rw [hs, isUnsigned, Bool.and_eq_true, Option.any_eq_true] at h
    obtain ⟨hc, next, hrun, hcomplete⟩ := h
    have hc' := isWordChar_of_isDigit hc
    have hplain : ∀ d ∈ s.toList, isPlainChar d = true ∧ d ≠ '\\' := by
      intro d hd
      rw [hs] at hd
      rcases List.mem_cons.mp hd with rfl | hd
      · refine ⟨isPlainChar_of_isWordChar hc', ?_⟩
        rintro rfl
        exact absurd hc (by decide)
      · exact Phase.plain_of_run? hrun d hd
    constructor
    · have hstep : Pending.step .nothing (.char c) = ([], .numeral .whole [c]) := by
        simp [Pending.step, Pending.extend?, Pending.tokens, Pending.begin, hc]
      have hlast : Pending.tokens (.numeral next ([c] ++ rest)) =
          [.numeral (String.ofList ([c] ++ rest))] := by
        cases next with
        | whole | fraction | exponent => rfl
        | point | mark | sign => exact absurd hcomplete (by decide)
      rw [tokens, parts_of_plain fun d hd => (hplain d hd).1, hs, List.map_cons, tokensFrom, hstep,
        tokensFrom_numeral hrun, hlast, List.nil_append, List.singleton_append, ← hs,
        String.ofList_toList]
    · apply whole_of_plain fun d hd => (hplain d hd).1
      · rw [hs, List.head?_cons, Ne, Option.some.injEq]
        rintro rfl
        exact absurd hc (by decide)
      · exact fun hmem => (hplain _ hmem).2 rfl

theorem operand_unsigned {s : String} (h : isUnsigned s.toList = true) : Operand 0 s := by
  obtain ⟨htokens, hwhole⟩ := tokens_unsigned h
  refine ⟨hwhole, ?_⟩
  rw [htokens]
  rfl

/-- Digits with at least one among them are an unsigned numeral. -/
theorem isUnsigned_digits {s : List Char} (hne : s ≠ []) (h : ∀ c ∈ s, c.isDigit = true) :
    isUnsigned s = true := by
  cases s with
  | nil => exact absurd rfl hne
  | cons c rest =>
    rw [isUnsigned, h c List.mem_cons_self,
      Phase.whole_digits fun d hd => h d (List.mem_cons_of_mem c hd)]
    rfl

/-! ## String literals -/

theorem whole_quote (s : String) : Whole (Literal.quote s) where
  closed := closed_quote s
  negatable := by
    rw [Negatable, parts_quote]
    intro h
    cases h
  calm := by
    rw [parts_quote]
    rfl

theorem tokens_quote (s : String) : tokens (Literal.quote s) = [.literal s.toList] := by
  rw [tokens, parts_quote]
  rfl

theorem operand_quote (s : String) : Operand 0 (Literal.quote s) := by
  refine ⟨whole_quote s, ?_⟩
  rw [tokens_quote]
  rfl

theorem splitOn_ne_nil (separator : Char) (s : List Char) : Text.splitOn separator s ≠ [] := by
  cases s with
  | nil => exact List.cons_ne_nil _ _
  | cons c rest =>
    rw [Text.splitOn]
    split
    · exact List.cons_ne_nil _ _
    · split <;> exact List.cons_ne_nil _ _

/-- Literals of lines are joined from the literals of texts. -/
theorem quoteLines_eq (s : String) : ∃ line others, Literal.quoteLines s =
    Text.join " + '\\n' +\n" ((line :: others).map Literal.quote) := by
  have hquote : (fun line => String.ofList (Literal.quoteChars line)) =
      Literal.quote ∘ String.ofList := by
    funext line
    rw [Function.comp_apply, Literal.quote, String.toList_ofList]
  cases hlines : Text.lines s.toList with
  | nil => exact absurd hlines (splitOn_ne_nil _ _)
  | cons line others =>
    refine ⟨String.ofList line, others.map String.ofList, ?_⟩
    rw [Literal.quoteLines, hlines, hquote, ← List.map_cons, List.map_map]

/-- Literals of lines are a sum, or one literal if there is no plus sign. -/
theorem operand_quoteLines (s : String) : Operand
    (Order.rank (if (Literal.quoteLines s).toList.contains '+' then .addition else .atomic))
    (Literal.quoteLines s) := by
  obtain ⟨line, others, heq⟩ := quoteLines_eq s
  rw [heq]
  cases others with
  | nil => exact (operand_quote line).mono (Nat.zero_le _)
  | cons next rest =>
    have hplus : (Text.join " + '\\n' +\n"
        ((line :: next :: rest).map Literal.quote)).toList.contains '+' = true := by
      simp [Text.join]
    rw [hplus, if_pos rfl]
    refine Operand.join (by decide) (List.cons_ne_nil _ _) ?_
    intro text htext
    obtain ⟨part, -, rfl⟩ := List.mem_map.mp htext
    exact (operand_quote part).mono (Nat.zero_le _)

end BlockScript.Script
