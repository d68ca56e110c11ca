/-
  BlockScript.Proofs.Script.Recognition

  The tests that tell from a text that it is a literal or a word. They look at quotes and word
  characters only, and are right about texts that can be put together: such a text that passes is a
  literal or a word, so it exposes no operator.
-/
import BlockScript.Number.Numeral
import BlockScript.Proofs.Script.Atom

namespace BlockScript.Script

/-! ## Texts without operators -/

theorem step?_orders_of_not_symbol {place next : Place} {t : Token} {orders : List Order}
    (h : place.step? t = some (orders, next)) (ht : ∀ s, t ≠ .symbol s) : orders = [] := by
  cases t with
  | symbol s => exact absurd rfl (ht s)
  | closing b =>
    obtain ⟨-, -, rfl, -⟩ := step?_closing_iff.mp h
    rfl
  | _ =>
    obtain ⟨rfl, -⟩ := Prod.mk.inj (Option.some.inj h)
    rfl

theorem scan_orders_of_no_symbol {place last : Place} {ts : List Token} {orders : List Order}
    (h : scan place ts = some (orders, last)) (hts : ∀ s, .symbol s ∉ ts) : orders = [] := by
  induction ts generalizing place orders with
  | nil => exact (scan_nil_iff.mp h).1
  | cons t rest ih =>
    obtain ⟨first, next, more, hstep, hrest, rfl⟩ := scan_cons_iff.mp h
    have hfirst := step?_orders_of_not_symbol hstep fun s heq => hts s (heq ▸ List.mem_cons_self)
    have hmore := ih hrest fun s hs => hts s (List.mem_cons_of_mem t hs)
    rw [hfirst, hmore, List.append_nil]

/-- An operand without operator symbols exposes no operator. -/
theorem Operand.of_no_symbol {r : Nat} {s : String} (h : Operand r s)
    (hs : ∀ symbol, .symbol symbol ∉ tokens s) : Operand 0 s := by
  obtain ⟨orders, hscan, -⟩ := takes_iff.mp h.takes
  refine ⟨h.whole, takes_iff.mpr ⟨orders, hscan, ?_⟩⟩
  rw [scan_orders_of_no_symbol hscan hs]
  exact fun order horder => absurd horder List.not_mem_nil

/-- Whether a character is a part of an operator. -/
def isOperatorChar (c : Char) : Bool :=
  startsPair c || c = '+' || c = '-' || c = '?' || c = ':'

/-- Whether the token that the reader is in has no operator. -/
def Pending.IsQuiet : Pending → Prop
  | .symbol _ => False
  | _ => True

theorem Pending.isQuiet_nothing : Pending.nothing.IsQuiet :=
  trivial

theorem symbol_not_mem_tokens {pending : Pending} (h : pending.IsQuiet) (s : Symbol) :
    .symbol s ∉ pending.tokens := by
  cases pending with
  | symbol c => exact h.elim
  | nothing => exact List.not_mem_nil
  | word read => simp [Pending.tokens]
  | numeral phase read => cases phase <;> simp [Pending.tokens]

theorem single_ne_symbol {c : Char} (h : isOperatorChar c = false) (s : Symbol) :
    single c ≠ .symbol s := by
  rw [single.eq_def]
  split <;> first | exact absurd h (by decide) | simp

/-- A character that is no part of an operator completes none and begins none. -/
theorem quiet_step {pending : Pending} (h : pending.IsQuiet) {c : Char}
    (hc : isOperatorChar c = false) :
    (∀ s, .symbol s ∉ (pending.step (.char c)).1) ∧ (pending.step (.char c)).2.IsQuiet := by
  have hbegin : (∀ s, .symbol s ∉ (Pending.begin c).1) ∧ (Pending.begin c).2.IsQuiet := by
    rw [Pending.begin]
    split
    · exact ⟨fun _ => List.not_mem_nil, trivial⟩
    · split
      · exact ⟨fun _ => List.not_mem_nil, trivial⟩
      · split
        · rename_i hpair
          rw [isOperatorChar, hpair] at hc
          exact absurd hc (by simp)
        · split
          · exact ⟨fun _ => List.not_mem_nil, trivial⟩
          · refine ⟨fun s hs => ?_, trivial⟩
            exact single_ne_symbol hc s (List.mem_singleton.mp hs).symm
  rw [Pending.step]
  cases hextend : pending.extend? c with
  | none =>
    refine ⟨fun s hs => ?_, hbegin.2⟩
    rcases List.mem_append.mp hs with hs | hs
    · exact symbol_not_mem_tokens h s hs
    · exact hbegin.1 s hs
  | some next =>
    cases pending with
    | nothing => exact absurd hextend (by simp [Pending.extend?])
    | symbol d => exact h.elim
    | word read =>
      simp only [Pending.extend?, Option.ite_none_right_eq_some, Option.some.injEq] at hextend
      obtain ⟨-, rfl⟩ := hextend
      exact ⟨fun _ => List.not_mem_nil, trivial⟩
    | numeral phase read =>
      simp only [Pending.extend?, Option.map_eq_some_iff] at hextend
      obtain ⟨phase', -, rfl⟩ := hextend
      exact ⟨fun _ => List.not_mem_nil, trivial⟩

/-- What is so of the tokens that each part completes, and of those that end behind the parts, is so
    of all tokens. -/
theorem forall_mem_tokensFrom {T : Token → Prop} {I : Pending → Prop} {C : Part → Prop}
    (hend : ∀ {pending}, I pending → ∀ t ∈ pending.tokens, T t)
    (hstep : ∀ {pending part}, I pending → C part →
      (∀ t ∈ (pending.step part).1, T t) ∧ I (pending.step part).2)
    {ps : List Part} (hps : ∀ part ∈ ps, C part) {pending : Pending} (h : I pending) :
    ∀ t ∈ tokensFrom pending ps, T t := by
  induction ps generalizing pending with
  | nil => exact hend h
  | cons part rest ih =>
    obtain ⟨hfirst, hnext⟩ := hstep h (hps part List.mem_cons_self)
    rw [tokensFrom]
    exact List.forall_mem_append.mpr
      ⟨hfirst, ih (fun next hmem => hps next (List.mem_cons_of_mem part hmem)) hnext⟩

/-- Parts without characters of operators have no operator. -/
theorem no_symbol_of_quiet {ps : List Part} (hps : ∀ c, .char c ∈ ps → isOperatorChar c = false)
    {pending : Pending} (h : pending.IsQuiet) (s : Symbol) : .symbol s ∉ tokensFrom pending ps := by
  have hend : ∀ {pending : Pending}, pending.IsQuiet → ∀ t ∈ pending.tokens, t ≠ .symbol s := by
    rintro pending hquiet _ hmem rfl
    exact symbol_not_mem_tokens hquiet s hmem
  refine fun hmem => forall_mem_tokensFrom (T := (· ≠ .symbol s))
    (C := fun part => ∀ c, part = .char c → isOperatorChar c = false) hend ?_
    (fun part hpart c hc => hps c (hc ▸ hpart)) h _ hmem rfl
  intro pending part hquiet hpart
  cases part with
  | char c =>
    obtain ⟨hnone, hnext⟩ := quiet_step hquiet (hpart c rfl)
    exact ⟨fun t ht heq => hnone s (heq ▸ ht), hnext⟩
  | literal text =>
    refine ⟨List.forall_mem_append.mpr ⟨hend hquiet, ?_⟩, trivial⟩
    exact List.forall_mem_singleton.mpr fun heq => by cases heq
  | comment => exact ⟨hend hquiet, trivial⟩

/-! ## White space -/

theorem isOperatorChar_of_isBlank {c : Char} (h : Text.isBlank c = true) :
    isOperatorChar c = false := by
  rw [Bool.eq_false_iff]
  intro hc
  simp only [isOperatorChar, startsPair, Bool.or_eq_true, decide_eq_true_eq] at hc
  rcases hc with (((((((((rfl | rfl) | rfl) | rfl) | rfl) | rfl) | rfl) | rfl) | rfl) | rfl) <;>
    exact absurd h (by decide)

theorem isOperatorChar_of_isWordChar {c : Char} (h : Literal.isWordChar c = true) :
    isOperatorChar c = false := by
  rw [Bool.eq_false_iff]
  intro hc
  simp only [isOperatorChar, startsPair, Bool.or_eq_true, decide_eq_true_eq] at hc
  rcases hc with (((((((((rfl | rfl) | rfl) | rfl) | rfl) | rfl) | rfl) | rfl) | rfl) | rfl) <;>
    exact absurd h (by decide)

/-- A text is white space, the rest, and white space. -/
theorem exists_trim (s : List Char) : ∃ lead tail, s = lead ++ Text.trim s ++ tail ∧
    (∀ c ∈ lead, Text.isBlank c = true) ∧ ∀ c ∈ tail, Text.isBlank c = true := by
  have hlead := List.takeWhile_append_dropWhile (p := Text.isBlank) (l := s)
  have htail := List.takeWhile_append_dropWhile (p := Text.isBlank)
    (l := (s.dropWhile Text.isBlank).reverse)
  refine ⟨s.takeWhile Text.isBlank,
    ((s.dropWhile Text.isBlank).reverse.takeWhile Text.isBlank).reverse, ?_, ?_, ?_⟩
  · rw [Text.trim, Text.trimOf, Text.trimRightOf, List.append_assoc, ← List.reverse_append, htail,
      List.reverse_reverse, hlead]
  · exact fun c hc => List.all_eq_true.mp List.all_takeWhile c hc
  · exact fun c hc => List.all_eq_true.mp List.all_takeWhile c (List.mem_reverse.mp hc)

/-! ## Plain numerals -/

/-- A plain numeral has digits, a sign, a point and white space only. -/
theorem mem_of_isPlain {s : String} (h : Numeral.isPlain s = true) :
    ∀ c ∈ s.toList, Text.isBlank c = true ∨ Text.isDigit c = true ∨ c = '-' ∨ c = '.' := by
  obtain ⟨lead, tail, heq, hlead, htail⟩ := exists_trim s.toList
  -- Behind the sign there are digits, and perhaps a point and digits.
  have hunsigned : ∀ t : List Char, (t.dropWhile Text.isDigit = [] ∨
      ∃ fraction, t.dropWhile Text.isDigit = '.' :: fraction ∧ fraction.all Text.isDigit = true) →
      ∀ c ∈ t, Text.isDigit c = true ∨ c = '.' := by
    intro t ht c hc
    rw [← List.takeWhile_append_dropWhile (p := Text.isDigit) (l := t), List.mem_append] at hc
    rcases hc with hc | hc
    · exact Or.inl (List.all_eq_true.mp List.all_takeWhile c hc)
    · rcases ht with hnil | ⟨fraction, hfraction, hdigits⟩
      · rw [hnil] at hc
        exact absurd hc List.not_mem_nil
      · rw [hfraction] at hc
        rcases List.mem_cons.mp hc with rfl | hc
        · exact Or.inr rfl
        · exact Or.inl (List.all_eq_true.mp hdigits c hc)
  have hrest : ∃ rest, (Text.trim s.toList = rest ∨ Text.trim s.toList = '-' :: rest) ∧
      (rest.dropWhile Text.isDigit = [] ∨ ∃ fraction,
        rest.dropWhile Text.isDigit = '.' :: fraction ∧ fraction.all Text.isDigit = true) := by
    rw [Numeral.isPlain] at h
    simp only [Bool.and_eq_true] at h
    obtain ⟨-, h⟩ := h
    split at h
    · rename_i hnil
      split at hnil
      · exact ⟨_, Or.inr ‹_›, Or.inl hnil⟩
      · exact ⟨_, Or.inl rfl, Or.inl hnil⟩
    · rename_i fraction hfraction
      rw [Bool.and_eq_true] at h
      split at hfraction
      · exact ⟨_, Or.inr ‹_›, Or.inr ⟨fraction, hfraction, h.2⟩⟩
      · exact ⟨_, Or.inl rfl, Or.inr ⟨fraction, hfraction, h.2⟩⟩
    · exact absurd h Bool.false_ne_true
  obtain ⟨rest, htrim, hdigits⟩ := hrest
  have hbody : ∀ c ∈ Text.trim s.toList, Text.isDigit c = true ∨ c = '-' ∨ c = '.' := by
    intro c hc
    rcases htrim with htrim | htrim <;> rw [htrim] at hc
    · exact (hunsigned rest hdigits c hc).imp_right Or.inr
    · rcases List.mem_cons.mp hc with rfl | hc
      · exact Or.inr (Or.inl rfl)
      · exact (hunsigned rest hdigits c hc).imp_right Or.inr
  intro c hc
  rw [heq, List.mem_append, List.mem_append] at hc
  rcases hc with (hc | hc) | hc
  · exact Or.inl (hlead c hc)
  · exact Or.inr (hbody c hc)
  · exact Or.inl (htail c hc)

theorem isPlainChar_of_textIsDigit {c : Char} (h : Text.isDigit c = true) :
    isPlainChar c = true := by
  rw [isPlainChar, Bool.and_eq_true, decide_eq_true_eq, decide_eq_true_eq]
  constructor
  · rintro rfl
    exact absurd h (by decide)
  · rintro rfl
    exact absurd h (by decide)

/-- A plain numeral is plain code. -/
theorem plain_of_isPlain {s : String} (h : Numeral.isPlain s = true) :
    ∀ c ∈ s.toList, isPlainChar c = true := by
  intro c hc
  rcases mem_of_isPlain h c hc with hblank | hdigit | rfl | rfl
  · exact isPlainChar_of_isBlank hblank
  · exact isPlainChar_of_textIsDigit hdigit
  · rfl
  · rfl

/-! ## Literals -/

/-- Whether the reader is in a literal, or behind one that a line feed broke. -/
def Mode.InLiteral : Mode → Prop
  | .literal _ | .escaped _ | .broken => True
  | _ => False

theorem inLiteral_literal (read : List Char) : (Mode.literal read).InLiteral :=
  trivial

/-- Without a quote no literal is closed. -/
theorem not_closed_of_inLiteral {mode : Mode} (h : mode.InLiteral) {s : List Char}
    (hs : '\'' ∉ s) : modeAfter mode s ≠ .code := by
  induction s generalizing mode with
  | nil =>
    rintro hcode
    rw [modeAfter] at hcode
    rw [hcode] at h
    exact h
  | cons c rest ih =>
    rw [List.mem_cons, not_or] at hs
    refine ih ?_ hs.2
    cases mode with
    | literal read =>
      rw [Mode.step, if_neg (Ne.symm hs.1)]
      split
      · trivial
      · split <;> trivial
    | escaped read | broken => trivial
    | code | slash | comment => exact h.elim

/-- A literal that was begun is the first part to be completed. -/
theorem head?_partsFrom_of_inLiteral {mode : Mode} (h : mode.InLiteral) (s : List Char) (c : Char) :
    (partsFrom mode s).head? ≠ some (.char c) := by
  induction s generalizing mode with
  | nil =>
    intro h
    cases h
  | cons d rest ih =>
    cases mode with
    | literal read =>
      rw [partsFrom, Mode.step]
      split
      · intro h
        cases h
      · split
        · exact ih trivial
        · split <;> exact ih trivial
    | escaped read | broken => exact ih trivial
    | code | slash | comment => exact h.elim

/-- A comment that is over is one of the parts. -/
theorem comment_mem_of_closed {s : List Char} (h : modeAfter .comment s = .code) :
    .comment ∈ partsFrom .comment s := by
  induction s with
  | nil => cases h
  | cons c rest ih =>
    rw [partsFrom, Mode.step]
    split
    · exact List.mem_cons_self
    · rename_i hne
      rw [modeAfter, Mode.step, if_neg hne] at h
      exact ih h

theorem isCalm_tail {part : Part} {ps : List Part} (h : isCalm (part :: ps) = true) :
    isCalm ps = true := by
  cases part with
  | comment => exact absurd h (by simp [isCalm])
  | literal text => exact h
  | char c =>
    cases ps with
    | nil => rfl
    | cons next rest =>
      cases next with
      | char d => exact h
      | literal text =>
        simp only [isCalm, Bool.and_eq_true] at h
        exact h.2
      | comment => exact absurd h (by simp [isCalm])

theorem comment_not_mem_of_isCalm {ps : List Part} (h : isCalm ps = true) : .comment ∉ ps := by
  induction ps with
  | nil => exact List.not_mem_nil
  | cons part rest ih =>
    rw [List.mem_cons, not_or]
    refine ⟨?_, ih (isCalm_tail h)⟩
    rintro rfl
    exact absurd h (by simp [isCalm])

/-- In calm code there is a character behind a backslash. -/
theorem head?_of_isCalm {ps : List Part} (h : isCalm (.char '\\' :: ps) = true) :
    ∃ c, ps.head? = some (.char c) := by
  cases ps with
  | nil => exact absurd h (by simp [isCalm])
  | cons next rest =>
    cases next with
    | char d => exact ⟨d, rfl⟩
    | literal text => exact absurd h (by simp [isCalm])
    | comment => exact absurd h (by simp [isCalm])

theorem quote_not_mem_of_isBlank {s : List Char} (h : ∀ c ∈ s, Text.isBlank c = true) :
    '\'' ∉ s :=
  fun hmem => absurd (h _ hmem) (by decide)

theorem isCalm_of_append {ps qs : List Part} (h : isCalm (ps ++ qs) = true) : isCalm qs = true := by
  induction ps with
  | nil => exact h
  | cons part rest ih => exact ih (isCalm_tail h)

/-- The parts behind a character of code are as calm as the character with them. -/
theorem isCalm_behind {c : Char} {ps : List Part} (h : isCalm (.char c :: ps) = true) :
    isCalm ((if c = '\\' then [.char '\\'] else []) ++ ps) = true := by
  split
  · rename_i hc
    rwa [hc] at h
  · exact isCalm_tail h

/-- Outside of a literal no quote passes the test for closing ones. A backslash just ahead counts to
    the parts. -/
theorem not_closes_outside {tail : List Char} (htail : ∀ c ∈ tail, Text.isBlank c = true)
    {s : List Char} {afterBackslash : Bool} {mode : Mode}
    (hcloses : Literal.closes afterBackslash s = true)
    (hmode : mode = .code ∨ afterBackslash = false ∧ mode = .slash)
    (hclosed : modeAfter mode (s ++ tail) = .code)
    (hcalm : isCalm ((if afterBackslash then [.char '\\'] else []) ++
      partsFrom mode (s ++ tail)) = true) : False := by
  have hquote := quote_not_mem_of_isBlank htail
  induction afterBackslash, s using Literal.closes.induct generalizing mode with
  | case1 => exact absurd hcloses (by simp [Literal.closes])
  | case2 afterBackslash c =>
    obtain rfl : c = '\'' := by simpa [Literal.closes] using hcloses
    rcases hmode with rfl | ⟨-, rfl⟩
    · exact not_closed_of_inLiteral (inLiteral_literal []) hquote hclosed
    · exact not_closed_of_inLiteral (inLiteral_literal []) hquote hclosed
  | case3 afterBackslash d rest ih =>
    simp only [Literal.closes, if_true, Bool.and_eq_true] at hcloses
    obtain ⟨rfl, -⟩ := hcloses
    rcases hmode with rfl | ⟨hfalse, -⟩
    · obtain ⟨c, hc⟩ := head?_of_isCalm hcalm
      exact head?_partsFrom_of_inLiteral (inLiteral_literal []) _ c hc
    · exact absurd hfalse (by decide)
  | case4 afterBackslash c d rest hne ih =>
    rw [Literal.closes, if_neg hne] at hcloses
    rw [List.cons_append] at hclosed hcalm
    rw [modeAfter] at hclosed
    rw [partsFrom] at hcalm
    rcases hmode with rfl | ⟨rfl, rfl⟩
    · rw [Mode.step, if_neg hne] at hclosed hcalm
      by_cases hslash : c = '/'
      · rw [if_pos hslash] at hclosed hcalm
        refine ih hcloses (Or.inr ⟨by rw [hslash]; rfl, rfl⟩) hclosed ?_
        rw [hslash]
        exact isCalm_of_append hcalm
      · rw [if_neg hslash] at hclosed hcalm
        refine ih hcloses (Or.inl rfl) hclosed ?_
        simpa using isCalm_behind (isCalm_of_append hcalm)
    · rw [Mode.step, if_neg hne] at hclosed hcalm
      by_cases hslash : c = '/'
      · rw [if_pos hslash] at hclosed hcalm
        exact comment_not_mem_of_isCalm hcalm (comment_mem_of_closed hclosed)
      · rw [if_neg hslash] at hclosed hcalm
        refine ih hcloses (Or.inl rfl) hclosed ?_
        simpa using isCalm_behind (isCalm_tail hcalm)

/-- A literal that passes the test is followed by white space only. -/
theorem partsFrom_of_closes {tail : List Char} (htail : ∀ c ∈ tail, Text.isBlank c = true)
    {s : List Char} {afterBackslash : Bool} {mode : Mode}
    (hcloses : Literal.closes afterBackslash s = true)
    (hmode : (∃ read, mode = .literal read) ∨ afterBackslash = true ∧ ∃ read, mode = .escaped read)
    (hclosed : modeAfter mode (s ++ tail) = .code)
    (hcalm : isCalm (partsFrom mode (s ++ tail)) = true) :
    ∃ text, partsFrom mode (s ++ tail) = .literal text :: tail.map .char := by
  have hquote := quote_not_mem_of_isBlank htail
  induction afterBackslash, s using Literal.closes.induct generalizing mode with
  | case1 => exact absurd hcloses (by simp [Literal.closes])
  | case2 afterBackslash c =>
    obtain rfl : c = '\'' := by simpa [Literal.closes] using hcloses
    rcases hmode with ⟨read, rfl⟩ | ⟨-, read, rfl⟩
    · refine ⟨read, ?_⟩
      rw [← partsFrom_of_plain fun c hc => isPlainChar_of_isBlank (htail c hc)]
      rfl
    · exact absurd hclosed (not_closed_of_inLiteral (inLiteral_literal _) hquote)
  | case3 afterBackslash d rest ih =>
    simp only [Literal.closes, if_true, Bool.and_eq_true] at hcloses
    rcases hmode with ⟨read, rfl⟩ | ⟨-, read, rfl⟩
    · exact (not_closes_outside htail hcloses.2 (Or.inl rfl) hclosed (isCalm_tail hcalm)).elim
    · exact ih hcloses.2 (Or.inl ⟨_, rfl⟩) hclosed hcalm
  | case4 afterBackslash c d rest hne ih =>
    rw [Literal.closes, if_neg hne] at hcloses
    rw [List.cons_append] at hclosed hcalm ⊢
    rw [modeAfter] at hclosed
    rw [partsFrom] at hcalm ⊢
    rcases hmode with ⟨read, rfl⟩ | ⟨-, read, rfl⟩
    · rw [Mode.step, if_neg hne] at hclosed hcalm ⊢
      by_cases hslash : c = '\\'
      · rw [if_pos hslash] at hclosed hcalm ⊢
        exact ih hcloses (Or.inr ⟨by simp [hslash], _, rfl⟩) hclosed hcalm
      · rw [if_neg hslash] at hclosed hcalm ⊢
        by_cases hbreak : c = '\n'
        · rw [if_pos hbreak, modeAfter_broken] at hclosed
          cases hclosed
        · rw [if_neg hbreak] at hclosed hcalm ⊢
          exact ih hcloses (Or.inl ⟨_, rfl⟩) hclosed hcalm
    · exact ih hcloses (Or.inl ⟨_, rfl⟩) hclosed hcalm

/-- A text that can be put together and passes for a literal is one, with white space around. -/
theorem parts_of_isLiteral {s : String} (hs : Whole s) (h : Literal.isLiteral s = true) :
    ∃ lead text tail, parts s = List.map .char lead ++ .literal text :: List.map .char tail ∧
      (∀ c ∈ lead, Text.isBlank c = true) ∧ ∀ c ∈ tail, Text.isBlank c = true := by
  obtain ⟨lead, tail, hsplit, hlead, htail⟩ := exists_trim s.toList
  rw [Literal.isLiteral] at h
  split at h
  · rename_i rest htrim
    rw [htrim] at hsplit
    have hplain : ∀ c ∈ lead, isPlainChar c = true := fun c hc => isPlainChar_of_isBlank (hlead c hc)
    have hclosed := hs.closed
    have hcalm := hs.calm
    rw [Closed, hsplit, List.append_assoc, modeAfter_append, modeAfter_of_plain hplain] at hclosed
    rw [parts, hsplit, List.append_assoc, partsFrom_append, modeAfter_of_plain hplain] at hcalm
    obtain ⟨text, htext⟩ := partsFrom_of_closes htail h (Or.inl ⟨[], rfl⟩)
      hclosed (isCalm_of_append hcalm)
    refine ⟨lead, text, tail, ?_, hlead, htail⟩
    rw [parts, hsplit, List.append_assoc, partsFrom_append, modeAfter_of_plain hplain,
      partsFrom_of_plain hplain, ← htext]
    rfl
  · exact absurd h (by simp)

/-- A text that passes for a literal has no operator symbol. -/
theorem no_symbol_of_isLiteral {s : String} (hs : Whole s) (h : Literal.isLiteral s = true)
    (symbol : Symbol) : .symbol symbol ∉ tokens s := by
  obtain ⟨lead, text, tail, hparts, hlead, htail⟩ := parts_of_isLiteral hs h
  refine no_symbol_of_quiet ?_ Pending.isQuiet_nothing symbol
  intro c hc
  rw [hparts, List.mem_append, List.mem_cons, List.mem_map, List.mem_map] at hc
  rcases hc with ⟨d, hd, heq⟩ | heq | ⟨d, hd, heq⟩
  · rw [Part.char.injEq] at heq
    exact isOperatorChar_of_isBlank (heq ▸ hlead d hd)
  · cases heq
  · rw [Part.char.injEq] at heq
    exact isOperatorChar_of_isBlank (heq ▸ htail d hd)

/-- An operand that passes for a literal exposes no operator. -/
theorem operand_of_isLiteral {r : Nat} {s : String} (hs : Operand r s)
    (h : Literal.isLiteral s = true) : Operand 0 s :=
  hs.of_no_symbol (no_symbol_of_isLiteral hs.whole h)

/-- A text that is forced from an operand exposes no more than its order says. -/
theorem operand_forceString {r : Nat} {s : String} (hs : Operand r s) :
    Operand (Literal.forceString s).2.rank (Literal.forceString s).1 := by
  rw [Literal.forceString]
  split
  · rename_i h
    exact operand_of_isLiteral hs h
  · have hopens : Opens 0 .round "String(" := by decide
    exact (hopens.enclose hs.enclosed (by decide)).mono (Nat.zero_le _)

/-! ## Words -/

/-- A character of code is one of the text that is no quote, or the slash that was not yet passed
    on. -/
theorem mem_of_char_mem_partsFrom {mode : Mode} {s : List Char} {c : Char}
    (h : .char c ∈ partsFrom mode s) : (c ∈ s ∧ c ≠ '\'') ∨ c = '/' ∧ mode = .slash := by
  induction s generalizing mode with
  | nil => exact absurd h List.not_mem_nil
  | cons d rest ih =>
    rcases List.mem_append.mp h with hstep | hrest
    · have hcases : (c = d ∧ c ≠ '\'') ∨ c = '/' ∧ mode = .slash := by
        cases mode <;> grind [Mode.step]
      refine hcases.imp_left ?_
      rintro ⟨rfl, hne⟩
      exact ⟨List.mem_cons_self, hne⟩
    · have hslash : (mode.step d).2 = .slash → d = '/' := by
        cases mode <;> grind [Mode.step]
      rcases ih hrest with ⟨hmem, hne⟩ | ⟨rfl, hmode⟩
      · exact Or.inl ⟨List.mem_cons_of_mem d hmem, hne⟩
      · exact Or.inl ⟨hslash hmode ▸ List.mem_cons_self, by decide⟩

theorem mem_of_dropWhile_isWordChar {s : List Char}
    (h : s.dropWhile Literal.isWordChar = [] ∨ s.dropWhile Literal.isWordChar = ['\'']) :
    ∀ c ∈ s, Literal.isWordChar c = true ∨ c = '\'' := by
  intro c hc
  rw [← List.takeWhile_append_dropWhile (p := Literal.isWordChar) (l := s), List.mem_append] at hc
  rcases hc with hc | hc
  · exact Or.inl (List.all_eq_true.mp List.all_takeWhile c hc)
  · rcases h with htail | htail
    · rw [htail] at hc
      exact absurd hc List.not_mem_nil
    · rw [htail] at hc
      exact Or.inr (List.mem_singleton.mp hc)

/-- A text that passes for a word has word characters, quotes and a line feed only. -/
theorem mem_of_isSimple {s : String} (h : Literal.isSimple s = true) :
    ∀ c ∈ s.toList, Literal.isWordChar c = true ∨ c = '\'' ∨ c = '\n' := by
  simp only [Literal.isSimple, Bool.and_eq_true, decide_eq_true_eq, Bool.or_eq_true] at h
  generalize hbody : (if s.toList.getLast? = some '\n' then s.toList.dropLast else s.toList) = body
    at h
  have hword : ∀ c ∈ body, Literal.isWordChar c = true ∨ c = '\'' := by
    split at h
    · intro c hc
      rcases List.mem_cons.mp hc with rfl | hc
      · exact Or.inr rfl
      · exact mem_of_dropWhile_isWordChar h.2 c hc
    · exact mem_of_dropWhile_isWordChar h.2
  intro c hc
  split at hbody
  · rename_i hend
    obtain ⟨before, hbefore⟩ := List.getLast?_eq_some_iff.mp hend
    rw [hbefore, List.dropLast_concat] at hbody
    rw [hbefore, hbody, List.mem_append, List.mem_singleton] at hc
    rcases hc with hc | hc
    · exact (hword c hc).imp_right Or.inl
    · exact Or.inr (Or.inr hc)
  · exact (hword c (hbody ▸ hc)).imp_right Or.inl

/-- The code in a text that passes for a word has word characters and a line feed only. -/
theorem char_of_isSimple {s : String} (h : Literal.isSimple s = true) {c : Char}
    (hc : .char c ∈ parts s) : Literal.isWordChar c = true ∨ c = '\n' := by
  rcases mem_of_char_mem_partsFrom hc with ⟨hmem, hne⟩ | ⟨-, hmode⟩
  · exact (mem_of_isSimple h c hmem).imp_right fun h => h.resolve_left hne
  · cases hmode

/-- An operand that passes for a word, perhaps in quotes, exposes no operator. -/
theorem operand_of_isSimple {r : Nat} {s : String} (hs : Operand r s)
    (h : Literal.isSimple s = true) : Operand 0 s := by
  apply hs.of_no_symbol
  intro symbol
  refine no_symbol_of_quiet ?_ Pending.isQuiet_nothing symbol
  intro c hc
  rcases char_of_isSimple h hc with hword | rfl
  · exact isOperatorChar_of_isWordChar hword
  · rfl

end BlockScript.Script
