/-
  BlockScript.Proofs.Script.Bracket

  The brackets of a script: those outside of literals and comments. A text leads from open brackets to
  open brackets, and is balanced if it leads from none to none. Texts one behind the other lead as far
  as they do one after the other (`Leads.append`), and further open brackets around them change
  nothing (`Leads.inside`). An indent has no brackets, so a chain is balanced at every depth.
-/
import BlockScript.Proofs.Script.Exposure
import BlockScript.Proofs.Script.Indent

namespace BlockScript.Script

/-! ## Open brackets -/

/-- The open brackets behind a token, the innermost first. A bracket that closes another one than the
    innermost leads nowhere. -/
def Token.nest? (bs : List Bracket) : Token → Option (List Bracket)
  | .opening b => some (b :: bs)
  | .closing b =>
    match bs with
    | [] => none
    | innermost :: outer => if innermost = b then some outer else none
  | _ => some bs

/-- The open brackets behind a part. Literals and comments have none. -/
def Part.nest? (bs : List Bracket) : Part → Option (List Bracket)
  | .char c => (single c).nest? bs
  | _ => some bs

/-- The open brackets behind parts. -/
def nestParts? (bs : List Bracket) (ps : List Part) : Option (List Bracket) :=
  ps.foldlM Part.nest? bs

/-- Whether a text ends in code and leads from open brackets to open brackets. -/
structure Leads (before : List Bracket) (s : String) (after : List Bracket) : Prop where
  closed : Closed s
  nest : nestParts? before (parts s) = some after

instance (before : List Bracket) (s : String) (after : List Bracket) :
    Decidable (Leads before s after) :=
  decidable_of_iff (Closed s ∧ nestParts? before (parts s) = some after)
    ⟨fun ⟨h₁, h₂⟩ => ⟨h₁, h₂⟩, fun ⟨h₁, h₂⟩ => ⟨h₁, h₂⟩⟩

/-- Whether all literals of a text are closed and its brackets match. -/
def Balanced (s : String) : Prop :=
  Leads [] s []

instance (s : String) : Decidable (Balanced s) :=
  inferInstanceAs (Decidable (Leads [] s []))

theorem nestParts?_append (bs : List Bracket) (ps qs : List Part) :
    nestParts? bs (ps ++ qs) = (nestParts? bs ps).bind (nestParts? · qs) :=
  List.foldlM_append

theorem nestParts?_cons (bs : List Bracket) (p : Part) (ps : List Part) :
    nestParts? bs (p :: ps) = (p.nest? bs).bind (nestParts? · ps) :=
  List.foldlM_cons

/-! ## Texts one behind the other -/

/-- Inside of further brackets a token does what it does alone. -/
theorem Token.nest?_inside {t : Token} {bs cs : List Bracket} (h : t.nest? bs = some cs)
    (outer : List Bracket) : t.nest? (bs ++ outer) = some (cs ++ outer) := by
  cases t with
  | closing b =>
    cases bs with
    | nil => cases h
    | cons innermost rest =>
      simp only [nest?, List.cons_append] at h ⊢
      split at h
      · rw [if_pos ‹_›, Option.some.inj h]
      · cases h
  | _ =>
    obtain rfl := Option.some.inj h
    rfl

theorem Part.nest?_inside {p : Part} {bs cs : List Bracket} (h : p.nest? bs = some cs)
    (outer : List Bracket) : p.nest? (bs ++ outer) = some (cs ++ outer) := by
  cases p with
  | char c => exact Token.nest?_inside h outer
  | literal text | comment =>
    obtain rfl := Option.some.inj h
    rfl

theorem nestParts?_inside {ps : List Part} {bs cs : List Bracket} (h : nestParts? bs ps = some cs)
    (outer : List Bracket) : nestParts? (bs ++ outer) ps = some (cs ++ outer) := by
  induction ps generalizing bs with
  | nil =>
    obtain rfl := Option.some.inj h
    rfl
  | cons p rest ih =>
    rw [nestParts?_cons, Option.bind_eq_some_iff] at h
    obtain ⟨middle, hstep, hrest⟩ := h
    rw [nestParts?_cons, Part.nest?_inside hstep outer]
    exact ih hrest

namespace Leads

variable {bs cs ds : List Bracket} {s t : String}

theorem append (hs : Leads bs s cs) (ht : Leads cs t ds) : Leads bs (s ++ t) ds where
  closed := hs.closed.append ht.closed
  nest := by
    rw [parts_append hs.closed, nestParts?_append, hs.nest]
    exact ht.nest

/-- Further open brackets change nothing. -/
theorem inside (h : Leads bs s cs) (outer : List Bracket) : Leads (bs ++ outer) s (cs ++ outer) :=
  ⟨h.closed, nestParts?_inside h.nest outer⟩

end Leads

namespace Balanced

variable {s t : String}

theorem closed (h : Balanced s) : Closed s :=
  Leads.closed h

/-- Whatever is open ahead of a balanced text is open behind it. -/
theorem leads (h : Balanced s) (bs : List Bracket) : Leads bs s bs :=
  Leads.inside h bs

theorem append (hs : Balanced s) (ht : Balanced t) : Balanced (s ++ t) :=
  Leads.append hs ht

end Balanced

theorem balanced_empty : Balanced "" :=
  ⟨rfl, rfl⟩

/-- Balanced texts with a balanced separator between each two. -/
theorem balanced_join {separator : String} (hsep : Balanced separator) {texts : List String}
    (h : ∀ s ∈ texts, Balanced s) : Balanced (Text.join separator texts) := by
  induction texts with
  | nil => exact balanced_empty
  | cons s rest ih =>
    have hs := h s List.mem_cons_self
    have hrest := ih fun t ht => h t (List.mem_cons_of_mem s ht)
    cases rest with
    | nil => exact hs
    | cons t more => exact (hs.append hsep).append hrest

/-! ## Indents -/

/-- Whether a character is a bracket. -/
def isBracket (c : Char) : Bool :=
  ['(', ')', '[', ']', '\x7b', '\x7d'].contains c

theorem single_of_not_bracket {c : Char} (h : isBracket c = false) (bs : List Bracket) :
    (single c).nest? bs = some bs := by
  rw [single.eq_def]
  split <;> first | rfl | exact absurd h (by decide)

/-- Characters without brackets lead nowhere else. -/
theorem nestParts?_of_chars {ps : List Part}
    (h : ∀ p ∈ ps, ∃ c, p = .char c ∧ isBracket c = false) (bs : List Bracket) :
    nestParts? bs ps = some bs := by
  induction ps with
  | nil => rfl
  | cons p rest ih =>
    obtain ⟨c, rfl, hc⟩ := h p List.mem_cons_self
    have hstep : Part.nest? bs (.char c) = some bs := single_of_not_bracket hc bs
    rw [nestParts?_cons, hstep]
    exact ih fun q hq => h q (List.mem_cons_of_mem _ hq)

/-- Among the parts of an indented text are the same brackets. -/
theorem nestParts?_indent {lead : List Char} (h : ∀ c ∈ lead, isBracket c = false)
    (ps : List Part) (bs : List Bracket) :
    nestParts? bs (ps.flatMap (Part.indent lead)) = nestParts? bs ps := by
  have hlead : ∀ p ∈ lead.map Part.char, ∃ c, p = .char c ∧ isBracket c = false := by
    intro p hp
    obtain ⟨c, hc, rfl⟩ := List.mem_map.mp hp
    exact ⟨c, rfl, h c hc⟩
  have hpart : ∀ (p : Part) bs, nestParts? bs (p.indent lead) = p.nest? bs := by
    intro p bs
    cases p with
    | literal text | comment => rfl
    | char c =>
      rw [Part.indent, breakChar]
      by_cases hc : c = '\n'
      · rw [if_pos hc, hc, List.map_cons, nestParts?_cons]
        exact nestParts?_of_chars hlead bs
      · rw [if_neg hc, List.map_singleton, nestParts?_cons]
        exact Option.bind_fun_some _
  induction ps generalizing bs with
  | nil => rfl
  | cons p rest ih =>
    rw [List.flatMap_cons, nestParts?_append, hpart, nestParts?_cons]
    exact Option.bind_congr fun cs _ => ih cs

/-- A balanced text is balanced behind an indent. -/
theorem Balanced.prefixed {lead s : String} (h : Balanced s) (hinert : Inert lead.toList)
    (hlead : ∀ c ∈ lead.toList, isBracket c = false) :
    Balanced (lead ++ String.ofList (Text.insertAfterBreaks lead.toList s.toList)) := by
  obtain ⟨-, missing, hmissing, hparts⟩ := read_prefixed hinert h.closed
  have hchars : ∀ ps ⊆ lead.toList.map Part.char, ∀ bs, nestParts? bs ps = some bs := by
    intro ps hps bs
    apply nestParts?_of_chars
    intro p hp
    obtain ⟨c, hc, rfl⟩ := List.mem_map.mp (hps hp)
    exact ⟨c, rfl, hlead c hc⟩
  have hnest := congrArg (nestParts? []) hparts
  rw [nestParts?_append, nestParts?_append, hchars _ (List.Subset.refl _), Option.bind_some,
    nestParts?_indent hlead, ← parts, h.nest] at hnest
  obtain ⟨after, hafter, hlast⟩ := Option.bind_eq_some_iff.mp hnest
  obtain rfl : after = [] := Option.some.inj ((hchars missing hmissing after).symm.trans hlast)
  refine ⟨closed_prefixed hinert h.closed, ?_⟩
  rwa [parts, toList_prefixed]

/-! ## Operands -/

/-- The tokens that the reader may be in: an operator only behind a character that begins one. -/
def Pending.IsSound : Pending → Prop
  | .symbol c => startsPair c = true
  | _ => True

theorem single_of_startsPair {c : Char} (h : startsPair c = true) : isBracket c = false := by
  simp only [startsPair, Bool.or_eq_true, decide_eq_true_eq] at h
  rcases h with ((((rfl | rfl) | rfl) | rfl) | rfl) | rfl <;> rfl

/-- The token that the reader is in is no bracket. -/
theorem Pending.nest?_tokens {pending : Pending} (h : pending.IsSound) (bs : List Bracket) :
    pending.tokens.foldlM Token.nest? bs = some bs := by
  cases pending with
  | nothing | word read => rfl
  | numeral phase read => cases phase <;> rfl
  | symbol c =>
    have hstep := single_of_not_bracket (single_of_startsPair h) bs
    rw [tokens, List.foldlM_cons, hstep]
    rfl

theorem isBracket_of_isDigit {c : Char} (h : c.isDigit = true) : isBracket c = false := by
  rw [Bool.eq_false_iff]
  intro hc
  simp only [isBracket, List.contains_eq_mem, List.mem_cons, List.not_mem_nil, or_false,
    decide_eq_true_eq] at hc
  rcases hc with rfl | rfl | rfl | rfl | rfl | rfl <;> cases h

theorem isBracket_of_isWordChar {c : Char} (h : Literal.isWordChar c = true) :
    isBracket c = false := by
  rw [Bool.eq_false_iff]
  intro hc
  simp only [isBracket, List.contains_eq_mem, List.mem_cons, List.not_mem_nil, or_false,
    decide_eq_true_eq] at hc
  rcases hc with rfl | rfl | rfl | rfl | rfl | rfl <;> exact absurd h (by decide)

theorem isBracket_of_isSpace {c : Char} (h : isSpace c = true) : isBracket c = false := by
  simp only [isSpace, Bool.or_eq_true, decide_eq_true_eq] at h
  rcases h with (rfl | rfl) | rfl <;> rfl

/-- A character that belongs to a token with others is no bracket. -/
theorem isBracket_of_extend? {pending next : Pending} {c : Char} {ts : List Token}
    (h : pending.extend? c = some (ts, next)) :
    isBracket c = false ∧ next.IsSound ∧ ∀ bs, ts.foldlM Token.nest? bs = some bs := by
  rw [Bool.eq_false_iff]
  cases pending with
  | nothing => cases h
  | word read =>
    simp only [Pending.extend?] at h
    split at h
    · rename_i hword
      obtain ⟨rfl, rfl⟩ := Prod.mk.inj (Option.some.inj h)
      exact ⟨Bool.eq_false_iff.mp (isBracket_of_isWordChar hword), trivial, fun _ => rfl⟩
    · cases h
  | numeral phase read =>
    obtain ⟨phase', hphase, heq⟩ := Option.map_eq_some_iff.mp h
    obtain ⟨rfl, rfl⟩ := Prod.mk.inj heq
    refine ⟨fun hc => ?_, trivial, fun _ => rfl⟩
    simp only [isBracket, List.contains_eq_mem, List.mem_cons, List.not_mem_nil, or_false,
      decide_eq_true_eq] at hc
    rcases hc with rfl | rfl | rfl | rfl | rfl | rfl <;> cases phase <;> cases hphase
  | symbol d =>
    obtain ⟨symbol, hpair, heq⟩ := Option.map_eq_some_iff.mp h
    obtain ⟨rfl, rfl⟩ := Prod.mk.inj heq
    refine ⟨fun hc => ?_, trivial, fun _ => rfl⟩
    simp only [isBracket, List.contains_eq_mem, List.mem_cons, List.not_mem_nil, or_false,
      decide_eq_true_eq] at hc
    rcases hc with rfl | rfl | rfl | rfl | rfl | rfl <;> simp [pair?] at hpair

/-- What a character begins has the brackets of the character. -/
theorem nest?_begin (c : Char) (bs : List Bracket) :
    (Pending.begin c).2.IsSound ∧
      (Pending.begin c).1.foldlM Token.nest? bs = (single c).nest? bs := by
  have hnone : isBracket c = false → some bs = (single c).nest? bs :=
    fun h => (single_of_not_bracket h bs).symm
  rw [Pending.begin]
  split
  · exact ⟨trivial, hnone (isBracket_of_isDigit ‹_›)⟩
  split
  · exact ⟨trivial, hnone (isBracket_of_isWordChar ‹_›)⟩
  split
  · exact ⟨‹_›, hnone (single_of_startsPair ‹_›)⟩
  split
  · exact ⟨trivial, hnone (isBracket_of_isSpace ‹_›)⟩
  · refine ⟨trivial, ?_⟩
    rw [List.foldlM_cons]
    exact bind_pure _

/-- The tokens that one more part completes have the brackets of the part. -/
theorem Pending.nest?_step {pending : Pending} (h : pending.IsSound) (p : Part)
    (bs : List Bracket) :
    (pending.step p).2.IsSound ∧ (pending.step p).1.foldlM Token.nest? bs = p.nest? bs := by
  cases p with
  | literal text =>
    refine ⟨trivial, ?_⟩
    rw [step, List.foldlM_append, nest?_tokens h]
    rfl
  | comment =>
    refine ⟨trivial, ?_⟩
    rw [step, nest?_tokens h]
    rfl
  | char c =>
    rw [step]
    cases hextend : pending.extend? c with
    | some result =>
      obtain ⟨ts, next⟩ := result
      obtain ⟨hc, hsound, hnest⟩ := isBracket_of_extend? hextend
      exact ⟨hsound, (hnest bs).trans (single_of_not_bracket hc bs).symm⟩
    | none =>
      obtain ⟨hsound, hnest⟩ := nest?_begin c bs
      refine ⟨hsound, ?_⟩
      rw [List.foldlM_append, nest?_tokens h]
      exact hnest

/-- The brackets among the tokens of parts are those among the parts. -/
theorem nest?_tokensFrom {pending : Pending} (h : pending.IsSound) (ps : List Part)
    (bs : List Bracket) : (tokensFrom pending ps).foldlM Token.nest? bs = nestParts? bs ps := by
  induction ps generalizing pending bs with
  | nil => exact Pending.nest?_tokens h bs
  | cons p rest ih =>
    obtain ⟨hsound, hstep⟩ := Pending.nest?_step h p bs
    rw [tokensFrom, List.foldlM_append, hstep, nestParts?_cons]
    exact Option.bind_congr fun cs _ => ih hsound cs

/-- A scan keeps the brackets that are open. -/
theorem nest?_of_scan {place last : Place} {ts : List Token} {orders : List Order}
    (h : scan place ts = some (orders, last)) :
    ts.foldlM Token.nest? place.brackets = some last.brackets := by
  induction ts generalizing place orders with
  | nil =>
    obtain ⟨-, rfl⟩ := scan_nil_iff.mp h
    rfl
  | cons t rest ih =>
    obtain ⟨first, next, more, hstep, hrest, -⟩ := scan_cons_iff.mp h
    have hnest : t.nest? place.brackets = some next.brackets := by
      cases t with
      | closing b =>
        obtain ⟨outer, hbrackets, -, rfl⟩ := step?_closing_iff.mp hstep
        rw [hbrackets]
        exact if_pos rfl
      | _ =>
        obtain ⟨-, rfl⟩ := Prod.mk.inj (Option.some.inj hstep)
        rfl
    rw [List.foldlM_cons, hnest]
    exact ih hrest

/-- Operands are balanced. -/
theorem Operand.balanced {r : Nat} {s : String} (h : Operand r s) : Balanced s := by
  obtain ⟨orders, hscan, -⟩ := takes_iff.mp h.takes
  have hsound : Pending.nothing.IsSound := trivial
  refine ⟨h.whole.closed, ?_⟩
  rw [← nest?_tokensFrom hsound]
  exact nest?_of_scan hscan

end BlockScript.Script
