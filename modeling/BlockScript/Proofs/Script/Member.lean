/-
  BlockScript.Proofs.Script.Member

  Members of numerals. Behind digits a script reads a point as the end of the numeral and not as an
  access to a member, so that the name of the member is left over.

  Whether a text has one is told by a reader that goes over its tokens and keeps what stands just
  ahead (`Trail`). It meets one in texts that are put together if it meets one in a part, or if a
  part that ends in digits has an access behind it (`Strays`).
-/
import BlockScript.Proofs.Script.Numeral
import BlockScript.Proofs.Script.Recognition
import Mathlib.Data.List.TakeWhile

namespace BlockScript.Script

/-! ## Members of numerals -/

/-- Whether characters are digits, with one among them. -/
def isDigits (s : List Char) : Bool :=
  !s.isEmpty && s.all Char.isDigit

/-- Whether a numeral of digits only has a point and a name behind it. -/
def HasNumeralMember (ts : List Token) : Prop :=
  ∃ before digits name after,
    ts = before ++ .numeral digits :: .mark '.' :: .word name :: after ∧
      isDigits digits.toList = true

/-- What stands just ahead of a token. -/
inductive Trail where
  | apart
  /-- A numeral of digits only. -/
  | digits
  /-- Such a numeral and a point. -/
  | point
  deriving DecidableEq, Repr

namespace Trail

/-- What stands ahead behind one more token; none if it completes a member of a numeral. -/
def step? (trail : Trail) : Token → Option Trail
  | .numeral s => some (if isDigits s.toList then digits else apart)
  | .mark c => some (if trail = digits ∧ c = '.' then point else apart)
  | .word _ => if trail = point then none else some apart
  | _ => some apart

/-- What stands ahead behind tokens. -/
def run? : Trail → List Token → Option Trail
  | trail, [] => some trail
  | trail, t :: rest => (trail.step? t).bind (run? · rest)

theorem run?_append (trail : Trail) (ts us : List Token) :
    trail.run? (ts ++ us) = (trail.run? ts).bind (run? · us) := by
  induction ts generalizing trail with
  | nil => rfl
  | cons t rest ih =>
    rw [List.cons_append, run?, run?, Option.bind_assoc]
    exact Option.bind_congr fun next _ => ih next

/-- Whether tokens begin with what completes a member of a numeral. -/
def Completes : Trail → List Token → Prop
  | apart, _ => False
  | digits, ts => ∃ name after, ts = .mark '.' :: .word name :: after
  | point, ts => ∃ name after, ts = .word name :: after

end Trail

theorem hasNumeralMember_cons {t : Token} {rest : List Token} :
    HasNumeralMember (t :: rest) ↔
      (∃ s, t = .numeral s ∧ isDigits s.toList = true ∧ Trail.digits.Completes rest) ∨
        HasNumeralMember rest := by
  constructor
  · rintro ⟨before, s, name, after, heq, hs⟩
    cases before with
    | nil =>
      obtain ⟨rfl, rfl⟩ := List.cons.inj heq
      exact Or.inl ⟨s, rfl, hs, name, after, rfl⟩
    | cons first before =>
      exact Or.inr ⟨before, s, name, after, (List.cons.inj heq).2, hs⟩
  · rintro (⟨s, rfl, hs, name, after, rfl⟩ | ⟨before, s, name, after, rfl, hs⟩)
    · exact ⟨[], s, name, after, rfl, hs⟩
    · exact ⟨t :: before, s, name, after, rfl, hs⟩

/-- A step completes a member of a numeral, or leaves what is ahead of the rest. -/
theorem Trail.step?_completes (trail : Trail) (t : Token) (rest : List Token) :
    trail.Completes (t :: rest) ∨ HasNumeralMember (t :: rest) ↔
      ∀ next ∈ trail.step? t, next.Completes rest ∨ HasNumeralMember rest := by
  rw [hasNumeralMember_cons]
  cases t with
  | numeral s => cases trail <;> by_cases hs : isDigits s.toList = true <;> simp [Completes, step?, hs]
  | mark c => cases trail <;> by_cases hc : c = '.' <;> simp [Completes, step?, hc]
  | word name => cases trail <;> simp [Completes, step?]
  | literal _ | symbol _ | opening _ | closing _ => cases trail <;> simp [Completes, step?]

/-- The reader stops at a member of a numeral only. -/
theorem Trail.run?_eq_none_iff {trail : Trail} {ts : List Token} :
    trail.run? ts = none ↔ trail.Completes ts ∨ HasNumeralMember ts := by
  -- Inside of a member that was begun, the rest has what completes it, so the claim is on both.
  induction ts generalizing trail with
  | nil => cases trail <;> simp [run?, Completes, HasNumeralMember]
  | cons t rest ih =>
    rw [run?, Option.bind_eq_none_iff, step?_completes]
    exact forall₂_congr fun next _ => ih

/-! ## Texts -/

/-- What stands behind a text. -/
def trail (s : String) : Option Trail :=
  Trail.run? .apart (tokens s)

theorem hasNumeralMember_iff {s : String} : HasNumeralMember (tokens s) ↔ trail s = none := by
  rw [trail, Trail.run?_eq_none_iff, Trail.Completes, false_or]

theorem trail_append {s t : String} (hs : Closed s) (h : Seam s t) :
    trail (s ++ t) = (trail s).bind (Trail.run? · (tokens t)) := by
  rw [trail, tokens_append hs h, Trail.run?_append]
  rfl

/-- A text that has a member of a numeral in one case, and that ends in digits in another one at
    most. -/
inductive Strays (P E : Prop) (s : String) : Prop
  | member (hwhole : Whole s) (htrail : trail s = none) (hP : P)
  | apart (hwhole : Whole s) (htrail : trail s = some .apart) (hP : ¬P)
  | digits (hwhole : Whole s) (htrail : trail s = some .digits) (hP : ¬P) (hE : E)

/-- A text without members of numerals that leaves nothing ahead of what is behind it. -/
def Settles (s : String) : Prop :=
  Whole s ∧ EndsApart s ∧ trail s = some .apart

instance (s : String) : Decidable (Settles s) :=
  inferInstanceAs (Decidable (_ ∧ _))

/-- A text that parts what is ahead of it from what is behind it. -/
def Separates (s : String) : Prop :=
  Whole s ∧ StartsApart s ∧ Trail.run? .apart (tokens s) = some .apart ∧
    Trail.run? .digits (tokens s) = some .apart

instance (s : String) : Decidable (Separates s) :=
  inferInstanceAs (Decidable (_ ∧ _))

/-- A text that uses a member of what is ahead of it. -/
def Accesses (s : String) : Prop :=
  Whole s ∧ StartsApart s ∧ Trail.run? .apart (tokens s) = some .apart ∧
    Trail.run? .digits (tokens s) = none

instance (s : String) : Decidable (Accesses s) :=
  inferInstanceAs (Decidable (_ ∧ _))

namespace Strays

variable {P Q E E' : Prop} {s t k : String}

theorem whole (h : Strays P E s) : Whole s := by
  cases h <;> assumption

theorem none_iff (h : Strays P E s) : trail s = none ↔ P := by
  cases h <;> simp [*]

theorem ends (h : Strays P E s) (hs : trail s = some .digits) : E := by
  cases h <;> simp_all

theorem mono (h : Strays P E s) (hP : P ↔ Q) (hE : E → E') : Strays Q E' s := by
  cases h with
  | member hwhole htrail hcase => exact .member hwhole htrail (hP.mp hcase)
  | apart hwhole htrail hcase => exact .apart hwhole htrail (mt hP.mpr hcase)
  | digits hwhole htrail hcase hends => exact .digits hwhole htrail (mt hP.mpr hcase) (hE hends)

theorem congr (h : Strays P E s) (hP : P ↔ Q) : Strays Q E s :=
  h.mono hP id

/-- A text that does not end in digits. -/
theorem weaken (h : Strays P False s) : Strays P E s :=
  h.mono Iff.rfl False.elim

/-- A text whatever it ends in. -/
theorem any (h : Strays P E s) : Strays P True s :=
  h.mono Iff.rfl fun _ => trivial

/-- The case in which a text has a member of a numeral is that it has one. -/
theorem own (h : Strays P E s) : Strays (trail s = none) E s :=
  h.congr h.none_iff.symm

/-- A text that does not end in digits and a text behind it. -/
theorem append (hs : Strays P False s) (hseam : Seam s t) (ht : Strays Q E t) :
    Strays (P ∨ Q) E (s ++ t) := by
  have hwhole := hs.whole.append ht.whole
  have happend := trail_append hs.whole.closed hseam
  -- Unless the first text ends in digits, the second one reads as it does alone.
  cases hs with
  | digits _ _ _ hfalse => exact hfalse.elim
  | member _ htrail hP =>
    rw [htrail] at happend
    exact .member hwhole happend (Or.inl hP)
  | apart _ htrail hP =>
    rw [htrail] at happend
    cases ht with
    | member _ htrail' hQ => exact .member hwhole (happend.trans htrail') (Or.inr hQ)
    | apart _ htrail' hQ => exact .apart hwhole (happend.trans htrail') (not_or.mpr ⟨hP, hQ⟩)
    | digits _ htrail' hQ hE =>
      exact .digits hwhole (happend.trans htrail') (not_or.mpr ⟨hP, hQ⟩) hE

/-- A text with one behind it that parts it from what follows. -/
theorem ahead (hs : Strays P E s) (hk : Separates k) : Strays P False (s ++ k) := by
  obtain ⟨hkwhole, hstarts, hapart, hdigits⟩ := hk
  have hwhole := hs.whole.append hkwhole
  have happend := trail_append hs.whole.closed (hstarts.seam s)
  cases hs with
  | member _ htrail hP =>
    rw [htrail] at happend
    exact .member hwhole happend hP
  | apart _ htrail hP =>
    rw [htrail] at happend
    exact .apart hwhole (happend.trans hapart) hP
  | digits _ htrail hP _ =>
    rw [htrail] at happend
    exact .apart hwhole (happend.trans hdigits) hP

/-- The use of a member is one of a numeral if the text ends in digits. -/
theorem access (hs : Strays P E s) {S : Prop} (hS : trail s = some .digits ↔ S)
    (hk : Accesses k) : Strays (P ∨ S) False (s ++ k) := by
  obtain ⟨hkwhole, hstarts, hapart, hdigits⟩ := hk
  have hwhole := hs.whole.append hkwhole
  have happend := trail_append hs.whole.closed (hstarts.seam s)
  cases hs with
  | member _ htrail hP =>
    rw [htrail] at happend
    exact .member hwhole happend (Or.inl hP)
  | apart _ htrail hP =>
    rw [htrail] at happend hS
    have hnot : ¬S := mt hS.mpr (by simp)
    exact .apart hwhole (happend.trans hapart) (not_or.mpr ⟨hP, hnot⟩)
  | digits _ htrail hP _ =>
    rw [htrail] at happend
    exact .member hwhole (happend.trans hdigits) (Or.inr (hS.mp htrail))

/-- A text behind one that leaves nothing ahead of it. -/
theorem behind (hk : Settles k) (hs : Strays P E s) : Strays P E (k ++ s) := by
  obtain ⟨hwhole, hends, htrail⟩ := hk
  have hfirst : Strays False False k := .apart hwhole htrail not_false
  refine (hfirst.append (hends.seam hwhole.closed s) hs).congr ?_
  rw [false_or]

theorem enclose {c : String} (hk : Settles k) (hs : Strays P E s) (hc : Separates c) :
    Strays P False (k ++ s ++ c) :=
  (behind hk hs).ahead hc

theorem parens (hs : Strays P E s) : Strays P False ("(" ++ s ++ ")") :=
  enclose (by decide) hs (by decide)

/-- Two texts with a text between them that parts them. -/
theorem between (hs : Strays P E s) (hk : Separates k) (hends : EndsApart k)
    (ht : Strays Q E' t) : Strays (P ∨ Q) E' (s ++ k ++ t) :=
  have hleft := hs.ahead hk
  hleft.append ((hends.append s).seam hleft.whole.closed t) ht

/-- A call of a member. -/
theorem method (hs : Strays P E s) {S : Prop} (hS : trail s = some .digits ↔ S) {c : String}
    (hk : Accesses k) (hends : EndsApart k) (ht : Strays Q E' t) (hc : Separates c) :
    Strays ((P ∨ S) ∨ Q) False (s ++ k ++ t ++ c) :=
  have hleft := hs.access hS hk
  (hleft.append ((hends.append s).seam hleft.whole.closed t) ht).ahead hc

theorem bang (hs : Strays P E s) : Strays P E ("!" ++ s) := by
  have hbang : Strays False False "!" := .apart (by decide) (by decide) not_false
  refine (hbang.append (seam_bang hs.whole.negatable) hs).congr ?_
  rw [false_or]

theorem minus (hs : Strays P E s) : Strays P E ("-" ++ s) := by
  have hminus : Strays False False "-" := .apart (by decide) (by decide) not_false
  refine (hminus.append (seam_minus s) hs).congr ?_
  rw [false_or]

theorem empty : Strays False False "" :=
  .apart (by decide) (by decide) not_false

/-- Texts with one between each two that parts them. -/
theorem join (hk : Separates k) (hends : EndsApart k) :
    ∀ {texts : List String}, (∀ s ∈ texts, Strays (trail s = none) E s) →
      Strays (∃ s ∈ texts, trail s = none) E (Text.join k texts)
  | [], _ => empty.weaken.congr (by simp)
  | [s], h => (h s List.mem_cons_self).congr (by simp)
  | s :: t :: rest, h => by
    have hrest := join hk hends fun u hu => h u (List.mem_cons_of_mem s hu)
    exact ((h s List.mem_cons_self).between hk hends hrest).congr (by simp)

end Strays

/-! ## Names, numerals and literals -/

theorem strays_name {s : String} (h : isName s.toList = true) : Strays False False s := by
  refine .apart (whole_name h) ?_ not_false
  rw [trail, tokens_name h]
  rfl

/-- An unsigned numeral ends in digits only if it is digits. -/
theorem strays_unsigned {s : String} (h : isUnsigned s.toList = true) :
    Strays False (isDigits s.toList = true) s := by
  obtain ⟨htokens, hwhole⟩ := tokens_unsigned h
  have htrail : trail s = some (if isDigits s.toList then .digits else .apart) := by
    rw [trail, htokens]
    rfl
  by_cases hdigits : isDigits s.toList = true
  · rw [if_pos hdigits] at htrail
    exact .digits hwhole htrail not_false hdigits
  · rw [if_neg hdigits] at htrail
    exact .apart hwhole htrail not_false

/-- A number ends in digits only if it is digits or has a minus sign ahead. -/
theorem strays_numeral (n : Number) : Strays False
    (isDigits n.numeral.toList = true ∨ n.isNonneg = false ∧ '-' ∈ n.numeral.toList) n.numeral := by
  obtain ⟨t, ht, hnumeral⟩ := numeral_cases n
  have hstrays : Strays False (isDigits t.toList = true) t :=
    ht.elim (fun h => (strays_name h).weaken) strays_unsigned
  rcases hnumeral with ⟨heq, -⟩ | ⟨hneg, heq⟩
  · rw [heq]
    exact hstrays.mono Iff.rfl Or.inl
  · rw [heq]
    exact hstrays.minus.mono Iff.rfl fun _ => Or.inr ⟨hneg, by simp⟩

theorem strays_quote (s : String) : Strays False False (Literal.quote s) := by
  refine .apart (whole_quote s) ?_ not_false
  rw [trail, tokens_quote]
  rfl

theorem strays_quoteLines (s : String) : Strays False False (Literal.quoteLines s) := by
  have hquote : ∀ line : List Char,
      Strays False False (String.ofList (Literal.quoteChars line)) := by
    intro line
    have h := strays_quote (String.ofList line)
    rwa [Literal.quote, String.toList_ofList] at h
  have hall : ∀ t ∈ (Text.lines s.toList).map fun line => String.ofList (Literal.quoteChars line),
      Strays False False t := by
    intro t ht
    obtain ⟨line, -, rfl⟩ := List.mem_map.mp ht
    exact hquote line
  rw [Literal.quoteLines]
  refine (Strays.join (by decide) (by decide) fun t ht => (hall t ht).own).congr ?_
  rw [iff_false]
  rintro ⟨t, ht, htrail⟩
  exact (hall t ht).none_iff.mp htrail

/-! ## Forced texts -/

theorem isWordChar_of_isBlank {c : Char} (h : Text.isBlank c = true) :
    Literal.isWordChar c = false :=
  Bool.eq_false_iff.mpr fun hword => by simp [isBlank_of_isWordChar hword] at h

/-- White space and literals leave nothing ahead of what is behind them. -/
theorem run?_of_blank {ps : List Part} (h : ∀ part ∈ ps, (∃ text, part = .literal text) ∨
      ∃ c, part = .char c ∧ Text.isBlank c = true) :
    Trail.run? .apart (tokensFrom .nothing ps) = some .apart := by
  induction ps with
  | nil => rfl
  | cons part rest ih =>
    have hrest := ih fun next hnext => h next (List.mem_cons_of_mem part hnext)
    rcases h part List.mem_cons_self with ⟨text, rfl⟩ | ⟨c, rfl, hc⟩
    · exact hrest
    · -- White space that the reader does not pass over is a mark.
      have hword := isWordChar_of_isBlank hc
      have hdigit : c.isDigit = false :=
        Bool.eq_false_iff.mpr fun h => absurd (isWordChar_of_isDigit h) (by simp [hword])
      have hpair : startsPair c = false := by
        have hquiet := isOperatorChar_of_isBlank hc
        simp only [isOperatorChar, Bool.or_eq_false_iff] at hquiet
        exact hquiet.1.1.1.1
      have hstep : Pending.step .nothing (.char c) =
          (if isSpace c then [] else [single c], .nothing) := by
        rw [Pending.step, Pending.extend?, Pending.begin, hdigit, hword, hpair]
        cases isSpace c <;> rfl
      rw [tokensFrom, hstep, Trail.run?_append]
      split
      · exact hrest
      · have hsingle : Trail.run? .apart [single c] = some .apart := by
          rw [single.eq_def]
          split <;> rfl
        rw [hsingle]
        exact hrest

/-- A text that is forced does not end in digits. -/
theorem Strays.forceString {P E : Prop} {s : String} (h : Strays P E s) :
    Strays P False (Literal.forceString s).1 := by
  rw [Literal.forceString]
  split
  · rename_i hliteral
    obtain ⟨lead, text, tail, hparts, hlead, htail⟩ := parts_of_isLiteral h.whole hliteral
    have htrail : trail s = some .apart := by
      rw [trail, tokens, hparts]
      refine run?_of_blank fun part hpart => ?_
      rw [List.mem_append, List.mem_cons, List.mem_map, List.mem_map] at hpart
      rcases hpart with ⟨c, hc, rfl⟩ | rfl | ⟨c, hc, rfl⟩
      · exact Or.inr ⟨c, rfl, hlead c hc⟩
      · exact Or.inl ⟨text, rfl⟩
      · exact Or.inr ⟨c, rfl, htail c hc⟩
    refine .apart h.whole htrail ?_
    rw [← h.none_iff, htrail]
    simp
  · exact enclose (by decide) h (by decide)

/-! ## Texts without names -/

/-- Whether the token that the reader is in is no name. -/
def Pending.IsNameless : Pending → Prop
  | .word _ => False
  | _ => True

theorem single_ne_word (c : Char) (name : String) : single c ≠ .word name := by
  rw [single.eq_def]
  split <;> simp

theorem ne_word_of_isNameless {pending : Pending} (h : pending.IsNameless) :
    ∀ t ∈ pending.tokens, ∀ name, t ≠ .word name := by
  cases pending with
  | word read => exact h.elim
  | nothing => exact fun t ht => absurd ht List.not_mem_nil
  | symbol c => exact List.forall_mem_singleton.mpr (single_ne_word c)
  | numeral phase read => cases phase <;> simp [Pending.tokens]

/-- A digit, or a character that is not of words, neither completes a name nor begins one. -/
theorem nameless_step {pending : Pending} (h : pending.IsNameless) {c : Char}
    (hc : c.isDigit = true ∨ Literal.isWordChar c = false) :
    (∀ t ∈ (pending.step (.char c)).1, ∀ name, t ≠ .word name) ∧
      (pending.step (.char c)).2.IsNameless := by
  have hbegin : (∀ t ∈ (Pending.begin c).1, ∀ name, t ≠ .word name) ∧
      (Pending.begin c).2.IsNameless := by
    rw [Pending.begin]
    grind [Pending.IsNameless, single_ne_word]
  rw [Pending.step]
  cases hextend : pending.extend? c with
  | none => exact ⟨List.forall_mem_append.mpr ⟨ne_word_of_isNameless h, hbegin.1⟩, hbegin.2⟩
  | some next =>
    cases pending with
    | nothing => exact absurd hextend (by simp [Pending.extend?])
    | word read => exact h.elim
    | symbol d =>
      simp only [Pending.extend?, Option.map_eq_some_iff] at hextend
      obtain ⟨s, -, rfl⟩ := hextend
      exact ⟨by simp, trivial⟩
    | numeral phase read =>
      simp only [Pending.extend?, Option.map_eq_some_iff] at hextend
      obtain ⟨phase', -, rfl⟩ := hextend
      exact ⟨fun t ht => absurd ht List.not_mem_nil, trivial⟩

/-- A text without quotes, slashes and letters has no name, so that no member is used in it. -/
theorem trail_ne_none_of_nameless {s : String} (hplain : ∀ c ∈ s.toList, isPlainChar c = true)
    (h : ∀ c ∈ s.toList, c.isDigit = true ∨ Literal.isWordChar c = false) : trail s ≠ none := by
  have hnone : ∀ t ∈ tokens s, ∀ name, t ≠ .word name := by
    rw [tokens, parts_of_plain hplain]
    refine forall_mem_tokensFrom (I := Pending.IsNameless)
      (C := fun part => ∃ c, part = .char c ∧ (c.isDigit = true ∨ Literal.isWordChar c = false))
      ne_word_of_isNameless ?_ ?_ trivial
    · rintro pending _ hpending ⟨c, rfl, hc⟩
      exact nameless_step hpending hc
    · intro part hpart
      obtain ⟨c, hc, rfl⟩ := List.mem_map.mp hpart
      exact ⟨c, rfl, h c hc⟩
  rw [Ne, ← hasNumeralMember_iff]
  rintro ⟨before, digits, name, after, heq, -⟩
  exact hnone (.word name) (heq ▸ by simp) name rfl

/-- A digit of some script is one of the ASCII digits, or belongs to no word. -/
theorem isDigit_or_of_textIsDigit {c : Char} (h : Text.isDigit c = true) :
    c.isDigit = true ∨ Literal.isWordChar c = false := by
  cases hword : Literal.isWordChar c with
  | false => exact Or.inr rfl
  | true =>
    have hrange := toNat_of_isWordChar hword
    have hall : ∀ n < 123, Text.isDigit (Char.ofNat n) = true → (Char.ofNat n).isDigit = true := by
      decide
    rw [← Char.ofNat_toNat c] at h ⊢
    exact Or.inl (hall c.toNat (by omega) h)

/-- No member is used in a plain numeral. -/
theorem trail_ne_none_of_isPlain {s : String} (h : Numeral.isPlain s = true) : trail s ≠ none := by
  refine trail_ne_none_of_nameless (plain_of_isPlain h) fun c hc => ?_
  rcases mem_of_isPlain h c hc with hblank | hdigit | rfl | rfl
  · exact Or.inr (isWordChar_of_isBlank hblank)
  · exact isDigit_or_of_textIsDigit hdigit
  · exact Or.inr rfl
  · exact Or.inr rfl

/-! ## Digits -/

theorem isDigits_iff {s : List Char} :
    isDigits s = true ↔ s ≠ [] ∧ ∀ c ∈ s, c.isDigit = true := by
  simp [isDigits]

theorem trail_of_isDigits {s : String} (h : isDigits s.toList = true) : trail s = some .digits := by
  obtain ⟨hne, hall⟩ := isDigits_iff.mp h
  rw [trail, (tokens_unsigned (isUnsigned_digits hne hall)).1, Trail.run?, Trail.step?, h]
  rfl

/-- Digits pass for a word. -/
theorem isSimple_of_isDigits {s : String} (h : isDigits s.toList = true) :
    Literal.isSimple s = true := by
  obtain ⟨hne, hall⟩ := isDigits_iff.mp h
  have hword : ∀ c ∈ s.toList, Literal.isWordChar c = true := fun c hc =>
    isWordChar_of_isDigit (hall c hc)
  have hlast : s.toList.getLast? ≠ some '\n' := fun hlast =>
    absurd (hall '\n' (List.mem_of_getLast? hlast)) (by decide)
  have htake : s.toList.takeWhile Literal.isWordChar = s.toList :=
    List.takeWhile_eq_self_iff.mpr hword
  have hdrop : s.toList.dropWhile Literal.isWordChar = [] := List.dropWhile_eq_nil_iff.mpr hword
  rw [Literal.isSimple]
  simp only [if_neg hlast]
  split
  · rename_i heq
    exact absurd (hall '\'' (heq ▸ List.mem_cons_self)) (by decide)
  · rw [htake, hdrop, List.isEmpty_eq_false_iff.mpr hne]
    rfl

/-- A text with a character that is neither of words nor of literals passes for no word. -/
theorem isSimple_eq_false {s : String} {c : Char} (hc : c ∈ s.toList)
    (h : Literal.isWordChar c = false ∧ c ≠ '\'' ∧ c ≠ '\n') : Literal.isSimple s = false := by
  rw [Bool.eq_false_iff]
  intro hsimple
  rcases mem_of_isSimple hsimple c hc with hword | heq | heq
  · rw [h.1] at hword
    cases hword
  · exact h.2.1 heq
  · exact h.2.2 heq

end BlockScript.Script
