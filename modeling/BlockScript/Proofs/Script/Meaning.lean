/-
  BlockScript.Proofs.Script.Meaning

  What an expression comes to, and what a text stands for. A conjunction or disjunction that is
  evaluated from the left comes to the same however a chain of it is grouped, so that a text stands
  for a tree if it reads as that tree up to the grouping of such chains.
-/
import BlockScript.Proofs.Script.Numeral
import BlockScript.Proofs.Script.Grammar

namespace BlockScript.Script

/-! ## Grouping -/

/-- Trees that differ at most in the grouping of chains of one conjunction or disjunction. -/
inductive Regrouped : Expr → Expr → Prop
  | refl (e : Expr) : Regrouped e e
  | symm {e e' : Expr} (h : Regrouped e e') : Regrouped e' e
  | trans {e e' e'' : Expr} (h : Regrouped e e') (h' : Regrouped e' e'') : Regrouped e e''
  | chain {op : Operator} (hop : op = .and ∨ op = .or) (a b c : Expr) :
      Regrouped (.binary op (.binary op a b) c) (.binary op a (.binary op b c))
  | signed (sign : Sign) {e e' : Expr} (h : Regrouped e e') :
      Regrouped (.signed sign e) (.signed sign e')
  | binary (op : Operator) {l l' r r' : Expr} (hl : Regrouped l l') (hr : Regrouped r r') :
      Regrouped (.binary op l r) (.binary op l' r')
  | choice {c c' y y' e e' : Expr} (hc : Regrouped c c') (hy : Regrouped y y')
      (he : Regrouped e e') : Regrouped (.choice c y e) (.choice c' y' e')

/-! ## Evaluation -/

/-- Values of a script: its constants, numerals and names, which of them count as true, and what the
    minus sign and the comparisons make of them. -/
structure Values (V : Type) where
  truth : Bool → V
  null : V
  numeral : String → V
  name : String → V
  isTruthy : V → Bool
  minus : V → V
  compare : Operator → V → V → V

/-- The value of an expression. A conjunction or disjunction gives one of its operands, and looks at
    the second one only if the first one does not settle it. -/
def Values.eval {V : Type} (v : Values V) : Expr → V
  | .truth value => v.truth value
  | .null => v.null
  | .numeral digits => v.numeral digits
  | .name name => v.name name
  | .signed .not e => v.truth !v.isTruthy (v.eval e)
  | .signed .minus e => v.minus (v.eval e)
  | .binary .and l r => if v.isTruthy (v.eval l) then v.eval r else v.eval l
  | .binary .or l r => if v.isTruthy (v.eval l) then v.eval l else v.eval r
  | .binary op l r => v.compare op (v.eval l) (v.eval r)
  | .choice c y e => if v.isTruthy (v.eval c) then v.eval y else v.eval e

/-- The value of an expression does not depend on the grouping of its chains. -/
theorem Regrouped.eval_eq {e e' : Expr} (h : Regrouped e e') {V : Type} (v : Values V) :
    v.eval e = v.eval e' := by
  induction h with
  | refl e => rfl
  | symm _ ih => exact ih.symm
  | trans _ _ ih ih' => exact ih.trans ih'
  | chain hop a b c =>
    rcases hop with rfl | rfl <;> cases ha : v.isTruthy (v.eval a) <;> simp [Values.eval, ha]
  | signed sign _ ih => cases sign <;> simp only [Values.eval, ih]
  | binary op _ _ ihl ihr => cases op <;> simp only [Values.eval, ihl, ihr]
  | choice _ _ _ ihc ihy ihe => simp only [Values.eval, ihc, ihy, ihe]

/-! ## Texts and trees -/

/-- A text that reads as an expression of a level, and so as a tree up to the grouping of chains. -/
structure Denotes (n : Nat) (s : String) (e : Expr) : Prop where
  whole : Whole s
  reads : ∃ e', Reads n (tokens s) e' ∧ Regrouped e' e

/-- A text that is one symbol and stands between two operands. -/
def Joint (symbol : Symbol) (s : String) : Prop :=
  Whole s ∧ StartsApart s ∧ EndsApart s ∧ tokens s = [.symbol symbol]

instance (symbol : Symbol) (s : String) : Decidable (Joint symbol s) :=
  inferInstanceAs (Decidable (_ ∧ _))

theorem Joint.whole_append {symbol : Symbol} {s k t : String} (hk : Joint symbol k) (hs : Whole s)
    (ht : Whole t) : Whole (s ++ k ++ t) :=
  (hs.append hk.1).append ht

/-- The tokens of two operands with a symbol between them. -/
theorem Joint.tokens_append {symbol : Symbol} {s k t : String} (hk : Joint symbol k)
    (hs : Whole s) : tokens (s ++ k ++ t) = tokens s ++ .symbol symbol :: tokens t := by
  obtain ⟨hwhole, hstarts, hends, htokens⟩ := hk
  have hleft := (hs.append hwhole).closed
  rw [Script.tokens_append hleft ((hends.append s).seam hleft t),
    Script.tokens_append hs.closed (hstarts.seam s), htokens, List.append_assoc]
  rfl

namespace Denotes

variable {n m : Nat} {s t u k k' : String} {a b c : Expr}

theorem mono (h : Denotes n s a) (hle : n ≤ m) : Denotes m s a := by
  obtain ⟨e, hreads, hsame⟩ := h.reads
  exact ⟨h.whole, e, hreads.mono hle, hsame⟩

theorem ne_empty (h : Denotes n s a) : s ≠ "" := by
  rintro rfl
  obtain ⟨e, hreads, -⟩ := h.reads
  generalize hts : tokens "" = ts at hreads
  change [] = ts at hts
  cases hreads <;> simp at hts

theorem word (n : Nat) (h : isName s.toList = true) : Denotes n s (.ofWord s) := by
  refine ⟨whole_name h, .ofWord s, ?_, .refl _⟩
  rw [tokens_name h]
  exact .word n s

theorem numeral (n k : Nat) : Denotes n (toString k) (.numeral (toString k)) := by
  refine ⟨(operand_toString k).whole, .numeral (toString k), ?_, .refl _⟩
  rw [tokens_toString]
  exact .numeral n _

theorem group (n : Nat) (h : Denotes 6 s a) : Denotes n ("(" ++ s ++ ")") a := by
  obtain ⟨e, hreads, hsame⟩ := h.reads
  have hopen : Whole "(" := by decide
  have hclose : Whole ")" := by decide
  have hends : EndsApart "(" := by decide
  have hstarts : StartsApart ")" := by decide
  have hleft := hopen.append h.whole
  refine ⟨hleft.append hclose, e, ?_, hsame⟩
  rw [tokens_append hleft.closed (hstarts.seam _),
    tokens_append hopen.closed (hends.seam hopen.closed s)]
  exact .group n hreads

theorem not (h : Denotes 1 s a) : Denotes 1 ("!" ++ s) (.signed .not a) := by
  obtain ⟨e, hreads, hsame⟩ := h.reads
  have hbang : Whole "!" := by decide
  refine ⟨hbang.append h.whole, .signed .not e, ?_, .signed .not hsame⟩
  rw [tokens_append hbang.closed (seam_bang h.whole.negatable)]
  exact .signed .not (Nat.le_refl 1) hreads

theorem minus (h : Denotes 1 s a) : Denotes 1 ("-" ++ s) (.signed .minus a) := by
  obtain ⟨e, hreads, hsame⟩ := h.reads
  have hminus : Whole "-" := by decide
  refine ⟨hminus.append h.whole, .signed .minus e, ?_, .signed .minus hsame⟩
  rw [tokens_append hminus.closed (seam_minus s)]
  exact .signed .minus (Nat.le_refl 1) hreads

theorem binary {op : Operator} (hk : Joint op.symbol k) (hs : Denotes op.level s a)
    (ht : Denotes (op.level - 1) t b) : Denotes op.level (s ++ k ++ t) (.binary op a b) := by
  obtain ⟨e, hreads, hsame⟩ := hs.reads
  obtain ⟨e', hreads', hsame'⟩ := ht.reads
  refine ⟨hk.whole_append hs.whole ht.whole, .binary op e e', ?_, .binary op hsame hsame'⟩
  rw [hk.tokens_append hs.whole]
  exact .binary op (Nat.le_refl _) hreads hreads'

theorem choice (hk : Joint .question k) (hk' : Joint .colon k') (hs : Denotes 5 s a)
    (ht : Denotes 6 t b) (hu : Denotes 6 u c) :
    Denotes 6 (s ++ k ++ (t ++ k' ++ u)) (.choice a b c) := by
  obtain ⟨e, hreads, hsame⟩ := hs.reads
  obtain ⟨e', hreads', hsame'⟩ := ht.reads
  obtain ⟨e'', hreads'', hsame''⟩ := hu.reads
  have hright := hk'.whole_append ht.whole hu.whole
  refine ⟨hk.whole_append hs.whole hright, .choice e e' e'', ?_, .choice hsame hsame' hsame''⟩
  rw [hk.tokens_append hs.whole, hk'.tokens_append ht.whole]
  exact .choice (Nat.le_refl 6) hreads hreads' hreads''

end Denotes

/-! ## Chains -/

/-- Tokens of a chain of one operator behind another such chain read as a longer chain, grouped from
    the left. -/
theorem Reads.chain {op : Operator} (hop : op = .and ∨ op = .or) {n : Nat} {ts us : List Token}
    {l r : Expr} (hl : Reads op.level ts l) (hr : Reads n us r) (hn : n ≤ op.level) :
    ∃ e, Reads op.level (ts ++ .symbol op.symbol :: us) e ∧ Regrouped e (.binary op l r) := by
  induction hr with
  | word n word => exact ⟨_, .binary op (Nat.le_refl _) hl (.word _ word), .refl _⟩
  | numeral n digits => exact ⟨_, .binary op (Nat.le_refl _) hl (.numeral _ digits), .refl _⟩
  | group n h _ => exact ⟨_, .binary op (Nat.le_refl _) hl (.group _ h), .refl _⟩
  | signed sign _ h _ =>
    have hone : 1 ≤ op.level - 1 := by
      rcases hop with rfl | rfl <;> decide
    exact ⟨_, .binary op (Nat.le_refl _) hl (.signed sign hone h), .refl _⟩
  | @binary n op' hn' us' vs l' r' hl' hr' ihl _ =>
    by_cases hlevel : op'.level ≤ op.level - 1
    · exact ⟨_, .binary op (Nat.le_refl _) hl (.binary op' hlevel hl' hr'), .refl _⟩
    · -- The chain behind is of the same operator, and its last operand stays behind.
      have hequal : op'.level = op.level := by omega
      obtain rfl : op' = op := by
        rcases hop with rfl | rfl <;> cases op' <;> first | rfl | exact absurd hequal (by decide)
      obtain ⟨e, he, hregrouped⟩ := ihl (Nat.le_refl _)
      refine ⟨.binary op' e r', ?_, ?_⟩
      · have hreads := Reads.binary op' (Nat.le_refl _) he hr'
        rwa [List.append_assoc] at hreads
      · exact (Regrouped.binary op' hregrouped (.refl r')).trans (.chain hop l l' r')
  | choice hn' _ _ _ _ _ _ =>
    have hfive := op.level_le_five
    omega

/-- A conjunction or disjunction of texts that may be such chains themselves. -/
theorem Denotes.chain {op : Operator} (hop : op = .and ∨ op = .or) {s k t : String} {a b : Expr}
    (hk : Joint op.symbol k) (hs : Denotes op.level s a) (ht : Denotes op.level t b) :
    Denotes op.level (s ++ k ++ t) (.binary op a b) := by
  obtain ⟨e, hreads, hsame⟩ := hs.reads
  obtain ⟨e', hreads', hsame'⟩ := ht.reads
  obtain ⟨e'', hreads'', hchain⟩ := Reads.chain hop hreads hreads' (Nat.le_refl _)
  refine ⟨hk.whole_append hs.whole ht.whole, e'', ?_, hchain.trans (.binary op hsame hsame')⟩
  rw [hk.tokens_append hs.whole]
  exact hreads''

end BlockScript.Script
