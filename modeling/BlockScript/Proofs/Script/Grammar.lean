/-
  BlockScript.Proofs.Script.Grammar

  The grammar of expressions of names, numerals and operators, as a relation between tokens and
  trees. Prefixes bind tightest, then the comparisons of size, equality, conjunction, disjunction
  and the choice between two values; operators between two operands group from the left.

  Tokens have one tree at most (`Reads.unique`): a walk along the tokens tells which operators stand
  outside of all brackets and choices, and so where a tree parts.
-/
import BlockScript.Proofs.Script.Token

namespace BlockScript.Script

/-! ## Trees -/

/-- The operators ahead of one operand. -/
inductive Sign where
  | not
  | minus
  deriving DecidableEq, Repr

/-- The operators between two operands. -/
inductive Operator where
  | less
  | lessEqual
  | greater
  | greaterEqual
  | equal
  | notEqual
  | and
  | or
  deriving DecidableEq, Repr

/-- The tree of an expression. -/
inductive Expr where
  | truth (value : Bool)
  | null
  | numeral (digits : String)
  | name (name : String)
  | signed (sign : Sign) (e : Expr)
  | binary (op : Operator) (left right : Expr)
  | choice (condition yes no : Expr)
  deriving DecidableEq, Repr

/-- The symbol of a sign. -/
def Sign.symbol : Sign → Symbol
  | not => .bang
  | minus => .minus

/-- The symbol of an operator. -/
def Operator.symbol : Operator → Symbol
  | less => .less
  | lessEqual => .lessEqual
  | greater => .greater
  | greaterEqual => .greaterEqual
  | equal => .equal
  | notEqual => .notEqual
  | and => .and
  | or => .or

/-- How loosely an operator binds: behind the prefixes at one, and ahead of the choice at six. -/
def Operator.level : Operator → Nat
  | less | lessEqual | greater | greaterEqual => 2
  | equal | notEqual => 3
  | and => 4
  | or => 5

/-- The tree of a word: a constant, or else a name. -/
def Expr.ofWord (word : String) : Expr :=
  if word = "true" then truth true
  else if word = "false" then truth false
  else if word = "null" then null
  else name word

/-! ## The grammar -/

/-- The tokens of an expression whose operators outside of brackets bind as tightly as a level, and
    its tree. -/
inductive Reads : Nat → List Token → Expr → Prop
  | word (n : Nat) (word : String) : Reads n [.word word] (.ofWord word)
  | numeral (n : Nat) (digits : String) : Reads n [.numeral digits] (.numeral digits)
  | group (n : Nat) {ts : List Token} {e : Expr} (h : Reads 6 ts e) :
      Reads n (.opening .round :: (ts ++ [.closing .round])) e
  | signed {n : Nat} (sign : Sign) (hn : 1 ≤ n) {ts : List Token} {e : Expr} (h : Reads 1 ts e) :
      Reads n (.symbol sign.symbol :: ts) (.signed sign e)
  | binary {n : Nat} (op : Operator) (hn : op.level ≤ n) {ts us : List Token} {l r : Expr}
      (hl : Reads op.level ts l) (hr : Reads (op.level - 1) us r) :
      Reads n (ts ++ .symbol op.symbol :: us) (.binary op l r)
  | choice {n : Nat} (hn : 6 ≤ n) {cs ts us : List Token} {c y e : Expr} (hc : Reads 5 cs c)
      (hy : Reads 6 ts y) (he : Reads 6 us e) :
      Reads n (cs ++ .symbol .question :: (ts ++ .symbol .colon :: us)) (.choice c y e)

theorem Reads.mono {n m : Nat} {ts : List Token} {e : Expr} (h : Reads n ts e) (hle : n ≤ m) :
    Reads m ts e := by
  cases h with
  | word _ name => exact .word m name
  | numeral _ digits => exact .numeral m digits
  | group _ h => exact .group m h
  | signed sign hn h => exact .signed sign (Nat.le_trans hn hle) h
  | binary op hn hl hr => exact .binary op (Nat.le_trans hn hle) hl hr
  | choice hn hc hy he => exact .choice (Nat.le_trans hn hle) hc hy he

/-! ## The walk -/

/-- How loosely a symbol binds. The second mark of a choice never stands outside of one. -/
def Symbol.level : Symbol → Nat
  | bang | minus => 1
  | less | lessEqual | greater | greaterEqual => 2
  | equal | notEqual => 3
  | and => 4
  | or => 5
  | question => 6
  | plus | colon => 7

@[simp] theorem Operator.level_symbol (op : Operator) : op.symbol.level = op.level := by
  cases op <;> rfl

@[simp] theorem Sign.level_symbol (sign : Sign) : sign.symbol.level = 1 := by
  cases sign <;> rfl

theorem Operator.two_le_level (op : Operator) : 2 ≤ op.level := by
  cases op <;> decide

theorem Operator.level_le_five (op : Operator) : op.level ≤ 5 := by
  cases op <;> decide

theorem Sign.symbol_injective {a b : Sign} (h : a.symbol = b.symbol) : a = b := by
  cases a <;> cases b <;> first | rfl | cases h

theorem Operator.symbol_injective {a b : Operator} (h : a.symbol = b.symbol) : a = b := by
  cases a <;> cases b <;> first | rfl | cases h

/-- The depth in brackets and in choices behind a token. On the surface only symbols up to a level
    may stand. -/
def depthBehind (n depth : Nat) : Token → Option Nat
  | .opening _ => some (depth + 1)
  | .closing _ => if depth = 0 then none else some (depth - 1)
  | .symbol s =>
    if depth = 0 ∧ n < s.level then none
    else if s = .question then some (depth + 1)
    else if s = .colon then (if depth = 0 then none else some (depth - 1))
    else some depth
  | _ => some depth

/-- The depth behind tokens. -/
def walk (n : Nat) : Nat → List Token → Option Nat
  | depth, [] => some depth
  | depth, t :: rest => (depthBehind n depth t).bind (walk n · rest)

theorem walk_append (n depth : Nat) (ts us : List Token) :
    walk n depth (ts ++ us) = (walk n depth ts).bind (walk n · us) := by
  induction ts generalizing depth with
  | nil => rfl
  | cons t rest ih =>
    rw [List.cons_append, walk, walk, Option.bind_assoc]
    exact Option.bind_congr fun next _ => ih next

/-- What may stand on the surface may do so with a looser bound. -/
theorem depthBehind_mono {n m depth next : Nat} {t : Token} (hle : n ≤ m)
    (h : depthBehind n depth t = some next) : depthBehind m depth t = some next := by
  cases t with
  | symbol s =>
    simp only [depthBehind] at h ⊢
    by_cases hn : depth = 0 ∧ n < s.level
    · rw [if_pos hn] at h
      cases h
    · rw [if_neg hn] at h
      rwa [if_neg (by omega)]
  | _ => exact h

theorem walk_mono {n m depth last : Nat} {ts : List Token} (hle : n ≤ m)
    (h : walk n depth ts = some last) : walk m depth ts = some last := by
  induction ts generalizing depth with
  | nil => exact h
  | cons t rest ih =>
    rw [walk, Option.bind_eq_some_iff] at h ⊢
    obtain ⟨next, hstep, hrest⟩ := h
    exact ⟨next, depthBehind_mono hle hstep, ih hrest⟩

/-- Below the surface every symbol may stand. -/
theorem depthBehind_succ {n m depth next : Nat} {t : Token}
    (h : depthBehind n depth t = some next) : depthBehind m (depth + 1) t = some (next + 1) := by
  cases t with
  | opening b => simpa [depthBehind] using h
  | closing b =>
    simp only [depthBehind] at h ⊢
    split at h
    · cases h
    · obtain rfl := Option.some.inj h
      rw [if_neg (by omega), Option.some.injEq]
      omega
  | symbol s =>
    simp only [depthBehind] at h ⊢
    rw [if_neg (by omega)]
    split at h
    · cases h
    split at h
    · rw [if_pos ‹_›, Option.some.inj h]
    split at h
    · split at h
      · cases h
      · obtain rfl := Option.some.inj h
        rw [if_neg ‹_›, if_pos ‹_›, if_neg (by omega), Option.some.injEq]
        omega
    · rw [if_neg ‹_›, if_neg ‹_›, Option.some.inj h]
  | _ => simpa [depthBehind] using h

theorem walk_succ {n m depth last : Nat} {ts : List Token} (h : walk n depth ts = some last) :
    walk m (depth + 1) ts = some (last + 1) := by
  induction ts generalizing depth with
  | nil => simpa [walk] using h
  | cons t rest ih =>
    rw [walk, Option.bind_eq_some_iff] at h ⊢
    obtain ⟨next, hstep, hrest⟩ := h
    exact ⟨next + 1, depthBehind_succ hstep, ih hrest⟩

/-- An operator on the surface is one that may stand there. -/
theorem level_le_of_walk {k n last : Nat} {ts us : List Token} {s : Symbol}
    (hts : walk k 0 ts = some 0) (h : walk n 0 (ts ++ .symbol s :: us) = some last) :
    s.level ≤ n := by
  rw [walk_append, Option.bind_eq_some_iff] at h
  obtain ⟨depth, hdepth, h⟩ := h
  -- The walks with the two bounds agree where both come through.
  have hsame : depth = 0 := by
    have hk := walk_mono (Nat.le_max_left k n) hts
    rw [walk_mono (Nat.le_max_right k n) hdepth] at hk
    exact Option.some.inj hk
  rw [walk, hsame, depthBehind] at h
  by_cases hlevel : n < s.level
  · rw [if_pos ⟨rfl, hlevel⟩] at h
    cases h
  · omega

/-- The tokens of an expression come back to the surface. -/
theorem Reads.walk {n : Nat} {ts : List Token} {e : Expr} (h : Reads n ts e) :
    walk n 0 ts = some 0 := by
  induction h with
  | word n word => rfl
  | numeral n digits => rfl
  | group n h ih =>
    rw [Script.walk, depthBehind, Option.bind_some, walk_append, walk_succ ih]
    rfl
  | @signed n sign hn ts e h ih =>
    have hsymbol : depthBehind n 0 (.symbol sign.symbol) = some 0 := by
      rw [depthBehind, Sign.level_symbol, if_neg (by omega)]
      cases sign <;> rfl
    rw [Script.walk, hsymbol, Option.bind_some]
    exact walk_mono hn ih
  | @binary n op hn ts us l r hl hr ihl ihr =>
    have hsymbol : depthBehind n 0 (.symbol op.symbol) = some 0 := by
      rw [depthBehind, Operator.level_symbol, if_neg (by omega)]
      cases op <;> rfl
    rw [walk_append, walk_mono hn ihl, Option.bind_some, Script.walk, hsymbol, Option.bind_some]
    exact walk_mono (by omega) ihr
  | @choice n hn cs ts us c y e hc hy he ihc ihy ihe =>
    have hquestion : depthBehind n 0 (.symbol .question) = some 1 := by
      rw [depthBehind, if_neg (by simp only [Symbol.level]; omega)]
      rfl
    have hcolon : depthBehind n 1 (.symbol .colon) = some 0 := by
      rw [depthBehind, if_neg (by omega)]
      rfl
    rw [walk_append, walk_mono (by omega) ihc, Option.bind_some, Script.walk, hquestion,
      Option.bind_some, walk_append, walk_succ ihy, Option.bind_some, Script.walk, hcolon,
      Option.bind_some]
    exact walk_mono hn ihe

/-! ## Where a tree parts -/

/-- Tokens that come back to the surface are parted in one way at a symbol that does not stand on
    the surface of the part ahead. -/
theorem split_unique {k k' : Nat} {a a' b b' : List Token} {s s' : Symbol}
    (ha : walk k 0 a = some 0) (ha' : walk k' 0 a' = some 0) (hs : k' < s.level)
    (hs' : k < s'.level) (h : a ++ .symbol s :: b = a' ++ .symbol s' :: b') :
    a = a' ∧ s = s' ∧ b = b' := by
  rcases List.append_eq_append_iff.mp h with ⟨x, hx, hy⟩ | ⟨x, hx, hy⟩
  · cases x with
    | nil =>
      obtain ⟨hsymbol, hrest⟩ := List.cons.inj hy
      exact ⟨by rw [hx, List.append_nil], Token.symbol.inj hsymbol, hrest⟩
    | cons t x =>
      obtain ⟨rfl, -⟩ := List.cons.inj hy
      rw [hx] at ha'
      have hle := level_le_of_walk ha ha'
      omega
  · cases x with
    | nil =>
      obtain ⟨hsymbol, hrest⟩ := List.cons.inj hy
      exact ⟨by rw [hx, List.append_nil], (Token.symbol.inj hsymbol).symm, hrest.symm⟩
    | cons t x =>
      obtain ⟨rfl, -⟩ := List.cons.inj hy
      rw [hx] at ha
      have hle := level_le_of_walk ha' ha
      omega

/-- Behind an operator on the surface a walk goes on there. -/
theorem walk_behind {k : Nat} {a x : List Token} {op : Operator} (ha : walk k 0 a = some 0)
    (h : walk k 0 (a ++ .symbol op.symbol :: x) = some 0) : walk k 0 x = some 0 := by
  have hle := level_le_of_walk ha h
  rw [Operator.level_symbol] at hle
  have hsymbol : depthBehind k 0 (.symbol op.symbol) = some 0 := by
    rw [depthBehind, Operator.level_symbol, if_neg (by omega)]
    cases op <;> rfl
  rwa [walk_append, ha, Option.bind_some, walk, hsymbol, Option.bind_some] at h

/-- Tokens are parted in one way at an operator that does not stand on the surface of the part
    behind. -/
theorem split_last_unique {k m : Nat} {a a' b b' : List Token} {op op' : Operator}
    (ha : walk k 0 a = some 0) (ha' : walk k 0 a' = some 0) (hb : walk m 0 b = some 0)
    (hb' : walk m 0 b' = some 0) (hop : m < op.level) (hop' : m < op'.level)
    (h : a ++ .symbol op.symbol :: b = a' ++ .symbol op'.symbol :: b') :
    a = a' ∧ op = op' ∧ b = b' := by
  rcases List.append_eq_append_iff.mp h with ⟨x, hx, hy⟩ | ⟨x, hx, hy⟩
  · cases x with
    | nil =>
      obtain ⟨hsymbol, hrest⟩ := List.cons.inj hy
      have hsame := Operator.symbol_injective (Token.symbol.inj hsymbol)
      exact ⟨by rw [hx, List.append_nil], hsame, hrest⟩
    | cons t x =>
      -- The second operator stands in the part behind the first one.
      obtain ⟨rfl, rfl⟩ := List.cons.inj hy
      rw [hx] at ha'
      have hle := level_le_of_walk (walk_behind ha ha') hb
      rw [Operator.level_symbol] at hle
      omega
  · cases x with
    | nil =>
      obtain ⟨hsymbol, hrest⟩ := List.cons.inj hy
      have hsame := Operator.symbol_injective (Token.symbol.inj hsymbol)
      exact ⟨by rw [hx, List.append_nil], hsame.symm, hrest.symm⟩
    | cons t x =>
      obtain ⟨rfl, rfl⟩ := List.cons.inj hy
      rw [hx] at ha
      have hle := level_le_of_walk (walk_behind ha' ha) hb'
      rw [Operator.level_symbol] at hle
      omega

/-! ## One tree -/

/-- Tokens without operators on the surface do not part at one. -/
theorem ne_of_walk {k n : Nat} {ts a b : List Token} {s : Symbol} {e : Expr}
    (hts : walk k 0 ts = some 0) (hk : k < s.level) (ha : Reads n a e) :
    ts ≠ a ++ .symbol s :: b := by
  rintro rfl
  have hle := level_le_of_walk ha.walk hts
  omega

theorem ne_binary_of_walk {k : Nat} {ts a b : List Token} {op : Operator} {l : Expr}
    (hts : walk k 0 ts = some 0) (hk : k < 2) (ha : Reads op.level a l) :
    ts ≠ a ++ .symbol op.symbol :: b := by
  have htwo := op.two_le_level
  exact ne_of_walk hts (by rw [Operator.level_symbol]; omega) ha

theorem ne_choice_of_walk {k : Nat} {ts a b : List Token} {c : Expr}
    (hts : walk k 0 ts = some 0) (hk : k < 6) (ha : Reads 5 a c) :
    ts ≠ a ++ .symbol .question :: b :=
  ne_of_walk hts hk ha

/-- Tokens have one tree at most. -/
theorem Reads.unique {n n' : Nat} {ts us : List Token} {e e' : Expr} (h : Reads n ts e)
    (h' : Reads n' us e') (heq : ts = us) : e = e' := by
  induction h generalizing n' us e' with
  | word n word =>
    have hwalk : Script.walk 0 0 [.word word] = some 0 := rfl
    cases h' with
    | word _ word' => rw [Token.word.inj (List.cons.inj heq).1]
    | numeral | group | signed => cases (List.cons.inj heq).1
    | binary op _ hl _ => exact absurd heq (ne_binary_of_walk hwalk (by omega) hl)
    | choice _ hc _ _ => exact absurd heq (ne_choice_of_walk hwalk (by omega) hc)
  | numeral n digits =>
    have hwalk : Script.walk 0 0 [.numeral digits] = some 0 := rfl
    cases h' with
    | numeral _ digits' => rw [Token.numeral.inj (List.cons.inj heq).1]
    | word | group | signed => cases (List.cons.inj heq).1
    | binary op _ hl _ => exact absurd heq (ne_binary_of_walk hwalk (by omega) hl)
    | choice _ hc _ _ => exact absurd heq (ne_choice_of_walk hwalk (by omega) hc)
  | group n h ih =>
    have hwalk := (Reads.group 0 h).walk
    cases h' with
    | group _ h' => exact ih h' (List.append_cancel_right (List.cons.inj heq).2)
    | word | numeral | signed => cases (List.cons.inj heq).1
    | binary op _ hl _ => exact absurd heq (ne_binary_of_walk hwalk (by omega) hl)
    | choice _ hc _ _ => exact absurd heq (ne_choice_of_walk hwalk (by omega) hc)
  | signed sign hn h ih =>
    have hwalk := (Reads.signed sign (Nat.le_refl 1) h).walk
    cases h' with
    | signed sign' _ h' =>
      obtain ⟨hsymbol, hrest⟩ := List.cons.inj heq
      rw [Sign.symbol_injective (Token.symbol.inj hsymbol), ih h' hrest]
    | word | numeral | group => cases (List.cons.inj heq).1
    | binary op _ hl _ => exact absurd heq (ne_binary_of_walk hwalk (by omega) hl)
    | choice _ hc _ _ => exact absurd heq (ne_choice_of_walk hwalk (by omega) hc)
  | binary op hn hl hr ihl ihr =>
    have htwo := op.two_le_level
    have hfive := op.level_le_five
    have hwalk := (Reads.binary op (Nat.le_refl _) hl hr).walk
    cases h' with
    | word _ word' =>
      exact absurd heq.symm (ne_binary_of_walk (k := 0) rfl (by omega) hl)
    | numeral _ digits' =>
      exact absurd heq.symm (ne_binary_of_walk (k := 0) rfl (by omega) hl)
    | group _ h' =>
      exact absurd heq.symm (ne_binary_of_walk (Reads.group 0 h').walk (by omega) hl)
    | signed sign' _ h' =>
      have hwalk' := (Reads.signed sign' (Nat.le_refl 1) h').walk
      exact absurd heq.symm (ne_binary_of_walk hwalk' (by omega) hl)
    | binary op' _ hl' hr' =>
      have hwalk' := (Reads.binary op' (Nat.le_refl _) hl' hr').walk
      -- Either operator stands on the surface of the same tokens, so both are of one level.
      have hle := level_le_of_walk hl'.walk (heq ▸ hwalk)
      have hle' := level_le_of_walk hl.walk (heq.symm ▸ hwalk')
      rw [Operator.level_symbol] at hle hle'
      have hlevel : op'.level = op.level := by omega
      rw [hlevel] at hl' hr'
      obtain ⟨rfl, rfl, rfl⟩ := split_last_unique hl.walk hl'.walk hr.walk hr'.walk (by omega)
        (by omega) heq
      rw [ihl hl' rfl, ihr hr' rfl]
    | choice _ hc _ _ => exact absurd heq (ne_choice_of_walk hwalk (by omega) hc)
  | choice hn hc hy he ihc ihy ihe =>
    cases h' with
    | word _ word' => exact absurd heq.symm (ne_choice_of_walk (k := 0) rfl (by omega) hc)
    | numeral _ digits' => exact absurd heq.symm (ne_choice_of_walk (k := 0) rfl (by omega) hc)
    | group _ h' =>
      exact absurd heq.symm (ne_choice_of_walk (Reads.group 0 h').walk (by omega) hc)
    | signed sign' _ h' =>
      have hwalk' := (Reads.signed sign' (Nat.le_refl 1) h').walk
      exact absurd heq.symm (ne_choice_of_walk hwalk' (by omega) hc)
    | binary op' _ hl' hr' =>
      have hfive := op'.level_le_five
      have hwalk' := (Reads.binary op' (Nat.le_refl _) hl' hr').walk
      exact absurd heq.symm (ne_choice_of_walk hwalk' (by omega) hc)
    | choice _ hc' hy' he' =>
      -- The condition ends at the first question mark, and what stands behind it at the first
      -- colon that is not of a choice inside.
      obtain ⟨rfl, -, hrest⟩ := split_unique hc.walk hc'.walk (by decide) (by decide) heq
      obtain ⟨rfl, -, rfl⟩ := split_unique hy.walk hy'.walk (by decide) (by decide) hrest
      rw [ihc hc' rfl, ihy hy' rfl, ihe he' rfl]

end BlockScript.Script
