/-
  BlockScript.Proofs.Script.Amount

  The integer that an expression comes to. Sums and differences are read from the left, signs and
  brackets as they stand, numerals in digits as what they write. Every other operand comes to what an
  environment says of its tokens, and so does an expression of an operator that binds looser than a
  sum.
-/
import BlockScript.Proofs.Script.Numeral

namespace BlockScript.Script

/-! ## The last sum -/

/-- The operator of a sum that a token is behind an operand. -/
def Token.sum? : Token → Option Symbol
  | .symbol .plus => some .plus
  | .symbol .minus => some .minus
  | _ => none

theorem Token.eq_of_sum? {t : Token} {s : Symbol} (h : t.sum? = some s) :
    t = .symbol s ∧ (s = .plus ∨ s = .minus) := by
  rw [sum?.eq_def] at h
  split at h
  · obtain rfl := Option.some.inj h
    exact ⟨rfl, Or.inl rfl⟩
  · obtain rfl := Option.some.inj h
    exact ⟨rfl, Or.inr rfl⟩
  · cases h

/-- The last operator of a sum outside of brackets, between what stands ahead of it and behind it. -/
def lastSum? : Place → List Token → Option (List Token × Symbol × List Token)
  | _, [] => none
  | place, t :: rest =>
    match place.step? t with
    | none => none
    | some (_, next) =>
      match lastSum? next rest with
      | some (left, s, right) => some (t :: left, s, right)
      | none => if place = ⟨[], true⟩ then t.sum?.map fun s => ([], s, rest) else none

theorem eq_of_lastSum? {place : Place} {ts left right : List Token} {s : Symbol}
    (h : lastSum? place ts = some (left, s, right)) : ts = left ++ .symbol s :: right := by
  induction ts generalizing place left with
  | nil => cases h
  | cons t rest ih =>
    rw [lastSum?] at h
    split at h
    · cases h
    · split at h
      · rename_i hrest
        simp only [Option.some.injEq, Prod.mk.injEq] at h
        obtain ⟨rfl, rfl, rfl⟩ := h
        rw [ih hrest, List.cons_append]
      · split at h
        · obtain ⟨s', hs, heq⟩ := Option.map_eq_some_iff.mp h
          simp only [Prod.mk.injEq] at heq
          obtain ⟨rfl, rfl, rfl⟩ := heq
          rw [(Token.eq_of_sum? hs).1, List.nil_append]
        · cases h

/-- Tokens that expose no sum have none. -/
theorem lastSum?_eq_none {place last : Place} {ts : List Token} (h : Takes 5 place ts last) :
    lastSum? place ts = none := by
  induction ts generalizing place with
  | nil => rfl
  | cons t rest ih =>
    obtain ⟨orders, hscan, hranks⟩ := takes_iff.mp h
    obtain ⟨first, next, more, hstep, hrest, rfl⟩ := scan_cons_iff.mp hscan
    have hmore : Takes 5 next rest last :=
      takes_iff.mpr ⟨more, hrest, fun order h => hranks order (List.mem_append_right _ h)⟩
    have hsum : place = ⟨[], true⟩ → t.sum? = none := by
      rintro rfl
      cases hs : t.sum? with
      | none => rfl
      | some s =>
        -- The operator of a sum would be exposed here.
        obtain ⟨htoken, hs⟩ := Token.eq_of_sum? hs
        rw [htoken] at hstep
        obtain ⟨rfl, -⟩ := Prod.mk.inj (Option.some.inj hstep)
        have hbound := hranks _ (List.mem_append_left _ (List.mem_singleton_self (s.order true)))
        rcases hs with rfl | rfl <;> exact absurd hbound (by decide)
    rw [lastSum?, hstep]
    simp only [ih hmore]
    split
    · rename_i hplace
      rw [hsum hplace]
      rfl
    · rfl

/-- A sum is split at its last operator. -/
theorem lastSum?_append {place last : Place} {ts us : List Token} {orders : List Order} {s : Symbol}
    (hts : scan place ts = some (orders, ⟨[], true⟩)) (hs : s = .plus ∨ s = .minus)
    (hus : Takes 5 ⟨[], false⟩ us last) :
    lastSum? place (ts ++ .symbol s :: us) = some (ts, s, us) := by
  induction ts generalizing place orders with
  | nil =>
    obtain ⟨-, rfl⟩ := scan_nil_iff.mp hts
    have hstep : Place.step? ⟨[], true⟩ (.symbol s) = some ([s.order true], ⟨[], false⟩) := rfl
    rw [List.nil_append, lastSum?, hstep]
    simp only [lastSum?_eq_none hus, if_true]
    rcases hs with rfl | rfl <;> rfl
  | cons t rest ih =>
    obtain ⟨first, next, more, hstep, hrest, -⟩ := scan_cons_iff.mp hts
    rw [List.cons_append, lastSum?, hstep]
    simp only [ih hrest]

/-! ## Amounts -/

/-- How a summand is read. -/
inductive Summand where
  /-- Behind a minus sign. -/
  | signed (operand : List Token)
  /-- In brackets. -/
  | grouped (inner : List Token)
  /-- A natural in digits. -/
  | written (n : Nat)
  | other
  deriving DecidableEq

/-- How tokens without a sum outside of brackets are read. Brackets are about the whole if what they
    hold can stand alone. -/
def summand : List Token → Summand
  | .symbol .minus :: rest => .signed rest
  | .opening .round :: rest =>
    if rest.getLast? = some (.closing .round) ∧
        Takes 99 ⟨[], false⟩ rest.dropLast ⟨[], true⟩ then
      .grouped rest.dropLast
    else .other
  | [.numeral digits] =>
    match Numeral.natural? digits.toList with
    | some n => .written n
    | none => .other
  | _ => .other

theorem length_of_signed {ts operand : List Token} (h : summand ts = .signed operand) :
    operand.length < ts.length := by
  rw [summand.eq_def] at h
  split at h
  · obtain rfl := Summand.signed.inj h
    exact Nat.lt_succ_self _
  · split at h <;> cases h
  · split at h <;> cases h
  · cases h

theorem length_of_grouped {ts inner : List Token} (h : summand ts = .grouped inner) :
    inner.length < ts.length := by
  rw [summand.eq_def] at h
  split at h
  · cases h
  · split at h
    · obtain rfl := Summand.grouped.inj h
      rw [List.length_dropLast, List.length_cons]
      omega
    · cases h
  · split at h <;> cases h
  · cases h

/-- What the operands of sums come to by their tokens, where that is an integer. -/
abbrev Integers : Type := List Token → Option Int

/-- The sum or the difference of two integers. -/
def Symbol.combine (s : Symbol) (a b : Int) : Int :=
  if s = .minus then a - b else a + b

/-- The integer that tokens come to. -/
def value (env : Integers) (ts : List Token) : Option Int :=
  if Takes 6 ⟨[], false⟩ ts ⟨[], true⟩ then
    match _h : lastSum? ⟨[], false⟩ ts with
    | some (left, s, right) => do
      let a ← value env left
      let b ← value env right
      return s.combine a b
    | none =>
      match _h : summand ts with
      | .signed operand => (value env operand).map (- ·)
      | .grouped inner => value env inner
      | .written n => some n
      | .other => env ts
  else env ts
termination_by ts.length
decreasing_by
  · rw [eq_of_lastSum? _h, List.length_append, List.length_cons]
    omega
  · rw [eq_of_lastSum? _h, List.length_append, List.length_cons]
    omega
  · exact length_of_signed _h
  · exact length_of_grouped _h

/-- The integer that a text comes to. -/
def amount (env : Integers) (s : String) : Option Int :=
  value env (tokens s)

variable {env : Integers} {ts us : List Token}

theorem value_sum {s : Symbol} (hs : s = .plus ∨ s = .minus)
    (hts : Takes 6 ⟨[], false⟩ ts ⟨[], true⟩) (hus : Takes 5 ⟨[], false⟩ us ⟨[], true⟩) :
    value env (ts ++ .symbol s :: us) = (do
      let a ← value env ts
      let b ← value env us
      return s.combine a b) := by
  have hbetween : Takes 6 ⟨[], true⟩ [.symbol s] ⟨[], false⟩ := by
    rcases hs with rfl | rfl <;> decide
  have htakes : Takes 6 ⟨[], false⟩ (ts ++ .symbol s :: us) ⟨[], true⟩ := by
    have h := (hts.append hbetween).append (hus.mono (by decide))
    rwa [List.append_assoc] at h
  obtain ⟨orders, hscan, -⟩ := takes_iff.mp hts
  have hsplit := lastSum?_append hscan hs hus
  rw [value, if_pos htakes]
  split
  · rename_i hsome
    rw [hsplit] at hsome
    simp only [Option.some.injEq, Prod.mk.injEq] at hsome
    obtain ⟨rfl, rfl, rfl⟩ := hsome
    rfl
  · rename_i hnone
    rw [hsplit] at hnone
    cases hnone

theorem value_summand (hts : Takes 5 ⟨[], false⟩ ts ⟨[], true⟩) :
    value env ts = match summand ts with
      | .signed operand => (value env operand).map (- ·)
      | .grouped inner => value env inner
      | .written n => some n
      | .other => env ts := by
  rw [value, if_pos (hts.mono (by decide))]
  split
  · rename_i hsome
    rw [lastSum?_eq_none hts] at hsome
    cases hsome
  · split <;> simp_all

/-- Brackets around what can stand alone change nothing. -/
theorem value_group (hts : Takes 99 ⟨[], false⟩ ts ⟨[], true⟩) :
    value env (.opening .round :: (ts ++ [.closing .round])) = value env ts := by
  have hinside : Takes 0 ⟨[.round], false⟩ ts ⟨[.round], true⟩ :=
    hts.inside (List.cons_ne_nil _ [])
  have hopen : Takes 0 ⟨[], false⟩ [.opening .round] ⟨[.round], false⟩ := by decide
  have hclose : Takes 0 ⟨[.round], true⟩ [.closing .round] ⟨[], true⟩ := by decide
  have htakes := (hopen.append hinside).append hclose
  rw [List.append_assoc, List.singleton_append] at htakes
  have hsummand : summand (.opening .round :: (ts ++ [.closing .round])) = .grouped ts := by
    simp [summand, hts]
  rw [value_summand (htakes.mono (by decide)), hsummand]

theorem value_minus (hts : Takes 5 ⟨[], false⟩ ts ⟨[], true⟩) :
    value env (.symbol .minus :: ts) = (value env ts).map (- ·) := by
  have hminus : Takes 5 ⟨[], false⟩ [.symbol .minus] ⟨[], false⟩ := by decide
  exact value_summand (hminus.append hts)

/-! ## Amounts of texts -/

theorem amount_toString (n : Nat) : amount env (toString n) = some (n : Int) := by
  have htakes := (operand_toString n).takes
  rw [tokens_toString] at htakes
  have hsummand : summand [.numeral (toString n)] = .written n := by
    simp only [summand, natural?_toString]
  rw [amount, tokens_toString, value_summand (htakes.mono (by decide)), hsummand]

/-- A minus sign changes the sign of what behind it binds tighter than a sum. -/
theorem amount_neg {s : String} (hs : Operand 5 s) :
    amount env ("-" ++ s) = (amount env s).map (- ·) := by
  have hwhole : Whole "-" := by decide
  have hminus : tokens "-" = [.symbol .minus] := by decide
  rw [amount, tokens_append hwhole.closed (seam_minus _), hminus, List.singleton_append]
  exact value_minus hs.takes

theorem amount_toString_int (n : Int) : amount env (toString n) = some n := by
  cases n with
  | ofNat n => exact amount_toString n
  | negSucc n =>
    change amount env ("-" ++ toString (n + 1)) = _
    rw [amount_neg ((operand_toString (n + 1)).mono (Nat.zero_le 5)), amount_toString]
    rfl

variable {r : Nat} {s k t : String}

/-- The text of a symbol between two operands. -/
theorem amount_between {symbol : Symbol} (hsymbol : symbol = .plus ∨ symbol = .minus)
    (hk : Between 6 k) (htokens : tokens k = [.symbol symbol]) (hs : Operand 6 s)
    (ht : Operand 5 t) :
    amount env (s ++ k ++ t) = (do
      let a ← amount env s
      let b ← amount env t
      return symbol.combine a b) := by
  obtain ⟨hwhole, hstarts, hends, -⟩ := hk
  have hleft := hs.whole.append hwhole
  rw [amount, tokens_append hleft.closed ((hends.append s).seam hleft.closed t),
    tokens_append hs.whole.closed (hstarts.seam s), htokens, List.append_assoc]
  exact value_sum hsymbol hs.takes ht.takes

theorem amount_plus (hs : Operand 6 s) (ht : Operand 5 t) {a b : Int}
    (ha : amount env s = some a) (hb : amount env t = some b) :
    amount env (s ++ " + " ++ t) = some (a + b) := by
  rw [amount_between (Or.inl rfl) (by decide) (by decide) hs ht, ha, hb]
  rfl

theorem amount_minus (hs : Operand 6 s) (ht : Operand 5 t) {a b : Int}
    (ha : amount env s = some a) (hb : amount env t = some b) :
    amount env (s ++ " - " ++ t) = some (a - b) := by
  rw [amount_between (Or.inr rfl) (by decide) (by decide) hs ht, ha, hb]
  rfl

theorem amount_parens (hs : Operand r s) : amount env ("(" ++ s ++ ")") = amount env s := by
  have hopen : EndsApart "(" := by decide
  have hclose : StartsApart ")" := by decide
  have hwhole : Whole "(" := by decide
  have hleft := hwhole.append hs.whole
  rw [amount, tokens_append hleft.closed (hclose.seam _), tokens_append hwhole.closed
    (hopen.seam hwhole.closed s)]
  have hround : tokens "(" = [.opening .round] ∧ tokens ")" = [.closing .round] := by decide
  rw [hround.1, hround.2, List.append_assoc]
  exact value_group hs.takes.any

/-- The parentheses of a slot change nothing. -/
theorem amount_wrap (hs : Operand r s) (outer inner : Order) :
    amount env (Order.wrap s outer inner) = amount env s := by
  rw [Order.wrap]
  split
  · exact amount_parens hs
  · rfl

end BlockScript.Script
