/-
  BlockScript.Proofs.Script.Exposure

  The operators that an expression exposes: those outside of all brackets and literals. How loosely
  they bind decides whether the expression needs parentheses where it stands.

  A scan of the tokens keeps the open brackets and whether an operand was just read, which tells a
  sign from a sum. `Operand r` says that a text reads as an operand and exposes no operator of a
  rank above `r`. It is closed under the ways in which expressions are put together.
-/
import BlockScript.Proofs.Script.Token

namespace BlockScript.Script

/-! ## The scan -/

/-- The precedence of an operator, by whether an operand stands ahead of it. -/
def Symbol.order (behindOperand : Bool) : Symbol → Order
  | bang => .logicalNot
  | plus => if behindOperand then .addition else .unaryPlus
  | minus => if behindOperand then .subtraction else .unaryNegation
  | less | lessEqual | greater | greaterEqual => .relational
  | equal | notEqual => .equality
  | and => .logicalAnd
  | or => .logicalOr
  | question | colon => .conditional

/-- Where a scan stands: the open brackets, the innermost first, and whether an operand was just
    read. -/
structure Place where
  brackets : List Bracket
  behindOperand : Bool
  deriving DecidableEq, Repr

/-- The operators that one more token exposes, and where the scan stands behind it. A bracket that
    closes another one than the innermost has no such place. -/
def Place.step? (place : Place) : Token → Option (List Order × Place)
  | .word _ | .numeral _ | .literal _ => some ([], { place with behindOperand := true })
  | .symbol s =>
    some (if place.brackets.isEmpty then [s.order place.behindOperand] else [],
      { place with behindOperand := false })
  | .opening b => some ([], ⟨b :: place.brackets, false⟩)
  | .closing b =>
    match place.brackets with
    | [] => none
    | innermost :: outer => if innermost = b then some ([], ⟨outer, true⟩) else none
  | .mark _ => some ([], { place with behindOperand := false })

/-- The operators that tokens expose, and where the scan stands behind them. -/
def scan : Place → List Token → Option (List Order × Place)
  | place, [] => some ([], place)
  | place, token :: rest =>
    match place.step? token with
    | none => none
    | some (orders, next) =>
      match scan next rest with
      | none => none
      | some (others, last) => some (orders ++ others, last)

/-- The operators that a text exposes, if its literals are closed and its brackets match. -/
def exposed (s : String) : Option (List Order) :=
  if Closed s then
    match scan ⟨[], false⟩ (tokens s) with
    | some (orders, ⟨[], _⟩) => some orders
    | _ => none
  else none

/-! ## Runs of a scan -/

theorem scan_nil_iff {place last : Place} {orders : List Order} :
    scan place [] = some (orders, last) ↔ orders = [] ∧ last = place := by
  rw [scan, Option.some.injEq, Prod.mk.injEq, eq_comm, @eq_comm _ place]

theorem scan_cons_iff {place last : Place} {t : Token} {rest : List Token}
    {orders : List Order} :
    scan place (t :: rest) = some (orders, last) ↔
      ∃ first next more, place.step? t = some (first, next) ∧
        scan next rest = some (more, last) ∧ orders = first ++ more := by
  rw [scan]
  cases hstep : place.step? t with
  | none => simp
  | some result =>
    obtain ⟨first, next⟩ := result
    cases hrest : scan next rest with
    | none => simp [hrest]
    | some result' =>
      obtain ⟨more, end'⟩ := result'
      simp only [hrest, Option.some.injEq, Prod.mk.injEq]
      constructor
      · rintro ⟨rfl, rfl⟩
        exact ⟨first, next, more, ⟨rfl, rfl⟩, hrest, rfl⟩
      · rintro ⟨_, _, more', ⟨rfl, rfl⟩, hscan, rfl⟩
        rw [hrest, Option.some.injEq, Prod.mk.injEq] at hscan
        obtain ⟨rfl, rfl⟩ := hscan
        exact ⟨rfl, rfl⟩

theorem scan_append {place middle last : Place} {ts us : List Token} {orders others : List Order}
    (hts : scan place ts = some (orders, middle)) (hus : scan middle us = some (others, last)) :
    scan place (ts ++ us) = some (orders ++ others, last) := by
  induction ts generalizing place orders with
  | nil =>
    obtain ⟨rfl, rfl⟩ := scan_nil_iff.mp hts
    exact hus
  | cons t rest ih =>
    obtain ⟨first, next, more, hstep, hrest, rfl⟩ := scan_cons_iff.mp hts
    exact scan_cons_iff.mpr ⟨first, next, more ++ others, hstep, ih hrest, List.append_assoc _ _ _⟩

/-- A bracket that is closed is the innermost one. -/
theorem step?_closing_iff {place next : Place} {b : Bracket} {orders : List Order} :
    place.step? (.closing b) = some (orders, next) ↔
      ∃ outer, place.brackets = b :: outer ∧ orders = [] ∧ next = ⟨outer, true⟩ := by
  rw [Place.step?]
  cases place.brackets with
  | nil => simp
  | cons innermost outer =>
    by_cases heq : innermost = b
    · simp only [heq, if_true, Option.some.injEq, Prod.mk.injEq, List.cons.injEq, true_and]
      constructor
      · rintro ⟨rfl, rfl⟩
        exact ⟨outer, rfl, rfl, rfl⟩
      · rintro ⟨_, rfl, rfl, rfl⟩
        exact ⟨rfl, rfl⟩
    · simp [heq]

/-- Inside of further brackets a token does what it does alone, and exposes nothing. -/
theorem step?_inside {place next : Place} {t : Token} {orders : List Order}
    (h : place.step? t = some (orders, next)) {outer : List Bracket} (houter : outer ≠ []) :
    Place.step? ⟨place.brackets ++ outer, place.behindOperand⟩ t =
      some ([], ⟨next.brackets ++ outer, next.behindOperand⟩) := by
  cases t with
  | word name | numeral digits | literal text | mark c | opening b =>
    obtain ⟨-, rfl⟩ := Prod.mk.inj (Option.some.inj h)
    rfl
  | symbol s =>
    obtain ⟨-, rfl⟩ := Prod.mk.inj (Option.some.inj h)
    have hne : (place.brackets ++ outer).isEmpty = false := by simp [houter]
    simp only [Place.step?, hne, Bool.false_eq_true, if_false]
  | closing b =>
    obtain ⟨tail, hbrackets, -, rfl⟩ := step?_closing_iff.mp h
    exact step?_closing_iff.mpr ⟨tail ++ outer, by rw [hbrackets]; rfl, rfl, rfl⟩

/-- Inside of further brackets a scan goes as it goes alone, and exposes nothing. -/
theorem scan_inside {place last : Place} {ts : List Token} {orders : List Order}
    (h : scan place ts = some (orders, last)) {outer : List Bracket} (houter : outer ≠ []) :
    scan ⟨place.brackets ++ outer, place.behindOperand⟩ ts =
      some ([], ⟨last.brackets ++ outer, last.behindOperand⟩) := by
  induction ts generalizing place orders with
  | nil =>
    obtain ⟨-, rfl⟩ := scan_nil_iff.mp h
    rfl
  | cons t rest ih =>
    obtain ⟨first, next, more, hstep, hrest, -⟩ := scan_cons_iff.mp h
    exact scan_cons_iff.mpr ⟨[], _, [], step?_inside hstep houter, ih hrest, rfl⟩

/-- An operator has at least the rank of a prefix. -/
theorem Symbol.four_le_rank_order (b : Bool) (s : Symbol) : 4 ≤ (s.order b).rank := by
  cases s <;> cases b <;> decide

theorem four_le_of_step? {place next : Place} {t : Token} {orders : List Order}
    (h : place.step? t = some (orders, next)) : ∀ order ∈ orders, 4 ≤ order.rank := by
  intro order horder
  cases t with
  | symbol s =>
    obtain ⟨rfl, -⟩ := Prod.mk.inj (Option.some.inj h)
    split at horder
    · rw [List.mem_singleton.mp horder]
      exact s.four_le_rank_order _
    · exact absurd horder List.not_mem_nil
  | closing b =>
    obtain ⟨tail, -, rfl, -⟩ := step?_closing_iff.mp h
    exact absurd horder List.not_mem_nil
  | _ =>
    obtain ⟨rfl, -⟩ := Prod.mk.inj (Option.some.inj h)
    exact absurd horder List.not_mem_nil

theorem four_le_of_scan {place last : Place} {ts : List Token} {orders : List Order}
    (h : scan place ts = some (orders, last)) : ∀ order ∈ orders, 4 ≤ order.rank := by
  induction ts generalizing place orders with
  | nil =>
    obtain ⟨rfl, -⟩ := scan_nil_iff.mp h
    exact fun order horder => absurd horder List.not_mem_nil
  | cons t rest ih =>
    obtain ⟨first, next, more, hstep, hrest, rfl⟩ := scan_cons_iff.mp h
    intro order horder
    rcases List.mem_append.mp horder with hfirst | hmore
    · exact four_le_of_step? hstep order hfirst
    · exact ih hrest order hmore

theorem rank_le (order : Order) : order.rank ≤ 99 := by
  cases order <;> decide

/-! ## Bounds on what is exposed -/

/-- Whether tokens lead from one place to another and expose no operator of a rank above a bound. -/
def Takes (r : Nat) (place : Place) (ts : List Token) (last : Place) : Prop :=
  (scan place ts).any (fun (orders, p) => p = last && orders.all (·.rank ≤ r)) = true

instance (r : Nat) (place : Place) (ts : List Token) (last : Place) :
    Decidable (Takes r place ts last) :=
  inferInstanceAs (Decidable (_ = _))

theorem takes_iff {r : Nat} {place last : Place} {ts : List Token} :
    Takes r place ts last ↔
      ∃ orders, scan place ts = some (orders, last) ∧ ∀ order ∈ orders, order.rank ≤ r := by
  rw [Takes]
  cases hscan : scan place ts with
  | none => simp
  | some result =>
    obtain ⟨orders, p⟩ := result
    simp only [Option.any_some, Bool.and_eq_true, decide_eq_true_eq, List.all_eq_true,
      Option.some.injEq, Prod.mk.injEq]
    constructor
    · rintro ⟨rfl, hranks⟩
      exact ⟨orders, ⟨rfl, rfl⟩, hranks⟩
    · rintro ⟨_, ⟨rfl, rfl⟩, hranks⟩
      exact ⟨rfl, hranks⟩

namespace Takes

variable {r r' : Nat} {place middle last : Place} {ts us : List Token}

theorem append (hts : Takes r place ts middle) (hus : Takes r middle us last) :
    Takes r place (ts ++ us) last := by
  obtain ⟨orders, hscan, hranks⟩ := takes_iff.mp hts
  obtain ⟨others, hscan', hranks'⟩ := takes_iff.mp hus
  refine takes_iff.mpr ⟨orders ++ others, scan_append hscan hscan', ?_⟩
  intro order horder
  rcases List.mem_append.mp horder with h | h
  · exact hranks order h
  · exact hranks' order h

theorem mono (h : Takes r place ts last) (hle : r ≤ r') : Takes r' place ts last := by
  obtain ⟨orders, hscan, hranks⟩ := takes_iff.mp h
  exact takes_iff.mpr ⟨orders, hscan, fun order horder => Nat.le_trans (hranks order horder) hle⟩

/-- No operator binds tighter than a prefix. -/
theorem tighten (h : Takes r place ts last) (hr : r < 4) : Takes 0 place ts last := by
  obtain ⟨orders, hscan, hranks⟩ := takes_iff.mp h
  refine takes_iff.mpr ⟨orders, hscan, fun order horder => ?_⟩
  have h4 := four_le_of_scan hscan order horder
  have hle := hranks order horder
  omega

theorem inside (h : Takes r place ts last) {outer : List Bracket} (houter : outer ≠ []) :
    Takes 0 ⟨place.brackets ++ outer, place.behindOperand⟩ ts
      ⟨last.brackets ++ outer, last.behindOperand⟩ := by
  obtain ⟨orders, hscan, -⟩ := takes_iff.mp h
  exact takes_iff.mpr ⟨[], scan_inside hscan houter, by simp⟩

theorem any (h : Takes r place ts last) : Takes 99 place ts last := by
  obtain ⟨orders, hscan, -⟩ := takes_iff.mp h
  exact takes_iff.mpr ⟨orders, hscan, fun order _ => rank_le order⟩

end Takes

/-! ## Texts that can be put together -/

/-- Whether there is no comment, and a character behind every backslash of code. -/
def isCalm : List Part → Bool
  | [] => true
  | .comment :: _ => false
  | [.char c] => c ≠ '\\'
  | .char _ :: .char d :: rest => isCalm (.char d :: rest)
  | .char c :: .literal text :: rest => c ≠ '\\' && isCalm (.literal text :: rest)
  | .char _ :: .comment :: _ => false
  | .literal _ :: rest => isCalm rest

theorem isCalm_append {ps qs : List Part} (hp : isCalm ps = true) (hq : isCalm qs = true) :
    isCalm (ps ++ qs) = true := by
  induction ps using isCalm.induct with
  | case1 => exact hq
  | case2 rest => exact absurd hp (by simp [isCalm])
  | case3 c =>
    have hne : c ≠ '\\' := by simpa [isCalm] using hp
    cases qs with
    | nil => exact hp
    | cons q rest =>
      cases q with
      | char d => exact hq
      | literal text => simpa [isCalm, hne] using hq
      | comment => exact absurd hq (by simp [isCalm])
  | case4 _ d rest ih => exact ih hp
  | case5 c text rest ih =>
    simp only [isCalm, Bool.and_eq_true] at hp
    simp only [List.cons_append, isCalm, Bool.and_eq_true]
    exact ⟨hp.1, ih hp.2⟩
  | case6 _ rest => exact absurd hp (by simp [isCalm])
  | case7 text rest ih => exact ih hp

/-- A text that can be put together with others: it ends in code, has no comment, does not begin
    with an equals sign, and has a character behind every backslash of code. -/
structure Whole (s : String) : Prop where
  closed : Closed s
  negatable : Negatable s
  calm : isCalm (parts s) = true

instance (s : String) : Decidable (Whole s) :=
  decidable_of_iff (Closed s ∧ Negatable s ∧ isCalm (parts s) = true)
    ⟨fun ⟨h₁, h₂, h₃⟩ => ⟨h₁, h₂, h₃⟩, fun ⟨h₁, h₂, h₃⟩ => ⟨h₁, h₂, h₃⟩⟩

theorem Whole.append {s t : String} (hs : Whole s) (ht : Whole t) : Whole (s ++ t) where
  closed := hs.closed.append ht.closed
  negatable := hs.negatable.append hs.closed ht.negatable
  calm := by
    rw [parts_append hs.closed]
    exact isCalm_append hs.calm ht.calm

/-! ## Operands -/

/-- A text that reads as an operand and exposes no operator of a rank above a bound. -/
structure Operand (r : Nat) (s : String) : Prop where
  whole : Whole s
  takes : Takes r ⟨[], false⟩ (tokens s) ⟨[], true⟩

instance (r : Nat) (s : String) : Decidable (Operand r s) :=
  decidable_of_iff (Whole s ∧ Takes r ⟨[], false⟩ (tokens s) ⟨[], true⟩)
    ⟨fun ⟨h₁, h₂⟩ => ⟨h₁, h₂⟩, fun ⟨h₁, h₂⟩ => ⟨h₁, h₂⟩⟩

/-- A text that stands between two operands. -/
def Between (r : Nat) (s : String) : Prop :=
  Whole s ∧ StartsApart s ∧ EndsApart s ∧ Takes r ⟨[], true⟩ (tokens s) ⟨[], false⟩

instance (r : Nat) (s : String) : Decidable (Between r s) :=
  inferInstanceAs (Decidable (_ ∧ _))

/-- A text that stands behind an operand and is a part of it. -/
def Suffix (s : String) : Prop :=
  Whole s ∧ StartsApart s ∧ Takes 0 ⟨[], true⟩ (tokens s) ⟨[], true⟩

instance (s : String) : Decidable (Suffix s) :=
  inferInstanceAs (Decidable (_ ∧ _))

/-- A text that opens a bracket behind an operand. -/
def Opener (b : Bracket) (s : String) : Prop :=
  Whole s ∧ StartsApart s ∧ EndsApart s ∧ Takes 0 ⟨[], true⟩ (tokens s) ⟨[b], false⟩

instance (b : Bracket) (s : String) : Decidable (Opener b s) :=
  inferInstanceAs (Decidable (_ ∧ _))

/-- A text that closes a bracket, behind an operand or not. -/
def Closer (b : Bracket) (s : String) : Prop :=
  Whole s ∧ StartsApart s ∧
    ∀ behindOperand, Takes 0 ⟨[b], behindOperand⟩ (tokens s) ⟨[], true⟩

instance (b : Bracket) (s : String) : Decidable (Closer b s) :=
  inferInstanceAs (Decidable (_ ∧ _))

/-- A text that begins an operand and leaves a bracket of it open. -/
def Opens (r : Nat) (b : Bracket) (s : String) : Prop :=
  Whole s ∧ EndsApart s ∧ Takes r ⟨[], false⟩ (tokens s) ⟨[b], false⟩

instance (r : Nat) (b : Bracket) (s : String) : Decidable (Opens r b s) :=
  inferInstanceAs (Decidable (_ ∧ _))

/-- A text that may stand in brackets. -/
structure Enclosed (s : String) : Prop where
  whole : Whole s
  takes : ∃ behindOperand, Takes 99 ⟨[], false⟩ (tokens s) ⟨[], behindOperand⟩

namespace Operand

variable {r r' : Nat} {s t k : String}

theorem mono (h : Operand r s) (hle : r ≤ r') : Operand r' s :=
  ⟨h.whole, h.takes.mono hle⟩

theorem any (h : Operand r s) : Operand 99 s :=
  ⟨h.whole, h.takes.any⟩

theorem tighten (h : Operand r s) (hr : r < 4) : Operand 0 s :=
  ⟨h.whole, h.takes.tighten hr⟩

theorem enclosed (h : Operand r s) : Enclosed s :=
  ⟨h.whole, true, h.takes.any⟩

/-- An operand exposes no operator of a rank above its bound. -/
theorem exposed (h : Operand r s) :
    ∃ orders, exposed s = some orders ∧ ∀ order ∈ orders, order.rank ≤ r := by
  obtain ⟨orders, hscan, hranks⟩ := takes_iff.mp h.takes
  refine ⟨orders, ?_, hranks⟩
  rw [Script.exposed, if_pos h.whole.closed, hscan]

/-- An operand with a bound that no operator meets exposes none. -/
theorem exposed_eq_nil (h : Operand r s) (hr : r < 4) : Script.exposed s = some [] := by
  obtain ⟨orders, hscan, hranks⟩ := takes_iff.mp h.takes
  have hnone : orders = [] := by
    rw [List.eq_nil_iff_forall_not_mem]
    intro order horder
    have h4 := four_le_of_scan hscan order horder
    have hle := hranks order horder
    omega
  rw [Script.exposed, if_pos h.whole.closed, hscan, hnone]

theorem ne_empty (h : Operand r s) : s ≠ "" := by
  rintro rfl
  obtain ⟨orders, hscan, -⟩ := takes_iff.mp h.takes
  exact absurd (scan_nil_iff.mp hscan).2 (by decide)

theorem append (hs : Operand r s) (hk : Suffix k) : Operand r (s ++ k) := by
  obtain ⟨hwhole, hstarts, htakes⟩ := hk
  refine ⟨hs.whole.append hwhole, ?_⟩
  rw [tokens_append hs.whole.closed (hstarts.seam s)]
  exact hs.takes.append (htakes.mono (Nat.zero_le r))

theorem between (hs : Operand r s) (hk : Between r k) (ht : Operand r t) :
    Operand r (s ++ k ++ t) := by
  obtain ⟨hwhole, hstarts, hends, htakes⟩ := hk
  have hleft := hs.whole.append hwhole
  refine ⟨hleft.append ht.whole, ?_⟩
  rw [tokens_append hleft.closed ((hends.append s).seam hleft.closed t),
    tokens_append hs.whole.closed (hstarts.seam s)]
  exact (hs.takes.append htakes).append ht.takes

theorem bang (hs : Operand r s) (hr : 4 ≤ r) : Operand r ("!" ++ s) := by
  have hwhole : Whole "!" := by decide
  have htakes : Takes 4 ⟨[], false⟩ (tokens "!") ⟨[], false⟩ := by decide
  refine ⟨hwhole.append hs.whole, ?_⟩
  rw [tokens_append hwhole.closed (seam_bang hs.whole.negatable)]
  exact (htakes.mono hr).append hs.takes

theorem minus (hs : Operand r s) (hr : 4 ≤ r) : Operand r ("-" ++ s) := by
  have hwhole : Whole "-" := by decide
  have htakes : Takes 4 ⟨[], false⟩ (tokens "-") ⟨[], false⟩ := by decide
  refine ⟨hwhole.append hs.whole, ?_⟩
  rw [tokens_append hwhole.closed (seam_minus s)]
  exact (htakes.mono hr).append hs.takes

/-- An operand with a bracket behind it, as of a call. -/
theorem opens {b : Bracket} (hs : Operand r s) (hk : Opener b k) : Opens r b (s ++ k) := by
  obtain ⟨hwhole, hstarts, hends, htakes⟩ := hk
  refine ⟨hs.whole.append hwhole, hends.append s, ?_⟩
  rw [tokens_append hs.whole.closed (hstarts.seam s)]
  exact hs.takes.append (htakes.mono (Nat.zero_le r))

end Operand

/-- What stands in a bracket is not exposed. -/
theorem Opens.enclose {r : Nat} {b : Bracket} {o s k : String} (ho : Opens r b o)
    (hs : Enclosed s) (hk : Closer b k) : Operand r (o ++ s ++ k) := by
  obtain ⟨hwhole, hends, htakes⟩ := ho
  obtain ⟨hwhole', hstarts, htakes'⟩ := hk
  obtain ⟨behindOperand, hinside⟩ := hs.takes
  have hleft := hwhole.append hs.whole
  refine ⟨hleft.append hwhole', ?_⟩
  rw [tokens_append hleft.closed (hstarts.seam _), tokens_append hwhole.closed
    (hends.seam hwhole.closed s)]
  have houter : Takes r ⟨[b], false⟩ (tokens s) ⟨[b], behindOperand⟩ :=
    (hinside.inside (List.cons_ne_nil b [])).mono (Nat.zero_le r)
  exact (htakes.append houter).append ((htakes' behindOperand).mono (Nat.zero_le r))

theorem enclosed_empty : Enclosed "" :=
  ⟨by decide, false, by decide⟩

/-! ## Joined operands -/

/-- Operands with one text between each two are an operand. -/
theorem Operand.join {r : Nat} {separator : String} (hsep : Between r separator) :
    ∀ {texts : List String}, texts ≠ [] → (∀ s ∈ texts, Operand r s) →
      Operand r (Text.join separator texts)
  | [], hne, _ => absurd rfl hne
  | [s], _, h => h s List.mem_cons_self
  | s :: t :: rest, _, h => by
    have htail : Operand r (Text.join separator (t :: rest)) :=
      Operand.join hsep (List.cons_ne_nil t rest) fun u hu => h u (List.mem_cons_of_mem s hu)
    exact (h s List.mem_cons_self).between hsep htail

/-- The arguments of a call may stand in its brackets. -/
theorem enclosed_join {separator : String} (hsep : Between 99 separator) {texts : List String}
    (h : ∀ s ∈ texts, Operand 99 s) : Enclosed (Text.join separator texts) := by
  cases texts with
  | nil => exact enclosed_empty
  | cons s rest => exact (Operand.join hsep (List.cons_ne_nil s rest) h).enclosed

end BlockScript.Script
