/-
  BlockScript.Proofs.Script.Operator

  All operators that an expression exposes: the symbols and other marks outside of its brackets and
  literals, the accesses to members and the calls. `Exposes P` says that a text reads as an operand
  and that all of its operators are in `P`; like `Operand`, it is closed under the ways in which
  expressions are put together.
-/
import BlockScript.Proofs.Script.Recognition

namespace BlockScript

/-- Whether a class is one of operators that code is written with. -/
def Order.isOperator (op : Order) : Bool :=
  op ≠ atomic && op ≠ new && op ≠ none

namespace Script

/-! ## Operators of tokens -/

/-- The precedence of a mark that is an operator. -/
def markOrder? : Char → Option Order
  | '.' => some .member
  | '~' => some .bitwiseNot
  | '*' => some .multiplication
  | '/' => some .division
  | '%' => some .modulus
  | '&' => some .bitwiseAnd
  | '^' => some .bitwiseXor
  | '|' => some .bitwiseOr
  | '=' => some .assignment
  | ',' => some .comma
  | _ => none

/-- The operators that one more token exposes. A bracket behind an operand is a call, or the access
    to a member. -/
def Place.operators (place : Place) (t : Token) : List Order :=
  if place.brackets ≠ [] then []
  else match t with
    | .symbol s => [s.order place.behindOperand]
    | .mark c => (markOrder? c).toList
    | .opening .round => if place.behindOperand then [.functionCall] else []
    | .opening .square => if place.behindOperand then [.member] else []
    | _ => []

theorem Place.operators_inside {place : Place} (h : place.brackets ≠ []) (t : Token) :
    place.operators t = [] :=
  if_pos h

/-- The operators that tokens expose, up to a bracket that closes none. -/
def operatorsFrom : Place → List Token → List Order
  | _, [] => []
  | place, t :: rest =>
    match place.step? t with
    | none => []
    | some (_, next) => place.operators t ++ operatorsFrom next rest

/-- All operators that a text exposes, if its literals are closed and its brackets match. -/
def operators (s : String) : Option (List Order) :=
  (exposed s).map fun _ => operatorsFrom ⟨[], false⟩ (tokens s)

theorem operatorsFrom_append {place middle : Place} {ts : List Token} {orders : List Order}
    (h : scan place ts = some (orders, middle)) (us : List Token) :
    operatorsFrom place (ts ++ us) = operatorsFrom place ts ++ operatorsFrom middle us := by
  induction ts generalizing place orders with
  | nil =>
    obtain ⟨-, rfl⟩ := scan_nil_iff.mp h
    rfl
  | cons t rest ih =>
    obtain ⟨first, next, more, hstep, hrest, -⟩ := scan_cons_iff.mp h
    simp only [List.cons_append, operatorsFrom, hstep, ih hrest, List.append_assoc]

/-- Nothing is exposed inside of further brackets. -/
theorem operatorsFrom_inside {place last : Place} {ts : List Token} {orders : List Order}
    (h : scan place ts = some (orders, last)) {outer : List Bracket} (houter : outer ≠ []) :
    operatorsFrom ⟨place.brackets ++ outer, place.behindOperand⟩ ts = [] := by
  induction ts generalizing place orders with
  | nil => rfl
  | cons t rest ih =>
    obtain ⟨first, next, more, hstep, hrest, -⟩ := scan_cons_iff.mp h
    have hinside : place.brackets ++ outer ≠ [] := List.append_ne_nil_of_right_ne_nil _ houter
    simp only [operatorsFrom, step?_inside hstep houter, ih hrest, List.append_nil]
    exact Place.operators_inside hinside t

theorem isOperator_of_mem_operators {place : Place} {t : Token} {op : Order}
    (h : op ∈ place.operators t) : op.isOperator = true := by
  rw [Place.operators.eq_def] at h
  split at h
  · cases h
  · cases t with
    | symbol s =>
      rw [List.mem_singleton.mp h]
      cases s <;> cases place.behindOperand <;> rfl
    | mark c =>
      have hmark : ∀ op, markOrder? c = some op → op.isOperator = true := by
        rw [markOrder?.eq_def]
        split <;> simp [Order.isOperator]
      exact hmark op (Option.mem_toList.mp h)
    | opening b =>
      cases b with
      | round | square =>
        simp only [List.mem_ite_nil_right, List.mem_singleton] at h
        rw [h.2]
        rfl
      | curly => cases h
    | _ => cases h

theorem isOperator_of_mem_operatorsFrom {place : Place} {ts : List Token} {op : Order}
    (h : op ∈ operatorsFrom place ts) : op.isOperator = true := by
  induction ts generalizing place with
  | nil => cases h
  | cons t rest ih =>
    rw [operatorsFrom] at h
    split at h
    · cases h
    · rcases List.mem_append.mp h with h | h
      · exact isOperator_of_mem_operators h
      · exact ih h

/-- The operators of an operand are known. -/
theorem Operand.operators_eq {r : Nat} {s : String} (h : Operand r s) :
    operators s = some (operatorsFrom ⟨[], false⟩ (tokens s)) := by
  obtain ⟨orders, hexposed, -⟩ := h.exposed
  rw [operators, hexposed]
  rfl

/-! ## Bounds on all operators -/

/-- A text that reads as an operand and exposes operators of one sort only. -/
structure Exposes (P : Order → Bool) (s : String) : Prop where
  operand : Operand 99 s
  all : ∀ op ∈ operatorsFrom ⟨[], false⟩ (tokens s), P op = true

instance (P : Order → Bool) (s : String) : Decidable (Exposes P s) :=
  decidable_of_iff (Operand 99 s ∧ ∀ op ∈ operatorsFrom ⟨[], false⟩ (tokens s), P op = true)
    ⟨fun ⟨h₁, h₂⟩ => ⟨h₁, h₂⟩, fun ⟨h₁, h₂⟩ => ⟨h₁, h₂⟩⟩

namespace Exposes

variable {P Q : Order → Bool} {b : Bracket} {r : Nat} {s t k : String}

theorem mono (h : Exposes P s) (hPQ : ∀ op, op.isOperator = true → P op = true → Q op = true) :
    Exposes Q s :=
  ⟨h.operand, fun op hop => hPQ op (isOperator_of_mem_operatorsFrom hop) (h.all op hop)⟩

/-- A text of one token that is an operand exposes nothing. -/
theorem of_token {token : Token} (h : Operand r s) (htokens : tokens s = [token])
    (htoken : Place.operators ⟨[], false⟩ token = []) : Exposes P s := by
  refine ⟨h.any, ?_⟩
  rw [htokens, operatorsFrom]
  split
  · simp
  · simp [htoken, operatorsFrom]

/-- What an operand exposes is what its texts expose, one behind the other. -/
theorem operatorsFrom_eq (h : Exposes P s) {us : List Token} :
    operatorsFrom ⟨[], false⟩ (tokens s ++ us) =
      operatorsFrom ⟨[], false⟩ (tokens s) ++ operatorsFrom ⟨[], true⟩ us := by
  obtain ⟨orders, hscan, -⟩ := takes_iff.mp h.operand.takes
  exact operatorsFrom_append hscan us

theorem append (hs : Exposes P s) (hk : Suffix k)
    (hP : ∀ op ∈ operatorsFrom ⟨[], true⟩ (tokens k), P op = true) : Exposes P (s ++ k) := by
  refine ⟨hs.operand.append hk, ?_⟩
  obtain ⟨-, hstarts, -⟩ := hk
  rw [tokens_append hs.operand.whole.closed (hstarts.seam s), hs.operatorsFrom_eq]
  exact List.forall_mem_append.mpr ⟨hs.all, hP⟩

theorem between (hs : Exposes P s) (hk : Between r k)
    (hP : ∀ op ∈ operatorsFrom ⟨[], true⟩ (tokens k), P op = true) (ht : Exposes P t) :
    Exposes P (s ++ k ++ t) := by
  have hany : Between 99 k := ⟨hk.1, hk.2.1, hk.2.2.1, hk.2.2.2.any⟩
  refine ⟨hs.operand.between hany ht.operand, ?_⟩
  obtain ⟨hwhole, hstarts, hends, htakes⟩ := hany
  obtain ⟨orders, hscan, -⟩ := takes_iff.mp htakes
  have hleft := hs.operand.whole.append hwhole
  rw [tokens_append hleft.closed ((hends.append s).seam hleft.closed t),
    tokens_append hs.operand.whole.closed (hstarts.seam s), List.append_assoc,
    hs.operatorsFrom_eq, operatorsFrom_append hscan]
  exact List.forall_mem_append.mpr ⟨hs.all, List.forall_mem_append.mpr ⟨hP, ht.all⟩⟩

theorem bang (hs : Exposes P s) (hP : P .logicalNot = true) : Exposes P ("!" ++ s) := by
  refine ⟨hs.operand.bang (by decide), ?_⟩
  have hclosed : Closed "!" := by decide
  rw [tokens_append hclosed (seam_bang hs.operand.whole.negatable)]
  exact List.forall_mem_cons.mpr ⟨hP, hs.all⟩

theorem minus (hs : Exposes P s) (hP : P .unaryNegation = true) : Exposes P ("-" ++ s) := by
  refine ⟨hs.operand.minus (by decide), ?_⟩
  have hclosed : Closed "-" := by decide
  rw [tokens_append hclosed (seam_minus s)]
  exact List.forall_mem_cons.mpr ⟨hP, hs.all⟩

/-- What a text with an open bracket exposes is all that it exposes with anything in the bracket. -/
theorem enclose {o : String} (ho : Opens r b o)
    (hPo : ∀ op ∈ operatorsFrom ⟨[], false⟩ (tokens o), P op = true) (hs : Enclosed s)
    (hk : Closer b k)
    (hPk : ∀ behindOperand, ∀ op ∈ operatorsFrom ⟨[b], behindOperand⟩ (tokens k), P op = true) :
    Exposes P (o ++ s ++ k) := by
  refine ⟨(ho.enclose hs hk).any, ?_⟩
  obtain ⟨hwhole, hends, htakes⟩ := ho
  obtain ⟨-, hstarts, -⟩ := hk
  obtain ⟨behindOperand, hinside⟩ := hs.takes
  obtain ⟨_, hopen, -⟩ := takes_iff.mp htakes
  obtain ⟨_, hscan, -⟩ := takes_iff.mp hinside
  have hscan' : scan ⟨[b], false⟩ (tokens s) = some ([], ⟨[b], behindOperand⟩) :=
    scan_inside hscan (List.cons_ne_nil b [])
  have hnone : operatorsFrom ⟨[b], false⟩ (tokens s) = [] :=
    operatorsFrom_inside hscan (List.cons_ne_nil b [])
  have hleft := hwhole.append hs.whole
  rw [tokens_append hleft.closed (hstarts.seam _), tokens_append hwhole.closed
    (hends.seam hwhole.closed s), List.append_assoc, operatorsFrom_append hopen,
    operatorsFrom_append hscan', hnone, List.nil_append]
  exact List.forall_mem_append.mpr ⟨hPo, hPk behindOperand⟩

/-- Parentheses expose nothing. -/
theorem parens (hs : Enclosed s) : Exposes P ("(" ++ s ++ ")") := by
  have hopens : Opens 0 .round "(" := by decide
  have hnone : operatorsFrom ⟨[], false⟩ (tokens "(") = [] := by decide
  have hnone' : ∀ behindOperand,
      operatorsFrom ⟨[.round], behindOperand⟩ (tokens ")") = [] := by decide
  refine enclose hopens ?_ hs (by decide) ?_
  · rw [hnone]
    exact List.forall_mem_nil _
  · intro behindOperand
    rw [hnone']
    exact List.forall_mem_nil _

/-- A call, or another bracket behind an operand, exposes what the operand exposes and the call. -/
theorem method (hs : Exposes P s) (ho : Opener b t)
    (hPo : ∀ op ∈ operatorsFrom ⟨[], true⟩ (tokens t), P op = true) {inside : String}
    (hinside : Enclosed inside) (hk : Closer b k)
    (hPk : ∀ behindOperand, ∀ op ∈ operatorsFrom ⟨[b], behindOperand⟩ (tokens k), P op = true) :
    Exposes P (s ++ t ++ inside ++ k) := by
  refine enclose (hs.operand.opens ho) ?_ hinside hk hPk
  obtain ⟨-, hstarts, -⟩ := ho
  rw [tokens_append hs.operand.whole.closed (hstarts.seam s), hs.operatorsFrom_eq]
  exact List.forall_mem_append.mpr ⟨hs.all, hPo⟩

/-- Operands of a sort with one text between each two expose what they and the text expose. -/
theorem join {separator : String} (hsep : Between r separator)
    (hP : ∀ op ∈ operatorsFrom ⟨[], true⟩ (tokens separator), P op = true) :
    ∀ {texts : List String}, texts ≠ [] → (∀ s ∈ texts, Exposes P s) →
      Exposes P (Text.join separator texts)
  | [], hne, _ => absurd rfl hne
  | [s], _, h => h s List.mem_cons_self
  | s :: t :: rest, _, h => by
    have htail : Exposes P (Text.join separator (t :: rest)) :=
      join hsep hP (List.cons_ne_nil t rest) fun u hu => h u (List.mem_cons_of_mem s hu)
    exact (h s List.mem_cons_self).between hsep hP htail

end Exposes

/-! ## Atoms -/

section

variable {P : Order → Bool}

theorem exposes_name {s : String} (h : isName s.toList = true) : Exposes P s :=
  .of_token (operand_name h) (tokens_name h) rfl

theorem exposes_unsigned {s : String} (h : isUnsigned s.toList = true) : Exposes P s :=
  .of_token (operand_unsigned h) (tokens_unsigned h).1 rfl

theorem exposes_quote (s : String) : Exposes P (Literal.quote s) :=
  .of_token (operand_quote s) (tokens_quote s) rfl

end

/-! ## Words -/

/-- Whether a token stands for itself. -/
def Token.isAtom : Token → Bool
  | .word _ | .numeral _ | .literal _ => true
  | _ => false

/-- Whether the token that the reader is in stands for itself. -/
def Pending.isAtom : Pending → Bool
  | .symbol _ | .numeral .point _ => false
  | _ => true

theorem Pending.isAtom_tokens {pending : Pending} (h : pending.isAtom = true) :
    ∀ t ∈ pending.tokens, t.isAtom = true := by
  cases pending with
  | symbol c => cases h
  | nothing => exact List.forall_mem_nil _
  | word read => exact List.forall_mem_singleton.mpr rfl
  | numeral phase read =>
    cases phase with
    | point => cases h
    | _ => exact List.forall_mem_singleton.mpr rfl

/-- A word character belongs to an atom or begins one. -/
theorem Pending.isAtom_step {pending : Pending} (h : pending.isAtom = true) {c : Char}
    (hc : Literal.isWordChar c = true ∨ c = '\n') :
    (∀ t ∈ (pending.step (.char c)).1, t.isAtom = true) ∧
      (pending.step (.char c)).2.isAtom = true := by
  have hbegin : (Pending.begin c).1 = [] ∧ (Pending.begin c).2.isAtom = true := by
    rcases hc with hc | rfl
    · rw [Pending.begin, if_pos hc]
      split
      · exact ⟨rfl, rfl⟩
      · exact ⟨rfl, rfl⟩
    · exact ⟨rfl, rfl⟩
  have hpoint : c ≠ '.' := by
    rintro rfl
    rcases hc with hc | hc <;> exact absurd hc (by decide)
  rw [Pending.step]
  cases hextend : pending.extend? c with
  | none =>
    rw [hbegin.1, List.append_nil]
    exact ⟨isAtom_tokens h, hbegin.2⟩
  | some next =>
    cases pending with
    | nothing => cases hextend
    | symbol d => cases h
    | word read =>
      simp only [Pending.extend?, Option.ite_none_right_eq_some, Option.some.injEq] at hextend
      obtain ⟨-, rfl⟩ := hextend
      exact ⟨List.forall_mem_nil _, rfl⟩
    | numeral phase read =>
      simp only [Pending.extend?, Option.map_eq_some_iff] at hextend
      obtain ⟨phase', hphase, rfl⟩ := hextend
      have hne : phase' ≠ .point := by
        cases phase <;> grind [Phase.extend?]
      refine ⟨List.forall_mem_nil _, ?_⟩
      cases phase' with
      | point => exact absurd rfl hne
      | _ => rfl

theorem Place.operators_of_isAtom (place : Place) {t : Token} (h : t.isAtom = true) :
    place.operators t = [] := by
  rw [Place.operators.eq_def]
  cases t with
  | word name | numeral digits | literal text => exact ite_self []
  | _ => cases h

theorem operatorsFrom_of_isAtom {place : Place} {ts : List Token}
    (h : ∀ t ∈ ts, t.isAtom = true) : operatorsFrom place ts = [] := by
  induction ts generalizing place with
  | nil => rfl
  | cons t rest ih =>
    rw [operatorsFrom]
    split
    · rfl
    · rw [place.operators_of_isAtom (h t List.mem_cons_self),
        ih fun u hu => h u (List.mem_cons_of_mem t hu), List.append_nil]

/-- An operand that passes for a word, perhaps in quotes, exposes nothing. -/
theorem exposes_of_isSimple {P : Order → Bool} {r : Nat} {s : String} (hs : Operand r s)
    (h : Literal.isSimple s = true) : Exposes P s := by
  have hatoms : ∀ t ∈ tokens s, t.isAtom = true := by
    refine forall_mem_tokensFrom (I := fun pending => pending.isAtom = true)
      (C := fun part => part ∈ parts s) Pending.isAtom_tokens ?_ (fun _ hpart => hpart) rfl
    intro pending part hpending hpart
    cases part with
    | char c => exact Pending.isAtom_step hpending (char_of_isSimple h hpart)
    | literal text =>
      refine ⟨List.forall_mem_append.mpr ⟨Pending.isAtom_tokens hpending, ?_⟩, rfl⟩
      exact List.forall_mem_singleton.mpr rfl
    | comment => exact ⟨Pending.isAtom_tokens hpending, rfl⟩
  refine ⟨hs.any, ?_⟩
  rw [operatorsFrom_of_isAtom hatoms]
  exact List.forall_mem_nil _

end Script

end BlockScript
