/-
  BlockScript.Proofs.Generate.ValueChain

  Trees of values in which a value may also follow another one. What follows is never written: a
  value cannot be followed by a value that yields code. But a block that is passed over hands on the
  code of the one behind it, so that a slot may hold code of a block that is not the one in the slot.
-/
import BlockScript.Proofs.Generate.Inputs

namespace BlockScript

open Gen (Allows)

variable {o : Options} {I : Pass → Prop}

namespace Site

/-- Code without comment lines is complete, if all that follows it is empty. -/
theorem complete_allows_text {site : Site} {alone : Bool} {text : String}
    (hcomments : site.comments = pure "")
    (hnext : Allows o I site.nextCode fun code => ∀ tail, code = .statement tail → tail = "") :
    Allows o I (site.complete text alone) (· = text) := by
  rw [complete, hcomments, pure_bind, String.empty_append]
  cases alone with
  | true => exact Allows.pure rfl
  | false =>
    refine hnext.bind fun code hcode => ?_
    cases code with
    | statement tail =>
      exact Allows.pure (by rw [hcode tail rfl, String.append_empty])
    | expression _ _ => exact Allows.throw _

end Site

namespace Block

/-- A block of a kind that yields a value, with blocks of this sort in its value slots and behind
    it. -/
inductive ValueChain : Block → Prop
  | mk {head : Head} {values statements : Slots} {next : Option Block} {kind : ValueKind}
      (hkind : head.kind = .value kind)
      (hvalues : ∀ name c, (name, some c) ∈ values → ValueChain c)
      (hnext : ∀ c, next = some c → ValueChain c) :
      ValueChain (.mk head values statements next)

namespace ValueChain

/-- What the rules make of code in the slots of a block is so of the code of the block: of every
    value whose rule writes it, and of every block that is passed over if it is so of the next. Alone,
    a block that is passed over has no code. -/
theorem code_allows_of {Q : Block → Code → Prop}
    (hrecord : ∀ entry, Allows o I (Gen.record entry) fun _ => True)
    (hempty : ∀ b, b.head.enabled = false → b.next = none → Q b (.statement ""))
    (hsilent : ∀ b text, Q b (.statement text) → text = "")
    (hpassed : ∀ b c code, b.head.enabled = false → b.next = some c → Q c code → Q b code)
    (hrule : ∀ b attached kind, b.head.kind = .value kind → b.head.enabled = true →
      (∀ name c, inSlot b.values name = some c → Allows o I (c.code true false) (Q c)) →
      Allows o I ((b.site attached).expression kind) fun e => Q b (.expression e.1 e.2))
    {b : Block} (h : b.ValueChain) :
    ∀ attached alone, attached = true ∨ b.nestedComments = [] →
      Allows o I (b.code attached alone) fun code =>
        Q b code ∨ alone = true ∧ code = .statement "" := by
  induction h with
  | @mk head values statements next kind hkind hvalues hnext ihvalues ihnext =>
    intro attached alone hcomments
    let b := Block.mk head values statements next
    have hfollowing : ∀ Q' : Code → Prop, (next = none → Q' (.statement "")) →
        (∀ c code, next = some c → Q c code → Q' code) →
        Allows o I (b.site attached).nextCode Q' := by
      intro Q' hnone hsome
      cases next with
      | none => exact Allows.pure (hnone rfl)
      | some c =>
        refine (ihnext c rfl true false (Or.inl rfl)).mono fun code hcode => ?_
        exact hsome c code rfl (hcode.resolve_right fun h => Bool.false_ne_true h.1)
    have hcode : head.enabled = true → Allows o I (b.site attached).rule fun result =>
        ∃ text order, result = some (.expression text order) ∧ Q b (.expression text order) := by
      intro henabled
      rw [Site.rule, show (b.site attached).kind = .value kind from hkind]
      refine (hrule b attached kind hkind henabled fun name c hc => ?_).bind fun e he => ?_
      · refine (ihvalues name c (mem_of_inSlot hc) true false (Or.inl rfl)).mono fun code hcode => ?_
        exact hcode.resolve_right fun h => Bool.false_ne_true h.1
      · exact Allows.pure ⟨e.1, e.2, rfl, he⟩
    rw [code_eq_site_code]
    refine Site.code_allows_of_enabled ?_ hcode ?_
    · intro henabled
      refine (hrecord _).bind fun _ _ => ?_
      cases alone with
      | true => exact Allows.pure (Or.inr ⟨rfl, rfl⟩)
      | false =>
        refine (hfollowing (Q b) (hempty b henabled) fun c code hc => ?_).mono fun _ => Or.inl
        exact hpassed b c code henabled hc
    · rintro _ ⟨text, order, rfl, htext⟩
      cases houtput : head.hasOutput with
      | false =>
        rw [Site.finished, show (b.site attached).head.hasOutput = false from houtput]
        exact Allows.throw _
      | true =>
        have hnone : (b.site attached).comments = pure "" := by
          rcases hcomments with rfl | hcomments
          · exact Site.comments_eq_pure_of_inline (by
              rw [Site.isInline, show (b.site true).head.hasOutput = true from houtput]
              rfl)
          · exact Site.comments_eq_pure hcomments attached
        have hcomplete : Allows o I ((b.site attached).complete text alone) (· = text) :=
          Site.complete_allows_text hnone (hfollowing _ (fun _ tail h => (Code.statement.inj h).symm)
            fun c code _ hcode tail h => hsilent c tail (h ▸ hcode))
        rw [Site.finished, show (b.site attached).head.hasOutput = true from houtput]
        refine hcomplete.bind fun text' htext' => ?_
        rw [htext']
        exact Allows.pure (Or.inl htext)

end ValueChain

end Block

end BlockScript
