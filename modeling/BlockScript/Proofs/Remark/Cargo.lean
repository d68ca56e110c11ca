/-
  BlockScript.Proofs.Remark.Cargo

  Two runs side by side over blocks that differ in the wording of comments, with an account of the
  comments. A comment that a step takes up is in the text that the step gives, or in a definition; a
  definition may not be replaced, so the procedures that steps define are accounted for as well.

  The account of steps that are put together is the sum of their accounts: what the first step gives is
  handed to the second one, which has to place it.
-/
import BlockScript.Proofs.Generate.Lockstep
import BlockScript.Proofs.Procedure.Linkage
import BlockScript.Proofs.Remark.Wording

namespace BlockScript

open Definitions (helperKey procedureKey)
open Text (Apportioned Retold)

/-- What comes with code: the procedures that it defines, by their names in lower case, and its
    comments, each with the one in its place on the other side. -/
abbrev Cargo : Type := Multiset String × Multiset (String × String)

/-! ## Definitions -/

namespace Definitions

/-- Definitions under the same keys, with texts that are the same but for the wording of comments.
    Those with comments are under keys that are bound. -/
def Laden (Bound : String → Prop) : Multiset (String × String) → Definitions → Definitions → Prop :=
  Apportioned fun comments d e =>
    d.1 = e.1 ∧ Retold comments d.2 e.2 ∧ (comments = 0 ∨ Bound d.1)

namespace Laden

variable {Bound Bound' : String → Prop} {comments comments' : Multiset (String × String)}
  {ds es : Definitions}

theorem mono (h : Laden Bound comments ds es) (hbound : ∀ key, Bound key → Bound' key) :
    Laden Bound' comments ds es := by
  induction h with
  | nil => exact .nil
  | cons h _ ih => exact .cons ⟨h.1, h.2.1, h.2.2.imp_right (hbound _)⟩ ih

theorem hasKey (h : Laden Bound comments ds es) (key : String) : ds.hasKey key = es.hasKey key := by
  induction h with
  | nil => rfl
  | cons h _ ih =>
    simp only [Definitions.hasKey] at ih ⊢
    rw [List.any_cons, List.any_cons, h.1, ih]

/-- Under a key that is not bound no comment is replaced. -/
theorem set (h : Laden Bound comments ds es) {key : String} (hkey : ¬ Bound key) {s t : String}
    (htext : Retold comments' s t) (hbound : ∀ key, Bound key → Bound' key)
    (hlast : comments' = 0 ∨ Bound' key) :
    Laden Bound' (comments + comments') (ds.set key s) (es.set key t) := by
  induction h with
  | nil =>
    rw [add_comm]
    exact .cons ⟨rfl, htext, hlast⟩ .nil
  | @cons first rest d e ds es hfirst hrest ih =>
    obtain ⟨k, x⟩ := d
    obtain ⟨k', y⟩ := e
    obtain ⟨rfl, htexts, hcases⟩ := hfirst
    rw [Definitions.set, Definitions.set]
    split
    · -- The text that is replaced has no comments.
      rename_i hsame
      obtain rfl : first = 0 := hcases.resolve_right (hsame ▸ hkey)
      rw [zero_add, add_comm]
      exact .cons ⟨rfl, htext, hsame ▸ hlast⟩ (Laden.mono hrest hbound)
    · rw [add_assoc]
      exact .cons ⟨rfl, htexts, hcases.imp_right (hbound _)⟩ ih

theorem texts (h : Laden Bound comments ds es) : Apportioned Retold comments ds.texts es.texts := by
  induction h with
  | nil => exact .nil
  | cons h _ ih => exact .cons h.2.1 ih

end Laden

end Definitions

/-! ## Passes -/

/-- Whether a key is that of a procedure with one of some names, in lower case. -/
def Pass.Binds (p : Pass) (names : Multiset String) (key : String) : Prop :=
  ∃ source emitted, key = procedureKey emitted ∧ Text.lower source ∈ names ∧
    p.Emits .procedure source emitted

/-- Two passes that differ in the comments in their definitions only. What they have taken up is the
    cargo; and a property of passes is kept in mind for the first one. -/
structure Pass.Laden (I : Pass → Prop) (cargo : Cargo) (p q : Pass) : Prop where
  stage : p.stage = q.stage
  names : p.registry.names = q.registry.names
  helpers : p.registry.helpers = q.registry.helpers
  log : p.log = q.log
  definitions : p.definitions.Laden (p.Binds cargo.1) cargo.2 q.definitions
  oneNamespace : p.registry.OneNamespace
  known : I p

namespace Pass

theorem Binds.mono {p p' : Pass} {names names' : Multiset String}
    (hemits : ∀ source emitted, p.Emits .procedure source emitted →
      p'.Emits .procedure source emitted)
    (hnames : names ⊆ names') (key : String) (h : p.Binds names key) : p'.Binds names' key := by
  obtain ⟨source, emitted, hkey, hmem, h⟩ := h
  exact ⟨source, emitted, hkey, hnames hmem, hemits source emitted h⟩

theorem not_binds_helperKey (p : Pass) (names : Multiset String) (name : String) :
    ¬ p.Binds names (helperKey name) :=
  fun ⟨_, _, hkey, _⟩ => Definitions.helperKey_ne_procedureKey _ _ hkey

/-- A name of a procedure that is new is not bound yet. -/
theorem not_binds_procedureKey {p : Pass} {names : Multiset String} {source emitted : String}
    (hnames : p.registry.OneNamespace) (hemits : p.Emits .procedure source emitted)
    (hnew : Text.lower source ∉ names) : ¬ p.Binds names (procedureKey emitted) := by
  rintro ⟨source', emitted', hkey, hmem, hemits'⟩
  obtain rfl := Definitions.procedureKey_inj hkey
  rw [← (hemits.eq_iff hnames hemits').mp rfl] at hmem
  exact hnew hmem

namespace Laden

variable {I : Pass → Prop} {cargo : Cargo} {p q : Pass}

/-- More names may count as defined. -/
theorem mono (h : p.Laden I cargo q) {names : Multiset String} (hnames : cargo.1 ≤ names) :
    p.Laden I (names, cargo.2) q where
  stage := h.stage
  names := h.names
  helpers := h.helpers
  log := h.log
  definitions := h.definitions.mono
    (Binds.mono (fun _ _ h => h) (Multiset.subset_of_le hnames))
  oneNamespace := h.oneNamespace
  known := h.known

/-- Something else may be kept in mind. -/
theorem know {J : Pass → Prop} (h : p.Laden I cargo q) (hJ : J p) : p.Laden J cargo q :=
  { h with known := hJ }

/-- Whatever property a step keeps, it keeps what is emitted. -/
theorem binds_of_invariant {p' : Pass}
    (h : ∀ J, Pass.IsInvariant J → J p → J p') (names : Multiset String) (key : String) :
    p.Binds names key → p'.Binds names key :=
  Binds.mono (fun source emitted => h _ (isInvariant_emits .procedure source emitted))
    (fun _ h => h) key

section
variable (hI : Pass.IsInvariant I) (h : p.Laden I cargo q)
include hI h

theorem record (entry : Record) : (p.record entry).Laden I cargo (q.record entry) where
  stage := h.stage
  names := h.names
  helpers := h.helpers
  log := congrArg (·.record entry) h.log
  definitions := h.definitions
  oneNamespace := h.oneNamespace
  known := hI.record p entry h.known

theorem name (name : String) (category : Category) :
    (p.name name category).1 = (q.name name category).1 ∧
      (p.name name category).2.Laden I cargo (q.name name category).2 := by
  have hstep : ∀ J, Pass.IsInvariant J → J p → J (p.name name category).2 :=
    fun J hJ => hJ.name p name category
  have hnamed := hstep _ isInvariant_oneNamespace h.oneNamespace
  have hknown := hstep I hI h.known
  have hbinds := binds_of_invariant hstep cargo.1
  have hnames : p.names = q.names := h.names
  rw [Pass.name] at hnamed hknown hbinds
  rw [Pass.name, Pass.name, ← hnames]
  have hlog : ∀ entries, p.log.recordAll entries = q.log.recordAll entries :=
    fun entries => congrArg (·.recordAll entries) h.log
  exact ⟨rfl, h.stage, rfl, h.helpers, hlog _, h.definitions.mono hbinds, hnamed, hknown⟩

theorem provide (indent : Except Fault String) (name : String) (template : List String) :
    (p.provide indent name template).1 = (q.provide indent name template).1 ∧
      (p.provide indent name template).2.Laden I cargo (q.provide indent name template).2 := by
  have hstep : ∀ J, Pass.IsInvariant J → J p → J (p.provide indent name template).2 :=
    fun J hJ => hJ.provide p indent name template
  have hnamed := hstep _ isInvariant_oneNamespace h.oneNamespace
  have hknown := hstep I hI h.known
  have hbinds := binds_of_invariant hstep cargo.1
  have hlog : ∀ entries, p.log.recordAll entries = q.log.recordAll entries :=
    fun entries => congrArg (·.recordAll entries) h.log
  simp only [Pass.provide, Registry.provide] at hnamed hknown hbinds ⊢
  rw [h.helpers, h.names] at hnamed hknown hbinds ⊢
  -- Both sides have the helper or neither has; then the name, and the indent, fail on both or none.
  cases hlookup : q.registry.helpers.lookup name with
  | some emitted =>
    rw [hlookup] at hnamed hknown hbinds
    exact ⟨rfl, h.stage, h.names, h.helpers, hlog _, h.definitions.mono hbinds, hnamed, hknown⟩
  | none =>
    rw [hlookup] at hnamed hknown hbinds
    cases hanswer : (q.registry.names.distinct name .procedure).answer with
    | error fault =>
      simp only [hanswer, true_and] at hnamed hknown hbinds ⊢
      exact ⟨h.stage, rfl, rfl, hlog _, h.definitions.mono hbinds, hnamed, hknown⟩
    | ok emitted =>
      cases indent with
      | error fault =>
        simp only [hanswer, true_and] at hnamed hknown hbinds ⊢
        exact ⟨h.stage, rfl, rfl, hlog _, h.definitions.mono hbinds, hnamed, hknown⟩
      | ok indent =>
        simp only [hanswer, true_and] at hnamed hknown hbinds ⊢
        have hset := h.definitions.set (p.not_binds_helperKey cargo.1 name)
          (Retold.refl (Helper.reindent indent (Helper.instantiate template emitted))) hbinds
          (Or.inl rfl)
        rw [add_zero] at hset
        exact ⟨h.stage, rfl, rfl, hlog _, hset, hnamed, hknown⟩

/-- The definition of a procedure with a new name takes its comments up. -/
theorem define {source emitted : String} (hemits : p.Emits .procedure source emitted)
    (hnew : Text.lower source ∉ cargo.1) {comments : Multiset (String × String)} {s t : String}
    (htext : Retold comments s t) :
    (p.define emitted s).Laden I (cargo.1 + {Text.lower source}, cargo.2 + comments)
      (q.define emitted t) where
  stage := h.stage
  names := h.names
  helpers := h.helpers
  log := by
    simp only [Pass.define, h.definitions.hasKey, h.log]
  definitions := by
    have hbinds : ∀ key, p.Binds cargo.1 key →
        (p.define emitted s).Binds (cargo.1 + {Text.lower source}) key :=
      Binds.mono (fun _ _ h => h) (Multiset.subset_of_le (Multiset.le_add_right _ _))
    have hbound : (p.define emitted s).Binds (cargo.1 + {Text.lower source}) (procedureKey emitted) :=
      ⟨source, emitted, rfl, Multiset.mem_add.mpr (Or.inr (Multiset.mem_singleton_self _)), hemits⟩
    exact h.definitions.set (not_binds_procedureKey h.oneNamespace hemits hnew) htext hbinds
      (Or.inr hbound)
  oneNamespace := isInvariant_oneNamespace.define p emitted s h.oneNamespace
  known := hI.define p emitted s h.known

end

end Laden

theorem isAligned_laden {I : Pass → Prop} (hI : Pass.IsInvariant I) (cargo : Cargo) :
    Pass.IsAligned (Pass.Laden I cargo) where
  isActive p q h := by rw [Pass.isActive, Pass.isActive, h.stage]
  record p q entry h := h.record hI entry
  procedureName p q name h := h.name hI name .procedure
  provide p q indent name template h := h.provide hI indent name template

end Pass

/-! ## Steps -/

namespace Gen

variable {α β γ δ : Type} {o : Options}

/-- Two steps that take up no comments and give the same. -/
def Agree (o : Options) (m m' : Gen α) : Prop :=
  ∀ ⦃I : Pass → Prop⦄, Pass.IsInvariant I → ∀ cargo, Lockstep (Pass.Laden I cargo) o m m' Eq

/-- Steps that give the same may be put together. -/
theorem agree_congruence (o : Options) :
    Congruence (fun a b => a = o ∧ b = o) (Agree o) := by
  have hall : ∀ {I : Pass → Prop}, Pass.IsInvariant I → ∀ cargo,
      Congruence (fun a b => a = o ∧ b = o) fun m m' => Lockstep (Pass.Laden I cargo) o m m' Eq :=
    fun hI cargo => Abreast.congruence (Pass.isAligned_laden hI cargo) rfl
  constructor
  case pure => exact fun a _ hI cargo => (hall hI cargo).pure a
  case throw => exact fun fault h _ hI cargo => (hall hI cargo).throw fault h
  case wrapped =>
    exact fun text _ _ _ ho hwidth _ hI cargo => (hall hI cargo).wrapped text ho hwidth
  case bind => exact fun hm hf _ hI cargo => (hall hI cargo).bind (hm hI cargo) fun a => hf a hI cargo
  case options =>
    exact fun hf _ hI cargo => (hall hI cargo).options fun o o' ho => hf o o' ho hI cargo
  case requirePass => exact fun _ hI cargo => (hall hI cargo).requirePass
  case record => exact fun entry _ hI cargo => (hall hI cargo).record entry
  case call => exact fun source _ _ h _ hI cargo => (hall hI cargo).call source (h hI cargo)
  case routine =>
    exact fun routine arguments h _ hI cargo => (hall hI cargo).routine routine arguments h

theorem same_settings {o a b : Options} (h : a = o ∧ b = o) : a = b :=
  h.1.trans h.2.symm

theorem agree_variableName (o : Options) (name : String) :
    Agree o (Gen.variableName name) (Gen.variableName name) :=
  fun _ hI cargo => .onPass_eq (Pass.isAligned_laden hI cargo)
    fun _ _ h => h.name hI name .userVariable

/-- What two runs come to: the same fault, or results and passes that have all comments between
    them. -/
inductive Conveyed (I : Pass → Prop) (cargo : Cargo)
    (Q : Multiset (String × String) → α → β → Prop) :
    EStateM.Result Fault Pass α → EStateM.Result Fault Pass β → Prop
  | ok {kept given : Multiset (String × String)} {a : α} {b : β} {p q : Pass}
      (hpass : p.Laden I (cargo.1, kept) q) (hgiven : Q given a b) (htotal : kept + given = cargo.2) :
      Conveyed I cargo Q (.ok a p) (.ok b q)
  | error (fault : Fault) (p q : Pass) : Conveyed I cargo Q (.error fault p) (.error fault q)

/-- Two steps side by side that convey a cargo: from passes that have taken up some cargo they come to
    passes that have taken up the names of theirs, too, and the comments that are not in the results.
    No procedure may be defined twice. -/
def Conveys (o : Options) (m : Gen α) (m' : Gen β) (cargo : Cargo)
    (Q : Multiset (String × String) → α → β → Prop) : Prop :=
  ∀ ⦃I : Pass → Prop⦄, Pass.IsInvariant I → ∀ before p q, p.Laden I before q →
    (before + cargo).1.Nodup → Conveyed I (before + cargo) Q (m o p) (m' o q)

namespace Conveys

variable {m : Gen α} {m' : Gen β} {cargo cargo' : Cargo}
  {Q Q' : Multiset (String × String) → α → β → Prop} {R : Multiset (String × String) → γ → δ → Prop}

/-- A result with all the comments; there may be names that are not used. -/
theorem pure {a : α} {b : β} (h : Q cargo.2 a b) : Conveys o (pure a) (pure b) cargo Q := by
  intro I hI before p q hpass _
  exact .ok (hpass.mono (Multiset.le_add_right _ _)) h rfl

theorem throw (fault : Fault) : Conveys o (throw fault : Gen α) (throw fault : Gen β) cargo Q :=
  fun _ _ _ p q _ _ => .error fault p q

theorem mono (hm : Conveys o m m' cargo Q) (h : ∀ given a b, Q given a b → Q' given a b) :
    Conveys o m m' cargo Q' := by
  intro I hI before p q hpass hnodup
  have hboth := hm hI before p q hpass hnodup
  generalize m o p = result, m' o q = result' at hboth ⊢
  cases hboth with
  | ok hpass' hgiven htotal => exact .ok hpass' (h _ _ _ hgiven) htotal
  | error fault p' q' => exact .error fault p' q'

/-- What the first steps give is added to the cargo of the second ones. -/
theorem bind {f : α → Gen γ} {f' : β → Gen δ} (hm : Conveys o m m' cargo Q)
    (hf : ∀ given a b, Q given a b → Conveys o (f a) (f' b) (cargo' + (0, given)) R) :
    Conveys o (m >>= f) (m' >>= f') (cargo + cargo') R := by
  intro I hI before p q hpass hnodup
  have hnames : (before + cargo).1.Nodup := by
    refine Multiset.nodup_of_le ?_ hnodup
    rw [← add_assoc]
    exact Multiset.le_add_right _ _
  have hfirst := hm hI before p q hpass hnames
  rw [bind_apply, bind_apply]
  generalize m o p = result, m' o q = result' at hfirst
  cases hfirst with
  | @ok kept given a b p' q' hpass' hgiven htotal =>
    -- What is kept in the passes and what is handed on are together what there was and the cargo.
    have htotal' : ((before + cargo).1, kept) + (cargo' + (0, given)) =
        before + (cargo + cargo') := by
      apply Prod.ext
      · show (before + cargo).1 + (cargo'.1 + 0) = before.1 + (cargo.1 + cargo'.1)
        rw [add_zero, ← add_assoc]
        rfl
      · show kept + (cargo'.2 + given) = before.2 + (cargo.2 + cargo'.2)
        rw [← add_assoc before.2, ← Prod.snd_add, ← htotal, add_assoc, add_comm given]
    have hsecond := hf given a b hgiven hI _ p' q' hpass' (htotal'.symm ▸ hnodup)
    rwa [htotal'] at hsecond
  | error fault p' q' => exact .error fault p' q'

/-- Steps that agree have no cargo. -/
theorem bind_agree {m m' : Gen α} {f f' : α → Gen β} {R : Multiset (String × String) → β → β → Prop}
    (hm : Agree o m m') (hf : ∀ a, Conveys o (f a) (f' a) cargo R) :
    Conveys o (m >>= f) (m' >>= f') cargo R := by
  intro I hI before p q hpass hnodup
  have hfirst := hm hI before p q hpass
  rw [bind_apply, bind_apply]
  generalize m o p = result, m' o q = result' at hfirst
  cases hfirst with
  | ok hpass' h =>
    subst h
    exact hf _ hI before _ _ hpass' hnodup
  | error fault p' q' => exact .error fault p' q'

/-- Steps that agree give what has no comments. -/
theorem of_agree {m m' : Gen α} {Q : Multiset (String × String) → α → α → Prop} (hm : Agree o m m')
    (h : ∀ a, Q 0 a a) : Conveys o m m' 0 Q := by
  have hboth : Conveys o (m >>= Pure.pure) (m' >>= Pure.pure) 0 Q :=
    bind_agree hm fun a => pure (h a)
  rwa [bind_pure, bind_pure] at hboth

/-- What follows sees the settings. -/
theorem options {f : Options → Gen γ} {f' : Options → Gen δ} (h : Conveys o (f o) (f' o) cargo R) :
    Conveys o (Gen.options >>= f) (Gen.options >>= f') cargo R :=
  h

/-- Steps for the items of two lists, with what all of them bring. -/
theorem mapM {f : γ → Gen α} {f' : δ → Gen β} {l : List γ} {l' : List δ} {cargoOf : γ → δ → Cargo}
    (h : List.Forall₂ (fun c d => Conveys o (f c) (f' d) (cargoOf c d) Q) l l') :
    Conveys o (l.mapM f) (l'.mapM f') (List.zipWith cargoOf l l').sum (Apportioned Q) := by
  induction h with
  | nil =>
    rw [List.mapM_nil, List.mapM_nil]
    exact pure .nil
  | @cons c d l l' hfirst _ ih =>
    rw [List.mapM_cons, List.mapM_cons, List.zipWith_cons_cons, List.sum_cons]
    apply hfirst.bind
    intro given a b hab
    apply ih.bind
    exact fun given' as bs hrest => pure (.cons hab hrest)

/-- Steps for the items of one list. -/
theorem mapM_self {f f' : γ → Gen α} {l : List γ} {cargoOf : γ → Cargo}
    {Q : Multiset (String × String) → α → α → Prop}
    (h : ∀ c, Conveys o (f c) (f' c) (cargoOf c) Q) :
    Conveys o (l.mapM f) (l.mapM f') (l.map cargoOf).sum (Apportioned Q) := by
  have hall : Conveys o (l.mapM f) (l.mapM f') (List.zipWith (fun c _ => cargoOf c) l l).sum
      (Apportioned Q) := mapM (List.forall₂_same.mpr fun c _ => h c)
  rwa [List.zipWith_self] at hall

/-- Second steps that bring nothing but what the first ones give. -/
theorem bind_last {f : α → Gen γ} {f' : β → Gen δ} (hm : Conveys o m m' cargo Q)
    (hf : ∀ given a b, Q given a b → Conveys o (f a) (f' b) (0, given) R) :
    Conveys o (m >>= f) (m' >>= f') cargo R := by
  rw [← add_zero cargo]
  apply hm.bind
  intro given a b hab
  rw [zero_add]
  exact hf given a b hab

/-- Texts are indented alike, or the indent of the settings is a fault for both. -/
theorem indented {given : Multiset (String × String)} {s t : String} (h : Retold given s t) :
    Conveys o (Site.indented s) (Site.indented t) (0, given) Retold := by
  apply options
  apply bind_agree ((agree_congruence o).lift o.indentText_bounds)
  intro lead
  rcases h.prefixLines lead with ⟨fault, hs, ht⟩ | ⟨s', t', hs, ht, h'⟩
  · rw [hs, ht]
    exact throw fault
  · rw [hs, ht]
    exact pure h'

end Conveys

/-! ### Definitions -/

/-- A name of a procedure is given out on both sides, and kept in mind. -/
theorem procedureName_laden {I : Pass → Prop} (hI : Pass.IsInvariant I) {before : Cargo} {p q : Pass}
    (hpass : p.Laden I before q) (source : String) :
    (∃ fault p' q', Gen.procedureName source o p = .error fault p' ∧
      Gen.procedureName source o q = .error fault q') ∨
    ∃ emitted p' q', Gen.procedureName source o p = .ok emitted p' ∧
      Gen.procedureName source o q = .ok emitted q' ∧
      p'.Laden (fun r => I r ∧ r.Emits .procedure source emitted) before q' := by
  have hboth : Outcome (Pass.Laden I before) Eq (Gen.procedureName source o p)
      (Gen.procedureName source o q) :=
    Abreast.procedureName (Pass.isAligned_laden hI before) source p q hpass
  cases hrun : Gen.procedureName source o p with
  | error fault p' =>
    rw [hrun] at hboth
    generalize Gen.procedureName source o q = result' at hboth ⊢
    cases hboth with
    | error _ _ q' => exact Or.inl ⟨fault, p', q', rfl, rfl⟩
  | ok emitted p' =>
    obtain ⟨-, hanswer, rfl⟩ := onPass_eq_ok hrun
    have hemits := Pass.emits_of_name hanswer
    rw [hrun] at hboth
    generalize Gen.procedureName source o q = result' at hboth ⊢
    cases hboth with
    | ok hpass' hsame =>
      exact Or.inr ⟨_, _, _, rfl, by rw [hsame], hpass'.know ⟨hpass'.known, hemits⟩⟩

/-- A definition under a new name takes the comments of its text up. -/
theorem define_conveyed {I : Pass → Prop} (hI : Pass.IsInvariant I) {source emitted : String}
    {names : Multiset String} {kept given : Multiset (String × String)} {p q : Pass}
    (hpass : p.Laden (fun r => I r ∧ r.Emits .procedure source emitted) (names, kept) q)
    (hnew : Text.lower source ∉ names) {s t : String} (htext : Retold given s t) :
    Conveyed I (names + {Text.lower source}, kept + given) (fun given _ _ => given = 0)
      (Gen.define emitted s o p) (Gen.define emitted t o q) := by
  have hactive : p.isActive = q.isActive := by rw [Pass.isActive, Pass.isActive, hpass.stage]
  by_cases hp : p.isActive = true
  · have hq : q.isActive = true := hactive ▸ hp
    have hdefine := (hpass.know hpass.known.1).define hI hpass.known.2 hnew htext
    rw [Gen.define, Gen.define, onPass_apply _ hp, onPass_apply _ hq]
    exact .ok hdefine rfl (add_zero _)
  · have hq : ¬ q.isActive = true := hactive ▸ hp
    rw [Gen.define, Gen.define, onPass_of_not_active _ hp, onPass_of_not_active _ hq]
    exact .error .noPass p q

/-- A procedure is named, and then defined by its text. -/
theorem Conveys.definition {cargo : Cargo} {source : String} {text text' : String → Gen String}
    (h : ∀ name, Conveys o (text name) (text' name) cargo Retold) :
    Conveys o (Gen.procedureName source >>= fun name => text name >>= Gen.define name)
      (Gen.procedureName source >>= fun name => text' name >>= Gen.define name)
      (cargo + ({Text.lower source}, 0)) fun given _ _ => given = 0 := by
  intro I hI before p q hpass hnodup
  have hsum : before + (cargo + ({Text.lower source}, 0)) =
      ((before + cargo).1 + {Text.lower source}, (before + cargo).2) := by
    rw [← add_assoc]
    exact Prod.ext rfl (add_zero _)
  rw [hsum] at hnodup ⊢
  rw [bind_apply, bind_apply]
  rcases procedureName_laden hI hpass source with
    ⟨fault, p', q', hp, hq⟩ | ⟨emitted, p', q', hp, hq, hpass'⟩
  · rw [hp, hq]
    exact .error fault p' q'
  · rw [hp, hq]
    have hnames : (before + cargo).1.Nodup := Multiset.nodup_of_le (Multiset.le_add_right _ _) hnodup
    -- The name is new, also after the steps for the text: it is counted behind their cargo.
    have hnew : Text.lower source ∉ (before + cargo).1 := by
      intro hmem
      exact Multiset.disjoint_left.mp (Multiset.nodup_add.mp hnodup).2.2 hmem
        (Multiset.mem_singleton_self _)
    have htext := h emitted (hI.and (Pass.isInvariant_emits .procedure source emitted)) before p' q'
      hpass' hnames
    show Conveyed I _ _ ((text emitted >>= Gen.define emitted) o p')
      ((text' emitted >>= Gen.define emitted) o q')
    rw [bind_apply, bind_apply]
    generalize text emitted o p' = result, text' emitted o q' = result' at htext
    cases htext with
    | error fault p'' q'' => exact .error fault p'' q''
    | ok hpass'' hgiven htotal =>
      rw [← htotal]
      exact define_conveyed hI hpass'' hnew hgiven

end Gen

end BlockScript
