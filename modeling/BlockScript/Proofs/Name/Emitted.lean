/-
  BlockScript.Proofs.Name.Emitted

  The names that stand in a program: those of variables and parameters, of procedures and of
  helpers. All of them come from the table of the pass, which gives out an identifier once and never
  a reserved word. The prefix of variables is written ahead of an identifier afterwards.

  So with a prefix two names of different sorts can be one text, and a variable can be a reserved
  word; without one they cannot. Of the words that the rules write with a meaning of their own, the
  built-in ones are reserved and the keywords are not: a keyword is emitted for a name that is that
  keyword, up to case, and for no other name.
-/
import BlockScript.Proofs.Name.Legible
import BlockScript.Proofs.Name.Unicity
import BlockScript.Proofs.Session.Isolation

namespace BlockScript

/-! ## Where identifiers come from -/

namespace NameTable

/-- An identifier that was found for a name of a key: the one of the name, perhaps with a number
    behind it. -/
def Found (key candidate : String) : Prop :=
  ∃ source category, memoKey source category = key ∧
    (candidate = Name.safe source ∨ ∃ n : Nat, candidate = Name.safe source ++ toString n)

/-- A request remembers nothing new, or the identifier that it found for the name that is meant. -/
theorem lookup_name {t : NameTable} {name key candidate : String} {category : Category}
    (h : (t.name name category).table.memo.lookup key = some candidate) :
    t.memo.lookup key = some candidate ∨ Found key candidate := by
  rw [NameTable.name] at h
  dsimp only at h
  split at h
  · exact Or.inl h
  · split at h
    · rw [List.lookup_cons] at h
      split at h
      · rename_i hkey
        have hfound : t.freeName (Name.safe (t.meant name category)) = candidate :=
          Option.some.inj h
        have hsource := t.freeName_eq (Name.safe (t.meant name category))
        rw [hfound] at hsource
        exact Or.inr ⟨_, category, (eq_of_beq hkey).symm, hsource⟩
      · exact Or.inl h
    · exact Or.inl h

/-- What is remembered stays so. -/
theorem lookup_name_mono {t : NameTable} {key candidate : String}
    (h : t.memo.lookup key = some candidate) (name : String) (category : Category) :
    (t.name name category).table.memo.lookup key = some candidate := by
  cases hmemo : t.memo.lookup (memoKey (t.meant name category) category) with
  | some other => rwa [(name_of_lookup_eq_some hmemo).2]
  | none =>
    obtain ⟨other, hfresh⟩ := name_fresh hmemo
    exact hfresh.lookup_mono h

end NameTable

/-! ## One namespace -/

/-- Names and helpers that share one set of identifiers: all are taken, none is reserved, and no two
    are one. -/
structure Registry.OneNamespace (r : Registry) : Prop where
  apart : r.names.Apart
  unreserved : ∀ candidate ∈ r.names.taken, candidate ∉ r.names.reserved
  found : ∀ key candidate, r.names.memo.lookup key = some candidate →
    NameTable.Found key candidate
  helper_taken : ∀ helper ∈ r.helpers, helper.2 ∈ r.names.taken
  helper_ne : ∀ helper ∈ r.helpers, ∀ key, r.names.memo.lookup key ≠ some helper.2
  helpers_ne : r.helpers.Pairwise (·.2 ≠ ·.2)

namespace Registry.OneNamespace

variable {r : Registry}

/-- A fresh identifier is added to the one set. -/
theorem fresh (h : r.OneNamespace) {g : NameTable.Grant} {after : NameTable} {candidate : String}
    (hfresh : g.Fresh after candidate) (hbefore : g.before = r.names)
    (hreserved : after.reserved = r.names.reserved)
    (hfound : ∀ key c, after.memo.lookup key = some c → NameTable.Found key c) :
    OneNamespace { r with names := after } where
  apart := hfresh.apart (hbefore ▸ h.apart)
  unreserved := by
    intro c hc
    have hfree := (NameTable.isFree_eq_true_iff.mp hfresh.isFree).2
    rw [hbefore] at hfree
    have htaken : c ∈ candidate :: r.names.taken := by
      rw [← hbefore, ← hfresh.taken]
      exact hc
    show c ∉ after.reserved
    rw [hreserved]
    rcases List.mem_cons.mp htaken with rfl | hold
    · exact hfree
    · exact h.unreserved c hold
  found := hfound
  helper_taken := by
    intro helper hhelper
    show helper.2 ∈ after.taken
    rw [hfresh.taken, hbefore]
    exact List.mem_cons_of_mem _ (h.helper_taken helper hhelper)
  helper_ne := by
    intro helper hhelper key hkey
    -- The fresh identifier was not taken, and the name of the helper was.
    rcases hfresh.lookup_after hkey with hold | ⟨heq, -⟩
    · rw [hbefore] at hold
      exact h.helper_ne helper hhelper key hold
    · have hnot := hfresh.not_mem_taken
      rw [hbefore, ← heq] at hnot
      exact hnot (h.helper_taken helper hhelper)
  helpers_ne := h.helpers_ne

/-- So is the identifier of a new helper. -/
theorem addHelper (h : r.OneNamespace) {name emitted : String} (htaken : emitted ∈ r.names.taken)
    (hne : ∀ key, r.names.memo.lookup key ≠ some emitted)
    (hhelpers : ∀ helper ∈ r.helpers, helper.2 ≠ emitted) :
    OneNamespace { r with helpers := r.helpers ++ [(name, emitted)] } where
  apart := h.apart
  unreserved := h.unreserved
  found := h.found
  helper_taken := by
    intro helper hhelper
    rcases List.mem_append.mp hhelper with hold | hnew
    · exact h.helper_taken helper hold
    · rw [List.mem_singleton.mp hnew]
      exact htaken
  helper_ne := by
    intro helper hhelper
    rcases List.mem_append.mp hhelper with hold | hnew
    · exact h.helper_ne helper hold
    · rw [List.mem_singleton.mp hnew]
      exact hne
  helpers_ne := by
    rw [List.pairwise_append]
    refine ⟨h.helpers_ne, List.pairwise_singleton _ _, ?_⟩
    intro helper hhelper other hother
    rw [List.mem_singleton.mp hother]
    exact hhelpers helper hhelper

/-- The namespace does not depend on the texts of definitions. -/
theorem congr (h : r.OneNamespace) {r' : Registry} (hnames : r'.names = r.names)
    (hhelpers : r'.helpers = r.helpers) : r'.OneNamespace := by
  obtain ⟨names, definitions, helpers⟩ := r'
  obtain rfl : names = r.names := hnames
  obtain rfl : helpers = r.helpers := hhelpers
  exact ⟨h.apart, h.unreserved, h.found, h.helper_taken, h.helper_ne, h.helpers_ne⟩

theorem name (h : r.OneNamespace) (name : String) (category : Category) :
    OneNamespace { r with names := (r.names.name name category).table } := by
  cases hmemo : r.names.memo.lookup
      (NameTable.memoKey (r.names.meant name category) category) with
  | some candidate =>
    rw [(NameTable.name_of_lookup_eq_some hmemo).2]
    exact h
  | none =>
    obtain ⟨candidate, hfresh⟩ := NameTable.name_fresh hmemo
    apply h.fresh hfresh rfl (NameTable.alike_name r.names name category).1
    intro key c hkey
    rcases NameTable.lookup_name hkey with hold | hfound
    · exact h.found key c hold
    · exact hfound

theorem provide (h : r.OneNamespace) (indent : Except Fault String) (name : String)
    (template : List String) : (r.provide indent name template).registry.OneNamespace := by
  obtain ⟨candidate, hfresh⟩ := NameTable.distinct_fresh r.names name .procedure
  have hafter : OneNamespace { r with names := (r.names.distinct name .procedure).table } := by
    apply h.fresh hfresh rfl rfl
    exact fun key c hkey => h.found key c hkey
  have hnot : candidate ∉ r.names.taken := hfresh.not_mem_taken
  have htaken : candidate ∈ (r.names.distinct name .procedure).table.taken := by
    rw [hfresh.taken]
    exact List.mem_cons_self
  -- Helpers are procedures, whose names have no prefix.
  have hanswer : (r.names.distinct name .procedure).answer = .ok candidate :=
    hfresh.answer.trans (congrArg Except.ok String.empty_append)
  have hhelper : OneNamespace { r with
      names := (r.names.distinct name .procedure).table
      helpers := r.helpers ++ [(name, candidate)] } := by
    apply hafter.addHelper htaken
    · intro key hkey
      exact hnot (h.apart.taken_of_lookup hkey)
    · intro helper hold heq
      have hmem := h.helper_taken helper hold
      rw [heq] at hmem
      exact hnot hmem
  rw [Registry.provide]
  cases r.helpers.lookup name with
  | some emitted => exact h
  | none =>
    simp only [hanswer]
    cases indent with
    | error fault => exact hhelper
    | ok indent => exact hhelper.congr rfl rfl

end Registry.OneNamespace

/-- A helper is remembered apart from the other names. -/
theorem Registry.memo_provide (r : Registry) (indent : Except Fault String) (name : String)
    (template : List String) :
    (r.provide indent name template).registry.names.memo = r.names.memo := by
  rw [provide]
  cases r.helpers.lookup name with
  | some emitted => rfl
  | none =>
    dsimp only
    cases (r.names.distinct name .procedure).answer with
    | error fault => rfl
    | ok emitted => cases indent <;> rfl

namespace Pass

theorem isInvariant_oneNamespace : IsInvariant fun p => p.registry.OneNamespace where
  record _ _ h := h
  name _ name category h := h.name name category
  provide _ indent name template h := h.provide indent name template
  define _ _ _ h := h.congr rfl rfl

/-- A pass begins with no names at all. -/
theorem oneNamespace_start (names : NameTable) (variableNames : VariableNames) :
    (start names variableNames).registry.OneNamespace where
  apart := (NameTable.apart_reset names).congr rfl rfl
  unreserved _ h := absurd h List.not_mem_nil
  found _ _ h := by cases h
  helper_taken _ h := absurd h List.not_mem_nil
  helper_ne _ h := absurd h List.not_mem_nil
  helpers_ne := List.Pairwise.nil

/-! ## Emitted names -/

/-- A name of a category that a pass has given out: the identifier that it remembers for the name
    that was meant, behind the prefix of the category. -/
def Emits (p : Pass) (category : Category) (source emitted : String) : Prop :=
  ∃ lead candidate, p.names.prefixFor category = .ok lead ∧
    p.names.memo.lookup (NameTable.memoKey source category) = some candidate ∧
    emitted = lead ++ candidate

variable {p : Pass} {category : Category} {source name emitted : String}

/-- What a request gives out, the pass emits. -/
theorem emits_of_name (h : (p.name name category).1 = .ok emitted) :
    (p.name name category).2.Emits category (p.names.meant name category) emitted := by
  have hanswer : (p.names.name name category).answer = .ok emitted := h
  have hsetting := NameTable.prefixFor_congr (NameTable.alike_name p.names name category).2 category
  cases hlead : p.names.prefixFor category with
  | error fault =>
    rw [NameTable.name] at hanswer
    dsimp only at hanswer
    rw [hlead] at hanswer
    split at hanswer <;> cases hanswer
  | ok lead =>
    cases hmemo : p.names.memo.lookup
        (NameTable.memoKey (p.names.meant name category) category) with
    | some candidate =>
      have hsame := (NameTable.name_of_lookup_eq_some hmemo).1
      rw [hanswer, hlead] at hsame
      exact ⟨lead, candidate, hsetting.trans hlead, NameTable.lookup_name_mono hmemo name category,
        Except.ok.inj hsame⟩
    | none =>
      obtain ⟨candidate, hfresh⟩ := NameTable.name_fresh hmemo
      have hsame := hfresh.answer
      simp only [hanswer, hlead] at hsame
      exact ⟨lead, candidate, hsetting.trans hlead, hfresh.lookup_source rfl hlead,
        Except.ok.inj hsame⟩

/-- What a pass emits, it emits at every later time. -/
theorem isInvariant_emits (category : Category) (source emitted : String) :
    IsInvariant fun p => p.Emits category source emitted where
  record _ _ h := h
  name := by
    rintro p name category' ⟨lead, candidate, hlead, hmemo, rfl⟩
    have hsetting := NameTable.prefixFor_congr
      (NameTable.alike_name p.names name category').2 category
    exact ⟨lead, candidate, hsetting.trans hlead,
      NameTable.lookup_name_mono hmemo name category', rfl⟩
  provide := by
    rintro p indent name template ⟨lead, candidate, hlead, hmemo, rfl⟩
    have hsetting := NameTable.prefixFor_congr (p.alike_provide indent name template).2 category
    have hsame : (p.provide indent name template).2.names.memo = p.names.memo :=
      p.registry.memo_provide indent name template
    rw [← hsame] at hmemo
    exact ⟨lead, candidate, hsetting.trans hlead, hmemo, rfl⟩
  define _ _ _ h := h

end Pass

/-- What a request gives out is emitted at the end of whatever step comes behind it, also if that
    fails. -/
theorem Gen.emits_after {o : Options} {p q : Pass} {name emitted : String} {category : Category}
    (h : onPass (fun p => p.name name category) o p = .ok emitted q) {α : Type} {m : Gen α}
    (hm : m.Composed) :
    (passAfter o m q).Emits category (p.names.meant name category) emitted := by
  obtain ⟨-, hanswer, rfl⟩ := onPass_eq_ok h
  exact hm.keeps (Pass.isInvariant_emits _ _ _) _ (Pass.emits_of_name hanswer)

/-! ## The names of a program -/

namespace Workspace

/-- The pass over a workspace when its main text is written or has failed. Its names and its helpers
    are those of the program. -/
def passBehind (w : Workspace) (o : Options) : Pass :=
  Gen.passAfter o (Session.mainText w.blocks)
    (.start (.new reservedWords o.variablePrefix?) w.variableNames)

variable {o : Options} {category : Category} {source emitted : String}

theorem oneNamespace_passBehind (w : Workspace) (o : Options) :
    (w.passBehind o).registry.OneNamespace :=
  (Session.mainText_composed w.blocks).keeps Pass.isInvariant_oneNamespace _
    (Pass.oneNamespace_start _ _)

theorem alike_passBehind (w : Workspace) (o : Options) :
    (w.passBehind o).names.Alike (.new reservedWords o.variablePrefix?) :=
  (Session.mainText_composed w.blocks).keeps (Pass.isInvariant_alike _) _ ⟨rfl, rfl⟩

/-- What stands behind the prefix of an emitted name is remembered, and not reserved. -/
theorem exists_of_emits {w : Workspace} (h : (w.passBehind o).Emits category source emitted) :
    ∃ lead name, (w.passBehind o).names.prefixFor category = .ok lead ∧ emitted = lead ++ name ∧
      (w.passBehind o).names.memo.lookup (NameTable.memoKey source category) = some name ∧
      name ∉ reservedWords := by
  obtain ⟨lead, name, hlead, hmemo, rfl⟩ := h
  have hnames := w.oneNamespace_passBehind o
  have hreserved := hnames.unreserved name (hnames.apart.taken_of_lookup hmemo)
  have hsame : (w.passBehind o).registry.names.reserved = reservedWords :=
    (w.alike_passBehind o).1
  rw [hsame] at hreserved
  exact ⟨lead, name, hlead, rfl, hmemo, hreserved⟩

/-- An emitted procedure name is what is remembered. -/
theorem lookup_of_emits_procedure {w : Workspace}
    (h : (w.passBehind o).Emits .procedure source emitted) :
    (w.passBehind o).names.memo.lookup (NameTable.memoKey source .procedure) = some emitted ∧
      emitted ∉ reservedWords := by
  obtain ⟨lead, name, hlead, rfl, hmemo, hreserved⟩ := exists_of_emits h
  obtain rfl : "" = lead := Except.ok.inj hlead
  rw [String.empty_append]
  exact ⟨hmemo, hreserved⟩

theorem prefixFor_userVariable_passBehind (w : Workspace) {lead : String}
    (ho : o.variablePrefix = .str lead) :
    (w.passBehind o).names.prefixFor .userVariable = .ok lead := by
  have hsetting : (w.passBehind o).names.variablePrefix? = some lead := by
    rw [(w.alike_passBehind o).2, NameTable.new, Options.variablePrefix?, ho]
  simp only [NameTable.prefixFor, hsetting]
  rfl

/-- Procedures and helpers have names of their own, none of them reserved. The name of a variable is
    the prefix and an identifier, and that is not reserved and is no name of a procedure or helper.
    So a variable has one text with a procedure or a helper, or with a reserved word, only if the
    prefix is not empty and the other one begins with it. -/
theorem emitted_names_apart (w : Workspace) {lead : String} (ho : o.variablePrefix = .str lead) :
    (∀ source emitted, (w.passBehind o).Emits .userVariable source emitted →
      ∃ name, emitted = lead ++ name ∧ name ∉ reservedWords ∧
        (∀ other, ¬ (w.passBehind o).Emits .procedure other name) ∧
        ∀ helper ∈ (w.passBehind o).registry.helpers, helper.2 ≠ name) ∧
    (∀ source emitted, (w.passBehind o).Emits .procedure source emitted →
      emitted ∉ reservedWords ∧
        ∀ helper ∈ (w.passBehind o).registry.helpers, helper.2 ≠ emitted) ∧
    (∀ helper ∈ (w.passBehind o).registry.helpers, helper.2 ∉ reservedWords) ∧
    (w.passBehind o).registry.helpers.Pairwise (·.2 ≠ ·.2) := by
  have hnames := w.oneNamespace_passBehind o
  have hhelper : ∀ {source category name},
      (w.passBehind o).names.memo.lookup (NameTable.memoKey source category) = some name →
      ∀ helper ∈ (w.passBehind o).registry.helpers, helper.2 ≠ name := by
    intro source category name hmemo helper hhelper heq
    apply hnames.helper_ne helper hhelper
    rw [heq]
    exact hmemo
  refine ⟨?_, ?_, ?_, hnames.helpers_ne⟩
  · intro source emitted hvariable
    obtain ⟨lead', name, hlead, rfl, hmemo, hreserved⟩ := exists_of_emits hvariable
    rw [w.prefixFor_userVariable_passBehind ho] at hlead
    obtain rfl : lead = lead' := Except.ok.inj hlead
    refine ⟨name, rfl, hreserved, ?_, hhelper hmemo⟩
    intro other hother
    -- One identifier is remembered under one key, and the keys of two categories differ.
    have hkey := hnames.apart.lookup_inj hmemo (lookup_of_emits_procedure hother).1
    have hcategory := (NameTable.memoKey_inj.mp hkey).2
    cases hcategory
  · intro source emitted hprocedure
    obtain ⟨hmemo, hreserved⟩ := lookup_of_emits_procedure hprocedure
    exact ⟨hreserved, hhelper hmemo⟩
  · intro helper hmem
    have hsame : (w.passBehind o).registry.names.reserved = reservedWords :=
      (w.alike_passBehind o).1
    have hreserved := hnames.unreserved helper.2 (hnames.helper_taken helper hmem)
    rwa [hsame] at hreserved

end Workspace

/-! ### Under a prefix -/

/-- A statement that assigns zero to a variable. -/
def assigned (name : String) : Block :=
  .mk ⟨.statement .assign, "set", [(.str "VAR", .str name)], .null, .bool false, true, []⟩ [] [] none

/-- A statement that calls a procedure. -/
def called (name : String) : Block :=
  .mk ⟨.statement .call, "call", [(.str "NAME", .str name)], .null, .bool false, true, []⟩ [] [] none

/-- A variable that is assigned, and a procedure of another name that is called. -/
def assignedAndCalled (variableName procedureName : String) : Workspace :=
  ⟨[], [assigned variableName, called procedureName], .default⟩

/-- The settings of a workspace that gives a prefix for variables only. -/
def Options.prefixed (lead : String) : Options :=
  { Options.default with variablePrefix := .str lead }

theorem emits_assignedAndCalled :
    ((assignedAndCalled "x" "my_x").passBehind (.prefixed "my_")).Emits .userVariable "x" "my_x" ∧
    ((assignedAndCalled "x" "my_x").passBehind (.prefixed "my_")).Emits .procedure "my_x" "my_x" := by
  constructor
  · refine ⟨"my_", "x", ?_, ?_, rfl⟩
    · with_unfolding_all rfl
    · with_unfolding_all rfl
  · refine ⟨"", "my_x", ?_, ?_, rfl⟩
    · with_unfolding_all rfl
    · with_unfolding_all rfl

/-- With the prefix the variable has an identifier of its own, which is not the name of the
    procedure. -/
theorem emitted_names_apart_assignedAndCalled :
    Options.variablePrefix (.prefixed "my_") = .str "my_" ∧
    ∃ name, "my_x" = "my_" ++ name ∧ name ∉ reservedWords ∧
      ¬ ((assignedAndCalled "x" "my_x").passBehind (.prefixed "my_")).Emits
        .procedure "my_x" name := by
  have hsetting : Options.variablePrefix (.prefixed "my_") = .str "my_" := rfl
  obtain ⟨hvariables, -⟩ := (assignedAndCalled "x" "my_x").emitted_names_apart hsetting
  obtain ⟨name, hname, hreserved, hprocedures, -⟩ := hvariables "x" "my_x" emits_assignedAndCalled.1
  exact ⟨hsetting, name, hname, hreserved, hprocedures "my_x"⟩

/-- The names themselves are one text: the prefix is written ahead of the identifier when the choice
    is made. It can complete a reserved word as well. -/
theorem programText_prefixed_clash :
    (((assignedAndCalled "x" "my_x").passBehind (.prefixed "my_")).Emits .userVariable "x" "my_x" ∧
      ((assignedAndCalled "x" "my_x").passBehind (.prefixed "my_")).Emits
        .procedure "my_x" "my_x" ∧
      (assignedAndCalled "x" "my_x").programText (.prefixed "my_") =
        .ok "my_x = 0;\n\nmy_x();\n") ∧
    (Workspace.mk [] [assigned "dow"] .default).programText (.prefixed "win") =
      .ok "window = 0;\n" ∧ "window" ∈ reservedWords := by
  refine ⟨⟨emits_assignedAndCalled.1, emits_assignedAndCalled.2, ?_⟩, ?_, by decide⟩
  · with_unfolding_all rfl
  · with_unfolding_all rfl

/-! ### Words of the script -/

/-- The keywords that the rules and the helpers write, and the words that they write for values. -/
def keywords : List String :=
  ["if", "else", "function", "return", "var", "new", "true", "false", "null"]

/-- The built-in names that the rules and the helpers write. -/
def builtInNames : List String :=
  ["String", "Number", "Math", "RegExp", "window"]

theorem builtInNames_subset_reservedWords : builtInNames ⊆ reservedWords := by
  decide

theorem Name.eq_of_found_keyword {source word : String} (hword : word ∈ keywords)
    (h : word = safe source ∨ ∃ n : Nat, word = safe source ++ toString n) :
    source = word ∧ Text.lower word = word := by
  have hchecked : ∀ word ∈ keywords, word ≠ "unnamed" ∧ '_' ∉ word.toList ∧
      word.toList.all (fun c => !c.isDigit) = true ∧ Text.lower word = word := by
    decide +kernel
  obtain ⟨hunnamed, hmark, hdigits, hlower⟩ := hchecked word hword
  refine ⟨eq_of_found h hunnamed hmark ?_, hlower⟩
  intro c hc
  have hdigit := List.all_eq_true.mp hdigits c hc
  rwa [Bool.not_eq_true'] at hdigit

/-- Without a prefix no variable, parameter or procedure gets a built-in name, and a keyword is given
    only for a name that is that keyword in lower case. -/
theorem Workspace.emitted_word (w : Workspace) {o : Options} (ho : o.variablePrefix = .str "")
    {category : Category} {source emitted : String}
    (h : (w.passBehind o).Emits category source emitted) :
    emitted ∉ builtInNames ∧ (emitted ∈ keywords → Text.lower source = emitted) := by
  obtain ⟨lead, name, hlead, rfl, hmemo, hreserved⟩ := exists_of_emits h
  have hnone : lead = "" := by
    have hvariable := w.prefixFor_userVariable_passBehind ho
    cases category with
    | userVariable => exact Except.ok.inj (hlead.symm.trans hvariable)
    | developerVariable => exact Except.ok.inj (hlead.symm.trans hvariable)
    | procedure => exact (Except.ok.inj hlead).symm
  rw [hnone, String.empty_append]
  constructor
  · exact fun hmem => hreserved (builtInNames_subset_reservedWords hmem)
  · intro hword
    obtain ⟨other, otherCategory, hkey, hfound⟩ :=
      (w.oneNamespace_passBehind o).found _ _ hmemo
    obtain ⟨rfl, hlower⟩ := Name.eq_of_found_keyword hword hfound
    rw [← (NameTable.memoKey_inj.mp hkey).1, hlower]

/-- A variable and a procedure, both of which are called by a keyword: the first one gets it. -/
theorem emits_assignedAndCalled_keyword :
    ((assignedAndCalled "if" "if").passBehind .default).Emits .userVariable "if" "if" ∧
    ((assignedAndCalled "if" "if").passBehind .default).Emits .procedure "if" "if2" := by
  constructor
  · refine ⟨"", "if", ?_, ?_, rfl⟩
    · with_unfolding_all rfl
    · with_unfolding_all rfl
  · refine ⟨"", "if2", ?_, ?_, rfl⟩
    · with_unfolding_all rfl
    · with_unfolding_all rfl

theorem emitted_word_assignedAndCalled :
    Options.default.variablePrefix = .str "" ∧ "if" ∉ builtInNames ∧ "if" ∈ keywords ∧
      Text.lower "if" = "if" := by
  obtain ⟨hbuiltIn, hkeyword⟩ := (assignedAndCalled "if" "if").emitted_word (o := .default) rfl
    emits_assignedAndCalled_keyword.1
  have hmem : "if" ∈ keywords := by decide
  exact ⟨rfl, hbuiltIn, hmem, hkeyword hmem⟩

/-- A variable that is called by a keyword is written as the keyword. -/
theorem programText_assignedAndCalled_keyword :
    "if" ∈ keywords ∧
    ((assignedAndCalled "if" "if").passBehind .default).Emits .userVariable "if" "if" ∧
    (assignedAndCalled "if" "if").programText .default = .ok "if = 0;\n\nif2();\n" := by
  refine ⟨by decide, emits_assignedAndCalled_keyword.1, ?_⟩
  with_unfolding_all rfl

end BlockScript
