/-
  BlockScript.Proofs.Literal.Definition

  The definitions of a pass. All of them end in code, and that of a procedure has the literals of a
  block with the name of the procedure. A pass only grows: a remembered name stays remembered, and a
  name that was defined once stays defined, perhaps by another block of the same name.
-/
import BlockScript.Proofs.Generate.Reachable
import BlockScript.Proofs.Literal.Carried
import BlockScript.Proofs.Literal.Placement
import BlockScript.Proofs.Name.Unicity
import BlockScript.Proofs.Registry.Keys

namespace BlockScript

open Script

/-! ## Procedures -/

/-- The name of a procedure is remembered as it is emitted. -/
theorem NameTable.lookup_of_name {t : NameTable} {name emitted : String}
    (hanswer : (t.name name .procedure).answer = .ok emitted) :
    (t.name name .procedure).table.memo.lookup (memoKey name .procedure) = some emitted := by
  -- Procedures have no prefix, so what is emitted is what is remembered.
  have hlead : t.prefixFor .procedure = .ok "" := rfl
  cases hmemo : t.memo.lookup (memoKey (t.meant name .procedure) .procedure) with
  | some candidate =>
    obtain ⟨hsame, htable⟩ := name_of_lookup_eq_some hmemo
    obtain ⟨lead', hlead', rfl⟩ := eq_of_map_eq_ok (hsame.symm.trans hanswer)
    obtain rfl : "" = lead' := Except.ok.inj (hlead.symm.trans hlead')
    rw [htable, String.empty_append]
    exact hmemo
  | none =>
    obtain ⟨candidate, hfresh⟩ := name_fresh hmemo
    obtain ⟨lead', hlead', rfl⟩ := eq_of_map_eq_ok (hfresh.answer.symm.trans hanswer)
    obtain rfl : "" = lead' := Except.ok.inj (hlead.symm.trans hlead')
    rw [String.empty_append]
    exact hfresh.lookup_source rfl hlead

namespace Block

/-- The key by which the name of a procedure is remembered. -/
def nameKey (q : Block) : String :=
  NameTable.memoKey (q.head.field "NAME").shown .procedure

/-- The texts of the literals of a block: those that it holds, with an indent behind their line feeds
    for every chain around them. -/
def Texts (lead : String) (b : Block) (s : String) : Prop :=
  ∃ depth text, b.Holds depth text ∧ s = nestedLines lead depth text

/-- Whether a pass has a definition under the name of a procedure. -/
def IsDefined (q : Block) (p : Pass) : Prop :=
  ∃ name, p.names.memo.lookup q.nameKey = some name ∧
    p.definitions.hasKey (Definitions.procedureKey name) = true

end Block

/-- What a run is about: the prefix of variables, the indent, and the blocks that occur. -/
structure Frame where
  variableLead : String
  lead : String
  occurs : Block → Prop

namespace Pass

/-- What a pass had, another one has. -/
structure Grows (p p' : Pass) : Prop where
  lookup : ∀ key name, p.names.memo.lookup key = some name → p'.names.memo.lookup key = some name
  hasKey : ∀ key, p.definitions.hasKey key = true → p'.definitions.hasKey key = true

theorem Grows.refl (p : Pass) : p.Grows p :=
  ⟨fun _ _ h => h, fun _ h => h⟩

theorem Grows.trans {p q r : Pass} (h : p.Grows q) (h' : q.Grows r) : p.Grows r :=
  ⟨fun key name hkey => h'.lookup key name (h.lookup key name hkey),
    fun key hkey => h'.hasKey key (h.hasKey key hkey)⟩

theorem Grows.isDefined {p p' : Pass} (h : p.Grows p') {q : Block} (hq : q.IsDefined p) :
    q.IsDefined p' := by
  obtain ⟨name, hname, hkey⟩ := hq
  exact ⟨name, h.lookup _ _ hname, h.hasKey _ hkey⟩

/-- The invariant of a pass over blocks of a sort: names are identifiers that differ, definitions
    end in code, and that of a procedure has the texts of a block that is known by its name. -/
structure Fair (F : Frame) (p : Pass) : Prop where
  named : p.Named (some F.variableLead)
  apart : p.names.Apart
  closed : ∀ entry ∈ p.definitions, Closed entry.2
  procedures : ∀ name text, (Definitions.procedureKey name, text) ∈ p.definitions →
    ∃ q, F.occurs q ∧ p.names.memo.lookup q.nameKey = some name ∧ Carries (q.Texts F.lead) text

namespace Fair

variable {F : Frame} {p : Pass}

theorem start (names : NameTable) (h : names.variablePrefix? = some F.variableLead)
    (variableNames : VariableNames) :
    (Pass.start names variableNames).Fair F where
  named := (Reachable.start h variableNames).named
  apart := (NameTable.apart_reset names).congr rfl rfl
  closed := fun _ hentry => absurd hentry List.not_mem_nil
  procedures := fun _ _ hentry => absurd hentry List.not_mem_nil

theorem record (h : p.Fair F) (entry : Record) :
    (p.record entry).Fair F ∧ p.Grows (p.record entry) :=
  ⟨⟨⟨h.named.variablePrefix, h.named.remembers, h.named.helpers⟩, h.apart, h.closed, h.procedures⟩,
    fun _ _ hkey => hkey, fun _ hkey => hkey⟩

/-- A request for a name keeps the invariant. -/
theorem name (h : p.Fair F) (name : String) (category : Category) :
    (p.name name category).2.Fair F ∧ p.Grows (p.name name category).2 := by
  obtain ⟨hapart, hlookup⟩ := h.apart.name name category
  refine ⟨⟨h.named.named (NameTable.name_sound h.named.remembers name category), hapart, h.closed,
    ?_⟩, hlookup, fun _ hkey => hkey⟩
  intro name' text hentry
  obtain ⟨q, hq, hname, hcarries⟩ := h.procedures name' text hentry
  exact ⟨q, hq, hlookup _ _ hname, hcarries⟩

/-- A helper that is provided keeps the invariant, if its template and the indent are fair. -/
theorem provide (h : p.Fair F) (hlead : Inert F.lead.toList) (name : String)
    {template : List String} (htemplate : FairTemplate template) :
    (p.provide (.ok F.lead) name template).2.Fair F ∧
      p.Grows (p.provide (.ok F.lead) name template).2 := by
  obtain ⟨hnamed, hanswers⟩ := h.named.provide (.ok F.lead) name template
  have hapart := h.apart.distinct name .procedure
  simp only [Pass.provide, Registry.provide] at hnamed hanswers ⊢
  cases hhelper : p.registry.helpers.lookup name with
  | some emitted =>
    rw [hhelper] at hnamed
    exact ⟨⟨hnamed, h.apart, h.closed, h.procedures⟩, fun _ _ hkey => hkey, fun _ hkey => hkey⟩
  | none =>
    rw [hhelper] at hnamed hanswers
    cases hanswer : (p.registry.names.distinct name .procedure).answer with
    | error fault =>
      simp only [hanswer] at hnamed
      exact ⟨⟨hnamed, hapart.1, h.closed, h.procedures⟩, fun _ _ hkey => hkey, fun _ hkey => hkey⟩
    | ok emitted =>
      simp only [hanswer] at hnamed hanswers
      have hclosed := closed_helper htemplate (hanswers emitted rfl) hlead
      refine ⟨⟨hnamed, hapart.1, ?_, ?_⟩, fun _ _ hkey => hkey, ?_⟩
      · intro entry hentry
        rcases Definitions.mem_set hentry with rfl | hold
        · exact hclosed
        · exact h.closed entry hold
      · intro name' text hentry
        rcases Definitions.mem_set hentry with heq | hold
        · have hkey := (Prod.mk.inj heq).1
          exact absurd hkey.symm (Definitions.helperKey_ne_procedureKey name name')
        · exact h.procedures name' text hold
      · exact fun key hkey => Definitions.hasKey_set_of_hasKey hkey

/-- A definition of a block that is known by the name keeps the invariant. -/
theorem define (h : p.Fair F) {q : Block} (hq : F.occurs q) {name text : String}
    (hname : p.names.memo.lookup q.nameKey = some name) (htext : Carries (q.Texts F.lead) text) :
    (p.define name text).Fair F ∧ p.Grows (p.define name text) ∧
      q.IsDefined (p.define name text) := by
  refine ⟨⟨⟨h.named.variablePrefix, h.named.remembers, h.named.helpers⟩, h.apart, ?_, ?_⟩, ?_, ?_⟩
  · intro entry hentry
    rcases Definitions.mem_set hentry with rfl | hold
    · exact htext.closed
    · exact h.closed entry hold
  · intro name' text' hentry
    rcases Definitions.mem_set hentry with heq | hold
    · obtain ⟨hkey, rfl⟩ := Prod.mk.inj heq
      obtain rfl := Definitions.procedureKey_inj hkey
      exact ⟨q, hq, hname, htext⟩
    · exact h.procedures name' text' hold
  · exact ⟨fun _ _ hkey => hkey, fun key hkey => Definitions.hasKey_set_of_hasKey hkey⟩
  · exact ⟨name, hname, Definitions.hasKey_set_self⟩

end Fair

/-- A defined procedure has a definition with the texts of a block that has its name. -/
theorem Fair.exists_definition {F : Frame} {p : Pass}
    (h : p.Fair F) {q : Block} (hq : q.IsDefined p) :
    ∃ q', F.occurs q' ∧ q'.nameKey = q.nameKey ∧ ∃ text ∈ p.definitions.texts,
      Carries (q'.Texts F.lead) text := by
  obtain ⟨name, hname, hkey⟩ := hq
  obtain ⟨text, hentry⟩ := Definitions.exists_of_hasKey hkey
  obtain ⟨q', hq', hname', hcarries⟩ := h.procedures name text hentry
  exact ⟨q', hq', h.apart.lookup_inj hname' hname, text, List.mem_map_of_mem hentry, hcarries⟩

end Pass

end BlockScript
