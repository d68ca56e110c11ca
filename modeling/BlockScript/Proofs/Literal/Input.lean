/-
  BlockScript.Proofs.Literal.Input

  What the inputs of a block give, if the blocks in them deliver their texts: a value slot the texts
  of its block, a statement slot those of its chain with an indent, and the code of a whole block
  its own and those of what follows. Comments are closed, so they take no part in this.
-/
import BlockScript.Proofs.Literal.Step
import BlockScript.Proofs.Literal.Value

namespace BlockScript

open Script
open Gen (Allows Gives)

/-! ## Texts of blocks -/

/-- Code that carries texts. -/
def Code.Carries (L : String → Prop) : Code → Prop
  | .statement text => Script.Carries L text
  | .expression text _ => Script.Carries L text

namespace Block

/-- The texts in the code of a block: none, if the block registers a definition. -/
def Contributes (lead : String) (b : Block) (s : String) : Prop :=
  b.registers = false ∧ b.Texts lead s

/-- The texts in the code of the block in a slot. -/
def SlotTexts (lead : String) (slots : Slots) (name s : String) : Prop :=
  ∃ c, inSlot slots name = some c ∧ c.Contributes lead s

/-- The texts in the code of the chain in a slot, with the indent of the chain. -/
def ChainTexts (lead : String) (slots : Slots) (name s : String) : Prop :=
  ∃ text, SlotTexts lead slots name text ∧ s = indentLines lead text

/-- The texts in the code of the block that follows. -/
def NextTexts (lead : String) (b : Block) (s : String) : Prop :=
  ∃ c, b.next = some c ∧ c.Contributes lead s

/-- The texts that the rule of a block writes. -/
def OwnTexts (lead : String) (b : Block) (s : String) : Prop :=
  b.kind = .value .text ∧ s = (b.site false).fieldText "TEXT" "" ∨
    (∃ slot ∈ (b.site false).valueSlots, SlotTexts lead b.values slot s) ∨
    ∃ slot ∈ (b.site false).chainSlots, ChainTexts lead b.statements slot s

/-- The texts of a block are those that its rule writes and those of the block that follows. -/
theorem Texts.cases {lead : String} {b : Block} {s : String} (h : b.Texts lead s) :
    b.head.enabled = true ∧ b.OwnTexts lead s ∨ b.NextTexts lead s := by
  obtain ⟨depth, text, hholds, rfl⟩ := h
  cases hholds with
  | text henabled hkind => exact Or.inl ⟨henabled, Or.inl ⟨hkind, rfl⟩⟩
  | value henabled hslot hc hcode h =>
    exact Or.inl ⟨henabled, Or.inr (Or.inl ⟨_, hslot, _, hc, hcode, _, _, h, rfl⟩)⟩
  | chain henabled hslot hc hcode h =>
    exact Or.inl ⟨henabled, Or.inr (Or.inr ⟨_, hslot, _, ⟨_, hc, hcode, _, _, h, rfl⟩, rfl⟩)⟩
  | next hc hcode h => exact Or.inr ⟨_, hc, hcode, _, _, h, rfl⟩

/-- Whether all procedures in the chain of a slot are defined. -/
def ChainDefined (slots : Slots) (name : String) (p : Pass) : Prop :=
  ∀ c, inSlot slots name = some c → ∀ q, c.Runs q → q.IsDefined p

/-- Whether all procedures in the chain that follows a block are defined. -/
def NextDefined (b : Block) (p : Pass) : Prop :=
  ∀ c, b.next = some c → ∀ q, c.Runs q → q.IsDefined p

/-- What is to be shown of every block: its code carries its texts, and the procedures that it runs
    are defined behind it. -/
def Delivers (F : Frame) (o : Options) (b : Block) : Prop :=
  ∀ attached p, Gives F o (b.code attached false) p fun r code =>
    code.Carries (b.Contributes F.lead) ∧ ∀ q, b.Runs q → q.IsDefined r

/-! ## Slots -/

section
variable {F : Frame} {o : Options} {b : Block}

/-- What the inputs and names of a block come to, if the blocks in its value slots deliver. -/
def supplied (F : Frame) (b : Block) : Reading where
  slot name _ text := Script.Carries (SlotTexts F.lead b.values name) text
  variableName _ emitted := Closed emitted
  procedureName _ emitted := Closed emitted
  helperName _ emitted := Closed emitted

theorem supplied_supplies (F : Frame) (b : Block) :
    (supplied F b).Supplies (SlotTexts F.lead b.values) where
  slot h := h
  variableName h := h
  procedureName h := h
  helperName h := h

theorem supplied_sound (ho : o.IsPlain F.variableLead F.lead) (hb : ∀ c ∈ b.children, c.Delivers F o)
    (attached : Bool) (p₀ : Pass) :
    (supplied F b).Sound o (Pass.Since F p₀) (b.site attached) where
  record := Gen.record_since
  variableName := Gen.variableName_since ho.closed
  procedureName := Gen.procedureName_since
  helper := Gen.helper_since ho
  value name outer := by
    refine Site.value_allows (Q := (Code.Carries (SlotTexts F.lead b.values name) ·)) ?_ ?_ ?_ ?_
    · intro input hinput
      change Site.inSlot (inputs b.values) name = some input at hinput
      rw [inSlot_inputs, Option.map_eq_some_iff] at hinput
      obtain ⟨c, hc, rfl⟩ := hinput
      have hdelivers := hb c (mem_children_of_inSlot_values hc)
      refine Gives.allows fun p => (hdelivers true p).mono fun r code hcode => ?_
      have htexts : ∀ s, SlotTexts F.lead b.values name s → c.Contributes F.lead s := by
        rintro s ⟨c', hc', hs⟩
        rwa [Option.some.inj (hc.symm.trans hc')]
      cases code with
      | statement text => exact hcode.1.mono htexts
      | expression text order => exact hcode.1.mono htexts
    · intro hnone
      have hempty : Closed "" := rfl
      refine hempty.carries.mono ?_
      rintro s ⟨c, hc, -⟩
      change Site.inSlot (inputs b.values) name = none at hnone
      rw [inSlot_inputs, hc] at hnone
      cases hnone
    · exact fun h => h
    · exact fun text order h => Script.Carries.wrap h outer order

/-- Behind the indent of the settings a text has its texts with the indent. -/
theorem indented_gives (ho : o.IsPlain F.variableLead F.lead) {L : String → Prop} {text : String}
    (h : Script.Carries L text) (p : Pass) :
    Gives F o (Site.indented text) p fun _ indented =>
      Script.Carries (fun s => ∃ t, L t ∧ s = indentLines F.lead t) indented := by
  have hindent : o.indentText = .ok F.lead := by
    rw [Options.indentText, ho.indent]
    rfl
  refine Gives.of_allows (Allows.options.bind ?_)
  rintro _ rfl
  rw [hindent]
  refine Allows.lifted.bind fun lead hlead => ?_
  obtain rfl := Except.ok.inj hlead
  exact Allows.lift fun indented hindented => h.indented ho.inert hindented

/-- A statement slot gives the texts of its chain, and the procedures in the chain are defined. -/
theorem chain_gives (ho : o.IsPlain F.variableLead F.lead) (hb : ∀ c ∈ b.children, c.Delivers F o)
    (attached : Bool) (name : String) (p : Pass) :
    Gives F o ((b.site attached).chain name) p fun r text =>
      Script.Carries (ChainTexts F.lead b.statements name) text ∧
        ChainDefined b.statements name r := by
  have hslot : Site.inSlot (b.site attached).statements name =
      (inSlot b.statements name).map fun c => ⟨c, c.code true false⟩ :=
    inSlot_inputs b.statements name
  rw [Site.chain, hslot]
  cases hc : inSlot b.statements name with
  | none =>
    have hempty : Closed "" := rfl
    refine Gives.pure fun r _ => ⟨hempty.carries.mono ?_, fun c hc' => ?_⟩
    · rintro s ⟨text, ⟨c, hc', -⟩, -⟩
      rw [hc] at hc'
      cases hc'
    · rw [hc] at hc'
      cases hc'
  | some c =>
    have htexts : ∀ s, SlotTexts F.lead b.statements name s → c.Contributes F.lead s := by
      rintro s ⟨c', hc', hs⟩
      rwa [Option.some.inj (hc.symm.trans hc')]
    have hdefined : ∀ r : Pass, (∀ q, c.Runs q → q.IsDefined r) →
        ChainDefined b.statements name r := by
      intro r h c' hc'
      rwa [← Option.some.inj (hc.symm.trans hc')]
    have hdelivers := hb c (mem_children_of_inSlot_statements hc)
    refine (hdelivers true p).bind fun code p' _ hcode => ?_
    cases code with
    | expression text order => exact Gives.throw _
    | statement text =>
      have hcarries : Script.Carries (SlotTexts F.lead b.statements name) text :=
        (hcode p' (.refl p')).1.mono htexts
      by_cases hempty : text = ""
      · subst hempty
        refine Gives.pure fun r _ h => ⟨hcarries.mono ?_, hdefined r h.2⟩
        rintro s ⟨text, htext, -⟩
        exact absurd htext (hcarries.not_of_literals_eq_nil rfl text)
      · simp only [hempty, if_false]
        refine (indented_gives ho hcarries p').mono fun r text' h hq => ⟨h, hdefined r hq.2⟩

end

end Block

/-! ## Comments -/

/-- A map over a list that does not fail comes to what each item comes to. -/
theorem forall₂_of_mapM {α β : Type} {f : α → Except Fault β} {l : List α} {bs : List β}
    (h : l.mapM f = .ok bs) : List.Forall₂ (fun a b => f a = .ok b) l bs := by
  induction l generalizing bs with
  | nil =>
    obtain rfl := Except.ok.inj h
    exact .nil
  | cons a rest ih =>
    rw [List.mapM_cons] at h
    cases ha : f a with
    | error fault =>
      rw [ha] at h
      cases h
    | ok first =>
      cases hrest : rest.mapM f with
      | error fault =>
        rw [ha, hrest] at h
        cases h
      | ok more =>
        rw [ha, hrest] at h
        obtain rfl := Except.ok.inj h
        exact .cons ha (ih hrest)

theorem exists_of_mem_forall₂ {α β : Type} {R : α → β → Prop} {l : List α} {bs : List β}
    (h : List.Forall₂ R l bs) : ∀ a ∈ l, ∃ b ∈ bs, R a b := by
  induction h with
  | nil => exact fun a ha => absurd ha List.not_mem_nil
  | cons hfirst _ ih =>
    intro a ha
    rcases List.mem_cons.mp ha with rfl | ha
    · exact ⟨_, List.mem_cons_self, hfirst⟩
    · obtain ⟨b, hb, hab⟩ := ih a ha
      exact ⟨b, List.mem_cons_of_mem _ hb, hab⟩

theorem exists_of_mem_mapM {α β : Type} {f : α → Except Fault β} {l : List α} {bs : List β}
    (h : l.mapM f = .ok bs) : ∀ b ∈ bs, ∃ a ∈ l, f a = .ok b :=
  exists_of_mem_forall₂ (forall₂_of_mapM h).flip

/-- A property `P` of comment lines that follows from a property `S` of the texts behind the marks. -/
structure CommentLaw (S P : String → Prop) : Prop where
  empty : P ""
  append : ∀ s t, P s → P t → P (s ++ t)
  commentLines : ∀ s, S s → P (Site.commentLines (s ++ "\n"))
  join : ∀ s t, S s → S t → S (s ++ "\n" ++ t)

namespace CommentLaw

open Site (inputComments commentText)

variable {S P : String → Prop}

/-- A property that all comment lines have. -/
theorem of_forall (hempty : P "") (happend : ∀ s t, P s → P t → P (s ++ t))
    (hlines : ∀ s, P (Site.commentLines (s ++ "\n"))) : CommentLaw (fun _ => True) P :=
  ⟨hempty, happend, fun s _ => hlines s, fun _ _ _ _ => trivial⟩

variable (h : CommentLaw S P)
include h

/-- Texts behind line feeds of their own are one text with a line feed behind it. -/
theorem exists_join {texts : List String} (hne : texts ≠ []) (htexts : ∀ t ∈ texts, S t) :
    ∃ t, S t ∧ Text.join "\n" (texts ++ [""]) = t ++ "\n" := by
  induction texts with
  | nil => exact absurd rfl hne
  | cons first rest ih =>
    have hfirst := htexts first List.mem_cons_self
    cases rest with
    | nil => exact ⟨first, hfirst, String.append_empty⟩
    | cons second more =>
      obtain ⟨t, ht, heq⟩ := ih (List.cons_ne_nil second more)
        fun t ht => htexts t (List.mem_cons_of_mem first ht)
      refine ⟨first ++ "\n" ++ t, h.join first t hfirst ht, ?_⟩
      rw [List.cons_append, List.cons_append, Text.join, ← List.cons_append, heq]
      exact String.append_assoc.symm

/-- The comment lines of a block and of what is nested in it. -/
theorem nestedComments {b : Block} {text : String}
    (hb : ∀ c ∈ b.nested, ∀ comment, c.head.comment = .str comment → S comment)
    (htext : Site.nestedComments b = .ok text) : P (inputComments.commentLines' text) := by
  rw [inputComments.commentLines']
  split
  · exact h.empty
  · rename_i hne
    rw [Site.nestedComments] at htext
    cases hm : b.nestedComments.mapM commentText with
    | error fault =>
      rw [hm] at htext
      cases htext
    | ok texts =>
      rw [hm] at htext
      obtain rfl := Except.ok.inj htext
      by_cases htexts : texts = []
      · rw [htexts] at hne
        exact absurd rfl hne
      · have hall : ∀ t ∈ texts, S t := by
          intro t ht
          obtain ⟨comment, hmem, heq⟩ := exists_of_mem_mapM hm t ht
          obtain ⟨c, hc, hcomment⟩ := List.mem_map.mp (List.mem_of_mem_filter hmem)
          cases comment with
          | str s =>
            obtain rfl := Except.ok.inj heq
            exact hb c hc s hcomment
          | null | bool _ | num _ | arr _ | obj _ => cases heq
        obtain ⟨t, ht, heq⟩ := h.exists_join htexts hall
        rw [if_neg (by simpa using htexts), heq]
        exact h.commentLines t ht

theorem stringJoin {texts : List String} (htexts : ∀ t ∈ texts, P t) : P (String.join texts) := by
  induction texts with
  | nil => exact h.empty
  | cons t rest ih =>
    rw [String.join_cons]
    exact h.append _ _ (htexts t List.mem_cons_self)
      (ih fun t' ht => htexts t' (List.mem_cons_of_mem t ht))

/-- The comment lines of inputs. -/
theorem inputComments {slots : List (String × Option Input)} {text : String}
    (hslots : ∀ input ∈ slots.filterMap (·.2), ∀ c ∈ input.block.nested,
      ∀ comment, c.head.comment = .str comment → S comment)
    (htext : Site.inputComments slots = .ok text) : P text := by
  rw [Site.inputComments] at htext
  cases hm : (slots.filterMap (·.2)).mapM fun input => Site.nestedComments input.block with
  | error fault =>
    rw [hm] at htext
    cases htext
  | ok texts =>
    rw [hm] at htext
    obtain rfl := Except.ok.inj htext
    have hall : ∀ t ∈ texts, P (inputComments.commentLines' t) := by
      intro t ht
      obtain ⟨input, hinput, heq⟩ := exists_of_mem_mapM hm t ht
      exact h.nestedComments (hslots input hinput) heq
    exact h.stringJoin (List.forall_mem_map.mpr hall)

/-- The comment lines of the comment of a block, which is wrapped. -/
theorem ownComment_allows {o : Options} {I : Pass → Prop} {site : Site}
    (hown : ∀ comment limit, site.head.comment = .str comment → S (Text.wrap limit comment)) :
    Allows o I site.ownComment P := by
  rw [Site.ownComment]
  split
  · exact Allows.pure h.empty
  · split
    · rename_i text htext
      refine Allows.options.bind fun _ _ => ?_
      refine Allows.lifted.bind fun width _ => ?_
      refine Allows.lifted.bind fun wrapped hwrapped => ?_
      rw [Site.wrapped] at hwrapped
      split at hwrapped
      · rename_i limit _
        obtain rfl := Except.ok.inj hwrapped
        exact Allows.pure (h.commentLines _ (hown text limit htext))
      · cases hwrapped
    · exact Allows.throw _

/-- The comment lines ahead of the code of a block, of which the own comment is wrapped. -/
theorem comments_allows {o : Options} {I : Pass → Prop} {site : Site}
    (hown : ∀ comment limit, site.head.comment = .str comment → S (Text.wrap limit comment))
    (hslots : ∀ input ∈ site.values.filterMap (·.2), ∀ c ∈ input.block.nested,
      ∀ comment, c.head.comment = .str comment → S comment) : Allows o I site.comments P := by
  rw [Site.comments]
  split
  · exact Allows.pure h.empty
  · refine (h.ownComment_allows hown).bind fun own hlines => ?_
    refine Allows.lifted.bind fun rest hrest => ?_
    exact Allows.pure (h.append _ _ hlines (h.inputComments hslots hrest))

end CommentLaw

/-- The comment lines ahead of the code of a block are closed. -/
theorem Site.comments_allows {o : Options} {I : Pass → Prop} (site : Site) :
    Allows o I site.comments Closed :=
  have hlaw : CommentLaw (fun _ => True) Closed :=
    .of_forall rfl (fun _ _ hs ht => hs.append ht) closed_commentLines
  hlaw.comments_allows (fun _ _ _ => trivial) fun _ _ _ _ _ _ => trivial

/-! ## What follows -/

namespace Block

variable {F : Frame} {o : Options} {b : Block}

/-- The block that follows gives its texts, and the procedures that it runs are defined. -/
theorem nextCode_gives (hb : ∀ c ∈ b.children, c.Delivers F o) (attached : Bool) (p : Pass) :
    Gives F o (b.site attached).nextCode p fun r code =>
      code.Carries (b.NextTexts F.lead) ∧ b.NextDefined r := by
  have hnext : (b.site attached).next = b.next.map fun c => ⟨c, c.code true false⟩ := by
    change input b.next = _
    cases b.next <;> rfl
  rw [Site.nextCode, hnext]
  cases hc : b.next with
  | none =>
    have hempty : Closed "" := rfl
    refine Gives.pure fun r _ => ⟨hempty.carries.mono ?_, fun c hc' => ?_⟩
    · rintro s ⟨c, hc', -⟩
      rw [hc] at hc'
      cases hc'
    · rw [hc] at hc'
      cases hc'
  | some c =>
    have htexts : ∀ s, b.NextTexts F.lead s → c.Contributes F.lead s := by
      rintro s ⟨c', hc', hs⟩
      rwa [Option.some.inj (hc.symm.trans hc')]
    refine (hb c (mem_children_of_next hc) true p).mono fun r code hcode => ⟨?_, ?_⟩
    · cases code with
      | statement text => exact hcode.1.mono htexts
      | expression text order => exact hcode.1.mono htexts
    · intro c' hc'
      rw [← Option.some.inj (hc.symm.trans hc')]
      exact hcode.2

/-- Whole code has the texts of the rule and those of what follows. -/
theorem complete_gives (hb : ∀ c ∈ b.children, c.Delivers F o) (attached : Bool)
    {L : String → Prop} {text : String} (h : Script.Carries L text) (p : Pass) :
    Gives F o ((b.site attached).complete text false) p fun r whole =>
      Script.Carries (fun s => L s ∨ b.NextTexts F.lead s) whole ∧ b.NextDefined r := by
  rw [Site.complete]
  refine (Gives.of_allows (Site.comments_allows _)).bind fun comments p' _ hcomments => ?_
  have hclosed : Closed comments := hcomments p' (.refl p')
  refine (nextCode_gives hb attached p').bind fun code p'' _ hcode => ?_
  cases code with
  | expression text order => exact Gives.throw _
  | statement rest =>
    refine Gives.pure fun r _ hnext _ => ⟨?_, hnext.2⟩
    exact (Script.Carries.behind hclosed h).append hnext.1

end Block

end BlockScript
