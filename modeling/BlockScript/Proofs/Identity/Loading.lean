/-
  BlockScript.Proofs.Identity.Loading

  Data of workspaces that differ in the ids of blocks. An id is taken from the member `id` of a block,
  or from a counter if there is none; nothing else is read from the one or the other. So the same data
  with other ids, or with none, loaded with any count, gives the same workspace but for the ids of its
  blocks, or is refused like the other: a fault may quote the data of a block, its id with it.
-/
import BlockScript.Proofs.Identity.Program
import BlockScript.Proofs.Load.Rejection

namespace BlockScript

/-! ## Data without ids -/

namespace Json

mutual

/-- The data of a block without the ids of the blocks that are read from it. -/
def withoutIds : Json → Json
  | .obj members => .obj (membersWithoutIds members)
  | .null => .null
  | .bool b => .bool b
  | .num n => .num n
  | .str s => .str s
  | .arr items => .arr items

/-- The members of a block without its id and those of the blocks in it. -/
def membersWithoutIds : List (String × Json) → List (String × Json)
  | [] => []
  | (name, value) :: rest =>
    if name = "id" then membersWithoutIds rest
    else if name = "next" then (name, withoutIds value) :: membersWithoutIds rest
    else if name = "values" || name = "statements" then
      (name, slotsWithoutIds value) :: membersWithoutIds rest
    else (name, value) :: membersWithoutIds rest

/-- The slots of a block without the ids of the blocks in them. -/
def slotsWithoutIds : Json → Json
  | .obj members => .obj (slotListWithoutIds members)
  | .null => .null
  | .bool b => .bool b
  | .num n => .num n
  | .str s => .str s
  | .arr items => .arr items

/-- The members of an object of slots without the ids of the blocks in them. -/
def slotListWithoutIds : List (String × Json) → List (String × Json)
  | [] => []
  | (name, value) :: rest => (name, withoutIds value) :: slotListWithoutIds rest

end

/-- What is left of the value of a member of a block other than its id. -/
def partWithoutIds (name : String) (value : Json) : Json :=
  if name = "next" then value.withoutIds
  else if name = "values" || name = "statements" then value.slotsWithoutIds
  else value

theorem slotListWithoutIds_eq_map (members : List (String × Json)) :
    slotListWithoutIds members = members.map fun entry => (entry.1, entry.2.withoutIds) := by
  induction members with
  | nil => rfl
  | cons entry rest ih => rw [slotListWithoutIds, ih, List.map_cons]

theorem membersWithoutIds_cons (name : String) (value : Json) (rest : List (String × Json)) :
    membersWithoutIds ((name, value) :: rest) =
      if name = "id" then membersWithoutIds rest
      else (name, partWithoutIds name value) :: membersWithoutIds rest := by
  rw [membersWithoutIds, partWithoutIds]
  split
  · rfl
  · split
    · rfl
    · split <;> rfl

/-- All members but the id are there without ids. -/
theorem member?_membersWithoutIds {name : String} (hname : name ≠ "id")
    (members : List (String × Json)) :
    member? (membersWithoutIds members) name = (member? members name).map (partWithoutIds name) := by
  induction members with
  | nil => rfl
  | cons entry rest ih =>
    obtain ⟨key, value⟩ := entry
    simp only [member?] at ih ⊢
    rw [membersWithoutIds_cons, List.lookup_cons]
    by_cases hid : key = "id"
    · have hother : (name == key) = false := beq_false_of_ne (hid ▸ hname)
      rw [if_pos hid, hother]
      exact ih
    · rw [if_neg hid, List.lookup_cons]
      by_cases hkey : name = key
      · simp [hkey]
      · rw [beq_false_of_ne hkey]
        exact ih

theorem partWithoutIds_null (name : String) : partWithoutIds name .null = .null := by
  rw [partWithoutIds]
  split
  · rfl
  · split <;> rfl

theorem member_membersWithoutIds {name : String} (hname : name ≠ "id")
    (members : List (String × Json)) :
    member (membersWithoutIds members) name = partWithoutIds name (member members name) := by
  rw [member, member, member?_membersWithoutIds hname]
  cases member? members name with
  | none => exact (partWithoutIds_null name).symm
  | some value => rfl

/-- A member that holds no blocks stays as it is. -/
theorem member?_membersWithoutIds_of_ne (members : List (String × Json)) (name : String)
    (hid : name ≠ "id" := by decide) (hnext : name ≠ "next" := by decide)
    (hslots : (name = "values" || name = "statements") = false := by decide) :
    member? (membersWithoutIds members) name = member? members name := by
  have hpart : partWithoutIds name = fun value => value := by
    funext value
    rw [partWithoutIds, if_neg hnext, hslots, if_neg Bool.false_ne_true]
  rw [member?_membersWithoutIds hid, hpart, Option.map_id']

theorem member_membersWithoutIds_of_ne (members : List (String × Json)) (name : String)
    (hid : name ≠ "id" := by decide) (hnext : name ≠ "next" := by decide)
    (hslots : (name = "values" || name = "statements") = false := by decide) :
    member (membersWithoutIds members) name = member members name :=
  congrArg (·.getD .null) (member?_membersWithoutIds_of_ne members name hid hnext hslots)

mutual

/-- Data without ids has none to be left out. -/
theorem withoutIds_withoutIds : ∀ data : Json, data.withoutIds.withoutIds = data.withoutIds
  | .obj members => by rw [withoutIds, withoutIds, membersWithoutIds_membersWithoutIds members]
  | .null | .bool _ | .num _ | .str _ | .arr _ => by simp only [withoutIds]

theorem membersWithoutIds_membersWithoutIds : ∀ members : List (String × Json),
    membersWithoutIds (membersWithoutIds members) = membersWithoutIds members
  | [] => by simp only [membersWithoutIds]
  | (name, value) :: rest => by
    have hrest := membersWithoutIds_membersWithoutIds rest
    rw [membersWithoutIds]
    by_cases hid : name = "id"
    · rw [if_pos hid, hrest]
    · rw [if_neg hid]
      by_cases hnext : name = "next"
      · rw [if_pos hnext, membersWithoutIds, if_neg hid, if_pos hnext, withoutIds_withoutIds value,
          hrest]
      · rw [if_neg hnext]
        by_cases hslots : (name = "values" || name = "statements") = true
        · rw [if_pos hslots, membersWithoutIds, if_neg hid, if_neg hnext, if_pos hslots,
            slotsWithoutIds_slotsWithoutIds value, hrest]
        · rw [if_neg hslots, membersWithoutIds, if_neg hid, if_neg hnext, if_neg hslots, hrest]

theorem slotsWithoutIds_slotsWithoutIds : ∀ data : Json,
    data.slotsWithoutIds.slotsWithoutIds = data.slotsWithoutIds
  | .obj members => by
    rw [slotsWithoutIds, slotsWithoutIds, slotListWithoutIds_slotListWithoutIds members]
  | .null | .bool _ | .num _ | .str _ | .arr _ => by simp only [slotsWithoutIds]

theorem slotListWithoutIds_slotListWithoutIds : ∀ members : List (String × Json),
    slotListWithoutIds (slotListWithoutIds members) = slotListWithoutIds members
  | [] => by simp only [slotListWithoutIds]
  | (name, value) :: rest => by
    rw [slotListWithoutIds, slotListWithoutIds, withoutIds_withoutIds value,
      slotListWithoutIds_slotListWithoutIds rest]

end

end Json

/-- The fault with the data that it quotes without ids. -/
def Fault.withoutIds : Fault → Fault
  | .notABlock data => .notABlock data.withoutIds
  | fault => fault

/-! ## Two loads side by side -/

namespace Numbering

variable {α β γ δ : Type} {Q : α → β → Prop} {Q' : γ → δ → Prop}

/-- What two loads come to: results that are related, or the same fault but for the ids in it. -/
inductive Outcome (Q : α → β → Prop) :
    EStateM.Result Fault Nat α → EStateM.Result Fault Nat β → Prop
  | ok {a : α} {b : β} {n n' : Nat} (h : Q a b) : Outcome Q (.ok a n) (.ok b n')
  | error {fault fault' : Fault} {n n' : Nat} (h : fault.withoutIds = fault'.withoutIds) :
      Outcome Q (.error fault n) (.error fault' n')

theorem Outcome.mono {Q' : α → β → Prop} {r : EStateM.Result Fault Nat α}
    {r' : EStateM.Result Fault Nat β} (h : Outcome Q r r') (hQ : ∀ a b, Q a b → Q' a b) :
    Outcome Q' r r' := by
  cases h with
  | ok h => exact .ok (hQ _ _ h)
  | error h => exact .error h

/-- Two loads that go along with a third one go along with each other. -/
theorem Outcome.through {Q' : γ → β → Prop} {r : EStateM.Result Fault Nat α}
    {r' : EStateM.Result Fault Nat γ} {s : EStateM.Result Fault Nat β} (h : Outcome Q r s)
    (h' : Outcome Q' r' s) : Outcome (fun a c => ∃ b, Q a b ∧ Q' c b) r r' := by
  cases h with
  | ok h =>
    cases h' with
    | ok h' => exact .ok ⟨_, h, h'⟩
  | error h =>
    cases h' with
    | error h' => exact .error (h.trans h'.symm)

/-- Two loads go along with each other from all counts on. -/
def Agree (m : Numbering α) (m' : Numbering β) (Q : α → β → Prop) : Prop :=
  ∀ n n', Outcome Q (m n) (m' n')

namespace Agree

variable {m : Numbering α} {m' : Numbering β}

theorem pure {a : α} {b : β} (h : Q a b) : Agree (pure a) (pure b) Q :=
  fun _ _ => .ok h

theorem throw {fault fault' : Fault} (h : fault.withoutIds = fault'.withoutIds) :
    Agree (throw fault : Numbering α) (throw fault' : Numbering β) Q :=
  fun _ _ => .error h

/-- A number that is taken on one side makes no difference. -/
theorem next_left {f : Nat → Numbering α} (h : ∀ n, Agree (f n) m' Q) : Agree (next >>= f) m' Q :=
  fun n n' => h n (n + 1) n'

theorem next_right {f : Nat → Numbering β} (h : ∀ n, Agree m (f n) Q) : Agree m (next >>= f) Q :=
  fun n n' => h n' n (n' + 1)

theorem lift (result : Except Fault α) : Agree (lift result) (lift result) Eq := by
  cases result with
  | ok a => exact .pure rfl
  | error fault => exact .throw rfl

theorem bind {f : α → Numbering γ} {f' : β → Numbering δ} (hm : Agree m m' Q)
    (hf : ∀ a b, Q a b → Agree (f a) (f' b) Q') : Agree (m >>= f) (m' >>= f') Q' := by
  intro n n'
  have hfirst := hm n n'
  simp only [Bind.bind, EStateM.bind]
  generalize m n = result, m' n' = result' at hfirst
  cases hfirst with
  | ok h => exact hf _ _ h _ _
  | error h => exact .error h

/-- A step on both sides that gives the same. -/
theorem bind_lift {result : Except Fault α} {f : α → Numbering γ} {f' : α → Numbering δ}
    (hf : ∀ a, Agree (f a) (f' a) Q') :
    Agree (Numbering.lift result >>= f) (Numbering.lift result >>= f') Q' := by
  apply (lift result).bind
  rintro a _ rfl
  exact hf a

theorem mapM {f : γ → Numbering α} {f' : γ → Numbering β} {xs : List γ}
    (h : ∀ x ∈ xs, Agree (f x) (f' x) Q) : Agree (xs.mapM f) (xs.mapM f') (List.Forall₂ Q) := by
  induction xs with
  | nil =>
    rw [List.mapM_nil, List.mapM_nil]
    exact .pure .nil
  | cons x xs ih =>
    rw [List.mapM_cons, List.mapM_cons]
    apply (h x List.mem_cons_self).bind
    intro a b hab
    apply (ih fun y hy => h y (List.mem_cons_of_mem x hy)).bind
    intro as bs habs
    exact .pure (.cons hab habs)

end Agree

end Numbering

/-! ## Blocks -/

namespace Block

open BlockScript.Numbering (Agree)

/-- Blocks that differ in ids, on them and on everything that hangs on them. -/
def SameButIds (b c : Block) : Prop :=
  b.anonymous = c.anonymous

variable {data : Json}

theorem loadLink_agree (h : Agree (load data) (load data.withoutIds) SameButIds) :
    Agree (loadLink data) (loadLink data.withoutIds) fun link link' =>
      mapHeadsLink Head.anonymous link = mapHeadsLink Head.anonymous link' := by
  cases data with
  | obj members =>
    have hmap : Agree (some <$> load (.obj members)) (some <$> load (Json.obj members).withoutIds)
        fun link link' => mapHeadsLink Head.anonymous link = mapHeadsLink Head.anonymous link' := by
      rw [map_eq_pure_bind, map_eq_pure_bind]
      apply h.bind
      intro b c hbc
      refine .pure ?_
      rw [mapHeadsLink_eq_map, mapHeadsLink_eq_map]
      exact congrArg some hbc
    rw [Json.withoutIds] at hmap ⊢
    rw [loadLink_eq, loadLink_eq]
    exact hmap
  | null => exact .pure rfl
  | _ => exact .throw rfl

theorem loadSlots_agree
    (h : ∀ item ∈ data.slotItems, Agree (load item) (load item.withoutIds) SameButIds) :
    Agree (loadSlots data) (loadSlots data.slotsWithoutIds) fun slots slots' =>
      mapHeadsSlots Head.anonymous slots = mapHeadsSlots Head.anonymous slots' := by
  cases data with
  | obj members =>
    have hslot : ∀ entry ∈ members, Agree (do return (entry.1, ← loadLink entry.2))
        (do return (entry.1, ← loadLink entry.2.withoutIds)) fun slot slot' =>
          slot.1 = slot'.1 ∧
            mapHeadsLink Head.anonymous slot.2 = mapHeadsLink Head.anonymous slot'.2 := by
      intro entry hentry
      apply (loadLink_agree (h entry.2 (List.mem_map_of_mem hentry))).bind
      exact fun link link' hlink => .pure ⟨rfl, hlink⟩
    rw [Json.slotsWithoutIds, loadSlots, loadSlots, loadSlotList_eq, loadSlotList_eq,
      Json.slotListWithoutIds_eq_map, List.mapM_map]
    intro n n'
    apply (Agree.mapM hslot n n').mono
    intro slots slots' hboth
    induction hboth with
    | nil => rfl
    | cons hslot _ ih => rw [mapHeadsSlots, mapHeadsSlots, hslot.1, hslot.2, ih]
  | arr items =>
    rw [Json.slotsWithoutIds, loadSlots]
    split
    · exact .pure rfl
    · exact .throw rfl
  | null => exact .pure rfl
  | bool b =>
    cases b with
    | false => exact .pure rfl
    | true => exact .throw rfl
  | num n =>
    rw [Json.slotsWithoutIds, loadSlots]
    split
    · exact .pure rfl
    · exact .throw rfl
  | str s =>
    rw [Json.slotsWithoutIds, loadSlots]
    split
    · exact .pure rfl
    · exact .throw rfl

theorem sameButIds_mk {head head' : Head} {values values' statements statements' : Slots}
    {next next' : Option Block} (hhead : head.anonymous = head'.anonymous)
    (hvalues : mapHeadsSlots Head.anonymous values = mapHeadsSlots Head.anonymous values')
    (hstatements :
      mapHeadsSlots Head.anonymous statements = mapHeadsSlots Head.anonymous statements')
    (hnext : mapHeadsLink Head.anonymous next = mapHeadsLink Head.anonymous next') :
    SameButIds (mk head values statements next) (mk head' values' statements' next') := by
  rw [SameButIds, anonymous, anonymous, mapHeads, mapHeads, hhead, hvalues, hstatements, hnext]

/-- A block is put together alike without the ids in its data. -/
theorem assemble_agree {members : List (String × Json)}
    (hlink : Agree (loadLink (Json.member members "next"))
      (loadLink (Json.member members "next").withoutIds) fun link link' =>
        mapHeadsLink Head.anonymous link = mapHeadsLink Head.anonymous link')
    (hslots : ∀ name ∈ ["values", "statements"], Agree (loadSlots (Json.member members name))
      (loadSlots (Json.member members name).slotsWithoutIds) fun slots slots' =>
        mapHeadsSlots Head.anonymous slots = mapHeadsSlots Head.anonymous slots') :
    Agree (assemble members (loadMembers members))
      (assemble (Json.membersWithoutIds members) (loadMembers (Json.membersWithoutIds members)))
      SameButIds := by
  have hvalues := hslots "values" (by simp)
  have hstatements := hslots "statements" (by simp)
  have hnext : Json.member (Json.membersWithoutIds members) "next" =
      (Json.member members "next").withoutIds := Json.member_membersWithoutIds (by decide) members
  have hvalues' : Json.member (Json.membersWithoutIds members) "values" =
      (Json.member members "values").slotsWithoutIds :=
    Json.member_membersWithoutIds (by decide) members
  have hstatements' : Json.member (Json.membersWithoutIds members) "statements" =
      (Json.member members "statements").slotsWithoutIds :=
    Json.member_membersWithoutIds (by decide) members
  unfold assemble
  simp only [find_loadMembers]
  rw [hnext, hvalues', hstatements', Json.member?_membersWithoutIds_of_ne members "type",
    Json.member_membersWithoutIds_of_ne members "fields",
    Json.member_membersWithoutIds_of_ne members "mutation",
    Json.member_membersWithoutIds_of_ne members "output",
    Json.member_membersWithoutIds_of_ne members "comment",
    Json.member?_membersWithoutIds_of_ne members "enabled"]
  cases Json.member? members "type" with
  | none =>
    apply Agree.throw
    have hdata := Json.withoutIds_withoutIds (.obj members)
    exact congrArg Fault.notABlock hdata.symm
  | some type =>
    -- The parts are read in the same order on both sides, and the id last.
    apply Agree.bind_lift
    intro kind
    apply Agree.bind_lift
    intro fields
    apply hvalues.bind
    intro values values' hvalues
    apply hstatements.bind
    intro statements statements' hstatements
    apply hlink.bind
    intro next next' hnext
    apply Agree.bind_lift
    intro mutation
    cases Json.member? members "id" with
    | some id =>
      cases Json.member? (Json.membersWithoutIds members) "id" with
      | some id' => exact .pure (sameButIds_mk rfl hvalues hstatements hnext)
      | none => exact .next_right fun n => .pure (sameButIds_mk rfl hvalues hstatements hnext)
    | none =>
      apply Agree.next_left
      intro n
      cases Json.member? (Json.membersWithoutIds members) "id" with
      | some id' => exact .pure (sameButIds_mk rfl hvalues hstatements hnext)
      | none => exact .next_right fun n => .pure (sameButIds_mk rfl hvalues hstatements hnext)

/-- Data of a block loads alike without ids. -/
theorem load_agree (data : Json) : Agree (load data) (load data.withoutIds) SameButIds := by
  induction data using Json.forall_of_blockParts with
  | h data ih =>
    cases data with
    | obj members =>
      rw [Json.withoutIds, load, load]
      apply assemble_agree
      case hlink => exact loadLink_agree (ih _ (Json.next_mem_blockParts members))
      case hslots =>
        intro name hname
        apply loadSlots_agree
        intro item hitem
        exact ih item (Json.slotItem_mem_blockParts hname hitem)
    | _ => exact .throw rfl

end Block

/-! ## Workspaces -/

namespace Json

/-- The data of the blocks of a workspace without ids. -/
def blockListWithoutIds : Json → Json
  | .arr items => .arr (items.map withoutIds)
  | data => data

/-- The data of a workspace without the ids of its blocks. -/
def workspaceWithoutIds : Json → Json
  | .obj members => .obj (members.map fun entry =>
      (entry.1, if entry.1 = "blocks" then entry.2.blockListWithoutIds else entry.2))
  | data => data

/-- A member of an object with changed values; an absent member stays null. -/
theorem member_map {f : String → Json → Json} {name : String} (hf : f name .null = .null)
    (members : List (String × Json)) :
    member (members.map fun entry => (entry.1, f entry.1 entry.2)) name =
      f name (member members name) := by
  induction members with
  | nil => exact hf.symm
  | cons entry rest ih =>
    obtain ⟨key, value⟩ := entry
    simp only [member, member?] at ih ⊢
    rw [List.map_cons, List.lookup_cons, List.lookup_cons]
    by_cases hkey : name = key
    · simp [hkey]
    · rw [beq_false_of_ne hkey]
      exact ih

end Json

namespace Workspace

open BlockScript.Numbering (Agree)

/-- The items that are listed without ids are those that are listed, without ids. -/
theorem blockItems_blockListWithoutIds (data : Json) :
    blockItems data.blockListWithoutIds = (blockItems data).map fun items =>
      items.map Json.withoutIds := by
  -- Only the items of a list can hold ids; what else is listed is a text.
  have htexts {α : Type} (xs : List α) (f : α → String) :
      (xs.map fun x => Json.str (f x)).map Json.withoutIds = xs.map fun x => .str (f x) := by
    rw [List.map_map]
    rfl
  cases data with
  | arr items => cases items <;> rfl
  | obj members =>
    cases members with
    | nil => rfl
    | cons entry rest => exact congrArg Except.ok (htexts (entry :: rest) (·.1)).symm
  | str s =>
    change blockItems (.str s) = _
    unfold blockItems
    split
    · rfl
    · exact congrArg Except.ok (htexts s.toList (·.toString)).symm
  | null => rfl
  | bool b => cases b <;> rfl
  | num n =>
    change blockItems (.num n) = _
    unfold blockItems
    split <;> rfl

/-- Data of a workspace loads alike without ids. -/
theorem load_agree (data : Json) :
    Agree (load data) (load data.workspaceWithoutIds) fun w w' => w.anonymous = w'.anonymous := by
  cases data with
  | obj members =>
    let part (name : String) (value : Json) : Json :=
      if name = "blocks" then value.blockListWithoutIds else value
    have hmember (name : String) : Json.member
        (members.map fun entry => (entry.1, part entry.1 entry.2)) name =
          part name (Json.member members name) := by
      apply Json.member_map
      dsimp only [part]
      split <;> rfl
    have hblocks (items : List Json) : Agree (items.mapM Block.load)
        ((items.map Json.withoutIds).mapM Block.load) (List.Forall₂ Block.SameButIds) := by
      rw [List.mapM_map]
      exact .mapM fun item _ => Block.load_agree item
    have hitems : blockItems (part "blocks" (Json.member members "blocks")) =
        (blockItems (Json.member members "blocks")).map fun items => items.map Json.withoutIds :=
      blockItems_blockListWithoutIds _
    rw [Json.workspaceWithoutIds, load, load, hmember, hmember, hmember, hitems]
    apply Agree.bind_lift
    intro variableNames
    cases blockItems (Json.member members "blocks") with
    | error fault => exact .throw rfl
    | ok items =>
      apply (hblocks items).bind
      intro blocks blocks' hboth
      apply Agree.bind_lift
      intro options
      have hsame : blocks.map Block.anonymous = blocks'.map Block.anonymous := by
        induction hboth with
        | nil => rfl
        | cons hblock _ ih => rw [List.map_cons, List.map_cons, hblock, ih]
      exact .pure (congrArg (Workspace.mk variableNames · options) hsame)
  | _ => exact .throw rfl

/-- Data of workspaces that differ in the ids of blocks at most, each loaded with a count of its own,
    gives workspaces of the same settings that come to the same program or to the same fault under all
    settings with hooks that do not ask for ids; or both are refused, with faults that differ in the
    ids that they quote at most. -/
theorem load_programText {data data' : Json}
    (h : data.workspaceWithoutIds = data'.workspaceWithoutIds) {o : Options} (ho : o.OmitsIds)
    (n n' : Nat) :
    Numbering.Outcome (fun w w' => w.options = w'.options ∧ w.programText o = w'.programText o)
      (load data n) (load data' n') := by
  have hfirst := load_agree data n 0
  have hsecond := load_agree data' n' 0
  rw [← h] at hsecond
  apply (hfirst.through hsecond).mono
  rintro w w' ⟨bare, hw, hw'⟩
  have hsame : w.anonymous = w'.anonymous := hw.trans hw'.symm
  exact ⟨(congrArg Workspace.options hsame :), programText_of_anonymous hsame ho⟩

end Workspace

/-! ### A text that is shown, under other ids -/

/-- The data of a text that is shown, with what is to be said of the ids of the two blocks. -/
def shownTextData (outer inner : List (String × Json)) : Json :=
  .obj [("blocks", .arr [.obj (outer ++ [("type", .str "text_print"),
    ("values", .obj [("TEXT", .obj (("type", .str "text") :: ("fields", .obj [("TEXT", .str "a")])
      :: inner))])])])]

/-- A text that is shown, under two ids. -/
def shownText (outer inner : String) : Workspace :=
  ⟨[], [.mk ⟨.statement .print, outer, [], .null, .bool false, true, []⟩
    [("TEXT", some (.mk ⟨.value .text, inner, [(.str "TEXT", .str "a")], .null, .bool true, true, []⟩
      [] [] none))] [] none], .default⟩

/-- Settings with a call ahead of every statement. -/
def tracedCalls : Options :=
  { Options.default with statementPrefix := .str "f();\n" }

theorem tracedCalls_omitsIds : tracedCalls.OmitsIds := by
  intro hook hhook
  have hmem : .str hook ∈ [Json.str "f();\n", .null, .null] := hhook
  obtain rfl : hook = "f();\n" := by simpa using hmem
  decide

/-- With two ids, or with one and counting from seven on, the text is shown by the same program. -/
theorem load_programText_shownText :
    let named := shownTextData [("id", .str "p")] [("id", .num (.int 5))]
    let counted := shownTextData [] [("id", .str "p")]
    named.workspaceWithoutIds = counted.workspaceWithoutIds ∧ tracedCalls.OmitsIds ∧
      Workspace.load named 1 = .ok (shownText "p" "5") 1 ∧
      Workspace.load counted 7 = .ok (shownText "block7" "p") 8 ∧
      (shownText "p" "5").programText tracedCalls =
        (shownText "block7" "p").programText tracedCalls := by
  intro named counted
  have hdata : named.workspaceWithoutIds = counted.workspaceWithoutIds := by
    with_unfolding_all rfl
  have hnamed : Workspace.load named 1 = .ok (shownText "p" "5") 1 := by with_unfolding_all rfl
  have hcounted : Workspace.load counted 7 = .ok (shownText "block7" "p") 8 := by
    with_unfolding_all rfl
  have hboth := Workspace.load_programText hdata tracedCalls_omitsIds 1 7
  rw [hnamed, hcounted] at hboth
  cases hboth with
  | ok h => exact ⟨hdata, tracedCalls_omitsIds, hnamed, hcounted, h.2⟩

end BlockScript
