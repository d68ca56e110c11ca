/-
  BlockScript.Proofs.Load.Numbering

  The ids of blocks that are loaded. Blocks are complete in this order: those in value slots, those in
  statement slots, those that follow, and then the block that holds them. In this order those without
  an id take the numbers that come next.
-/
import BlockScript.Proofs.Load.Rejection

namespace BlockScript

/-! ## The order in which blocks are complete -/

namespace Block

mutual

/-- The blocks of a tree in the order in which they are complete: what is in slots, what follows, and
    then the block itself. -/
def loaded : Block → List Block
  | mk head values statements next =>
    loadedInSlots values ++ loadedInSlots statements ++ loadedLink next
      ++ [mk head values statements next]

/-- The blocks in slots, with what hangs on them, in the order in which they are complete. -/
def loadedInSlots : Slots → List Block
  | [] => []
  | (_, link) :: rest => loadedLink link ++ loadedInSlots rest

/-- The blocks of a chain, with what hangs on them, in the order in which they are complete. -/
def loadedLink : Option Block → List Block
  | none => []
  | some b => loaded b

end

end Block

namespace Json

/-- The members of an object of slots. -/
def slotMembers : Json → List (String × Json)
  | .obj members => members
  | _ => []

theorem slotItems_eq (data : Json) : data.slotItems = data.slotMembers.map (·.2) := by
  cases data <;> rfl

/-- The ids that data gives to blocks, in the order in which these are complete; a block may have
    none. -/
def givenIds (data : Json) : List (Option String) :=
  match data with
  | .obj members =>
    (blockParts (.obj members)).attach.flatMap (fun part => givenIds part.1)
      ++ [(member? members "id").map shown]
  | _ => []
termination_by sizeOf data
decreasing_by exact sizeOf_blockPart_lt part.2

theorem givenIds_obj (members : List (String × Json)) :
    givenIds (.obj members) =
      (slotItems (member members "values")).flatMap givenIds
        ++ (slotItems (member members "statements")).flatMap givenIds
        ++ givenIds (member members "next") ++ [(member? members "id").map shown] := by
  rw [givenIds]
  simp only [List.flatMap_subtype, List.unattach_attach, blockParts, List.flatMap_append,
    List.flatMap_singleton]

theorem givenIds_null : givenIds .null = [] := by
  rw [givenIds]
  rintro _ ⟨⟩

end Json

/-! ## Numbers -/

namespace Numbering

/-- The id of a block that has none of its own. -/
def numberedId (n : Nat) : String :=
  "block" ++ toString n

/-- Ids, where those that are not given are made of consecutive numbers. -/
def fill : Nat → List (Option String) → List String
  | _, [] => []
  | n, some id :: rest => id :: fill n rest
  | n, none :: rest => numberedId n :: fill (n + 1) rest

theorem fill_append (n : Nat) (first second : List (Option String)) :
    fill n (first ++ second) = fill n first ++ fill (n + first.count none) second := by
  induction first generalizing n with
  | nil => rfl
  | cons given rest ih =>
    cases given with
    | some id => simp [fill, ih]
    | none => simp [fill, ih, Nat.add_assoc, Nat.add_comm 1]

theorem bind_eq_ok {α β : Type} {x : Numbering α} {f : α → Numbering β} {n n' : Nat} {b : β}
    (h : (x >>= f) n = .ok b n') : ∃ a m, x n = .ok a m ∧ f a m = .ok b n' := by
  change EStateM.bind x f n = _ at h
  rw [EStateM.bind] at h
  split at h
  case h_1 a m hx => exact ⟨a, m, hx, h⟩
  case h_2 => cases h

theorem lift_eq_ok {α : Type} {r : Except Fault α} {n n' : Nat} {a : α}
    (h : lift r n = .ok a n') : r = .ok a ∧ n = n' := by
  cases r with
  | error fault => cases h
  | ok a' =>
    obtain ⟨rfl, rfl⟩ := EStateM.Result.ok.inj h
    exact ⟨rfl, rfl⟩

/-- Of the blocks that a step makes, those without an id take the numbers that come next. -/
def Numbers {α : Type} (given : List (Option String)) (blocks : α → List Block)
    (x : Numbering α) : Prop :=
  ∀ n a n', x n = .ok a n' →
    (blocks a).map (·.id) = fill n given ∧ n' = n + given.count none

end Numbering

namespace Block

open BlockScript.Numbering

/-! ## What loading does -/

/-- A link is nothing for null, and the block that is loaded for other data. -/
theorem loadLink_eq_ok {data : Json} {n n' : Nat} {link : Option Block}
    (h : loadLink data n = .ok link n') :
    data = .null ∧ link = none ∧ n = n' ∨ ∃ b, link = some b ∧ load data n = .ok b n' := by
  rw [loadLink_eq] at h
  cases data with
  | null =>
    obtain ⟨rfl, rfl⟩ := EStateM.Result.ok.inj h
    exact .inl ⟨rfl, rfl, rfl⟩
  | _ =>
    dsimp only at h
    rw [map_eq_pure_bind] at h
    obtain ⟨b, m, hload, hpure⟩ := bind_eq_ok h
    obtain ⟨rfl, rfl⟩ := EStateM.Result.ok.inj hpure
    exact .inr ⟨b, rfl, hload⟩

theorem loadSlotList_cons_eq_ok {name : String} {value : Json} {rest : List (String × Json)}
    {n n' : Nat} {slots : Slots} (h : loadSlotList ((name, value) :: rest) n = .ok slots n') :
    ∃ link m others, loadLink value n = .ok link m ∧ loadSlotList rest m = .ok others n' ∧
      slots = (name, link) :: others := by
  rw [loadSlotList] at h
  obtain ⟨link, m, hlink, h⟩ := bind_eq_ok h
  obtain ⟨others, m', hrest, hpure⟩ := bind_eq_ok h
  obtain ⟨rfl, rfl⟩ := EStateM.Result.ok.inj hpure
  exact ⟨link, m, others, hlink, hrest, rfl⟩

/-- Slots are those of the members of an object, and there are none for other data. -/
theorem loadSlots_eq_ok {data : Json} {n n' : Nat} {slots : Slots}
    (h : loadSlots data n = .ok slots n') : loadSlotList data.slotMembers n = .ok slots n' := by
  rw [loadSlots.eq_def] at h
  cases data with
  | obj members => exact h
  | null => exact h
  | _ =>
    dsimp only at h
    split at h
    all_goals first
      | exact h
      | cases h

/-- What it takes to load a block: its slots, what follows, and an id. -/
theorem load_obj_eq_ok {members : List (String × Json)} {n n' : Nat} {b : Block}
    (h : load (.obj members) n = .ok b n') :
    ∃ m m' m'', loadSlots (Json.member members "values") n = .ok b.values m ∧
      loadSlots (Json.member members "statements") m = .ok b.statements m' ∧
      loadLink (Json.member members "next") m' = .ok b.next m'' ∧
      fill m'' [(Json.member? members "id").map Json.shown] = [b.id] ∧
      n' = m'' + [(Json.member? members "id").map Json.shown].count none := by
  rw [load, assemble] at h
  simp only [find_loadMembers] at h
  cases htype : Json.member? members "type" with
  | none =>
    rw [htype] at h
    cases h
  | some type =>
    rw [htype] at h
    obtain ⟨kind, _, hkind, h⟩ := bind_eq_ok h
    obtain ⟨-, rfl⟩ := lift_eq_ok hkind
    obtain ⟨fields, _, hfields, h⟩ := bind_eq_ok h
    obtain ⟨-, rfl⟩ := lift_eq_ok hfields
    obtain ⟨values, m, hvalues, h⟩ := bind_eq_ok h
    obtain ⟨statements, m', hstatements, h⟩ := bind_eq_ok h
    obtain ⟨next, m'', hnext, h⟩ := bind_eq_ok h
    obtain ⟨mutation, _, hmutation, h⟩ := bind_eq_ok h
    obtain ⟨-, rfl⟩ := lift_eq_ok hmutation
    refine ⟨m, m', m'', ?_⟩
    cases hgiven : Json.member? members "id" with
    | some given =>
      rw [hgiven] at h
      obtain ⟨rfl, rfl⟩ := EStateM.Result.ok.inj h
      exact ⟨hvalues, hstatements, hnext, rfl, rfl⟩
    | none =>
      rw [hgiven] at h
      obtain ⟨rfl, rfl⟩ := EStateM.Result.ok.inj h
      exact ⟨hvalues, hstatements, hnext, rfl, rfl⟩

/-! ## Numbers that are taken -/

theorem loadLink_numbers {data : Json} (h : Numbers data.givenIds loaded (load data)) :
    Numbers data.givenIds loadedLink (loadLink data) := by
  intro n link n' hrun
  obtain ⟨rfl, rfl, rfl⟩ | ⟨b, rfl, hload⟩ := loadLink_eq_ok hrun
  · rw [Json.givenIds_null, loadedLink]
    exact ⟨rfl, rfl⟩
  · rw [loadedLink]
    exact h n b n' hload

theorem loadSlotList_numbers {members : List (String × Json)}
    (h : ∀ item ∈ members.map (·.2), Numbers item.givenIds loaded (load item)) :
    Numbers ((members.map (·.2)).flatMap Json.givenIds) loadedInSlots (loadSlotList members) := by
  induction members with
  | nil =>
    intro n slots n' hrun
    obtain ⟨rfl, rfl⟩ := EStateM.Result.ok.inj hrun
    rw [loadedInSlots]
    exact ⟨rfl, rfl⟩
  | cons entry rest ih =>
    intro n slots n' hrun
    obtain ⟨name, value⟩ := entry
    obtain ⟨link, m, others, hlink, hrest, rfl⟩ := loadSlotList_cons_eq_ok hrun
    obtain ⟨hfirst, rfl⟩ := loadLink_numbers (h _ List.mem_cons_self) n link m hlink
    obtain ⟨hsecond, rfl⟩ := ih (fun item hitem => h item (List.mem_cons_of_mem _ hitem)) _ _ _ hrest
    rw [loadedInSlots, List.map_append, hfirst, hsecond, List.map_cons, List.flatMap_cons,
      fill_append, List.count_append, Nat.add_assoc]
    exact ⟨rfl, rfl⟩

theorem loadSlots_numbers {data : Json}
    (h : ∀ item ∈ data.slotItems, Numbers item.givenIds loaded (load item)) :
    Numbers (data.slotItems.flatMap Json.givenIds) loadedInSlots (loadSlots data) := by
  rw [Json.slotItems_eq] at h ⊢
  exact fun n slots n' hrun => loadSlotList_numbers h n slots n' (loadSlots_eq_ok hrun)

/-- The blocks without an id take consecutive numbers, in the order in which blocks are complete. -/
theorem load_numbers (data : Json) : Numbers data.givenIds loaded (load data) := by
  induction data using Json.forall_of_blockParts with
  | h data ih =>
    cases data with
    | obj members =>
      intro n b n' hrun
      have hslots (name : String) (hname : name ∈ ["values", "statements"]) :=
        loadSlots_numbers fun item hitem => ih item (Json.slotItem_mem_blockParts hname hitem)
      have hlink := loadLink_numbers (ih _ (Json.next_mem_blockParts members))
      obtain ⟨m, m', m'', hvalues, hstatements, hnext, hid, rfl⟩ := load_obj_eq_ok hrun
      obtain ⟨hvalueIds, rfl⟩ := hslots "values" (by simp) n _ m hvalues
      obtain ⟨hstatementIds, rfl⟩ := hslots "statements" (by simp) _ _ m' hstatements
      obtain ⟨hnextIds, rfl⟩ := hlink _ _ m'' hnext
      obtain ⟨head, values, statements, next⟩ := b
      rw [loaded, Json.givenIds_obj]
      constructor
      · simp only [List.map_append, fill_append, List.count_append, ← Nat.add_assoc]
        rw [← hvalueIds, ← hstatementIds, ← hnextIds, hid]
        rfl
      · simp only [List.count_append, Nat.add_assoc]
    | _ => exact fun _ _ _ hrun => by cases hrun

end Block

end BlockScript
