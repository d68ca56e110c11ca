/-
  BlockScript.Proofs.Load.Shape

  Which data loading accepts and how it refuses the rest. A block is looked at member by member:
  `fields` and `mutation` have to be tables, `values` and `statements` objects of slots, at every
  depth that the blocks reach. Data of this form is loaded or refused with a fault that its author
  is told about; other data is never loaded, but the fault may be one of those that nobody words.
-/
import BlockScript.Workspace

namespace BlockScript

/-! ## The forms that are read -/

namespace Json

/-- An entry of a table: a key that is not compound and a value, as a list, as a text of two
    characters or as the keys of an object. -/
def IsEntry : Json → Prop
  | .arr [key, _] => key.isCompound = false
  | .str s => s.length = 2
  | .obj members => members.length = 2
  | _ => False

/-- A table: an object, a list of entries, or a value that does not count as given. -/
def IsTable (data : Json) : Prop :=
  data.isTruthy = false ∨ match data with
    | .obj _ => True
    | .arr items => ∀ item ∈ items, item.IsEntry
    | _ => False

/-- The slots of a block: an object, or a value that does not count as given. -/
def IsSlots (data : Json) : Prop :=
  data.isTruthy = false ∨ match data with
    | .obj _ => True
    | _ => False

/-- Something that has items: a list, a text, an object, or a value that does not count as
    given. -/
def IsListing (data : Json) : Prop :=
  data.isTruthy = false ∨ match data with
    | .arr _ | .str _ | .obj _ => True
    | _ => False

/-- The values in the slots of a block. -/
def slotItems : Json → List Json
  | .obj members => members.map (·.2)
  | _ => []

/-- The values that are read as blocks where a value is: those in its slots, and the one that
    follows. -/
def blockParts : Json → List Json
  | .obj members => slotItems (member members "values") ++ slotItems (member members "statements")
      ++ [member members "next"]
  | _ => []

/-- One value is read as a block when another one is. -/
inductive ReadIn : Json → Json → Prop
  | self (data : Json) : ReadIn data data
  | part {data part inner : Json} (hpart : part ∈ data.blockParts) (h : ReadIn inner part) :
      ReadIn inner data

/-- The members of a block are of the form that they are read in. -/
def HasBlockMembers : Json → Prop
  | .obj members => (member members "fields").IsTable ∧ (member members "values").IsSlots ∧
      (member members "statements").IsSlots ∧ (member members "mutation").IsTable
  | _ => True

/-- Every block in a value has members of the form that they are read in. -/
def IsBlockShaped (data : Json) : Prop :=
  ∀ inner, ReadIn inner data → inner.HasBlockMembers

/-- The values that a workspace lists as its blocks. -/
def listedBlocks : Json → List Json
  | .arr items => items
  | _ => []

/-- A workspace lists its variables and its blocks, and its blocks are of the form that they are
    read in. -/
def IsWorkspaceShaped : Json → Prop
  | .obj members => (member members "variables").IsListing ∧ (member members "blocks").IsListing ∧
      ∀ item ∈ (member members "blocks").listedBlocks, item.IsBlockShaped
  | _ => True

theorem isBlockShaped_iff (data : Json) :
    data.IsBlockShaped ↔ data.HasBlockMembers ∧ ∀ part ∈ data.blockParts, part.IsBlockShaped := by
  constructor
  · intro h
    exact ⟨h data (.self data), fun part hpart inner hinner => h inner (.part hpart hinner)⟩
  · rintro ⟨hself, hparts⟩ inner hinner
    cases hinner with
    | self => exact hself
    | part hpart h => exact hparts _ hpart inner h

theorem isBlockShaped_obj (members : List (String × Json)) :
    (obj members).IsBlockShaped ↔
      (member members "fields").IsTable ∧
      ((member members "values").IsSlots ∧
        ∀ item ∈ (member members "values").slotItems, item.IsBlockShaped) ∧
      ((member members "statements").IsSlots ∧
        ∀ item ∈ (member members "statements").slotItems, item.IsBlockShaped) ∧
      (member members "next").IsBlockShaped ∧
      (member members "mutation").IsTable := by
  rw [isBlockShaped_iff]
  simp only [HasBlockMembers, blockParts, List.mem_append, List.mem_singleton]
  grind

theorem isBlockShaped_null : IsBlockShaped null :=
  (isBlockShaped_iff null).2 ⟨trivial, fun _ hpart => by cases hpart⟩

theorem isBlockShaped_str (s : String) : (str s).IsBlockShaped :=
  (isBlockShaped_iff (str s)).2 ⟨trivial, fun _ hpart => by cases hpart⟩

/-! ## Sizes -/

theorem sizeOf_member_lt (members : List (String × Json)) (name : String) :
    sizeOf (member members name) < sizeOf (obj members) := by
  induction members with
  | nil => simp [member, member?]
  | cons entry rest ih =>
    obtain ⟨key, value⟩ := entry
    simp only [member, member?, List.lookup_cons] at ih ⊢
    cases name == key with
    | true => simp; omega
    | false =>
      simp only [obj.sizeOf_spec, List.cons.sizeOf_spec] at ih ⊢
      omega

theorem sizeOf_slotItem_lt {data item : Json} (h : item ∈ data.slotItems) :
    sizeOf item < sizeOf data := by
  cases data with
  | obj members =>
    obtain ⟨entry, hentry, rfl⟩ := List.mem_map.1 h
    have := List.sizeOf_lt_of_mem hentry
    obtain ⟨key, value⟩ := entry
    simp only [obj.sizeOf_spec, Prod.mk.sizeOf_spec] at this ⊢
    omega
  | _ => cases h

theorem sizeOf_blockPart_lt {data part : Json} (h : part ∈ data.blockParts) :
    sizeOf part < sizeOf data := by
  cases data with
  | obj members =>
    rw [blockParts, List.mem_append, List.mem_append, List.mem_singleton] at h
    obtain (hvalue | hstatement) | rfl := h
    · exact Nat.lt_trans (sizeOf_slotItem_lt hvalue) (sizeOf_member_lt members _)
    · exact Nat.lt_trans (sizeOf_slotItem_lt hstatement) (sizeOf_member_lt members _)
    · exact sizeOf_member_lt members _
  | _ => cases h

/-! ## Induction -/

/-- What data has if all has it that is read as a block in it, all data has. -/
theorem forall_of_blockParts {P : Json → Prop}
    (h : ∀ data, (∀ part ∈ data.blockParts, P part) → P data) (data : Json) : P data := by
  induction hsize : sizeOf data using Nat.strongRecOn generalizing data with
  | ind size ih =>
    exact h data fun part hpart => ih _ (hsize ▸ sizeOf_blockPart_lt hpart) part rfl

theorem slotItem_mem_blockParts {members : List (String × Json)} {name : String} {item : Json}
    (hname : name ∈ ["values", "statements"]) (h : item ∈ (member members name).slotItems) :
    item ∈ (obj members).blockParts := by
  rw [List.mem_cons, List.mem_singleton] at hname
  rw [blockParts, List.mem_append, List.mem_append]
  rcases hname with rfl | rfl
  · exact .inl (.inl h)
  · exact .inl (.inr h)

theorem next_mem_blockParts (members : List (String × Json)) :
    member members "next" ∈ (obj members).blockParts :=
  List.mem_append_right _ (List.mem_singleton_self _)

end Json

/-! ## How loading ends -/

namespace Fault

/-- Whether the data has not the form in which it is read, which nobody words. -/
def isShape : Fault → Bool
  | slotsNotAnObject | tableNotAList | tableEntryNotAPair | tableEntryLength | compoundKey
  | blocksNotAList | variablesNotAList => true
  | _ => false

/-- A result is there only for data of the form that is read, and a fault is one that the author
    is told about, or one about the form of data that has not the form that is read. -/
def Settles {α : Type} (shaped : Prop) : Except Fault α → Prop
  | .ok _ => shaped
  | .error fault => fault.isMalformed ∨ (fault.isShape ∧ ¬ shaped)

theorem Settles.imp {α : Type} {p q : Prop} {r : Except Fault α} (h : Settles p r) (hpq : p ↔ q) :
    Settles q r :=
  propext hpq ▸ h

theorem settles_pure {α : Type} {p : Prop} (hp : p) (a : α) :
    Settles p (pure a : Except Fault α) :=
  hp

/-- A result behind another one: the data has to have both forms. -/
theorem Settles.bind {α β : Type} {p q : Prop} {r : Except Fault α} {f : α → Except Fault β}
    (hr : Settles p r) (hf : ∀ a, Settles q (f a)) : Settles (p ∧ q) (r >>= f) := by
  cases r with
  | error fault => exact hr.imp_right fun ⟨hshape, hp⟩ => ⟨hshape, fun hpq => hp hpq.1⟩
  | ok a =>
    have hp : p := hr
    exact (hf a).imp (by simp [hp])

/-- A fold over the items of a list, each of which is to be of a form. -/
theorem settles_foldlM {α β : Type} {f : β → α → Except Fault β} {P : α → Prop} {xs : List α}
    (h : ∀ x ∈ xs, ∀ b, Settles (P x) (f b x)) (b : β) :
    Settles (∀ x ∈ xs, P x) (xs.foldlM f b) := by
  induction xs generalizing b with
  | nil => exact fun _ hx => by cases hx
  | cons x xs ih =>
    have hx := h x List.mem_cons_self b
    have hxs := ih fun y hy => h y (List.mem_cons_of_mem x hy)
    rw [List.foldlM_cons]
    cases hstep : f b x with
    | error fault =>
      rw [hstep] at hx
      exact hx.imp_right fun ⟨hshape, hnot⟩ => ⟨hshape, fun hall => hnot (hall x List.mem_cons_self)⟩
    | ok b' =>
      rw [hstep] at hx
      have hx : P x := hx
      exact (hxs b').imp (by simp [hx])

end Fault

namespace Numbering

variable {α β : Type} {p q : Prop}

/-- The result of a step, without the numbers that it takes. -/
def result : EStateM.Result Fault Nat α → Except Fault α
  | .ok a _ => .ok a
  | .error fault _ => .error fault

/-- A step ends like this from every number on. -/
def Settles (shaped : Prop) (step : Numbering α) : Prop :=
  ∀ n, Fault.Settles shaped (result (step n))

theorem Settles.imp {step : Numbering α} (h : Settles p step) (hpq : p ↔ q) : Settles q step :=
  fun n => (h n).imp hpq

theorem settles_pure (hp : p) (a : α) : Settles p (pure a : Numbering α) :=
  fun _ => hp

theorem settles_next (hp : p) : Settles p next :=
  fun _ => hp

theorem settles_throw {fault : Fault} (h : fault.isMalformed) :
    Settles p (throw fault : Numbering α) :=
  fun _ => .inl h

theorem settles_throw_shape {fault : Fault} (h : fault.isShape) (hp : ¬ p) :
    Settles p (throw fault : Numbering α) :=
  fun _ => .inr ⟨h, hp⟩

theorem settles_lift {r : Except Fault α} (h : Fault.Settles p r) : Settles p (lift r) := by
  intro n
  cases r <;> exact h

/-- One step behind another: the data has to have both forms. -/
theorem Settles.bind {x : Numbering α} {f : α → Numbering β} (hx : Settles p x)
    (hf : ∀ a, Settles q (f a)) : Settles (p ∧ q) (x >>= f) := by
  intro n
  have hxn := hx n
  simp only [Bind.bind, EStateM.bind]
  cases hrun : x n with
  | error fault n' =>
    rw [hrun] at hxn
    exact hxn.imp_right fun ⟨hshape, hp⟩ => ⟨hshape, fun hpq => hp hpq.1⟩
  | ok a n' =>
    rw [hrun] at hxn
    have hp : p := hxn
    exact (hf a n').imp (by simp [hp])

/-- A step behind one that looks at nothing. -/
theorem Settles.bind_after {x : Numbering α} {f : α → Numbering β} (hx : Settles True x)
    (hf : ∀ a, Settles q (f a)) : Settles q (x >>= f) :=
  (hx.bind hf).imp (iff_of_eq (true_and q))

/-- A last step that looks at nothing. -/
theorem Settles.bind_last {x : Numbering α} {f : α → Numbering β} (hx : Settles p x)
    (hf : ∀ a, Settles True (f a)) : Settles p (x >>= f) :=
  (hx.bind hf).imp (iff_of_eq (and_true p))

theorem Settles.map {x : Numbering α} (hx : Settles p x) (f : α → β) : Settles p (f <$> x) :=
  map_eq_pure_bind f x ▸ hx.bind_last fun a => settles_pure trivial (f a)

theorem settles_mapM {f : α → Numbering β} {P : α → Prop} {xs : List α}
    (h : ∀ x ∈ xs, Settles (P x) (f x)) : Settles (∀ x ∈ xs, P x) (xs.mapM f) := by
  induction xs with
  | nil => exact settles_pure (by simp) []
  | cons x xs ih =>
    rw [List.mapM_cons]
    have hrest := ih fun y hy => h y (List.mem_cons_of_mem x hy)
    refine ((h x List.mem_cons_self).bind fun b => hrest.bind_last fun bs =>
      settles_pure trivial _).imp ?_
    simp

end Numbering

end BlockScript
