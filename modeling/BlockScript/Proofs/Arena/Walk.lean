/-
  BlockScript.Proofs.Arena.Walk

  What objects list as their descendants. Going through objects lists what can be reached from them,
  and there is only one such list. For the object of a block it is the chain of the block; for what
  the object lists as its descendants, the blocks nested in it.
-/
import BlockScript.Block.Arena
import Mathlib.Data.List.Forall2
import Mathlib.Logic.Relation

namespace BlockScript

namespace Node

theorem connected_cons (name : String) (link : Option Nat) (rest : List (String × Option Nat)) :
    connected ((name, link) :: rest) = link.toList ++ connected rest := by
  cases link <;> rfl

end Node

namespace Arena

open Relation

variable {arena before middle after : Arena} {place : Nat} {places more listed : List Nat}

/-! ## Going through objects -/

theorem Walks.append (h : arena.Walks places listed) {listed' : List Nat}
    (h' : arena.Walks more listed') : arena.Walks (places ++ more) (listed ++ listed') := by
  induction h with
  | nil => exact h'
  | cons hnode hinner hbehind _ _ _ ih =>
    rw [List.cons_append, List.append_assoc]
    exact .cons hnode hinner hbehind ih

theorem Walks.split (h : arena.Walks (places ++ more) listed) :
    ∃ inner behind, listed = inner ++ behind ∧ arena.Walks places inner ∧ arena.Walks more behind := by
  induction places generalizing listed with
  | nil => exact ⟨[], listed, rfl, .nil, h⟩
  | cons place others ih =>
    obtain _ | ⟨hnode, hinner, hbehind, hrest⟩ := h
    obtain ⟨first, second, rfl, hfirst, hsecond⟩ := ih hrest
    exact ⟨_, second, (List.append_assoc _ _ _).symm, .cons hnode hinner hbehind hfirst, hsecond⟩

/-- There is one list only. -/
theorem Walks.unique (h : arena.Walks places listed) {listed' : List Nat}
    (h' : arena.Walks places listed') : listed' = listed := by
  induction h generalizing listed' with
  | nil =>
    cases h'
    rfl
  | cons hnode _ _ _ ihinner ihbehind ihrest =>
    obtain _ | ⟨hnode', hinner', hbehind', hrest'⟩ := h'
    cases hnode.symm.trans hnode'
    rw [ihinner hinner', ihbehind hbehind', ihrest hrest']

/-- The list has what the objects hold, what that holds, and so on. -/
theorem Walks.mem_iff (h : arena.Walks places listed) (found : Nat) :
    found ∈ listed ↔ ∃ place ∈ places, ReflTransGen arena.Holds place found := by
  induction h with
  | nil => simp
  | @cons place node others inner behind rest hnode _ _ _ ihinner ihbehind ihrest =>
    have hplace : ReflTransGen arena.Holds place found ↔
        found = place ∨ ∃ child ∈ node.children, ReflTransGen arena.Holds child found := by
      rw [ReflTransGen.cases_head_iff, eq_comm]
      refine or_congr_right (exists_congr fun child => and_congr_left fun _ => ?_)
      rw [Holds, hnode]
      simp
    rw [List.exists_mem_cons_iff, hplace]
    simp only [List.mem_append, List.mem_cons, ihinner, ihbehind, ihrest, Node.children,
      or_and_right, exists_or]

/-- An object lists itself, and what can be reached from what is in its slots. -/
theorem Lists.mem_iff (h : arena.Lists place listed) (found : Nat) :
    found ∈ listed ↔
      found = place ∨ ∃ input, arena.HoldsInput place input ∧ ReflTransGen arena.Holds input found := by
  obtain ⟨node, inner, hnode, hinner, rfl⟩ := h
  rw [List.mem_cons, hinner.mem_iff]
  simp only [HoldsInput, hnode, Option.some.injEq, exists_eq_left']

theorem Lists.unique (h : arena.Lists place listed) {listed' : List Nat}
    (h' : arena.Lists place listed') : listed' = listed := by
  obtain ⟨node, inner, hnode, hinner, rfl⟩ := h
  obtain ⟨node', inner', hnode', hinner', rfl⟩ := h'
  cases hnode.symm.trans hnode'
  rw [hinner.unique hinner']

/-! ## Larger arenas -/

/-- The objects of one arena are in another one, perhaps with other parents. -/
def Extends (before after : Arena) : Prop :=
  ∀ (place : Nat) (node : Node), before[place]? = some node →
    ∃ parent, after[place]? = some { node with parent := parent }

theorem Extends.trans (h : Extends before middle) (h' : Extends middle after) :
    Extends before after := by
  intro place node hnode
  obtain ⟨_, hmiddle⟩ := h place node hnode
  obtain ⟨parent, hafter⟩ := h' place _ hmiddle
  exact ⟨parent, hafter⟩

theorem Walks.mono (h : before.Walks places listed) (hextends : before.Extends after) :
    after.Walks places listed := by
  induction h with
  | nil => exact .nil
  | cons hnode _ _ _ ihinner ihbehind ihrest =>
    obtain ⟨parent, hafter⟩ := hextends _ _ hnode
    exact .cons hafter ihinner ihbehind ihrest

end Arena

namespace Block

open Arena

variable {arena before after : Arena}

/-! ## Blocks in an arena -/

mutual

/-- A block is in an arena at a place: the object there has its head, and refers to what is in its
    slots and to what follows it. -/
def IsAt (arena : Arena) : Block → Nat → Prop
  | mk head values statements next, place =>
    ∃ node, arena[place]? = some node ∧ node.head = head ∧ SlotsAt arena values node.values ∧
      SlotsAt arena statements node.statements ∧ LinkAt arena next node.next

/-- The blocks in slots are in an arena, and references have the names of the slots. -/
def SlotsAt (arena : Arena) : Slots → List (String × Option Nat) → Prop
  | [], places => places = []
  | (name, link) :: rest, places =>
    ∃ place others, places = (name, place) :: others ∧ LinkAt arena link place ∧
      SlotsAt arena rest others

/-- A block is in an arena at a place, or there is neither. -/
def LinkAt (arena : Arena) : Option Block → Option Nat → Prop
  | none, place => place = none
  | some b, place => ∃ root, place = some root ∧ IsAt arena b root

end

mutual

theorem IsAt.mono (hextends : before.Extends after) :
    ∀ {b : Block} {place : Nat}, IsAt before b place → IsAt after b place
  | mk head values statements next, place, h => by
    rw [IsAt] at h ⊢
    obtain ⟨node, hnode, hhead, hvalues, hstatements, hnext⟩ := h
    obtain ⟨parent, hafter⟩ := hextends _ _ hnode
    exact ⟨_, hafter, hhead, SlotsAt.mono hextends hvalues, SlotsAt.mono hextends hstatements,
      LinkAt.mono hextends hnext⟩

theorem SlotsAt.mono (hextends : before.Extends after) :
    ∀ {slots : Slots} {places : List (String × Option Nat)},
      SlotsAt before slots places → SlotsAt after slots places
  | [], places, h => by rwa [SlotsAt] at h ⊢
  | (name, link) :: rest, places, h => by
    rw [SlotsAt] at h ⊢
    obtain ⟨place, others, rfl, hlink, hrest⟩ := h
    exact ⟨place, others, rfl, LinkAt.mono hextends hlink, SlotsAt.mono hextends hrest⟩

theorem LinkAt.mono (hextends : before.Extends after) :
    ∀ {link : Option Block} {place : Option Nat}, LinkAt before link place → LinkAt after link place
  | none, place, h => by rwa [LinkAt] at h ⊢
  | some b, place, h => by
    rw [LinkAt] at h ⊢
    obtain ⟨root, rfl, hroot⟩ := h
    exact ⟨root, rfl, IsAt.mono hextends hroot⟩

end

mutual

/-- Going through the object of a block lists the block and what is behind it. -/
theorem IsAt.walks : ∀ {b : Block} {place : Nat}, IsAt arena b place →
    ∃ listed behind, arena.Lists place listed ∧ arena.Walks [place] (listed ++ behind) ∧
      List.Forall₂ (IsAt arena) b.nested listed ∧ List.Forall₂ (IsAt arena) (chain b.next) behind
  | mk head values statements next, place, h => by
    have hb := h
    rw [IsAt] at h
    obtain ⟨node, hnode, hhead, hvalues, hstatements, hnext⟩ := h
    obtain ⟨valued, hwalksValues, hallValues⟩ := SlotsAt.walks hvalues
    obtain ⟨stated, hwalksStatements, hallStatements⟩ := SlotsAt.walks hstatements
    obtain ⟨behind, hwalksNext, hallNext⟩ := LinkAt.walks hnext
    have hinner := hwalksValues.append hwalksStatements
    refine ⟨place :: (valued ++ stated), behind, ⟨node, _, hnode, hinner, rfl⟩, ?_, ?_, hallNext⟩
    · have hwalks := Walks.cons hnode hinner hwalksNext .nil
      rwa [List.append_nil] at hwalks
    · rw [nested]
      exact .cons hb (List.rel_append hallValues hallStatements)

theorem SlotsAt.walks : ∀ {slots : Slots} {places : List (String × Option Nat)},
    SlotsAt arena slots places →
    ∃ listed, arena.Walks (Node.connected places) listed ∧
      List.Forall₂ (IsAt arena) (nestedInSlots slots) listed
  | [], places, h => by
    rw [SlotsAt] at h
    rw [h, nestedInSlots]
    exact ⟨[], .nil, .nil⟩
  | (name, link) :: rest, places, h => by
    rw [SlotsAt] at h
    obtain ⟨place, others, rfl, hlink, hrest⟩ := h
    obtain ⟨first, hwalksFirst, hallFirst⟩ := LinkAt.walks hlink
    obtain ⟨second, hwalksSecond, hallSecond⟩ := SlotsAt.walks hrest
    rw [Node.connected_cons, nestedInSlots]
    exact ⟨first ++ second, hwalksFirst.append hwalksSecond, List.rel_append hallFirst hallSecond⟩

theorem LinkAt.walks : ∀ {link : Option Block} {place : Option Nat}, LinkAt arena link place →
    ∃ listed, arena.Walks place.toList listed ∧ List.Forall₂ (IsAt arena) (chain link) listed
  | none, place, h => by
    rw [LinkAt] at h
    rw [h, chain]
    exact ⟨[], .nil, .nil⟩
  | some b, place, h => by
    rw [LinkAt] at h
    obtain ⟨root, rfl, hroot⟩ := h
    obtain ⟨listed, behind, -, hwalks, hnested, hbehind⟩ := IsAt.walks hroot
    refine ⟨listed ++ behind, hwalks, ?_⟩
    obtain ⟨head, values, statements, next⟩ := b
    rw [chain]
    exact List.rel_append hnested hbehind

end

end Block

end BlockScript
