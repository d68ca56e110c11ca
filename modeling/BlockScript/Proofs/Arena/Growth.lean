/-
  BlockScript.Proofs.Arena.Growth

  What laying out a tree does to an arena. Everything that was there stays as it was. Of the new
  objects only the root has no parent; every other one has as its parent the one object that holds it.

  One lemma tells this of adding an object, one of laying out parts one after the other, and the rest
  is by induction on the tree.
-/
import BlockScript.Proofs.Arena.Walk
import Mathlib.Data.List.Nodup

namespace BlockScript

namespace Arena

variable {arena before middle after : Arena} {node : Node} {place : Nat} {roots more : List Nat}

/-! ## Adding an object -/

theorem adopt_getElem? (arena : Arena) (parent child place : Nat) :
    (arena.adopt parent child)[place]? = arena[place]?.map fun node =>
      if child = place then { node with parent := some parent } else node := by
  rw [adopt, List.getElem?_modify]
  rfl

theorem length_adopt (arena : Arena) (parent child : Nat) :
    (arena.adopt parent child).length = arena.length :=
  List.length_modify _ _ _

/-- All objects of a list get the same parent. -/
theorem foldl_adopt_getElem? (arena : Arena) (parent : Nat) (children : List Nat) (place : Nat) :
    (children.foldl (fun arena child => arena.adopt parent child) arena)[place]? =
      arena[place]?.map fun node =>
        if place ∈ children then { node with parent := some parent } else node := by
  induction children generalizing arena with
  | nil => simp
  | cons child rest ih =>
    rw [List.foldl_cons, ih, adopt_getElem?, Option.map_map]
    congr 1
    funext node
    by_cases hchild : child = place
    · subst hchild
      by_cases hrest : child ∈ rest <;> simp [hrest]
    · simp [hchild, Ne.symm hchild]

theorem length_foldl_adopt (arena : Arena) (parent : Nat) (children : List Nat) :
    (children.foldl (fun arena child => arena.adopt parent child) arena).length = arena.length := by
  induction children generalizing arena with
  | nil => rfl
  | cons child rest ih => rw [List.foldl_cons, ih, length_adopt]

theorem length_add (arena : Arena) (node : Node) : (arena.add node).length = arena.length + 1 := by
  rw [add, List.length_append, length_foldl_adopt]
  rfl

/-- What is at a place after the addition of an object. -/
theorem add_getElem? (arena : Arena) (node : Node) (place : Nat) :
    (arena.add node)[place]? =
      if place = arena.length then some node
      else arena[place]?.map fun old =>
        if place ∈ node.children then { old with parent := some arena.length } else old := by
  rw [add, List.getElem?_append, length_foldl_adopt]
  by_cases hlt : place < arena.length
  · rw [if_pos hlt, if_neg (Nat.ne_of_lt hlt), foldl_adopt_getElem?]
  · rw [if_neg hlt]
    by_cases hlast : place = arena.length
    · rw [if_pos hlast, hlast, Nat.sub_self]
      rfl
    · rw [if_neg hlast, List.getElem?_eq_none (by simp; omega), List.getElem?_eq_none (by omega)]
      rfl

/-- The new object has the parent that it came with, and those that it holds have it as theirs. -/
theorem add_parent? (arena : Arena) (node : Node) (place : Nat) :
    (arena.add node).parent? place =
      if place = arena.length then node.parent
      else if place ∈ node.children ∧ place < arena.length then some arena.length
      else arena.parent? place := by
  rw [parent?, parent?, add_getElem?]
  by_cases hlast : place = arena.length
  · rw [if_pos hlast, if_pos hlast]
    rfl
  · rw [if_neg hlast, if_neg hlast]
    by_cases hlt : place < arena.length
    · rw [List.getElem?_eq_getElem hlt]
      by_cases hchild : place ∈ node.children <;> simp [hchild, hlt]
    · rw [List.getElem?_eq_none (Nat.not_lt.mp hlt), if_neg fun hboth => hlt hboth.2]
      rfl

theorem Holds.lt {holder : Nat} (h : arena.Holds holder place) : holder < arena.length := by
  obtain ⟨node, hnode, -⟩ := h
  exact (List.getElem?_eq_some_iff.mp hnode).1

/-- The new object holds what it came with, and the others hold what they held. -/
theorem add_holds_iff (arena : Arena) (node : Node) {holder : Nat} :
    (arena.add node).Holds holder place ↔
      holder = arena.length ∧ place ∈ node.children ∨ arena.Holds holder place := by
  by_cases hlast : holder = arena.length
  · have hnone : ¬ arena.Holds holder place := fun h => Nat.ne_of_lt h.lt hlast
    rw [or_iff_left hnone, Holds, add_getElem?, if_pos hlast]
    simp [hlast]
  · rw [or_iff_right fun h => hlast h.1, Holds, Holds, add_getElem?, if_neg hlast]
    constructor
    · rintro ⟨other, hother, hchild⟩
      obtain ⟨old, hold, rfl⟩ := Option.map_eq_some_iff.mp hother
      refine ⟨old, hold, ?_⟩
      split at hchild <;> exact hchild
    · rintro ⟨old, hold, hchild⟩
      refine ⟨_, by rw [hold]; rfl, ?_⟩
      split <;> exact hchild

/-! ## What is kept -/

theorem extends_add (arena : Arena) (node : Node) : Extends arena (arena.add node) := by
  intro place old hold
  have hlt : place < arena.length := (List.getElem?_eq_some_iff.mp hold).1
  rw [add_getElem?, if_neg (Nat.ne_of_lt hlt), hold]
  by_cases hchild : place ∈ node.children
  · exact ⟨some arena.length, by simp [hchild]⟩
  · exact ⟨old.parent, by simp [hchild]⟩

/-! ## Growth -/

/-- An arena has grown by trees of new objects with these roots. -/
structure Grown (before after : Arena) (roots : List Nat) : Prop where
  le : before.length ≤ after.length
  /-- The objects that were there are as they were. -/
  kept : ∀ place, place < before.length → after[place]? = before[place]?
  /-- The roots are new. -/
  root : ∀ root ∈ roots, before.length ≤ root ∧ root < after.length
  nodup : roots.Nodup
  /-- Of the new objects just the roots have no parent. -/
  parent?_eq_none : ∀ place, before.length ≤ place → place < after.length →
    (after.parent? place = none ↔ place ∈ roots)
  /-- The parent of a new object is the one that holds it. -/
  parent?_eq_some : ∀ place, before.length ≤ place → ∀ holder,
    (after.parent? place = some holder ↔ before.length ≤ holder ∧ after.Holds holder place)
  /-- A new object holds new ones that were made before it. -/
  holds : ∀ holder place, before.length ≤ holder → after.Holds holder place →
    before.length ≤ place ∧ place < holder
  /-- It holds each of them once. -/
  once : ∀ holder node, before.length ≤ holder → after[holder]? = some node → node.children.Nodup
  /-- Going through the roots lists each new object once. -/
  listed : ∃ listed, after.Walks roots listed ∧
    listed.Perm (List.range' before.length (after.length - before.length))

theorem Grown.refl (arena : Arena) : Grown arena arena [] where
  le := Nat.le_refl _
  kept _ _ := rfl
  root _ h := absurd h List.not_mem_nil
  nodup := List.nodup_nil
  parent?_eq_none place hle hlt := absurd hlt (Nat.not_lt.mpr hle)
  parent?_eq_some place hle holder := by
    have hnone : ∀ place, arena.length ≤ place → arena[place]? = none :=
      fun _ => List.getElem?_eq_none
    constructor
    · intro h
      rw [parent?, hnone place hle] at h
      cases h
    · rintro ⟨hholder, node, hnode, -⟩
      rw [hnone holder hholder] at hnode
      cases hnode
  holds holder place hle h := by
    obtain ⟨node, hnode, -⟩ := h
    rw [List.getElem?_eq_none hle] at hnode
    cases hnode
  once holder node hle h := by
    rw [List.getElem?_eq_none hle] at h
    cases h
  listed := ⟨[], .nil, by rw [Nat.sub_self]; exact .nil⟩

theorem Grown.extends (h : Grown before after roots) : Extends before after := by
  intro place node hnode
  have hlt : place < before.length := (List.getElem?_eq_some_iff.mp hnode).1
  exact ⟨node.parent, (h.kept place hlt).trans hnode⟩

/-- An object that was there holds what it held. -/
theorem Grown.holds_iff (h : Grown before after roots) {holder : Nat} (hlt : holder < before.length) :
    after.Holds holder place ↔ before.Holds holder place := by
  rw [Holds, Holds, h.kept holder hlt]

theorem Grown.parent?_eq (h : Grown before after roots) (hlt : place < before.length) :
    after.parent? place = before.parent? place := by
  rw [parent?, parent?, h.kept place hlt]

/-- Growth by some trees, and then by others. -/
theorem Grown.trans (h : Grown before middle roots) (h' : Grown middle after more) :
    Grown before after (roots ++ more) where
  le := Nat.le_trans h.le h'.le
  kept place hlt := (h'.kept place (Nat.lt_of_lt_of_le hlt h.le)).trans (h.kept place hlt)
  root root hroot := by
    have hle := h.le
    have hle' := h'.le
    rcases List.mem_append.mp hroot with hroot | hroot
    · have := h.root root hroot
      omega
    · have := h'.root root hroot
      omega
  nodup := by
    refine List.nodup_append.mpr ⟨h.nodup, h'.nodup, ?_⟩
    rintro a ha b hb rfl
    have := h.root a ha
    have := h'.root a hb
    omega
  parent?_eq_none place hle hlt := by
    rw [List.mem_append]
    by_cases hmiddle : place < middle.length
    · have hmore : place ∉ more := fun hmem => absurd (h'.root place hmem).1 (Nat.not_le.mpr hmiddle)
      rw [h'.parent?_eq hmiddle, h.parent?_eq_none place hle hmiddle, or_iff_left hmore]
    · have hroots : place ∉ roots := fun hmem => hmiddle (h.root place hmem).2
      rw [h'.parent?_eq_none place (Nat.not_lt.mp hmiddle) hlt, or_iff_right hroots]
  parent?_eq_some place hle holder := by
    by_cases hmiddle : place < middle.length
    · rw [h'.parent?_eq hmiddle, h.parent?_eq_some place hle holder]
      refine and_congr_right fun _ => ?_
      by_cases hholder : holder < middle.length
      · exact (h'.holds_iff hholder).symm
      · -- An object of the first trees is held by none of the second ones.
        have hnone : ¬ middle.Holds holder place := by
          rintro ⟨node, hnode, -⟩
          exact hholder (List.getElem?_eq_some_iff.mp hnode).1
        refine iff_of_false hnone fun hholds => ?_
        have := h'.holds holder place (Nat.not_lt.mp hholder) hholds
        omega
    · have hplace : middle.length ≤ place := Nat.not_lt.mp hmiddle
      rw [h'.parent?_eq_some place hplace holder]
      refine and_congr_left fun hholds => ⟨Nat.le_trans h.le, fun hholder => ?_⟩
      by_contra hlt
      have hold := (h'.holds_iff (Nat.not_le.mp hlt)).mp hholds
      have := h.holds holder place hholder hold
      omega
  holds holder place hle hholds := by
    by_cases hmiddle : holder < middle.length
    · exact h.holds holder place hle ((h'.holds_iff hmiddle).mp hholds)
    · have := h'.holds holder place (Nat.not_lt.mp hmiddle) hholds
      have := h.le
      omega
  once holder node hle hnode := by
    by_cases hmiddle : holder < middle.length
    · rw [h'.kept holder hmiddle] at hnode
      exact h.once holder node hle hnode
    · exact h'.once holder node (Nat.not_lt.mp hmiddle) hnode
  listed := by
    obtain ⟨first, hwalks, hfirst⟩ := h.listed
    obtain ⟨second, hwalks', hsecond⟩ := h'.listed
    refine ⟨first ++ second, (hwalks.mono h'.extends).append hwalks', ?_⟩
    have hsize : after.length - before.length =
        (middle.length - before.length) + (after.length - middle.length) := by
      have := h.le
      have := h'.le
      omega
    have hmiddle : before.length + (middle.length - before.length) = middle.length :=
      Nat.add_sub_cancel' h.le
    rw [hsize, ← List.range'_append_1, hmiddle]
    exact hfirst.append hsecond

/-- An object that holds the roots is the root of a tree. -/
theorem Grown.add (h : Grown before middle node.children) (hparent : node.parent = none) :
    Grown before (middle.add node) [middle.length] where
  le := by
    rw [length_add]
    exact Nat.le_succ_of_le h.le
  kept place hlt := by
    have hchild : place ∉ node.children := fun hmem =>
      absurd (h.root place hmem).1 (Nat.not_le.mpr hlt)
    have hle := h.le
    rw [add_getElem?, if_neg (by omega), ← h.kept place hlt]
    simp [hchild]
  root root hroot := by
    rw [List.mem_singleton.mp hroot, length_add]
    exact ⟨h.le, Nat.lt_succ_self _⟩
  nodup := List.nodup_singleton _
  parent?_eq_none place hle hlt := by
    rw [add_parent?, List.mem_singleton]
    by_cases hlast : place = middle.length
    · rw [if_pos hlast, hparent]
      exact iff_of_true rfl hlast
    · have hmiddle : place < middle.length := by
        rw [length_add] at hlt
        omega
      rw [if_neg hlast]
      by_cases hchild : place ∈ node.children
      · rw [if_pos ⟨hchild, hmiddle⟩]
        exact iff_of_false (Option.some_ne_none _) hlast
      · rw [if_neg fun hboth => hchild hboth.1, h.parent?_eq_none place hle hmiddle]
        exact iff_of_false hchild hlast
  parent?_eq_some place hle holder := by
    rw [add_parent?, add_holds_iff]
    by_cases hlast : place = middle.length
    · -- The new object has no parent, and nothing that was there before holds it.
      rw [if_pos hlast, hparent]
      refine iff_of_false (Option.some_ne_none _).symm ?_
      rintro ⟨hholder, ⟨-, hchild⟩ | hholds⟩
      · exact absurd (h.root place hchild).2 (by omega)
      · have := h.holds holder place hholder hholds
        have := hholds.lt
        omega
    · rw [if_neg hlast]
      by_cases hchild : place ∈ node.children
      · have hroot := h.root place hchild
        have hnone := (h.parent?_eq_none place hle hroot.2).mpr hchild
        rw [if_pos ⟨hchild, hroot.2⟩]
        constructor
        · rintro ⟨⟩
          exact ⟨h.le, .inl ⟨rfl, hchild⟩⟩
        · rintro ⟨hholder, ⟨rfl, -⟩ | hholds⟩
          · rfl
          · have hsome := (h.parent?_eq_some place hle holder).mpr ⟨hholder, hholds⟩
            rw [hnone] at hsome
            cases hsome
      · rw [if_neg fun hboth => hchild hboth.1, h.parent?_eq_some place hle holder]
        simp [hchild]
  holds holder place hle hholds := by
    rcases (add_holds_iff middle node).mp hholds with ⟨rfl, hchild⟩ | hholds
    · exact h.root place hchild
    · exact h.holds holder place hle hholds
  once holder other hle hother := by
    rw [add_getElem?] at hother
    split at hother
    · cases hother
      exact h.nodup
    · obtain ⟨old, hold, rfl⟩ := Option.map_eq_some_iff.mp hother
      have hnodup := h.once holder old hle hold
      split <;> exact hnodup
  listed := by
    obtain ⟨listed, hwalks, hlisted⟩ := h.listed
    obtain ⟨inner, behind, rfl, hinner, hbehind⟩ := (hwalks.mono (extends_add middle node)).split
    have hnode : (middle.add node)[middle.length]? = some node := by rw [add_getElem?, if_pos rfl]
    have hroot := Walks.cons hnode hinner hbehind .nil
    refine ⟨_, hroot, ?_⟩
    have hsize : (middle.add node).length - before.length = (middle.length - before.length) + 1 := by
      rw [length_add]
      exact Nat.sub_add_comm h.le
    have hlast : before.length + (middle.length - before.length) = middle.length :=
      Nat.add_sub_cancel' h.le
    rw [List.append_nil, hsize, ← List.range'_append_1, hlast]
    exact (List.perm_append_singleton _ _).symm.trans (hlisted.append_right _)

end Arena

/-! ## Laying out a tree -/

namespace Block

open Arena

theorem layOutSlots_cons (name : String) (link : Option Block) (rest : Slots) (arena : Arena) :
    layOutSlots ((name, link) :: rest) arena =
      let linked := layOutLink link arena
      let slots := layOutSlots rest linked.2
      ((name, linked.1) :: slots.1, slots.2) :=
  rfl

mutual

/-- Laying out a block adds one tree, whose root is the last object. -/
theorem layOut_grown (b : Block) (arena : Arena) :
    Grown arena (b.layOut arena).2 [(b.layOut arena).1] := by
  obtain ⟨head, values, statements, next⟩ := b
  have hvalues := layOutSlots_grown values arena
  have hstatements := layOutSlots_grown statements (layOutSlots values arena).2
  have hnext := layOutLink_grown next
    (layOutSlots statements (layOutSlots values arena).2).2
  exact ((hvalues.trans hstatements).trans hnext).add rfl

theorem layOutSlots_grown (slots : Slots) (arena : Arena) :
    Grown arena (layOutSlots slots arena).2 (Node.connected (layOutSlots slots arena).1) := by
  match slots with
  | [] => exact .refl arena
  | (name, link) :: rest =>
    have hlink := layOutLink_grown link arena
    have hrest := layOutSlots_grown rest (layOutLink link arena).2
    rw [layOutSlots_cons, Node.connected_cons]
    exact hlink.trans hrest

theorem layOutLink_grown (link : Option Block) (arena : Arena) :
    Grown arena (layOutLink link arena).2 (layOutLink link arena).1.toList := by
  match link with
  | none => exact .refl arena
  | some b => exact layOut_grown b arena

end

mutual

/-- A block that was laid out is in the arena. -/
theorem layOut_isAt (b : Block) (arena : Arena) : IsAt (b.layOut arena).2 b (b.layOut arena).1 := by
  obtain ⟨head, values, statements, next⟩ := b
  let valued := layOutSlots values arena
  let stated := layOutSlots statements valued.2
  let linked := layOutLink next stated.2
  let node : Node := ⟨head, valued.1, stated.1, linked.1, none⟩
  have hstated := (layOutSlots_grown statements valued.2).extends
  have hlinked := (layOutLink_grown next stated.2).extends
  have hnode := extends_add linked.2 node
  have hvalues := layOutSlots_isAt values arena
  have hstatements := layOutSlots_isAt statements valued.2
  have hnext := layOutLink_isAt next stated.2
  rw [IsAt]
  refine ⟨node, ?_, rfl, hvalues.mono (hstated.trans (hlinked.trans hnode)),
    hstatements.mono (hlinked.trans hnode), hnext.mono hnode⟩
  exact (add_getElem? _ _ _).trans (if_pos rfl)

theorem layOutSlots_isAt (slots : Slots) (arena : Arena) :
    SlotsAt (layOutSlots slots arena).2 slots (layOutSlots slots arena).1 := by
  match slots with
  | [] => rw [SlotsAt]; rfl
  | (name, link) :: rest =>
    have hrest := (layOutSlots_grown rest (layOutLink link arena).2).extends
    rw [SlotsAt, layOutSlots_cons]
    exact ⟨_, _, rfl, (layOutLink_isAt link arena).mono hrest, layOutSlots_isAt rest _⟩

theorem layOutLink_isAt (link : Option Block) (arena : Arena) :
    LinkAt (layOutLink link arena).2 link (layOutLink link arena).1 := by
  match link with
  | none => rw [LinkAt]; rfl
  | some b =>
    rw [LinkAt]
    exact ⟨_, rfl, layOut_isAt b arena⟩

end

end Block

end BlockScript
