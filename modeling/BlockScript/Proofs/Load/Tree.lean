/-
  BlockScript.Proofs.Load.Tree

  Loading builds a tree. The loaded block is laid out as objects that refer to each other: the root has
  no parent, every other object has the one that holds it as its parent, and the descendants of the
  root are what can be reached from its slots. Objects are made in the order in which blocks are
  numbered.
-/
import BlockScript.Proofs.Arena.Growth
import BlockScript.Proofs.Load.Numbering

namespace BlockScript

namespace Arena

theorem map_head_add (arena : Arena) (node : Node) :
    (arena.add node).map (·.head) = arena.map (·.head) ++ [node.head] := by
  refine List.ext_getElem? fun place => ?_
  rw [List.getElem?_map, add_getElem?, List.getElem?_append, List.length_map, List.getElem?_map]
  by_cases hlast : place = arena.length
  · simp [hlast]
  · rw [if_neg hlast, Option.map_map]
    by_cases hlt : place < arena.length
    · rw [if_pos hlt]
      congr 1
      funext old
      by_cases hchild : place ∈ node.children <;> simp [hchild]
    · rw [if_neg hlt, List.getElem?_eq_none (Nat.not_lt.mp hlt),
        List.getElem?_eq_none (by simp; omega)]
      rfl

end Arena

namespace Block

open BlockScript.Numbering Arena Relation

/-! ## The form of the data -/

mutual

/-- A block has the slots that data gives it, with the blocks that the data has there, and the data's
    following block. -/
def HasForm : Block → Json → Prop
  | mk _ values statements next, data =>
    ∃ members, data = .obj members ∧ SlotsHaveForm values (Json.member members "values").slotMembers ∧
      SlotsHaveForm statements (Json.member members "statements").slotMembers ∧
      LinkHasForm next (Json.member members "next")

/-- Slots have the names that data gives them, in its order, and the blocks that it has there. -/
def SlotsHaveForm : Slots → List (String × Json) → Prop
  | [], members => members = []
  | (name, link) :: rest, members =>
    ∃ value others, members = (name, value) :: others ∧ LinkHasForm link value ∧
      SlotsHaveForm rest others

/-- There is no block for null, and for other data one of its form. -/
def LinkHasForm : Option Block → Json → Prop
  | none, data => data = .null
  | some b, data => HasForm b data

end

theorem loadLink_hasForm {data : Json} {n n' : Nat} {link : Option Block}
    (hload : ∀ n b n', load data n = .ok b n' → b.HasForm data)
    (h : loadLink data n = .ok link n') : LinkHasForm link data := by
  rw [LinkHasForm.eq_def]
  obtain ⟨rfl, rfl, -⟩ | ⟨b, rfl, hblock⟩ := loadLink_eq_ok h
  · rfl
  · exact hload n b n' hblock

theorem loadSlotList_hasForm {members : List (String × Json)} {n n' : Nat} {slots : Slots}
    (hload : ∀ item ∈ members.map (·.2), ∀ n b n', load item n = .ok b n' → b.HasForm item)
    (h : loadSlotList members n = .ok slots n') : SlotsHaveForm slots members := by
  induction members generalizing n slots with
  | nil =>
    obtain ⟨rfl, rfl⟩ := EStateM.Result.ok.inj h
    rw [SlotsHaveForm]
  | cons entry rest ih =>
    obtain ⟨name, value⟩ := entry
    obtain ⟨link, m, others, hlink, hrest, rfl⟩ := loadSlotList_cons_eq_ok h
    rw [SlotsHaveForm]
    exact ⟨value, rest, rfl, loadLink_hasForm (hload _ List.mem_cons_self) hlink,
      ih (fun item hitem => hload item (List.mem_cons_of_mem _ hitem)) hrest⟩

theorem loadSlots_hasForm {data : Json} {n n' : Nat} {slots : Slots}
    (hload : ∀ item ∈ data.slotItems, ∀ n b n', load item n = .ok b n' → b.HasForm item)
    (h : loadSlots data n = .ok slots n') : SlotsHaveForm slots data.slotMembers := by
  rw [Json.slotItems_eq] at hload
  exact loadSlotList_hasForm hload (loadSlots_eq_ok h)

/-- A loaded block has the form of its data. -/
theorem load_hasForm (data : Json) :
    ∀ n b n', load data n = .ok b n' → b.HasForm data := by
  induction data using Json.forall_of_blockParts with
  | h data ih =>
    cases data with
    | obj members =>
      intro n b n' hrun
      have hslots (name : String) (hname : name ∈ ["values", "statements"]) :
          ∀ item ∈ (Json.member members name).slotItems,
            ∀ n b n', load item n = .ok b n' → b.HasForm item :=
        fun item hitem => ih item (Json.slotItem_mem_blockParts hname hitem)
      obtain ⟨m, m', m'', hvalues, hstatements, hnext, -⟩ := load_obj_eq_ok hrun
      obtain ⟨head, values, statements, next⟩ := b
      rw [HasForm]
      exact ⟨members, rfl, loadSlots_hasForm (hslots "values" (by simp)) hvalues,
        loadSlots_hasForm (hslots "statements" (by simp)) hstatements,
        loadLink_hasForm (ih _ (Json.next_mem_blockParts members)) hnext⟩
    | _ => exact fun _ _ _ hrun => by cases hrun

/-! ## Laying out -/

mutual

/-- Objects are made in the order in which blocks are complete. -/
theorem layOut_heads (b : Block) (arena : Arena) :
    (b.layOut arena).2.map (·.head) = arena.map (·.head) ++ b.loaded.map (·.head) := by
  obtain ⟨head, values, statements, next⟩ := b
  have hvalues := layOutSlots_heads values arena
  have hstatements := layOutSlots_heads statements (layOutSlots values arena).2
  have hnext := layOutLink_heads next (layOutSlots statements (layOutSlots values arena).2).2
  refine (map_head_add _ _).trans ?_
  rw [loaded, hnext, hstatements, hvalues]
  simp only [List.map_append, List.append_assoc]
  rfl

theorem layOutSlots_heads (slots : Slots) (arena : Arena) :
    (layOutSlots slots arena).2.map (·.head) =
      arena.map (·.head) ++ (loadedInSlots slots).map (·.head) := by
  match slots with
  | [] =>
    rw [loadedInSlots]
    exact (List.append_nil _).symm
  | (name, link) :: rest =>
    have hlink := layOutLink_heads link arena
    have hrest := layOutSlots_heads rest (layOutLink link arena).2
    rw [layOutSlots_cons, loadedInSlots, List.map_append, ← List.append_assoc, ← hlink]
    exact hrest

theorem layOutLink_heads (link : Option Block) (arena : Arena) :
    (layOutLink link arena).2.map (·.head) =
      arena.map (·.head) ++ (loadedLink link).map (·.head) := by
  match link with
  | none =>
    rw [loadedLink]
    exact (List.append_nil _).symm
  | some b =>
    rw [loadedLink]
    exact layOut_heads b arena

end

/-- The objects of a block that was laid out alone form a tree, whose root lists what is nested in the
    block. -/
theorem layOut_tree {b : Block} {root : Nat} {arena : Arena} (h : b.layOut [] = (root, arena)) :
    (∀ place < arena.length, arena.parent? place = none ↔ place = root) ∧
      (∀ place holder, arena.parent? place = some holder ↔ arena.Holds holder place) ∧
      (∀ (holder : Nat) (node : Node), arena[holder]? = some node → node.children.Nodup) ∧
      ∃ listed, (∀ other, arena.Lists root other ↔ other = listed) ∧ listed.Nodup ∧
        List.Forall₂ (IsAt arena) b.nested listed := by
  have hgrown := layOut_grown b []
  have hroot := layOut_isAt b []
  rw [h] at hgrown hroot
  refine ⟨fun place hlt => ?_, fun place holder => ?_, fun holder node hnode => ?_, ?_⟩
  · rw [hgrown.parent?_eq_none place (Nat.zero_le _) hlt, List.mem_singleton]
  · rw [hgrown.parent?_eq_some place (Nat.zero_le _)]
    exact and_iff_right (Nat.zero_le _)
  · exact hgrown.once holder node (Nat.zero_le _) hnode
  · obtain ⟨all, hwalks, hall⟩ := hgrown.listed
    obtain ⟨listed, behind, hlists, hwalks', hnested, -⟩ := hroot.walks
    have hnodup : (listed ++ behind).Nodup := by
      rw [hwalks.unique hwalks']
      exact hall.nodup_iff.mpr List.nodup_range'
    refine ⟨listed, fun other => ⟨hlists.unique, ?_⟩, hnodup.of_append_left, hnested⟩
    rintro rfl
    exact hlists

/-- A block that is loaded is a tree. Its root has no parent, and every other block has as its parent
    the one that holds it, in one place. The root lists as its descendants what is nested in it: all
    that can be reached from what is in its slots, each block once. The blocks without an id take
    consecutive numbers, in the order values, statements, following block, block. -/
theorem load_tree {data : Json} {n n' : Nat} {b : Block} (h : load data n = .ok b n') :
    b.HasForm data ∧ ∃ root arena, b.layOut [] = (root, arena) ∧ IsAt arena b root ∧
      (∀ place < arena.length, arena.parent? place = none ↔ place = root) ∧
      (∀ place holder, arena.parent? place = some holder ↔ arena.Holds holder place) ∧
      (∀ (holder : Nat) (node : Node), arena[holder]? = some node → node.children.Nodup) ∧
      (∃ listed, (∀ other, arena.Lists root other ↔ other = listed) ∧ listed.Nodup ∧
        (∀ place, place ∈ listed ↔
          place = root ∨ ∃ input, arena.HoldsInput root input ∧ ReflTransGen arena.Holds input place) ∧
        List.Forall₂ (IsAt arena) b.nested listed) ∧
      arena.map (·.head.id) = fill n data.givenIds ∧ n' = n + data.givenIds.count none := by
  obtain ⟨hids, hcount⟩ := load_numbers data n b n' h
  have hform := load_hasForm data n b n' h
  have hheads := layOut_heads b []
  have hroot := layOut_isAt b []
  cases hlayOut : b.layOut [] with
  | mk root arena =>
    rw [hlayOut] at hheads hroot
    obtain ⟨hparent, hholder, honce, listed, hlists, hnodup, hnested⟩ := layOut_tree hlayOut
    refine ⟨hform, root, arena, rfl, hroot, hparent, hholder, honce,
      ⟨listed, hlists, hnodup, ((hlists listed).mpr rfl).mem_iff, hnested⟩, ?_, hcount⟩
    calc arena.map (·.head.id)
      _ = (arena.map (·.head)).map (·.id) := List.map_map.symm
      _ = (b.loaded.map (·.head)).map (·.id) := congrArg _ hheads
      _ = b.loaded.map (·.id) := List.map_map
      _ = fill n data.givenIds := hids

/-- A conditional with a test, with two blocks to run and with a block that follows, where two of them
    have an id. -/
def conditionalData : Json :=
  .obj [("type", .str "controls_if"),
    ("values", .obj [("IF0", .obj [("type", .str "logic_boolean"), ("id", .str "test")]),
      ("IF1", .null)]),
    ("statements", .obj [("DO0", .obj [("type", .str "text_print"),
      ("next", .obj [("type", .str "text_print")])])]),
    ("next", .obj [("type", .str "text_print"), ("id", .num (.int 5))])]

/-- The conditional is made last. Its descendants are the test and the two blocks to run, of which the
    second one is numbered first. -/
theorem load_tree_conditional :
    ∃ b root arena, load conditionalData 7 = .ok b 10 ∧ b.layOut [] = (root, arena) ∧
      b.HasForm conditionalData ∧
      arena.map (·.head.id) = ["test", "block7", "block8", "5", "block9"] ∧
      arena.map (·.parent) = [some 4, some 2, some 4, some 4, none] ∧
      b.nested.map (·.id) = ["block9", "test", "block8", "block7"] ∧
      ∃ listed, arena.Lists root listed ∧ List.Forall₂ (IsAt arena) b.nested listed := by
  have hload : ∃ b, load conditionalData 7 = .ok b 10 ∧
      (b.layOut []).2.map (·.parent) = [some 4, some 2, some 4, some 4, none] ∧
      (b.layOut []).2.map (·.head.id) = ["test", "block7", "block8", "5", "block9"] ∧
      b.nested.map (·.id) = ["block9", "test", "block8", "block7"] :=
    ⟨_, by with_unfolding_all rfl, by with_unfolding_all rfl, by with_unfolding_all rfl,
      by with_unfolding_all rfl⟩
  obtain ⟨b, hload, hparents, hids, hnested⟩ := hload
  obtain ⟨hform, root, arena, hlayOut, -, -, -, -, ⟨listed, hlists, -, -, hall⟩, -⟩ := load_tree hload
  rw [hlayOut] at hparents hids
  exact ⟨b, root, arena, hload, hlayOut, hform, hids, hparents, hnested, listed,
    (hlists listed).mpr rfl, hall⟩

end Block

end BlockScript
