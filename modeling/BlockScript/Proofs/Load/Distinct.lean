/-
  BlockScript.Proofs.Load.Distinct

  When the ids of a loaded workspace are distinct. A number is taken without a look at the ids that are
  given, so distinct ids of their own keep blocks apart just if none of these ids is one that is made of
  a number of the load. Then, and only then, a hook with a mark has another text for each block.
-/
import BlockScript.Proofs.Hook.IdLiteral
import BlockScript.Proofs.Load.Numbering
import BlockScript.Proofs.Name.Allocation
import Mathlib.Data.List.ReduceOption

namespace BlockScript

/-! ## All blocks -/

namespace Block

mutual

/-- The order in which blocks are complete is another order of all blocks. -/
theorem loaded_perm (b : Block) : b.loaded.Perm (chain (some b)) := by
  obtain ⟨head, values, statements, next⟩ := b
  have hvalues := loadedInSlots_perm values
  have hstatements := loadedInSlots_perm statements
  have hnext := loadedLink_perm next
  rw [loaded, chain]
  refine (List.perm_append_singleton _ _).trans ?_
  exact (((hvalues.append hstatements).append hnext).cons _)

theorem loadedInSlots_perm (slots : Slots) : (loadedInSlots slots).Perm (nestedInSlots slots) := by
  match slots with
  | [] =>
    rw [loadedInSlots, nestedInSlots]
  | (name, link) :: rest =>
    rw [loadedInSlots, nestedInSlots]
    exact (loadedLink_perm link).append (loadedInSlots_perm rest)

theorem loadedLink_perm (link : Option Block) : (loadedLink link).Perm (chain link) := by
  match link with
  | none => rw [loadedLink, chain]
  | some b =>
    rw [loadedLink]
    exact loaded_perm b

end

end Block

/-- The blocks of a workspace, with all that hangs on those that it lists. -/
def Workspace.allBlocks (w : Workspace) : List Block :=
  w.blocks.flatMap fun b => Block.chain (some b)

/-- The ids that the data of a workspace gives to its blocks, in the order in which these are complete;
    a block may have none. -/
def Json.workspaceIds : Json → List (Option String)
  | .obj members => (member members "blocks").listedBlocks.flatMap givenIds
  | _ => []

/-! ## Ids that are made of numbers -/

namespace Numbering

theorem numberedId_injective : Function.Injective numberedId :=
  NameTable.append_toString_injective "block"

/-- The ids are the given ones, and those of the numbers that are taken. -/
theorem fill_perm (n : Nat) (given : List (Option String)) :
    (fill n given).Perm
      (given.reduceOption ++ (List.range' n (given.count none)).map numberedId) := by
  induction given generalizing n with
  | nil => exact .nil
  | cons first rest ih =>
    cases first with
    | some id => simpa [fill] using ih n
    | none =>
      rw [fill, List.reduceOption_cons_of_none, List.count_cons_self, List.range'_succ, List.map_cons]
      exact ((ih (n + 1)).cons _).trans List.perm_middle.symm

/-- Ids are distinct just if the given ones are, and none of these is made of a number that is taken. -/
theorem nodup_fill_iff (n : Nat) (given : List (Option String)) :
    (fill n given).Nodup ↔ given.reduceOption.Nodup ∧
      ∀ k, n ≤ k → k < n + given.count none → some (numberedId k) ∉ given := by
  have hnumbers : ((List.range' n (given.count none)).map numberedId).Nodup :=
    List.Nodup.map numberedId_injective List.nodup_range'
  rw [(fill_perm n given).nodup_iff, List.nodup_append']
  simp only [hnumbers, true_and, List.disjoint_right, List.forall_mem_map, List.mem_range'_1,
    List.reduceOption_mem_iff, and_imp]

theorem loadAll_numbers (items : List Json) :
    Numbers (items.flatMap Json.givenIds) (List.flatMap Block.loaded)
      (items.mapM Block.load) := by
  induction items with
  | nil =>
    intro n blocks n' hrun
    obtain ⟨rfl, rfl⟩ := EStateM.Result.ok.inj hrun
    exact ⟨rfl, rfl⟩
  | cons item rest ih =>
    intro n blocks n' hrun
    rw [List.mapM_cons] at hrun
    obtain ⟨b, m, hload, hrun⟩ := bind_eq_ok hrun
    obtain ⟨others, m', hrest, hpure⟩ := bind_eq_ok hrun
    obtain ⟨rfl, rfl⟩ := EStateM.Result.ok.inj hpure
    obtain ⟨hfirst, rfl⟩ := Block.load_numbers item n b m hload
    obtain ⟨hsecond, rfl⟩ := ih _ others _ hrest
    rw [List.flatMap_cons, List.map_append, hfirst, hsecond, List.flatMap_cons, fill_append,
      List.count_append, Nat.add_assoc]
    exact ⟨rfl, rfl⟩

end Numbering

namespace Workspace

open BlockScript.Numbering

/-- The keys of an object and the characters of a text give no ids, since they are no blocks. -/
theorem givenIds_blockItems {data : Json} {items : List Json} (h : blockItems data = .ok items) :
    items.flatMap Json.givenIds = data.listedBlocks.flatMap Json.givenIds := by
  have hstr (s : String) : (Json.str s).givenIds = [] := by
    rw [Json.givenIds]
    rintro _ ⟨⟩
  unfold blockItems at h
  cases htruthy : data.isTruthy with
  | false =>
    rw [htruthy] at h
    obtain ⟨⟩ := h
    cases data <;> simp_all [Json.listedBlocks, Json.isTruthy]
  | true =>
    rw [htruthy] at h
    cases data with
    | arr _ =>
      obtain ⟨⟩ := h
      rfl
    | obj members =>
      obtain ⟨⟩ := h
      simp [Json.listedBlocks, List.flatMap_map, hstr]
    | str s =>
      obtain ⟨⟩ := h
      simp [Json.listedBlocks, List.flatMap_map, hstr]
    | null | bool _ | num _ => cases h

/-- The blocks of a workspace without an id take the numbers that come next. -/
theorem load_numbers (data : Json) :
    Numbers data.workspaceIds (fun w => w.blocks.flatMap Block.loaded) (load data) := by
  intro n w n' hrun
  cases data with
  | obj members =>
    rw [load] at hrun
    obtain ⟨names, _, hnames, hrun⟩ := bind_eq_ok hrun
    obtain ⟨-, rfl⟩ := lift_eq_ok hnames
    obtain ⟨items, _, hlift, hrun⟩ := bind_eq_ok hrun
    obtain ⟨hitems, rfl⟩ := lift_eq_ok hlift
    obtain ⟨blocks, m, hblocks, hrun⟩ := bind_eq_ok hrun
    obtain ⟨options, _, hoptions, hrun⟩ := bind_eq_ok hrun
    obtain ⟨-, rfl⟩ := lift_eq_ok hoptions
    obtain ⟨rfl, rfl⟩ := EStateM.Result.ok.inj hrun
    rw [Json.workspaceIds, ← givenIds_blockItems hitems]
    exact loadAll_numbers items _ blocks _ hblocks
  | _ => cases hrun

theorem allBlocks_ids_nodup_iff {data : Json} {n n' : Nat} {w : Workspace}
    (h : load data n = .ok w n') :
    (w.allBlocks.map (·.id)).Nodup ↔ data.workspaceIds.reduceOption.Nodup ∧
      ∀ k, n ≤ k → k < n' → some (numberedId k) ∉ data.workspaceIds := by
  obtain ⟨hids, rfl⟩ := load_numbers data n w n' h
  have hperm : (w.blocks.flatMap Block.loaded).Perm w.allBlocks :=
    List.Perm.flatMap_left _ fun b _ => Block.loaded_perm b
  rw [← (hperm.map (·.id)).nodup_iff, hids, nodup_fill_iff]

end Workspace

/-! ## Hooks -/

namespace Text

theorem length_intercalate_cons (sep piece : List Char) (pieces : List (List Char)) :
    (sep.intercalate (piece :: pieces)).length =
      piece.length + (pieces.map List.length).sum + pieces.length * sep.length := by
  induction pieces generalizing piece with
  | nil => simp
  | cons next rest ih =>
    rw [List.intercalate_cons_cons, List.length_append, List.length_append, ih]
    simp only [List.map_cons, List.sum_cons, List.length_cons]
    ring

/-- Between pieces, of which there are at least two, different texts give different results. -/
theorem intercalate_left_injective {pieces : List (List Char)} (h : 1 < pieces.length) :
    Function.Injective fun sep : List Char => sep.intercalate pieces := by
  intro sep sep' heq
  match pieces, h with
  | first :: second :: rest, _ =>
    have hlength : sep.length = sep'.length := by
      have hboth := congrArg List.length heq
      simp only [length_intercalate_cons, List.length_cons] at hboth
      exact Nat.eq_of_mul_eq_mul_left (Nat.succ_pos rest.length) (Nat.add_left_cancel hboth)
    simp only [List.intercalate_cons_cons, List.append_assoc] at heq
    exact (List.append_inj (List.append_cancel_left heq) hlength).1

/-- A text with an occurrence of a pattern has a piece ahead of it and one behind it. -/
theorem one_lt_length_piecesFrom {pattern s : List Char} (hne : pattern ≠ []) (h : pattern <:+: s) :
    1 < (piecesFrom pattern 0 s).length := by
  have hwhole : pattern.intercalate (piecesFrom pattern 0 s) = s := by
    rw [← replaceFrom_eq_intercalate, replaceFrom_self hne]
  have hnone : ∀ piece ∈ piecesFrom pattern 0 s, ¬ pattern <:+: piece :=
    fun _ => not_infix_of_mem_piecesFrom hne
  match hpieces : piecesFrom pattern 0 s with
  | [] => exact absurd hpieces (piecesFrom_ne_nil pattern 0 s)
  | [piece] =>
    rw [hpieces] at hwhole hnone
    have hpiece : piece = s := by simpa using hwhole
    exact absurd (hpiece ▸ h) (hnone piece List.mem_cons_self)
  | _ :: _ :: _ => simp

end Text

namespace Site

/-- A hook with a mark has different texts for different ids. -/
theorem instantiate_injective {hook : String} (hmark : "%1".toList <:+: hook.toList) :
    Function.Injective (instantiate hook) := by
  intro id id' heq
  have hnonempty : "%1".toList ≠ [] := List.cons_ne_nil _ _
  have hpieces := Text.one_lt_length_piecesFrom hnonempty hmark
  have hreplaced (id : String) : (instantiate hook id).toList =
      (idLiteral id).intercalate (Text.piecesFrom "%1".toList 0 hook.toList) := by
    rw [instantiate, Text.replace, String.toList_ofList, Text.replaceFrom_eq_intercalate,
      String.toList_append, String.toList_append]
    rfl
  have hliteral : idLiteral id = idLiteral id' := by
    refine Text.intercalate_left_injective hpieces ?_
    simp only [← hreplaced, heq]
  have hid := List.append_cancel_right (List.cons.inj hliteral).2
  exact String.toList_injective hid

end Site

/-! ## Distinct ids -/

open BlockScript.Numbering

/-- The blocks of a loaded workspace have distinct ids just if the ids that its data gives are distinct
    and none of them is made of a number that the load has taken. So it is with the texts that a hook
    with a mark has for the blocks. -/
theorem Workspace.load_ids {data : Json} {n n' : Nat} {w : Workspace}
    (h : Workspace.load data n = .ok w n') :
    ((w.allBlocks.map (·.id)).Nodup ↔ data.workspaceIds.reduceOption.Nodup ∧
      ∀ k, n ≤ k → k < n' → some (numberedId k) ∉ data.workspaceIds) ∧
    ∀ hook : String, "%1".toList <:+: hook.toList →
      ((w.allBlocks.map fun b => Site.instantiate hook b.id).Nodup ↔ (w.allBlocks.map (·.id)).Nodup) := by
  refine ⟨allBlocks_ids_nodup_iff h, fun hook hmark => ?_⟩
  have hids : (w.allBlocks.map fun b => Site.instantiate hook b.id) =
      (w.allBlocks.map (·.id)).map (Site.instantiate hook) := by
    rw [List.map_map]
    rfl
  rw [hids, List.nodup_map_iff (Site.instantiate_injective hmark)]

/-- The data of a workspace that shows two texts: the first block has an id, and the second one has
    none. -/
def twoTextsData (id : String) : Json :=
  .obj [("blocks", .arr [
    .obj [("type", .str "text_print"), ("id", .str id)],
    .obj [("type", .str "text_print")]])]

theorem workspaceIds_twoTextsData (id : String) :
    (twoTextsData id).workspaceIds = [some id, none] := by
  have hfirst : Json.givenIds (.obj [("type", .str "text_print"), ("id", .str id)]) = [some id] := by
    rw [Json.givenIds_obj]
    change [] ++ [] ++ Json.givenIds .null ++ [some id] = [some id]
    rw [Json.givenIds_null]
    rfl
  have hsecond : Json.givenIds (.obj [("type", .str "text_print")]) = [none] := by
    rw [Json.givenIds_obj]
    change [] ++ [] ++ Json.givenIds .null ++ [none] = [none]
    rw [Json.givenIds_null]
    rfl
  change [_, _].flatMap Json.givenIds = [some id, none]
  rw [List.flatMap_cons, List.flatMap_singleton, hfirst, hsecond]
  rfl

/-- An id that looks like one of a number keeps the blocks apart if the number is not taken. -/
theorem Workspace.load_ids_seventh :
    ∃ w, Workspace.load (twoTextsData "block7") 1 = .ok w 2 ∧
      "%1".toList <:+: "step(%1);\n".toList ∧
      (w.allBlocks.map fun b => Site.instantiate "step(%1);\n" b.id).Nodup := by
  obtain ⟨w, hload⟩ : ∃ w, Workspace.load (twoTextsData "block7") 1 = .ok w 2 :=
    ⟨_, by with_unfolding_all rfl⟩
  have hmark : "%1".toList <:+: "step(%1);\n".toList := by decide
  obtain ⟨hids, hhook⟩ := Workspace.load_ids hload
  refine ⟨w, hload, hmark, (hhook _ hmark).mpr (hids.mpr ?_)⟩
  rw [workspaceIds_twoTextsData]
  refine ⟨by decide, fun k hle hlt => ?_⟩
  obtain rfl : k = 1 := by omega
  decide

/-- The id of the first block is made again for the second one, and the program cannot tell them
    apart. -/
theorem Workspace.load_takenId :
    ∃ w, Workspace.load (twoTextsData "block1") 1 = .ok w 2 ∧
      (twoTextsData "block1").workspaceIds.reduceOption.Nodup ∧
      w.allBlocks.map (·.id) = ["block1", "block1"] ∧
      w.programText stepOptions =
        .ok "step('block1');\nwindow.alert('');\n\nstep('block1');\nwindow.alert('');\n" := by
  refine ⟨_, by with_unfolding_all rfl, ?_, by with_unfolding_all rfl, by with_unfolding_all rfl⟩
  rw [workspaceIds_twoTextsData]
  decide

end BlockScript
