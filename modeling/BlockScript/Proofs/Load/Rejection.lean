/-
  BlockScript.Proofs.Load.Rejection

  Loading blocks and workspaces settles the form of the data: one lemma for each part that is read,
  then the blocks by induction on the size of the data, since a block reads what its members hold.
-/
import BlockScript.Proofs.Load.Shape
import Mathlib.Data.List.Basic

namespace BlockScript

open BlockScript.Numbering

/-! ## Tables -/

namespace Table

/-- An entry has two parts, and whatever has two parts is an entry unless its key is compound. -/
theorem pair?_cases (item : Json) :
    (∃ key value, pair? item = .ok (key, value) ∧ (item.IsEntry ↔ key.isCompound = false)) ∨
      ∃ fault, pair? item = .error fault ∧ fault.isShape ∧ ¬ item.IsEntry := by
  unfold pair?
  split
  case h_1 key value => exact .inl ⟨key, value, rfl, .rfl⟩
  case h_2 s =>
    split
    case h_1 first second hs =>
      refine .inl ⟨_, _, rfl, ?_⟩
      simp [Json.IsEntry, Json.isCompound, ← String.length_toList, hs]
    case h_2 hs =>
      refine .inr ⟨_, rfl, rfl, fun hlength => ?_⟩
      rw [Json.IsEntry, ← String.length_toList] at hlength
      obtain ⟨first, second, htwo⟩ := List.length_eq_two.1 hlength
      exact hs first second htwo
  case h_3 => exact .inl ⟨_, _, rfl, by simp [Json.IsEntry, Json.isCompound]⟩
  case h_4 items hitems =>
    refine .inr ⟨_, rfl, rfl, fun hentry => ?_⟩
    unfold Json.IsEntry at hentry
    split at hentry <;> simp_all
  case h_5 members hmembers =>
    refine .inr ⟨_, rfl, rfl, fun hlength => ?_⟩
    obtain ⟨⟨first, _⟩, ⟨second, _⟩, htwo⟩ := List.length_eq_two.1 hlength
    exact hmembers _ _ _ _ htwo
  case h_6 => exact .inr ⟨_, rfl, rfl, by cases item <;> simp_all [Json.IsEntry]⟩

theorem ofPairs_settles (items : List Json) :
    Fault.Settles (∀ item ∈ items, item.IsEntry) (ofPairs items) := by
  refine Fault.settles_foldlM (fun item _ table => ?_) []
  obtain ⟨key, value, hpair, hentry⟩ | ⟨fault, hpair, hshape, hnot⟩ := pair?_cases item
  · rw [hpair, hentry]
    simp only [Except.bind, Bind.bind]
    cases hkey : key.isCompound with
    | false => exact Fault.settles_pure rfl _
    | true => exact Or.inr ⟨rfl, by simp⟩
  · rw [hpair]
    exact Or.inr ⟨hshape, hnot⟩

theorem ofJson_settles (data : Json) : Fault.Settles data.IsTable (ofJson data) := by
  unfold ofJson Json.IsTable
  cases htruthy : data.isTruthy with
  | false => exact .inl rfl
  | true =>
    cases data with
    | obj members => exact .inr trivial
    | arr items => exact (ofPairs_settles items).imp (by simp)
    | str s => exact .inr ⟨rfl, by simp⟩
    | null => cases htruthy
    | bool b => exact .inr ⟨rfl, by simp⟩
    | num n => exact .inr ⟨rfl, by simp⟩

end Table

/-! ## Variables and options -/

theorem VariableNames.ofItems_settles (items : List Json) :
    Fault.Settles True (VariableNames.ofItems items) := by
  refine (Fault.settles_foldlM (P := fun _ => True) (fun item _ names => ?_) []).imp (by simp)
  split
  · split
    · trivial
    · exact .inl rfl
  · exact .inl rfl

theorem VariableNames.ofJson_settles (data : Json) :
    Fault.Settles data.IsListing (VariableNames.ofJson data) := by
  unfold VariableNames.ofJson Json.IsListing
  cases htruthy : data.isTruthy with
  | false => exact .inl rfl
  | true =>
    cases data with
    | obj members => exact .inr trivial
    | arr items => exact (VariableNames.ofItems_settles items).imp (by simp)
    | str s => exact (VariableNames.ofItems_settles _).imp (by simp)
    | null => cases htruthy
    | bool b => exact .inr ⟨rfl, by simp⟩
    | num n => exact .inr ⟨rfl, by simp⟩

theorem Options.checkWrap_settles (column : Json) : Fault.Settles True (Options.checkWrap column) := by
  unfold Options.checkWrap
  split
  · split
    · exact .inl rfl
    · trivial
  · exact .inl rfl

theorem Options.ofJson_settles (data : Json) : Fault.Settles True (Options.ofJson data) := by
  unfold Options.ofJson
  split
  · trivial
  · cases data with
    | obj members =>
      refine (Fault.Settles.bind (q := True)
        (Fault.settles_foldlM (P := fun _ => True) (fun entry _ options => ?_) _)
        fun options => ?_).imp (by simp)
      · split
        split
        · trivial
        · exact .inl rfl
      · exact ((Options.checkWrap_settles options.commentWrap).bind fun _ =>
          Fault.settles_pure trivial options).imp (by simp)
    | _ => exact .inl rfl

/-! ## Blocks -/

namespace Block

/-- The members of an object read like the values that it has by their names. -/
theorem find_loadMembers (members : List (String × Json)) (name : String) :
    Member.find (loadMembers members) name =
      ⟨loadLink (Json.member members name), loadSlots (Json.member members name)⟩ := by
  induction members with
  | nil => simp [Member.find, loadMembers, Json.member, Json.member?, loadLink, loadSlots]
  | cons entry rest ih =>
    obtain ⟨key, value⟩ := entry
    simp only [Member.find, Json.member, Json.member?, loadMembers, List.lookup_cons] at ih ⊢
    cases name == key with
    | true => rfl
    | false => exact ih

theorem loadLink_eq (data : Json) :
    loadLink data = match data with
      | .null => pure none
      | data => some <$> load data := by
  cases data <;> simp only [loadLink, load]
  all_goals rfl

theorem loadSlotList_eq (members : List (String × Json)) :
    loadSlotList members =
      members.mapM fun entry => do return (entry.1, ← loadLink entry.2) := by
  induction members with
  | nil => rfl
  | cons entry rest ih =>
    obtain ⟨key, value⟩ := entry
    rw [List.mapM_cons, ← ih, loadSlotList]
    simp only [bind_assoc, pure_bind]

theorem kindOf_settles (data : Json) : Fault.Settles True (kindOf data) := by
  unfold kindOf
  split
  · split
    · trivial
    · exact .inl rfl
  · exact .inl rfl

theorem loadLink_settles {data : Json} (h : (load data).Settles data.IsBlockShaped) :
    (loadLink data).Settles data.IsBlockShaped := by
  rw [loadLink_eq]
  cases data with
  | null => exact settles_pure Json.isBlockShaped_null none
  | _ => exact h.map some

theorem loadSlotList_settles {members : List (String × Json)}
    (h : ∀ item ∈ (Json.obj members).slotItems, (load item).Settles item.IsBlockShaped) :
    (loadSlotList members).Settles
      (∀ item ∈ (Json.obj members).slotItems, item.IsBlockShaped) := by
  rw [loadSlotList_eq]
  refine (settles_mapM (P := fun entry => entry.2.IsBlockShaped) fun entry hentry =>
    (loadLink_settles (h entry.2 (List.mem_map_of_mem hentry))).bind_last fun _ =>
      settles_pure trivial _).imp ?_
  simp only [Json.slotItems, List.forall_mem_map]

theorem loadSlots_settles {data : Json}
    (h : ∀ item ∈ data.slotItems, (load item).Settles item.IsBlockShaped) :
    (loadSlots data).Settles
      (data.IsSlots ∧ ∀ item ∈ data.slotItems, item.IsBlockShaped) := by
  cases data with
  | obj members => exact (loadSlotList_settles h).imp (by simp [Json.IsSlots])
  | null => exact settles_pure (by simp [Json.IsSlots, Json.isTruthy, Json.slotItems]) []
  | bool b =>
    cases b with
    | false => exact settles_pure (by simp [Json.IsSlots, Json.isTruthy, Json.slotItems]) []
    | true => exact settles_throw_shape rfl (by simp [Json.IsSlots, Json.isTruthy])
  | num n =>
    cases hzero : n.isZero with
    | true =>
      simp only [loadSlots, hzero, if_true]
      exact settles_pure (by simp [Json.IsSlots, Json.isTruthy, Json.slotItems, hzero]) []
    | false =>
      simp only [loadSlots, hzero]
      exact settles_throw_shape rfl (by simp [Json.IsSlots, Json.isTruthy, hzero])
  | str s =>
    rw [loadSlots]
    split
    next hs => exact settles_pure (by simp [Json.IsSlots, Json.isTruthy, Json.slotItems, hs]) []
    next hs => exact settles_throw_shape rfl (by simp [Json.IsSlots, Json.isTruthy, hs])
  | arr items =>
    rw [loadSlots]
    split
    next hs =>
      exact settles_pure (by simpa [Json.IsSlots, Json.isTruthy, Json.slotItems] using hs) []
    next hs =>
      refine settles_throw_shape rfl fun hslots => hs ?_
      simpa [Json.IsSlots, Json.isTruthy] using hslots.1

theorem assemble_settles {members : List (String × Json)}
    (hlink : (loadLink (Json.member members "next")).Settles
      (Json.member members "next").IsBlockShaped)
    (hslots : ∀ name ∈ ["values", "statements"], (loadSlots (Json.member members name)).Settles
      ((Json.member members name).IsSlots ∧
        ∀ item ∈ (Json.member members name).slotItems, item.IsBlockShaped)) :
    (assemble members (loadMembers members)).Settles (Json.obj members).IsBlockShaped := by
  rw [Json.isBlockShaped_obj]
  unfold assemble
  simp only [find_loadMembers]
  split
  next type htype =>
    refine (settles_lift (kindOf_settles type)).bind_after fun kind => ?_
    refine (settles_lift (Table.ofJson_settles _)).bind fun fields => ?_
    refine (hslots "values" (by simp)).bind fun values => ?_
    refine (hslots "statements" (by simp)).bind fun statements => ?_
    refine hlink.bind fun next => ?_
    refine (settles_lift (Table.ofJson_settles _)).bind_last fun mutation => ?_
    split
    · exact settles_pure trivial _
    · exact (settles_next trivial).bind_after fun _ => settles_pure trivial _
  next => exact settles_throw rfl

/-- Loading a block gives a block only for data of the form that is read, and otherwise fails: with
    a fault that the author is told about, or because of the form. -/
theorem load_settles (data : Json) : (load data).Settles data.IsBlockShaped := by
  induction data using Json.forall_of_blockParts with
  | h data ih =>
    cases data with
    | obj members =>
      rw [load]
      have hlink := loadLink_settles (ih _ (Json.next_mem_blockParts members))
      exact assemble_settles hlink fun name hname =>
        loadSlots_settles fun item hitem => ih item (Json.slotItem_mem_blockParts hname hitem)
    | _ => exact settles_throw rfl

end Block

/-! ## Workspaces -/

namespace Workspace

/-- The blocks of a workspace: the items of a list, while the keys of an object and the characters
    of a text are no blocks. -/
theorem blocks_settles (data : Json) :
    (lift (blockItems data) >>= fun items => items.mapM Block.load).Settles
      (data.IsListing ∧ ∀ item ∈ data.listedBlocks, item.IsBlockShaped) := by
  have hitems (items : List Json) :
      (items.mapM Block.load).Settles (∀ item ∈ items, item.IsBlockShaped) :=
    settles_mapM fun item _ => Block.load_settles item
  unfold blockItems Json.IsListing
  cases htruthy : data.isTruthy with
  | false =>
    refine (hitems []).imp ?_
    cases data <;> simp_all [Json.listedBlocks, Json.isTruthy]
  | true =>
    cases data with
    | arr items => exact (hitems items).imp (by simp [Json.listedBlocks])
    | obj members =>
      refine (hitems _).imp ?_
      simpa [Json.listedBlocks] using fun _ _ _ _ hitem => hitem ▸ Json.isBlockShaped_str _
    | str s => exact (hitems _).imp (by simp [Json.listedBlocks, Json.isBlockShaped_str])
    | null => cases htruthy
    | bool b => exact settles_throw_shape rfl (by simp)
    | num n => exact settles_throw_shape rfl (by simp)

/-- Loading a workspace gives one only for data of the form that is read, and otherwise fails: with
    a fault that the author is told about, or because of the form. -/
theorem load_settles (data : Json) : (load data).Settles data.IsWorkspaceShaped := by
  cases data with
  | obj members =>
    rw [load]
    refine (settles_lift (VariableNames.ofJson_settles _)).bind fun names => ?_
    rw [← bind_assoc]
    refine (blocks_settles _).bind_last fun blocks => ?_
    exact (settles_lift (Options.ofJson_settles _)).bind_last fun _ => settles_pure trivial _
  | _ => exact settles_throw rfl

end Workspace

/-! ## Loading -/

/-- Blocks and workspaces of the form that is read are loaded, or refused with a fault that their
    author is told about; data of another form is never loaded, and is refused with such a fault or
    with one about its form. -/
theorem loaded_or_refused (data : Json) :
    (Block.load data).Settles data.IsBlockShaped ∧
      (Workspace.load data).Settles data.IsWorkspaceShaped :=
  ⟨Block.load_settles data, Workspace.load_settles data⟩

/-- A number in place of the slots of a block is refused with a fault that its author is not told
    about. -/
theorem load_numberAsSlots :
    Block.load (.obj [("type", .str "text"), ("values", .num (.int 5))]) 1 =
        .error .slotsNotAnObject 1 ∧
      Fault.isMalformed .slotsNotAnObject = false := by
  constructor
  · with_unfolding_all rfl
  · rfl

end BlockScript
