/-
  BlockScript.Proofs.Registry.Keys

  Definitions by their keys. A text that is set leaves the texts of all other keys, and its key goes
  behind them if it is new. The keys of helpers and those of procedures are two sorts that have no
  key in common, so that the entries of one sort stay when a text of the other one is set.
-/
import BlockScript.Registry
import Mathlib.Data.List.Nodup

namespace BlockScript.Definitions

variable {definitions : Definitions} {key text : String}

/-! ## Keys -/

theorem hasKey_iff : definitions.hasKey key = true ↔ key ∈ definitions.map (·.1) := by
  simp [hasKey]

theorem exists_of_hasKey (h : definitions.hasKey key = true) : ∃ text, (key, text) ∈ definitions := by
  obtain ⟨entry, hentry, hkey⟩ := List.any_eq_true.mp h
  exact ⟨entry.2, (of_decide_eq_true hkey) ▸ hentry⟩

/-- The keys behind a text that is set: those before, and a new one at the end. -/
theorem keys_set : (definitions.set key text).map (·.1) =
    if key ∈ definitions.map (·.1) then definitions.map (·.1)
    else definitions.map (·.1) ++ [key] := by
  induction definitions with
  | nil => rfl
  | cons entry rest ih =>
    obtain ⟨k, t⟩ := entry
    rw [set]
    by_cases hk : k = key
    · rw [if_pos hk, if_pos (hk ▸ List.mem_cons_self)]
      rfl
    · have hmem : key ∈ ((k, t) :: rest).map (·.1) ↔ key ∈ rest.map (·.1) :=
        List.mem_cons.trans (or_iff_right (Ne.symm hk))
      rw [if_neg hk, List.map_cons, ih, if_congr hmem rfl rfl]
      split <;> rfl

theorem nodup_set (h : (definitions.map (·.1)).Nodup) :
    ((definitions.set key text).map (·.1)).Nodup := by
  rw [keys_set]
  split
  · exact h
  · rename_i hnew
    rw [← List.concat_eq_append, List.nodup_concat]
    exact ⟨hnew, h⟩

/-- A text for a key adds the key, if it has no text yet, and no other one. -/
theorem hasKey_set_iff {k : String} :
    (definitions.set key text).hasKey k = true ↔ k = key ∨ definitions.hasKey k = true := by
  rw [hasKey_iff, hasKey_iff, keys_set]
  split
  · rename_i hold
    exact (or_iff_right_of_imp fun hk => hk ▸ hold).symm
  · rw [List.mem_append, List.mem_singleton, or_comm]

theorem hasKey_set_self : (definitions.set key text).hasKey key = true :=
  hasKey_set_iff.mpr (Or.inl rfl)

theorem hasKey_set_of_hasKey {k : String} (h : definitions.hasKey k = true) :
    (definitions.set key text).hasKey k = true :=
  hasKey_set_iff.mpr (Or.inr h)

/-! ## Entries -/

theorem mem_set {entry : String × String} (h : entry ∈ definitions.set key text) :
    entry = (key, text) ∨ entry ∈ definitions := by
  induction definitions with
  | nil => exact Or.inl (List.mem_singleton.mp h)
  | cons first rest ih =>
    obtain ⟨k, t⟩ := first
    rw [set] at h
    split at h
    · rename_i hk
      rcases List.mem_cons.mp h with rfl | h
      · exact Or.inl (by rw [hk])
      · exact Or.inr (List.mem_cons_of_mem _ h)
    · rcases List.mem_cons.mp h with rfl | h
      · exact Or.inr List.mem_cons_self
      · exact (ih h).imp_right (List.mem_cons_of_mem _)

theorem mem_set_self : (key, text) ∈ definitions.set key text := by
  induction definitions with
  | nil => exact List.mem_singleton_self _
  | cons first rest ih =>
    obtain ⟨k, t⟩ := first
    rw [set]
    split
    · rename_i hkey
      rw [hkey]
      exact List.mem_cons_self
    · exact List.mem_cons_of_mem _ ih

/-- A text for a key leaves those of the other keys. -/
theorem mem_set_of_ne {entry : String × String} (hkey : entry.1 ≠ key) (h : entry ∈ definitions) :
    entry ∈ definitions.set key text := by
  induction definitions with
  | nil => exact absurd h List.not_mem_nil
  | cons first rest ih =>
    obtain ⟨k, t⟩ := first
    rw [set]
    rcases List.mem_cons.mp h with rfl | hrest
    · rw [if_neg hkey]
      exact List.mem_cons_self
    · split
      · exact List.mem_cons_of_mem _ hrest
      · exact List.mem_cons_of_mem _ (ih hrest)

/-! ## Lookups -/

theorem lookup_set_self : (definitions.set key text).lookup key = some text := by
  induction definitions with
  | nil => exact List.lookup_cons_self
  | cons entry rest ih =>
    obtain ⟨k, t⟩ := entry
    rw [set]
    split
    · rename_i hk
      rw [hk]
      exact List.lookup_cons_self
    · rename_i hk
      rw [List.lookup_cons, beq_false_of_ne (Ne.symm hk)]
      exact ih

theorem lookup_set_of_ne {k : String} (h : k ≠ key) :
    (definitions.set key text).lookup k = definitions.lookup k := by
  induction definitions with
  | nil =>
    rw [set, List.lookup_cons, beq_false_of_ne h]
  | cons entry rest ih =>
    obtain ⟨k', t⟩ := entry
    rw [set]
    split
    · rename_i hk
      rw [List.lookup_cons, List.lookup_cons, beq_false_of_ne (hk ▸ h)]
    · rw [List.lookup_cons, List.lookup_cons, ih]

/-! ## Parts -/

/-- A text under a key that is kept is set among the entries that are kept. -/
theorem filter_set_of_pos (keep : String → Bool) (h : keep key = true) :
    (definitions.set key text).filter (fun entry => keep entry.1) =
      set key text (definitions.filter fun entry => keep entry.1) := by
  induction definitions with
  | nil => exact List.filter_cons_of_pos h
  | cons entry rest ih =>
    obtain ⟨k, t⟩ := entry
    rw [set]
    by_cases hk : k = key
    · have hkept : keep k = true := by rw [hk, h]
      rw [if_pos hk, List.filter_cons, List.filter_cons, if_pos hkept, if_pos hkept, set, if_pos hk]
    · rw [if_neg hk, List.filter_cons, List.filter_cons, ih]
      by_cases hkept : keep k = true
      · rw [if_pos hkept, if_pos hkept, set, if_neg hk]
      · rw [if_neg hkept, if_neg hkept]

/-- A text under a key that is left out leaves the entries that are kept. -/
theorem filter_set_of_neg (keep : String → Bool) (h : keep key = false) :
    (definitions.set key text).filter (fun entry => keep entry.1) =
      definitions.filter fun entry => keep entry.1 := by
  have hout : ¬ keep key = true := Bool.eq_false_iff.mp h
  induction definitions with
  | nil => exact List.filter_cons_of_neg hout
  | cons entry rest ih =>
    obtain ⟨k, t⟩ := entry
    rw [set]
    by_cases hk : k = key
    · subst hk
      rw [if_pos rfl, List.filter_cons, List.filter_cons, if_neg hout, if_neg hout]
    · rw [if_neg hk, List.filter_cons, List.filter_cons, ih]

/-! ## Helpers and procedures -/

theorem helperKey_inj {name name' : String} (h : helperKey name = helperKey name') : name = name' := by
  have hlist := congrArg String.toList h
  rw [helperKey, helperKey, String.toList_append, String.toList_append] at hlist
  exact String.toList_injective (List.append_cancel_left hlist)

theorem procedureKey_inj {name name' : String} (h : procedureKey name = procedureKey name') :
    name = name' := by
  have hlist := congrArg String.toList h
  rw [procedureKey, procedureKey, String.toList_append, String.toList_append] at hlist
  exact String.toList_injective (List.append_cancel_left hlist)

/-- The keys of helpers are no keys of procedures. -/
theorem helperKey_ne_procedureKey (name name' : String) : helperKey name ≠ procedureKey name' := by
  intro h
  have hlist := congrArg String.toList h
  rw [helperKey, procedureKey, String.toList_append, String.toList_append] at hlist
  exact absurd (List.cons.inj hlist).1 (by decide)

/-- Whether a key is that of a helper. -/
def isHelperKey (key : String) : Bool :=
  (helperKey "").toList.isPrefixOf key.toList

/-- The entries that are not those of helpers, in their order. -/
def others (definitions : Definitions) : Definitions :=
  definitions.filter fun entry => !isHelperKey entry.1

/-- The entries of helpers, in their order. -/
def ofHelpers (definitions : Definitions) : Definitions :=
  definitions.filter fun entry => isHelperKey entry.1

theorem isHelperKey_helperKey (name : String) : isHelperKey (helperKey name) = true := by
  rw [isHelperKey, List.isPrefixOf_iff_prefix, helperKey, helperKey, String.toList_append,
    String.toList_append, String.toList_empty, List.append_nil]
  exact List.prefix_append _ _

theorem isHelperKey_procedureKey (name : String) : isHelperKey (procedureKey name) = false := by
  rw [isHelperKey, procedureKey, String.toList_append]
  rfl

theorem others_set (name : String) : (definitions.set (helperKey name) text).others
    = definitions.others :=
  filter_set_of_neg (!isHelperKey ·) (by rw [isHelperKey_helperKey]; rfl)

theorem others_erase (name : String) :
    (definitions.erase (helperKey name)).others = definitions.others := by
  rw [others, erase, List.filter_filter]
  refine List.filter_congr fun entry _ => ?_
  by_cases hkey : entry.1 = helperKey name
  · rw [hkey, isHelperKey_helperKey]
    rfl
  · rw [decide_eq_true hkey, Bool.and_true]

theorem others_set_procedureKey (name : String) :
    (definitions.set (procedureKey name) text).others =
      definitions.others.set (procedureKey name) text :=
  filter_set_of_pos (!isHelperKey ·) (by rw [isHelperKey_procedureKey]; rfl)

theorem ofHelpers_set_helperKey (name : String) :
    (definitions.set (helperKey name) text).ofHelpers =
      definitions.ofHelpers.set (helperKey name) text :=
  filter_set_of_pos isHelperKey (isHelperKey_helperKey name)

theorem ofHelpers_set_procedureKey (name : String) :
    (definitions.set (procedureKey name) text).ofHelpers = definitions.ofHelpers :=
  filter_set_of_neg isHelperKey (isHelperKey_procedureKey name)

theorem ofHelpers_eq_self (h : definitions.others = []) : definitions.ofHelpers = definitions := by
  refine List.filter_eq_self.mpr fun entry hentry => ?_
  simpa using List.filter_eq_nil_iff.mp h entry hentry

theorem others_eq_self (h : definitions.ofHelpers = []) : definitions.others = definitions := by
  refine List.filter_eq_self.mpr fun entry hentry => ?_
  simpa using List.filter_eq_nil_iff.mp h entry hentry

end BlockScript.Definitions
