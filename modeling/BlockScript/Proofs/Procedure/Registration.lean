/-
  BlockScript.Proofs.Procedure.Registration

  What a sequence of registrations leaves. A text that is registered under a key takes the place of
  the one before it, so the definitions stand in the order in which their keys came first, each with
  the text that came last.
-/
import BlockScript.Registry
import Mathlib.Data.List.Induction
import Mathlib.Data.List.Nodup

namespace BlockScript.Definitions

/-! ## Last texts at first places -/

/-- The text that came last for a key. -/
def lastText (entries : List (String × String)) (key : String) : String :=
  (entries.reverse.lookup key).getD ""

/-- The definitions that entries leave: their keys in the order of the first entries, with the texts
    of the last ones. -/
def registered (entries : List (String × String)) : Definitions :=
  (entries.map (·.1)).eraseDups.map fun key => (key, lastText entries key)

variable {entries : List (String × String)} {key text : String}

theorem lastText_append_singleton (k : String) :
    lastText (entries ++ [(key, text)]) k = if k = key then text else lastText entries k := by
  rw [lastText, List.reverse_append, List.reverse_singleton, List.singleton_append,
    List.lookup_cons]
  by_cases hk : k = key
  · rw [if_pos hk, beq_iff_eq.mpr hk]
    rfl
  · rw [if_neg hk, beq_false_of_ne hk]
    rfl

/-- The last text of a key is one that came for it. -/
theorem mem_of_lastText (h : key ∈ entries.map (·.1)) : (key, lastText entries key) ∈ entries := by
  induction entries using List.reverseRecOn with
  | nil => cases h
  | append_singleton entries entry ih =>
    obtain ⟨k, t⟩ := entry
    rw [lastText_append_singleton]
    split
    · rename_i hkey
      rw [hkey]
      exact List.mem_append_right _ List.mem_cons_self
    · rename_i hkey
      rw [List.map_append, List.mem_append] at h
      exact List.mem_append_left _ (ih (h.resolve_right (by simpa using hkey)))

theorem nodup_eraseDups (l : List String) : l.eraseDups.Nodup := by
  induction hlength : l.length using Nat.strongRecOn generalizing l with
  | ind n ih =>
    cases l with
    | nil => exact List.nodup_nil
    | cons a rest =>
      rw [List.eraseDups_cons, List.nodup_cons]
      refine ⟨fun hmem => ?_, ih _ ?_ _ rfl⟩
      · simp at hmem
      · rw [← hlength]
        exact Nat.lt_succ_of_le (List.length_filter_le _ _)

/-- Keys are added once. -/
theorem eraseDups_append_singleton (l : List String) (a : String) :
    (l ++ [a]).eraseDups = if a ∈ l then l.eraseDups else l.eraseDups ++ [a] := by
  rw [List.eraseDups_append]
  by_cases h : a ∈ l <;> simp [List.removeAll, List.eraseDups_cons, h]

theorem set_map {keys : List String} (hkeys : keys.Nodup) (texts : String → String) :
    set key text (keys.map fun k => (k, texts k)) =
      (if key ∈ keys then keys else keys ++ [key]).map fun k =>
        (k, if k = key then text else texts k) := by
  induction keys with
  | nil => simp [set]
  | cons k rest ih =>
    obtain ⟨hk, hrest⟩ := List.nodup_cons.mp hkeys
    rw [List.map_cons, set]
    by_cases hkey : k = key
    · subst hkey
      have hsame : ∀ k' ∈ rest, (k', if k' = k then text else texts k') = (k', texts k') := by
        intro k' hk'
        rw [if_neg (ne_of_mem_of_not_mem hk' hk)]
      simp only [List.mem_cons, true_or, if_true, List.map_cons]
      rw [List.map_congr_left hsame]
    · rw [if_neg hkey, ih hrest]
      have hmem : (key ∈ k :: rest) = (key ∈ rest) := by simp [Ne.symm hkey]
      rw [if_congr (iff_of_eq hmem) rfl rfl]
      split <;> simp [hkey]

/-- One more registration. -/
theorem set_registered :
    set key text (registered entries) = registered (entries ++ [(key, text)]) := by
  rw [registered, set_map (nodup_eraseDups _), registered, List.map_append, List.map_singleton,
    eraseDups_append_singleton]
  simp only [List.mem_eraseDups, lastText_append_singleton]

/-- A sequence of registrations, from none on. -/
theorem foldl_set (entries : List (String × String)) :
    entries.foldl (fun definitions entry => set entry.1 entry.2 definitions) [] =
      registered entries := by
  induction entries using List.reverseRecOn with
  | nil => rfl
  | append_singleton entries entry ih =>
    rw [List.foldl_append, ih, List.foldl_cons, List.foldl_nil, set_registered]

theorem keys_registered : (registered entries).map (·.1) = (entries.map (·.1)).eraseDups := by
  rw [registered, List.map_map]
  exact List.map_id _

/-- What is left was registered. -/
theorem mem_of_mem_registered {entry : String × String} (h : entry ∈ registered entries) :
    entry ∈ entries := by
  obtain ⟨key, hkey, rfl⟩ := List.mem_map.mp h
  exact mem_of_lastText (List.mem_eraseDups.mp hkey)

end BlockScript.Definitions

namespace BlockScript

/-! ## Further names -/

/-- The names of a list that came before: among names that were seen, or earlier in the list. -/
def furtherNames (seen : List String) : List String → List String
  | [] => []
  | name :: names =>
    (if name ∈ seen then [name] else []) ++ furtherNames (seen ++ [name]) names

theorem furtherNames_append (seen names names' : List String) :
    furtherNames seen (names ++ names') =
      furtherNames seen names ++ furtherNames (seen ++ names) names' := by
  induction names generalizing seen with
  | nil => simp [furtherNames]
  | cons name names ih => simp [furtherNames, ih]

/-- A name comes once less often as a further name than it comes at all. -/
theorem count_furtherNames (name : String) (names : List String) :
    (furtherNames [] names).count name = names.count name - 1 := by
  have hseen : ∀ seen, (furtherNames seen names).count name =
      names.count name - if name ∈ seen then 0 else 1 := by
    induction names with
    | nil => simp [furtherNames]
    | cons n rest ih =>
      intro seen
      rw [furtherNames, List.count_append, ih, List.count_cons]
      by_cases hname : n = name <;> by_cases hin : name ∈ seen <;> simp [hname, hin] <;> grind
  exact hseen []

end BlockScript
