/-
  BlockScript.Proofs.File.Tree

  What the steps on a file system leave as it is. Making directories, whether it fails or not, adds
  directories where nothing was and nothing else. Writing a file makes its text the content of the
  file at the path, and changes no other place.
-/
import BlockScript.File.Tree

namespace BlockScript.FileTree

variable {s t u : FileTree} {path : Path}

/-! ## Entries -/

/-- The entries with another one at a place. -/
def exchanged (place : Place) (entry : FileEntry) (entries : List (Place × FileEntry)) :
    List (Place × FileEntry) :=
  entries.map fun (p, e) => if p = place then (p, entry) else (p, e)

theorem lookup_exchanged_self {entries : List (Place × FileEntry)} {place : Place}
    (h : (entries.lookup place).isSome = true) (entry : FileEntry) :
    (exchanged place entry entries).lookup place = some entry := by
  induction entries with
  | nil => cases h
  | cons first rest ih =>
    obtain ⟨p, e⟩ := first
    rw [exchanged, List.map_cons, List.lookup_cons]
    by_cases hp : p = place
    · simp only [hp, if_true, beq_self_eq_true]
    · rw [List.lookup_cons, beq_false_of_ne (Ne.symm hp)] at h
      simp only [hp, if_false, beq_false_of_ne (Ne.symm hp)]
      exact ih h

theorem lookup_exchanged_of_ne {place other : Place} (h : other ≠ place) (entry : FileEntry)
    (entries : List (Place × FileEntry)) :
    (exchanged place entry entries).lookup other = entries.lookup other := by
  induction entries with
  | nil => rfl
  | cons first rest ih =>
    obtain ⟨p, e⟩ := first
    rw [exchanged, List.map_cons, List.lookup_cons, List.lookup_cons]
    by_cases hp : p = place
    · simp only [hp, if_true, beq_false_of_ne h]
      exact ih
    · simp only [hp, if_false]
      split
      · rfl
      · exact ih

theorem entry_put (tree : FileTree) (place : Place) (entry : FileEntry) (other : Place) :
    FileTree.entry? (tree.put place entry) other =
      if other = place ∧ place ≠ [] then some entry else tree.entry? other := by
  by_cases hroot : other = []
  · rw [FileTree.entry?, FileTree.entry?, if_pos hroot, if_pos hroot]
    split
    · rename_i h
      exact absurd (h.1.symm.trans hroot) h.2
    · rfl
  · have hplace : (other = place ∧ place ≠ []) ↔ other = place :=
      ⟨And.left, fun h => ⟨h, h ▸ hroot⟩⟩
    simp only [FileTree.entry?, if_neg hroot, hplace, put]
    split
    · rename_i hthere
      by_cases hother : other = place
      · rw [if_pos hother, hother]
        exact lookup_exchanged_self hthere entry
      · rw [if_neg hother]
        exact lookup_exchanged_of_ne hother entry _
    · rename_i hnew
      have hnone : tree.entries.lookup place = none := by
        rwa [Bool.not_eq_true, Option.isSome_eq_false_iff, Option.isNone_iff_eq_none] at hnew
      rw [List.lookup_append]
      by_cases hother : other = place
      · rw [if_pos hother, hother, hnone, List.lookup_cons_self]
        rfl
      · rw [if_neg hother, List.lookup_cons, beq_false_of_ne hother]
        exact Option.or_none

theorem working_put (tree : FileTree) (place : Place) (entry : FileEntry) :
    (tree.put place entry).working = tree.working := by
  rw [put]
  split <;> rfl

/-! ## Places that are kept -/

/-- A place is as it was, or there is a directory where nothing was. -/
def KeptAt (s t : FileTree) (place : Place) : Prop :=
  t.entry? place = s.entry? place ∨ s.entry? place = none ∧ t.entry? place = some .directory

theorem KeptAt.trans {place : Place} (h : s.KeptAt t place) (h' : t.KeptAt u place) :
    s.KeptAt u place := by
  rcases h with h | ⟨hnone, hmade⟩
  · rwa [KeptAt, h] at h'
  · rcases h' with h' | ⟨hnone', -⟩
    · exact Or.inr ⟨hnone, h'.trans hmade⟩
    · rw [hmade] at hnone'
      cases hnone'

/-- Where places are kept, there are the same files with the same contents. -/
theorem KeptAt.file_iff {place : Place} (h : s.KeptAt t place) (content : String) :
    t.entry? place = some (.file content) ↔ s.entry? place = some (.file content) := by
  rcases h with h | ⟨hnone, hmade⟩
  · rw [h]
  · rw [hnone, hmade]
    exact ⟨(by cases ·), (by cases ·)⟩

/-- The file at a path has a content, and all other places are kept. -/
def WrittenAt (s : FileTree) (path : Path) (content : String) (t : FileTree) : Prop :=
  ∃ place, t.place path = .ok place ∧ t.entry? place = some (.file content) ∧
    ∀ other, other ≠ place → s.KeptAt t other

theorem WrittenAt.of_kept {content : String} (hkept : ∀ place, s.KeptAt t place)
    (h : t.WrittenAt path content u) : s.WrittenAt path content u := by
  obtain ⟨place, hplace, hentry, hother⟩ := h
  exact ⟨place, hplace, hentry, fun other hne => (hkept other).trans (hother other hne)⟩

/-! ## Making directories -/

theorem makeDirectory_kept (h : s.makeDirectory path = .ok t) (place : Place) : s.KeptAt t place := by
  rw [makeDirectory] at h
  split at h
  · cases h
  · split at h
    · cases h
    · rename_i made _ hnone
      obtain rfl := Except.ok.inj h
      rw [KeptAt, entry_put]
      split
      · rename_i hplace
        rw [hplace.1]
        exact Or.inr ⟨hnone, rfl⟩
      · exact Or.inl rfl

theorem bind_apply {α β : Type} (m : StateM FileTree α) (f : α → StateM FileTree β)
    (tree : FileTree) : (m >>= f) tree = f (m tree).1 (m tree).2 := rfl

/-- A change that keeps a place where it is made keeps it in any case. -/
theorem change_kept {step : FileTree → Except FileFault FileTree} {place : Place}
    (h : ∀ t, step s = .ok t → s.KeptAt t place) : s.KeptAt (change step s).2 place := by
  rw [change]
  cases hstep : step s with
  | ok t => exact h t hstep
  | error fault => exact Or.inl rfl

theorem unlessThere_kept (tree : FileTree) (path : Path) (made : Except FileFault Unit) :
    (access.unlessThere path made tree).2 = tree := by
  cases made with
  | ok _ => rfl
  | error fault =>
    change (ite (tree.isDirectory path = true) (pure (pure ()) : StateM FileTree _)
      (pure (throw fault)) tree).2 = tree
    split <;> rfl

/-- Making a directory with those above it keeps every place, whether it fails or not. -/
theorem makeFromLast_kept (root : Path.Root) (names : List String) (tree : FileTree)
    (place : Place) : tree.KeptAt (access.makeFromLast root names tree).2 place := by
  induction names generalizing tree with
  | nil => exact Or.inl rfl
  | cons name above ih =>
    have hmake : ∀ path s, KeptAt s (access.makeDirectory path s).2 place := fun path s =>
      change_kept fun t h => makeDirectory_kept h place
    rw [FileAccess.makeFromLast, bind_apply]
    generalize hpath : (⟨root, (name :: above).reverse⟩ : Path) = path
    have hfirst := hmake path tree
    have hrest : ∀ made, tree.KeptAt (access.unlessThere path made
        (access.makeDirectory path tree).2).2 place := by
      intro made
      rw [unlessThere_kept]
      exact hfirst
    cases hmade : (access.makeDirectory path tree).1 with
    | ok _ => exact hrest _
    | error fault =>
      obtain ⟨refusal, at'⟩ := fault
      cases refusal with
      | missing =>
        -- The directories above are made first, and then this one once more.
        have habove := hfirst.trans (ih (access.makeDirectory path tree).2)
        simp only [bind_apply]
        cases (access.makeFromLast root above (access.makeDirectory path tree).2).1 with
        | ok _ =>
          simp only [bind_apply]
          rw [unlessThere_kept]
          exact habove.trans (hmake _ _)
        | error _ => exact habove
      | notPermitted | alreadyThere | notADirectory | isADirectory | nameTooLong => exact hrest _

theorem makeAll_kept (tree : FileTree) (path : Path) (place : Place) :
    tree.KeptAt (access.makeAll path tree).2 place :=
  makeFromLast_kept _ _ tree place

/-! ## Where paths lead -/

/-- Names lead to the same place behind a change of what is no directory. -/
theorem follow_put {tree : FileTree} {place target : Place} {entry : FileEntry}
    (hplace : tree.entry? place ≠ some .directory) {start : Place} {names : List String}
    (h : tree.follow start names = .ok target) :
    (tree.put place entry).follow start names = .ok target := by
  induction names generalizing start with
  | nil => exact h
  | cons name rest ih =>
    rw [follow] at h ⊢
    cases hentry : tree.entry? start with
    | none =>
      rw [hentry] at h
      cases h
    | some here =>
      cases here with
      | file content =>
        rw [hentry] at h
        cases h
      | directory =>
        -- What is on the way is a directory, so it is not the place that changes.
        have hother : ¬ (start = place ∧ place ≠ []) := by
          rintro ⟨rfl, -⟩
          exact hplace hentry
        rw [entry_put, if_neg hother, hentry]
        rw [hentry] at h
        by_cases hlength : name.utf8ByteSize ≤ longestName
        · simp only [hlength, if_true] at h ⊢
          exact ih h
        · simp only [hlength, if_false] at h
          cases h

theorem place_put {tree : FileTree} {place target : Place} {entry : FileEntry}
    (hplace : tree.entry? place ≠ some .directory) (h : tree.place path = .ok target) :
    (tree.put place entry).place path = .ok target := by
  rw [FileTree.place] at h ⊢
  rw [working_put]
  split
  · rename_i hzero
    rw [if_pos hzero] at h
    cases h
  · rename_i hzero
    rw [if_neg hzero] at h
    split
    · rename_i hlength
      rw [if_pos hlength] at h
      exact follow_put hplace h
    · rename_i hlength
      rw [if_neg hlength] at h
      cases h

/-- Writing a file changes the file at the path only. -/
theorem write_writtenAt {content : String} (h : s.write path content = .ok t) :
    s.WrittenAt path content t := by
  rw [write] at h
  cases hplace : s.place path with
  | error refusal =>
    rw [hplace] at h
    cases h
  | ok place =>
    rw [hplace] at h
    simp only at h
    have hentry : s.entry? place ≠ some .directory := by
      intro hdirectory
      simp only [hdirectory] at h
      cases h
    have hroot : place ≠ [] := by
      rintro rfl
      exact hentry rfl
    have hput : s.put place (.file content) = t := by
      split at h
      · rename_i hdirectory
        exact absurd hdirectory hentry
      · exact Except.ok.inj h
    rw [← hput]
    refine ⟨place, place_put hentry hplace, ?_, fun other hother => Or.inl ?_⟩
    · rw [entry_put, if_pos ⟨rfl, hroot⟩]
    · rw [entry_put, if_neg fun h => hother h.1]

/-- A path of which no name is too long, nor the whole. -/
def IsOrdinary (path : Path) : Prop :=
  (∀ name ∈ path.names, name.utf8ByteSize ≤ longestName) ∧ path.shown.utf8ByteSize ≤ longestPath

instance (path : Path) : Decidable (IsOrdinary path) :=
  inferInstanceAs (Decidable (_ ∧ _))

theorem follow_ne_nameTooLong {tree : FileTree} {names : List String} (start : Place)
    (h : ∀ name ∈ names, name.utf8ByteSize ≤ longestName) :
    tree.follow start names ≠ .error .nameTooLong := by
  induction names generalizing start with
  | nil => exact (by cases ·)
  | cons name rest ih =>
    rw [follow]
    split
    · rw [if_pos (h name List.mem_cons_self)]
      exact ih _ fun other hother => h other (List.mem_cons_of_mem _ hother)
    · exact (by cases ·)
    · exact (by cases ·)

/-- Whether something is at an ordinary path can be found out. -/
theorem isThere_of_isOrdinary (h : IsOrdinary path) (tree : FileTree) :
    ∃ there, tree.isThere path = .ok there := by
  have hlong : tree.place path ≠ .error .nameTooLong := by
    rw [FileTree.place]
    split
    · exact (by cases ·)
    · rw [if_pos h.2]
      exact follow_ne_nameTooLong _ h.1
  rw [isThere]
  split
  · exact ⟨_, rfl⟩
  · rename_i hplace
    exact absurd hplace hlong
  · exact ⟨_, rfl⟩

end BlockScript.FileTree
