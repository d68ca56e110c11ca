/-
  BlockScript.Proofs.Name.Identifier

  What a table hands out is an identifier behind its prefix. Any text becomes one, a number behind
  an identifier leaves one, and what is remembered was handed out.
-/
import BlockScript.Proofs.Name.Allocation
import BlockScript.Proofs.Script.Atom

namespace BlockScript

open Script (isName isName_iff)

namespace Name

/-! ## Safe texts -/

theorem isWordChar_hexDigit : ∀ n < 16, Literal.isWordChar (hexDigit n) = true := by
  decide

theorem isWordChar_of_mem_byteMark {b : UInt8} {c : Char} (h : c ∈ byteMark b) :
    Literal.isWordChar c = true := by
  have hb := b.toNat_lt
  simp only [byteMark, List.mem_cons, List.not_mem_nil, or_false] at h
  rcases h with rfl | rfl | rfl
  · rfl
  · exact isWordChar_hexDigit _ (by omega)
  · exact isWordChar_hexDigit _ (by omega)

/-- A character becomes word characters. -/
theorem isWordChar_of_mem_safeChar {c d : Char} (h : d ∈ safeChar c) :
    Literal.isWordChar d = true := by
  rw [safeChar] at h
  split at h
  · rename_i hc
    rwa [List.mem_singleton.mp h]
  · split at h
    · rw [List.mem_singleton.mp h]
      rfl
    · obtain ⟨b, -, hd⟩ := List.mem_flatMap.mp h
      exact isWordChar_of_mem_byteMark hd

theorem safeChar_ne_nil (c : Char) : safeChar c ≠ [] := by
  rw [safeChar]
  split
  · exact List.cons_ne_nil _ _
  · split
    · exact List.cons_ne_nil _ _
    · cases hbytes : String.utf8EncodeChar c with
      | nil => exact absurd hbytes String.utf8EncodeChar_ne_nil
      | cons b rest => exact List.cons_ne_nil _ _

/-- Any text becomes an identifier. -/
theorem isName_safe (s : String) : isName (safe s).toList = true := by
  rw [safe]
  split
  · decide
  · rename_i hne
    have hword : ∀ d ∈ s.toList.flatMap safeChar, Literal.isWordChar d = true := by
      intro d hd
      obtain ⟨c, -, hc⟩ := List.mem_flatMap.mp hd
      exact isWordChar_of_mem_safeChar hc
    cases hchars : s.toList.flatMap safeChar with
    | nil =>
      rw [List.flatMap_eq_nil_iff] at hchars
      cases hs : s.toList with
      | nil => exact absurd (String.toList_eq_nil_iff.mp hs) hne
      | cons c rest => exact absurd (hchars c (hs ▸ List.mem_cons_self)) (safeChar_ne_nil c)
    | cons c rest =>
      rw [hchars] at hword
      have hc := hword c List.mem_cons_self
      have hrest : ∀ d ∈ rest, Literal.isWordChar d = true :=
        fun d hd => hword d (List.mem_cons_of_mem c hd)
      simp only
      split
      · have hall : ∀ d ∈ ['y', '_'] ++ c :: rest, Literal.isWordChar d = true := by
          intro d hd
          rcases List.mem_append.mp hd with hd | hd
          · have : d = 'y' ∨ d = '_' := by simpa using hd
            rcases this with rfl | rfl <;> rfl
          · exact hword d hd
        refine isName_iff.mpr ⟨'m', ['y', '_'] ++ c :: rest, ?_, rfl, rfl, hall⟩
        rw [String.toList_append, String.toList_ofList, String.toList_ofList]
        rfl
      · rename_i hdigit
        rw [String.toList_ofList]
        exact isName_iff.mpr ⟨c, rest, rfl, by simpa using hdigit, hc, hrest⟩

/-- A number behind an identifier leaves an identifier. -/
theorem isName_append_toString {base : String} (h : isName base.toList = true) (n : Nat) :
    isName (base ++ toString n).toList = true := by
  obtain ⟨c, rest, hbase, hdigit, hc, hrest⟩ := isName_iff.mp h
  refine isName_iff.mpr ⟨c, rest ++ (toString n).toList, ?_, hdigit, hc, ?_⟩
  · rw [String.toList_append, hbase, List.cons_append]
  · intro d hd
    rcases List.mem_append.mp hd with hd | hd
    · exact hrest d hd
    · rw [Nat.toString_eq_repr, Nat.toList_repr] at hd
      have := Nat.isDigit_of_mem_toDigits (by decide) (by decide) hd
      exact Script.isWordChar_of_isDigit this

end Name

/-! ## Names of a table -/

/-- A table that remembers identifiers only. -/
def NameTable.Remembers (t : NameTable) : Prop :=
  ∀ entry ∈ t.memo, isName entry.2.toList = true

/-- What an answer is made of, and what the table remembers behind it. -/
structure Naming.Sound (naming : Naming) (t : NameTable) (category : Category) : Prop where
  answer : ∀ emitted, naming.answer = .ok emitted → ∃ lead candidate,
    t.prefixFor category = .ok lead ∧ isName candidate.toList = true ∧ emitted = lead ++ candidate
  remembers : naming.table.Remembers
  variablePrefix : naming.table.variablePrefix? = t.variablePrefix?

namespace NameTable

theorem isName_freeName {t : NameTable} {base : String} (h : isName base.toList = true) :
    isName (t.freeName base).toList = true := by
  rcases t.freeName_eq base with heq | ⟨n, heq⟩
  · rwa [heq]
  · rw [heq]
    exact Name.isName_append_toString h n

theorem remembers_new (reserved : List String) (variablePrefix? : Option String) :
    (new reserved variablePrefix?).Remembers :=
  fun _ hentry => absurd hentry List.not_mem_nil

theorem eq_of_map_eq_ok {lead? : Except Fault String} {candidate emitted : String}
    (h : lead?.map (· ++ candidate) = .ok emitted) :
    ∃ lead, lead? = .ok lead ∧ emitted = lead ++ candidate := by
  cases lead? with
  | ok lead => exact ⟨lead, rfl, (Except.ok.inj h).symm⟩
  | error fault => cases h

theorem distinct_sound {t : NameTable} (h : t.Remembers) (name : String) (category : Category) :
    (t.distinct name category).Sound t category where
  answer := by
    intro emitted hanswer
    obtain ⟨lead, hlead, rfl⟩ := eq_of_map_eq_ok hanswer
    exact ⟨lead, _, hlead, isName_freeName (Name.isName_safe name), rfl⟩
  remembers := h
  variablePrefix := rfl

theorem mem_of_lookup_eq_some {α : Type} {table : List (String × α)} {key : String} {a : α}
    (h : table.lookup key = some a) : (key, a) ∈ table := by
  obtain ⟨before, after, rfl, -⟩ := List.lookup_eq_some_iff.mp h
  exact List.mem_append_right _ List.mem_cons_self

theorem name_sound {t : NameTable} (h : t.Remembers) (name : String) (category : Category) :
    (t.name name category).Sound t category := by
  simp only [NameTable.name]
  cases hmemo : t.memo.lookup (memoKey (t.meant name category) category) with
  | some candidate =>
    refine ⟨?_, h, rfl⟩
    intro emitted hanswer
    obtain ⟨lead, hlead, rfl⟩ := eq_of_map_eq_ok hanswer
    exact ⟨lead, candidate, hlead, h _ (mem_of_lookup_eq_some hmemo), rfl⟩
  | none =>
    have hfree := isName_freeName (t := t) (Name.isName_safe (t.meant name category))
    simp only [allot]
    cases hlead : t.prefixFor category with
    | error fault =>
      refine ⟨?_, h, rfl⟩
      intro emitted hanswer
      cases hanswer
    | ok lead =>
      refine ⟨?_, ?_, rfl⟩
      · intro emitted hanswer
        exact ⟨lead, _, hlead, hfree, (Except.ok.inj hanswer).symm⟩
      · intro entry hentry
        rcases List.mem_cons.mp hentry with rfl | hentry
        · exact hfree
        · exact h entry hentry

end NameTable

end BlockScript
