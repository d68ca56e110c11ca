/-
  BlockScript.Proofs.Name.Legible

  Names of variables that read as names. A script takes three words for values. No other name becomes
  one of them: whatever else a text loses on the way to an identifier leaves an underscore, and a
  suffix leaves a digit. What a table knows of a name stays known.
-/
import BlockScript.Proofs.Name.Identifier
import BlockScript.Proofs.Script.Grammar

namespace BlockScript

open Script (isName)

/-- The words that a script takes for values. -/
def constants : List String :=
  ["true", "false", "null"]

theorem Script.Expr.ofWord_of_not_mem {word : String} (h : word ∉ constants) :
    ofWord word = name word := by
  simp only [constants, List.mem_cons, List.not_mem_nil, or_false, not_or] at h
  rw [ofWord, if_neg h.1, if_neg h.2.1, if_neg h.2.2]

namespace Name

/-! ## Texts without marks -/

/-- A character that leaves no underscore is left as it is. -/
theorem safeChar_eq_of_not_mem {c : Char} (h : '_' ∉ safeChar c) : safeChar c = [c] := by
  rw [safeChar] at h ⊢
  split at h
  · rw [if_pos ‹_›]
  · split at h
    · exact absurd List.mem_cons_self h
    · cases hbytes : String.utf8EncodeChar c with
      | nil => exact absurd hbytes String.utf8EncodeChar_ne_nil
      | cons b rest =>
        rw [hbytes] at h
        exact absurd List.mem_cons_self h

theorem flatMap_safeChar_eq_of_not_mem {s : List Char} (h : '_' ∉ s.flatMap safeChar) :
    s.flatMap safeChar = s := by
  induction s with
  | nil => rfl
  | cons c rest ih =>
    rw [List.flatMap_cons, List.mem_append, not_or] at h
    rw [List.flatMap_cons, safeChar_eq_of_not_mem h.1, ih h.2]
    rfl

/-- An identifier without an underscore is the text that it was made of. -/
theorem safe_eq_of_not_mem {s : String} (hs : s ≠ "") (h : '_' ∉ (safe s).toList) : safe s = s := by
  rw [safe, if_neg hs] at h ⊢
  cases hchars : s.toList.flatMap safeChar with
  | nil =>
    have hself := flatMap_safeChar_eq_of_not_mem (s := s.toList) (by rw [hchars]; simp)
    rw [hchars] at hself
    exact absurd (String.toList_eq_nil_iff.mp hself.symm) hs
  | cons c rest =>
    rw [hchars] at h
    simp only at h ⊢
    split at h
    · rw [String.toList_append, List.mem_append, not_or] at h
      exact absurd h.1 (by decide)
    · rw [if_neg ‹_›, ← hchars]
      rw [String.toList_ofList, ← hchars] at h
      rw [flatMap_safeChar_eq_of_not_mem h, String.ofList_toList]

/-- A word without an underscore is the identifier of no other text. The empty text has an identifier
    of its own. -/
theorem eq_of_safe_eq {s word : String} (h : safe s = word) (hunnamed : word ≠ "unnamed")
    (hmark : '_' ∉ word.toList) : s = word := by
  by_cases hs : s = ""
  · rw [hs] at h
    exact absurd h.symm hunnamed
  · rw [← h] at hmark
    rw [← h, safe_eq_of_not_mem hs hmark]

/-- A text with a number behind it has a digit. -/
theorem exists_isDigit_append_toString (base : String) (n : Nat) :
    ∃ c ∈ (base ++ toString n).toList, c.isDigit = true := by
  have hne : Nat.toDigits 10 n ≠ [] := Nat.toDigits_ne_nil
  obtain ⟨c, rest, hc⟩ := List.exists_cons_of_ne_nil hne
  have hmem : c ∈ Nat.toDigits 10 n := hc ▸ List.mem_cons_self
  refine ⟨c, ?_, Nat.isDigit_of_mem_toDigits (by decide) (by decide) hmem⟩
  rw [String.toList_append, Nat.toString_eq_repr, Nat.toList_repr]
  exact List.mem_append_right _ hmem

/-- A word without an underscore or a digit is found for no other text, with a number or without. -/
theorem eq_of_found {source candidate : String}
    (h : candidate = safe source ∨ ∃ n : Nat, candidate = safe source ++ toString n)
    (hunnamed : candidate ≠ "unnamed") (hmark : '_' ∉ candidate.toList)
    (hdigits : ∀ c ∈ candidate.toList, c.isDigit = false) : source = candidate := by
  rcases h with h | ⟨n, rfl⟩
  · exact eq_of_safe_eq h.symm hunnamed hmark
  · obtain ⟨c, hc, hdigit⟩ := exists_isDigit_append_toString (safe source) n
    rw [hdigits c hc] at hdigit
    exact absurd hdigit (by decide)

theorem not_mem_of_mem_constants {word : String} (h : word ∈ constants) :
    word ≠ "unnamed" ∧ '_' ∉ word.toList ∧ ∀ c ∈ word.toList, c.isDigit = false := by
  have hchecked : ∀ word ∈ constants, word ≠ "unnamed" ∧ '_' ∉ word.toList ∧
      word.toList.all (fun c => !c.isDigit) = true := by decide
  obtain ⟨hunnamed, hmark, hdigits⟩ := hchecked word h
  refine ⟨hunnamed, hmark, fun c hc => ?_⟩
  have hdigit := List.all_eq_true.mp hdigits c hc
  rwa [Bool.not_eq_true'] at hdigit

/-- No other text becomes a word that a script takes for a value. -/
theorem not_mem_constants_of_found {source candidate : String} (hsource : source ∉ constants)
    (h : candidate = safe source ∨ ∃ n : Nat, candidate = safe source ++ toString n) :
    candidate ∉ constants := by
  intro hmem
  obtain ⟨hunnamed, hmark, hdigits⟩ := not_mem_of_mem_constants hmem
  rw [eq_of_found h hunnamed hmark hdigits] at hsource
  exact hsource hmem

end Name

namespace NameTable

variable {t t' t'' : NameTable}

/-! ## Tables -/

/-- A table that gives variables names without a prefix that read as names. -/
structure Legible (t : NameTable) : Prop where
  variablePrefix : t.variablePrefix? = some ""
  remembers : t.Remembers
  names : ∀ source candidate,
    t.memo.lookup (memoKey source .userVariable) = some candidate → candidate ∉ constants

/-- A table that has handed out nothing is legible. -/
theorem legible_new (reserved : List String) : (new reserved (some "")).Legible := by
  refine ⟨rfl, remembers_new _ _, ?_⟩
  intro source candidate h
  cases h

/-- Whether a table remembers an identifier for the variable of a name. -/
def Knows (t : NameTable) (name emitted : String) : Prop :=
  t.memo.lookup (memoKey (t.meant name .userVariable) .userVariable) = some emitted

/-- A table that knows what another one knows, of the same variables. -/
structure Extends (t t' : NameTable) : Prop where
  variableNames : t'.variableNames = t.variableNames
  variablePrefix : t'.variablePrefix? = t.variablePrefix?
  knows : ∀ name emitted, t.Knows name emitted → t'.Knows name emitted

theorem Extends.refl (t : NameTable) : t.Extends t :=
  ⟨rfl, rfl, fun _ _ h => h⟩

theorem Extends.trans (h : t.Extends t') (h' : t'.Extends t'') : t.Extends t'' where
  variableNames := h'.variableNames.trans h.variableNames
  variablePrefix := h'.variablePrefix.trans h.variablePrefix
  knows := fun name emitted hknows => h'.knows name emitted (h.knows name emitted hknows)

theorem meant_congr (h : t'.variableNames = t.variableNames) (name : String) (category : Category) :
    t'.meant name category = t.meant name category := by
  simp only [meant, h]

/-- The name that the variable of a name has in a script. -/
def emitted (t : NameTable) (name : String) : String :=
  match (t.name name .userVariable).answer with
  | .ok emitted => emitted
  | .error _ => name

theorem prefixFor_userVariable (h : t.variablePrefix? = some "") :
    t.prefixFor .userVariable = .ok "" := by
  rw [prefixFor, h]
  · rfl
  · intro h
    cases h

/-- A variable that a table knows has the name that the table remembers. -/
theorem Knows.emitted_eq {name emitted : String} (h : t.Knows name emitted)
    (hlead : t.variablePrefix? = some "") : t.emitted name = emitted := by
  have hname : (t.name name .userVariable).answer = .ok emitted := by
    rw [Knows] at h
    simp only [NameTable.name, h, prefixFor_userVariable hlead]
    exact congrArg Except.ok String.empty_append
  rw [NameTable.emitted, hname]

/-- A request for a variable gives a name that reads as a name, and that is known from then on. -/
theorem Legible.name (ht : t.Legible) {name : String}
    (hmeant : t.meant name .userVariable ∉ constants) :
    ∃ emitted, (t.name name .userVariable).answer = .ok emitted ∧ isName emitted.toList = true ∧
      emitted ∉ constants ∧ (t.name name .userVariable).table.Legible ∧
      (t.name name .userVariable).table.Knows name emitted ∧
      t.Extends (t.name name .userVariable).table := by
  have hsound := name_sound ht.remembers name .userVariable
  have hlead := prefixFor_userVariable ht.variablePrefix
  cases hmemo : t.memo.lookup (memoKey (t.meant name .userVariable) .userVariable) with
  | some candidate =>
    have hanswer : (t.name name .userVariable).answer = .ok candidate := by
      simp only [NameTable.name, hmemo, hlead]
      exact congrArg Except.ok String.empty_append
    have htable : (t.name name .userVariable).table = t := by
      simp only [NameTable.name, hmemo]
    rw [htable]
    exact ⟨candidate, hanswer, ht.remembers _ (mem_of_lookup_eq_some hmemo),
      ht.names _ _ hmemo, ht, hmemo, .refl t⟩
  | none =>
    let source := t.meant name .userVariable
    let candidate := t.freeName (Name.safe source)
    have hanswer : (t.name name .userVariable).answer = .ok candidate := by
      simp only [NameTable.name, hmemo, hlead]
      exact congrArg Except.ok String.empty_append
    have htable : (t.name name .userVariable).table = { t with
        taken := candidate :: t.taken
        memo := (memoKey source .userVariable, candidate) :: t.memo } := by
      simp only [NameTable.name, hmemo, hlead, allot]
      rfl
    have hconstant : candidate ∉ constants :=
      Name.not_mem_constants_of_found hmeant (t.freeName_eq (Name.safe source))
    refine ⟨candidate, hanswer, isName_freeName (Name.isName_safe source), hconstant, ?_, ?_, ?_⟩
    · refine ⟨hsound.variablePrefix.trans ht.variablePrefix, hsound.remembers, ?_⟩
      intro source' candidate' hlookup
      rw [htable, List.lookup_cons] at hlookup
      split at hlookup
      · rwa [← Option.some.inj hlookup]
      · exact ht.names source' candidate' hlookup
    · rw [Knows, htable]
      exact List.lookup_cons_self
    · rw [htable]
      exact ⟨rfl, rfl, fun other emitted h => lookup_cons_of_none hmemo h⟩

end NameTable

end BlockScript
