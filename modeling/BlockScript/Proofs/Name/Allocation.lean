/-
  BlockScript.Proofs.Name.Allocation

  The search for a free identifier finds the first of its candidates that is free. There are more
  candidates to try than identifiers that are not free, and no two candidates are the same.
-/
import BlockScript.Name.Table
import Mathlib.Data.Finset.Card
import Mathlib.Data.Nat.Find

namespace BlockScript

namespace NameTable

/-! ## Candidates -/

theorem append_toString_injective (base : String) :
    Function.Injective fun n : Nat => base ++ toString n := by
  intro i j h
  have hlist := congrArg String.toList h
  simp only [String.toList_append] at hlist
  have hdigits := List.append_cancel_left hlist
  simp only [Nat.toString_eq_repr, Nat.toList_repr] at hdigits
  have hvalue := congrArg (fun digits => Nat.ofDigitChars 10 digits 0) hdigits
  simpa using hvalue

/-- The candidates of a base, in the order in which they are looked at: the base, and the base with
    the numbers from two on. -/
def candidate (base : String) : Nat → String
  | 0 => base
  | i + 1 => base ++ toString (i + 2)

theorem candidate_injective (base : String) : Function.Injective (candidate base) := by
  -- A number makes a candidate longer than the base, and different numbers are different texts.
  have hlonger : ∀ n : Nat, base ≠ base ++ toString n := by
    intro n h
    have hlength := congrArg String.length h
    have hdigits : 0 < (toString n).length := by
      rw [Nat.toString_eq_repr, ← String.length_toList, Nat.toList_repr]
      exact List.length_pos_of_ne_nil Nat.toDigits_ne_nil
    rw [String.length_append] at hlength
    omega
  intro i j h
  match i, j with
  | 0, 0 => rfl
  | 0, j + 1 => exact absurd h (hlonger _)
  | i + 1, 0 => exact absurd h.symm (hlonger _)
  | i + 1, j + 1 =>
    have := append_toString_injective base h
    omega

theorem isFree_eq_true_iff {t : NameTable} {candidate : String} :
    t.isFree candidate = true ↔ candidate ∉ t.taken ∧ candidate ∉ t.reserved := by
  simp [isFree, isReserved]

/-- The identifiers that are not free. -/
def blocked (t : NameTable) : Finset String :=
  t.reserved.toFinset ∪ t.taken.toFinset

theorem mem_blocked_iff {t : NameTable} {word : String} :
    word ∈ t.blocked ↔ t.isFree word = false := by
  rw [← Bool.not_eq_true, isFree_eq_true_iff]
  simp only [blocked, Finset.mem_union, List.mem_toFinset]
  tauto

theorem card_blocked_le (t : NameTable) : t.blocked.card ≤ t.taken.length + t.reserved.length := by
  have hunion := Finset.card_union_le t.reserved.toFinset t.taken.toFinset
  have hreserved := List.toFinset_card_le t.reserved
  have htaken := List.toFinset_card_le t.taken
  show (t.reserved.toFinset ∪ t.taken.toFinset).card ≤ _
  omega

/-! ## The first free candidate -/

/-- Among more candidates than there are identifiers that are not free, one is free. -/
theorem exists_isFree_candidate (t : NameTable) (base : String) :
    ∃ i ≤ t.blocked.card, t.isFree (candidate base i) = true := by
  by_contra hnone
  -- Else all of them would be different identifiers that are not free.
  have hsub : (Finset.range (t.blocked.card + 1)).image (candidate base) ⊆ t.blocked := by
    intro word hword
    obtain ⟨i, hi, rfl⟩ := Finset.mem_image.mp hword
    have hle : i ≤ t.blocked.card := by
      have := Finset.mem_range.mp hi
      omega
    exact mem_blocked_iff.mpr (Bool.eq_false_iff.mpr fun hfree => hnone ⟨i, hle, hfree⟩)
  have hcard := Finset.card_le_card hsub
  rw [Finset.card_image_of_injective _ (candidate_injective base), Finset.card_range] at hcard
  omega

/-- Every base has a first free candidate. -/
theorem exists_first_candidate (t : NameTable) (base : String) :
    ∃ n ≤ t.blocked.card, t.isFree (candidate base n) = true ∧
      ∀ i < n, t.isFree (candidate base i) = false := by
  obtain ⟨i, hi, hfree⟩ := exists_isFree_candidate t base
  have hex : ∃ n, t.isFree (candidate base n) = true := ⟨i, hfree⟩
  exact ⟨Nat.find hex, (Nat.find_min' hex hfree).trans hi, Nat.find_spec hex,
    fun j hj => Bool.eq_false_iff.mpr (Nat.find_min hex hj)⟩

section

variable {t : NameTable} {base : String} {n : Nat}
  (hfree : t.isFree (candidate base n) = true)
  (hbefore : ∀ i < n, t.isFree (candidate base i) = false)
include hfree hbefore

/-- The bounded search for a suffix finds that candidate, if the bound lets it come so far. -/
theorem freeSuffixed_eq (fuel : Nat) {i : Nat} (hi : i + 1 ≤ n) (hn : n ≤ i + 1 + fuel) :
    t.freeSuffixed base fuel (i + 2) = candidate base n := by
  induction fuel generalizing i with
  | zero =>
    obtain rfl : n = i + 1 := by omega
    rfl
  | succ fuel ih =>
    rw [freeSuffixed]
    by_cases hlast : n = i + 1
    · subst hlast
      exact if_pos hfree
    · -- The candidate at hand is not the first that is free, so the search goes on.
      have hnot : t.isFree (base ++ toString (i + 2)) = false := hbefore (i + 1) (by omega)
      rw [if_neg (Bool.eq_false_iff.mp hnot)]
      exact ih (by omega) (by omega)

/-- The table finds that candidate. -/
theorem freeName_eq_candidate (hn : n ≤ t.blocked.card) : t.freeName base = candidate base n := by
  rw [freeName]
  cases n with
  | zero => exact if_pos hfree
  | succ n =>
    have hbase : t.isFree base = false := hbefore 0 (Nat.succ_pos n)
    have hcard := t.card_blocked_le
    rw [if_neg (Bool.eq_false_iff.mp hbase)]
    exact freeSuffixed_eq hfree hbefore _ (Nat.succ_le_succ n.zero_le) (by omega)

end

/-! ## The identifier -/

/-- The identifier that a table finds for a base is the first free candidate. -/
theorem freeName_first (t : NameTable) (base : String) :
    ∃ n ≤ t.blocked.card, t.freeName base = candidate base n ∧
      t.isFree (candidate base n) = true ∧ ∀ i < n, t.isFree (candidate base i) = false := by
  obtain ⟨n, hn, hfree, hbefore⟩ := exists_first_candidate t base
  exact ⟨n, hn, freeName_eq_candidate hfree hbefore hn, hfree, hbefore⟩

theorem freeName_isFree (t : NameTable) (base : String) : t.isFree (t.freeName base) = true := by
  obtain ⟨n, -, hname, hfree, -⟩ := t.freeName_first base
  rwa [hname]

/-- The identifier is its base, or the base with a number behind it. -/
theorem freeName_eq (t : NameTable) (base : String) :
    t.freeName base = base ∨ ∃ n : Nat, t.freeName base = base ++ toString n := by
  obtain ⟨n, -, hname, -, -⟩ := t.freeName_first base
  cases n with
  | zero => exact .inl hname
  | succ n => exact .inr ⟨n + 2, hname⟩

/-! ## What is remembered -/

/-- What is remembered stays so when an identifier is remembered for a key that had none. -/
theorem lookup_cons_of_none {memo : List (String × String)} {key key' candidate other : String}
    (hnone : memo.lookup key = none) (h : memo.lookup key' = some other) :
    ((key, candidate) :: memo).lookup key' = some other := by
  have hne : key' ≠ key := by
    rintro rfl
    rw [hnone] at h
    cases h
  rw [List.lookup_cons, beq_false_of_ne hne, h]

end NameTable

end BlockScript
