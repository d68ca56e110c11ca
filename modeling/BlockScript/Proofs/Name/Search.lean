/-
  BlockScript.Proofs.Name.Search

  The search for a free identifier as a loop without a bound: it looks at one candidate after the
  other, and a free one ends it. So it looks at the candidates up to the first that is free, which is
  the identifier that a table hands out, and at no more of them than one more than there are
  identifiers that are not free.
-/
import BlockScript.Proofs.Name.Allocation
import Mathlib.Order.Bounds.Basic

namespace BlockScript

namespace NameTable

/-! ## The loop -/

/-- The search from a candidate and its number on. A free candidate ends it; any other is followed by
    the base with the next number. The list holds the candidates that were looked at. -/
inductive Searches (t : NameTable) (base : String) :
    String → Nat → List String → String → Prop
  | found {candidate : String} {suffix : Nat} (hfree : t.isFree candidate = true) :
      Searches t base candidate suffix [candidate] candidate
  | next {candidate : String} {suffix : Nat} {tried : List String} {found : String}
      (hnot : t.isFree candidate = false)
      (hrest : Searches t base (base ++ toString (suffix + 1)) (suffix + 1) tried found) :
      Searches t base candidate suffix (candidate :: tried) found

/-- A search goes one way only. -/
theorem Searches.unique {t : NameTable} {base candidate : String} {suffix : Nat}
    {tried tried' : List String} {found found' : String}
    (h : t.Searches base candidate suffix tried found)
    (h' : t.Searches base candidate suffix tried' found') : tried' = tried ∧ found' = found := by
  induction h generalizing tried' found' with
  | found hfree =>
    cases h' with
    | found => exact ⟨rfl, rfl⟩
    | next hnot => rw [hfree] at hnot; cases hnot
  | next hnot _ ih =>
    cases h' with
    | found hfree => rw [hnot] at hfree; cases hfree
    | next _ hrest =>
      obtain ⟨rfl, rfl⟩ := ih hrest
      exact ⟨rfl, rfl⟩

/-! ## The first free candidate -/

section

variable {t : NameTable} {base : String} {n : Nat}
  (hfree : t.isFree (candidate base n) = true)
  (hbefore : ∀ i < n, t.isFree (candidate base i) = false)
include hfree hbefore

/-- From a candidate on, the loop looks at the ones up to the first that is free. -/
theorem searches_candidate (count : Nat) {i : Nat} (hi : i + count = n) :
    t.Searches base (candidate base i) (i + 1)
      ((List.range' i (count + 1)).map (candidate base)) (candidate base n) := by
  -- The induction is on how many candidates are ahead of the free one.
  induction count generalizing i with
  | zero =>
    obtain rfl : i = n := hi
    exact .found hfree
  | succ count ih =>
    have hrest : t.Searches base (candidate base (i + 1)) (i + 1 + 1)
        ((List.range' (i + 1) (count + 1)).map (candidate base)) (candidate base n) :=
      ih (by omega)
    rw [List.range'_succ, List.map_cons]
    exact .next (hbefore i (by omega)) hrest

/-- That candidate is the base, or else the base with the least number from two on that makes it
    free. -/
theorem candidate_least :
    t.isFree base = true ∧ candidate base n = base ∨
      t.isFree base = false ∧ ∃ k, IsLeast {k | 2 ≤ k ∧ t.isFree (base ++ toString k) = true} k ∧
        candidate base n = base ++ toString k := by
  cases n with
  | zero => exact .inl ⟨hfree, rfl⟩
  | succ n =>
    refine .inr ⟨hbefore 0 (Nat.succ_pos n), n + 2, ⟨⟨by omega, hfree⟩, ?_⟩, rfl⟩
    rintro k ⟨hk, hkfree⟩
    by_contra hlt
    -- A smaller number is that of a candidate that the search has passed.
    have hpassed := hbefore (k - 1) (by omega)
    obtain ⟨i, rfl⟩ : ∃ i, k = i + 2 := ⟨k - 2, by omega⟩
    change t.isFree (base ++ toString (i + 2)) = false at hpassed
    rw [hkfree] at hpassed
    cases hpassed

end

/-! ## The search of a request -/

/-- A request for a distinct name, of any table: the loop ends, with no more candidates looked at than
    one more than there are identifiers that are not free. What it finds is the safe form of the name,
    or else that with the least number from two on that makes it free. It is taken from then on, and
    nothing else in the table changes. -/
theorem distinct_search (t : NameTable) (name : String) (category : Category) :
    ∃ tried found,
      (∀ tried' found', t.Searches (Name.safe name) (Name.safe name) 1 tried' found' ↔
        tried' = tried ∧ found' = found) ∧
      tried.length ≤ (t.reserved.toFinset ∪ t.taken.toFinset).card + 1 ∧
      (t.isFree (Name.safe name) = true ∧ found = Name.safe name ∨
        t.isFree (Name.safe name) = false ∧
          ∃ k, IsLeast {k | 2 ≤ k ∧ t.isFree (Name.safe name ++ toString k) = true} k ∧
            found = Name.safe name ++ toString k) ∧
      (t.distinct name category).answer = (t.prefixFor category).map (· ++ found) ∧
      (t.distinct name category).table = { t with taken := found :: t.taken } := by
  obtain ⟨n, hn, hname, hfree, hbefore⟩ := t.freeName_first (Name.safe name)
  have hsearch : t.Searches (Name.safe name) (Name.safe name) 1 _ _ :=
    searches_candidate hfree hbefore n (Nat.zero_add n)
  refine ⟨_, candidate (Name.safe name) n, fun tried' found' => ⟨hsearch.unique, ?_⟩, ?_,
    candidate_least hfree hbefore, ?_, ?_⟩
  · rintro ⟨rfl, rfl⟩
    exact hsearch
  · rw [List.length_map, List.length_range']
    exact Nat.succ_le_succ hn
  · rw [← hname]
    rfl
  · rw [← hname]
    rfl

end NameTable

end BlockScript
