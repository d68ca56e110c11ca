/-
  BlockScript.Proofs.Name.Key

  The key of a name is one text: the name in lower case, an underscore, the category. One category
  name ends in another, so the two parts are told apart by case alone: a lower-case form has no
  capital of ASCII, and a category name has nothing else but the underscore.
-/
import BlockScript.Name.Table
import Mathlib

namespace BlockScript

namespace Text

/-! ## Lower-case forms -/

/-- Every run of the table beyond ASCII leads to characters beyond the capitals of ASCII. -/
theorem lowerRuns_shift : ∀ run ∈ lowerRuns,
    run.last < 128 ∨ (0x5A : Int) < (run.first : Int) + run.shift := by
  decide +kernel

theorem isUpper_ofNat_eq_false {n : Nat} (h : 0x5A < n) : (Char.ofNat n).isUpper = false := by
  rw [Char.ofNat]
  split
  · rename_i hv
    rw [Char.isUpper, decide_eq_false_iff_not]
    rintro ⟨-, hle⟩
    have hle' : n ≤ 90 := UInt32.le_iff_toNat_le.mp hle
    omega
  · decide

/-- A lower-case form of a character has no capital of ASCII. -/
theorem lowerChar_isUpper {c d : Char} (h : d ∈ lowerChar c) : d.isUpper = false := by
  rw [lowerChar] at h
  split at h
  · rw [List.mem_singleton.mp h]
    exact Char.isUpper_toLower_eq_false c
  · rename_i hbig
    split at h
    · simp only [List.mem_cons, List.not_mem_nil, or_false] at h
      rcases h with rfl | rfl <;> decide
    · split at h
      · rename_i run hrun
        have hmem := List.mem_of_find?_eq_some hrun
        have hin := List.find?_some hrun
        simp only [Bool.and_eq_true, decide_eq_true_eq] at hin
        rw [List.mem_singleton.mp h]
        apply isUpper_ofNat_eq_false
        rcases lowerRuns_shift run hmem with hlast | hshift
        · omega
        · omega
      · rename_i hnone
        rw [List.mem_singleton.mp h]
        have : c = Char.ofNat c.toNat := (Char.ofNat_toNat c).symm
        rw [this]
        exact isUpper_ofNat_eq_false (by omega)

theorem lowerAfter_isUpper (s : List Char) :
    ∀ before, ∀ d ∈ lowerAfter before s, d.isUpper = false := by
  induction s with
  | nil => intro before d hd; simp [lowerAfter] at hd
  | cons c rest ih =>
    intro before d hd
    simp only [lowerAfter, List.mem_append] at hd
    rcases hd with hd | hd
    · split at hd
      · split at hd <;> rw [List.mem_singleton.mp hd] <;> decide
      · exact lowerChar_isUpper hd
    · exact ih _ d hd

/-- A text in lower case has no capital of ASCII. -/
theorem filter_isUpper_lower (s : String) : (lower s).toList.filter Char.isUpper = [] := by
  rw [List.filter_eq_nil_iff]
  intro d hd
  rw [lower, String.toList_ofList] at hd
  simp [lowerAfter_isUpper s.toList [] d hd]

end Text

/-! ## Keys -/

theorem Category.eq_of_filter_isUpper_name {c d : Category}
    (h : c.name.toList.filter Char.isUpper = d.name.toList.filter Char.isUpper) : c = d := by
  revert h
  cases c <;> cases d <;> decide

namespace NameTable

/-- Two names have one key exactly if they are one in lower case and in one category. -/
theorem memoKey_inj {a b : String} {c d : Category} :
    memoKey a c = memoKey b d ↔ Text.lower a = Text.lower b ∧ c = d := by
  constructor
  · intro h
    have hlist := congrArg String.toList h
    simp only [memoKey, String.toList_append] at hlist
    have hfilter := congrArg (List.filter Char.isUpper) hlist
    simp only [List.filter_append, Text.filter_isUpper_lower, List.nil_append] at hfilter
    have hcat : c = d := Category.eq_of_filter_isUpper_name (List.append_cancel_left hfilter)
    subst hcat
    have hlower := List.append_cancel_right (List.append_cancel_right hlist)
    exact ⟨String.toList_injective hlower, rfl⟩
  · rintro ⟨h, rfl⟩
    rw [memoKey, memoKey, h]

end NameTable

end BlockScript
