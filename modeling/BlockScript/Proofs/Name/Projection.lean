/-
  BlockScript.Proofs.Name.Projection

  Any text as an identifier, in four stages: spaces become underscores, what may not stand in an
  address is percent-encoded byte by byte, what no identifier has becomes an underscore, and a digit at
  the front gets a word ahead. Identifiers are what the stages leave alone, and all that they give is an
  identifier, so that a second run changes nothing.
-/
import BlockScript.Proofs.Name.Identifier

namespace BlockScript.Name

open Script (isName isName_iff)

/-! ## The stages -/

/-- A character with an underscore in place of a space. -/
def unspaced (c : Char) : Char :=
  if c = ' ' then '_' else c

/-- The marks that stand in an address as they are. -/
def addressMarks : List Char :=
  ";,/?:@&=+$!*'()#_.-~".toList

/-- A character in an address: a letter, a digit or a mark as it is, and any other by the bytes of its
    encoding, each as a percent sign and two hexadecimal digits. -/
def percentEncoded (c : Char) : List Char :=
  if c.isAlphanum || addressMarks.contains c then [c]
  else (String.utf8EncodeChar c).flatMap fun b =>
    ['%', hexDigit (b.toNat / 16), hexDigit (b.toNat % 16)]

/-- A character with an underscore in place of what is no word character. -/
def wordOnly (c : Char) : Char :=
  if Literal.isWordChar c then c else '_'

/-- A text with a word ahead if a digit begins it. -/
def withoutDigitAhead : List Char → List Char
  | c :: rest => if c.isDigit then 'm' :: 'y' :: '_' :: c :: rest else c :: rest
  | [] => []

/-- The stages one after the other. The empty text has an identifier of its own. -/
def staged (s : String) : String :=
  if s = "" then "unnamed"
  else String.ofList
    (withoutDigitAhead (((s.toList.map unspaced).flatMap percentEncoded).map wordOnly))

theorem wordOnly_of_isWordChar {c : Char} (h : Literal.isWordChar c = true) : wordOnly c = c :=
  if_pos h

/-- The stages make an underscore of each plain mark. -/
theorem staged_of_mem_plainMarks {c : Char} (h : c ∈ plainMarks) :
    (percentEncoded (unspaced c)).map wordOnly = ['_'] := by
  have hall : plainMarks.all
      (fun d => (percentEncoded (unspaced d)).map wordOnly = ['_']) = true := by decide
  exact of_decide_eq_true (List.all_eq_true.mp hall c h)

/-- The marks of an address are the underscore and plain marks. -/
theorem mem_plainMarks_of_mem_addressMarks {c : Char} (h : c ∈ addressMarks) :
    c = '_' ∨ c ∈ plainMarks := by
  have hall : addressMarks.all (fun d => d = '_' ∨ d ∈ plainMarks) = true := by decide
  exact of_decide_eq_true (List.all_eq_true.mp hall c h)

/-- What the stages make of a byte that is encoded. -/
theorem map_wordOnly_byte (b : UInt8) :
    ['%', hexDigit (b.toNat / 16), hexDigit (b.toNat % 16)].map wordOnly = byteMark b := by
  have hb := b.toNat_lt
  have hhigh := isWordChar_hexDigit (b.toNat / 16) (by omega)
  have hlow := isWordChar_hexDigit (b.toNat % 16) (by omega)
  have hpercent : wordOnly '%' = '_' := by decide
  rw [List.map_cons, List.map_cons, List.map_cons, List.map_nil, hpercent,
    wordOnly_of_isWordChar hhigh, wordOnly_of_isWordChar hlow, byteMark]

/-- The stages before the last, character by character. -/
theorem safeChar_eq (c : Char) : safeChar c = (percentEncoded (unspaced c)).map wordOnly := by
  rw [safeChar]
  by_cases hword : Literal.isWordChar c = true
  · have hspace : c ≠ ' ' := by
      rintro rfl
      exact absurd hword (by decide)
    have haddress : (c.isAlphanum || addressMarks.contains c) = true := by
      rw [Literal.isWordChar, Bool.or_eq_true, decide_eq_true_eq] at hword
      rcases hword with halphanum | rfl
      · rw [halphanum, Bool.true_or]
      · decide
    rw [if_pos hword, unspaced, if_neg hspace, percentEncoded, if_pos haddress, List.map_singleton,
      wordOnly_of_isWordChar hword]
  · rw [if_neg hword]
    by_cases hmark : c ∈ plainMarks
    · -- A mark of an address or a space: no stage before the last makes it a word character.
      rw [if_pos (List.contains_iff_mem.mpr hmark), staged_of_mem_plainMarks hmark]
    · -- Any other character is encoded, and only the percent signs are changed behind that.
      have hspace : c ≠ ' ' := by
        rintro rfl
        exact hmark (by decide)
      have halphanum : c.isAlphanum = false := by
        rw [Literal.isWordChar, Bool.or_eq_true, not_or] at hword
        exact Bool.eq_false_iff.mpr hword.1
      have haddress : c ∉ addressMarks := by
        intro hmem
        rcases mem_plainMarks_of_mem_addressMarks hmem with rfl | hplain
        · exact hword (by decide)
        · exact hmark hplain
      have hencoded : ¬(c.isAlphanum || addressMarks.contains c) = true := by
        simp [halphanum, haddress]
      rw [if_neg (mt List.contains_iff_mem.mp hmark), unspaced, if_neg hspace, percentEncoded,
        if_neg hencoded, List.map_flatMap]
      exact List.flatMap_congr fun b _ => (map_wordOnly_byte b).symm

/-- The identifier of a text is what the stages make of it. -/
theorem safe_eq_staged (s : String) : safe s = staged s := by
  have hchars : s.toList.flatMap safeChar =
      ((s.toList.map unspaced).flatMap percentEncoded).map wordOnly := by
    rw [List.flatMap_map, List.map_flatMap]
    exact List.flatMap_congr fun c _ => safeChar_eq c
  have hahead : ∀ l, "my_" ++ String.ofList l = String.ofList ('m' :: 'y' :: '_' :: l) := by
    intro l
    change _ = String.ofList ("my_".toList ++ l)
    rw [String.ofList_append, String.ofList_toList]
  rw [safe, staged, hchars]
  by_cases hs : s = ""
  · rw [if_pos hs, if_pos hs]
  · rw [if_neg hs, if_neg hs]
    cases ((s.toList.map unspaced).flatMap percentEncoded).map wordOnly with
    | nil => rfl
    | cons c rest =>
      show (if c.isDigit then "my_" ++ String.ofList (c :: rest) else String.ofList (c :: rest)) = _
      rw [withoutDigitAhead, hahead]
      split <;> rfl

/-! ## Identifiers -/

/-- An identifier is left as it is. -/
theorem safe_of_isName {s : String} (h : isName s.toList = true) : safe s = s := by
  obtain ⟨c, rest, hs, hdigit, hc, hrest⟩ := isName_iff.mp h
  have hne : s ≠ "" := by
    rintro rfl
    cases hs
  have hkept : s.toList.flatMap safeChar = s.toList := by
    have hchar : ∀ d ∈ s.toList, safeChar d = [d] := by
      intro d hd
      rw [hs] at hd
      rcases List.mem_cons.mp hd with rfl | hd
      · exact if_pos hc
      · exact if_pos (hrest d hd)
    rw [List.flatMap_congr hchar, List.flatMap_singleton']
  rw [safe, if_neg hne, hkept, hs]
  simp only [hdigit, Bool.false_eq_true, if_false]
  rw [← hs, String.ofList_toList]

/-- The identifier of a text, whatever the text is: it is what the four stages give, and it is an
    identifier, letters, digits and underscores of ASCII with no digit at the front. A second run
    leaves it as it is, and a text is left as it is exactly if it is an identifier. -/
theorem safe_projection (s : String) :
    safe s = staged s ∧ isName (safe s).toList = true ∧ safe (safe s) = safe s ∧
      (safe s = s ↔ isName s.toList = true) := by
  have hname := isName_safe s
  refine ⟨safe_eq_staged s, hname, safe_of_isName hname, fun h => ?_, safe_of_isName⟩
  rwa [h] at hname

/-- Characters of several bytes, spaces, marks and a digit at the front, all in one text. -/
example : safe "1 é/%" = "my_1__C3_A9__25" ∧ isName "my_1__C3_A9__25".toList = true := by
  decide

end BlockScript.Name
