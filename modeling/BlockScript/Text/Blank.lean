/-
  BlockScript.Text.Blank

  White space of Unicode and the words that it separates.
-/

namespace BlockScript.Text

/-- White space: the characters of the bidirectional classes B, S and WS and the space separators. -/
def isBlank (c : Char) : Bool :=
  let n := c.toNat
  (0x9 ≤ n && n ≤ 0xD) || (0x1C ≤ n && n ≤ 0x20) || n == 0x85 || n == 0xA0 || n == 0x1680
    || (0x2000 ≤ n && n ≤ 0x200A) || n == 0x2028 || n == 0x2029 || n == 0x202F || n == 0x205F
    || n == 0x3000

/-- White space of ASCII that separates the words of a comment. -/
def isAsciiBlank (c : Char) : Bool :=
  c = ' ' || (0x9 ≤ c.toNat && c.toNat ≤ 0xD)

/-- ASCII white space is white space. -/
theorem isBlank_of_isAsciiBlank {c : Char} (h : isAsciiBlank c = true) : isBlank c = true := by
  simp only [isAsciiBlank, Bool.or_eq_true, decide_eq_true_eq, Bool.and_eq_true] at h
  rcases h with rfl | ⟨h₁, h₂⟩
  · rfl
  · simp [isBlank, h₁, h₂]

/-- The text without the characters of a class at its end. -/
def trimRightOf (isMargin : Char → Bool) (s : List Char) : List Char :=
  (s.reverse.dropWhile isMargin).reverse

/-- The text without the characters of a class at its two ends. -/
def trimOf (isMargin : Char → Bool) (s : List Char) : List Char :=
  trimRightOf isMargin (s.dropWhile isMargin)

/-- The text without the white space at its end. -/
def trimRight (s : List Char) : List Char :=
  trimRightOf isBlank s

/-- The text without the white space at its two ends. -/
def trim (s : List Char) : List Char :=
  trimOf isBlank s

end BlockScript.Text
