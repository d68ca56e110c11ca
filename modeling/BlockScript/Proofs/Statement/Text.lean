/-
  BlockScript.Proofs.Statement.Text

  Well-formed text of statements and of definitions: closed literals, brackets that match, and a line
  feed or a brace at the end. Comment lines are well formed whatever stands in the comments, and so are
  the pieces that the rules for statements write, around parts that are balanced.
-/
import BlockScript.Proofs.Comment.Lines
import BlockScript.Proofs.Script.Bracket

namespace BlockScript.Script

/-! ## Texts -/

/-- Text of statements: lines up to a line feed, or nothing, with closed literals and brackets that
    match. -/
structure IsStatements (s : String) : Prop where
  balanced : Balanced s
  ended : s = "" ∨ ∃ front, s = front ++ "\n"

/-- Text of a definition: it ends with a brace, and has closed literals and brackets that match. -/
structure IsDefinition (s : String) : Prop where
  balanced : Balanced s
  ended : ∃ front, s = front ++ "\x7d"

theorem isStatements_empty : IsStatements "" :=
  ⟨balanced_empty, Or.inl rfl⟩

namespace IsStatements

variable {s t : String}

theorem append (hs : IsStatements s) (ht : IsStatements t) : IsStatements (s ++ t) where
  balanced := hs.balanced.append ht.balanced
  ended := by
    rcases ht.ended with rfl | ⟨front, rfl⟩
    · rw [String.append_empty]
      exact hs.ended
    · exact Or.inr ⟨s ++ front, String.append_assoc.symm⟩

/-- A definition with lines of statements ahead of it. -/
theorem ahead (hs : IsStatements s) (ht : IsDefinition t) : IsDefinition (s ++ t) where
  balanced := hs.balanced.append ht.balanced
  ended := by
    obtain ⟨front, rfl⟩ := ht.ended
    exact ⟨s ++ front, String.append_assoc.symm⟩

end IsStatements

/-- A balanced text with a last piece that ends the line. -/
theorem Balanced.statements {front tail : String} (h : Balanced (front ++ tail))
    (htail : ∃ t, tail = t ++ "\n") : IsStatements (front ++ tail) := by
  obtain ⟨t, rfl⟩ := htail
  exact ⟨h, Or.inr ⟨front ++ t, String.append_assoc.symm⟩⟩

/-- Spaces and tabs are balanced. -/
theorem balanced_blank {lead : String} (hlead : ∀ c ∈ lead.toList, c = ' ' ∨ c = '\t') :
    Balanced lead := by
  have hinert : Inert lead.toList := by
    intro c hc
    rcases hlead c hc with rfl | rfl <;> rfl
  obtain ⟨hmode, hparts, -⟩ := modeAfter_inert hinert
  refine ⟨hmode, ?_⟩
  rw [parts, hparts]
  apply nestParts?_of_chars
  intro p hp
  obtain ⟨c, hc, rfl⟩ := List.mem_map.mp hp
  refine ⟨c, rfl, ?_⟩
  rcases hlead c hc with rfl | rfl <;> rfl

/-! ### Comment lines -/

/-- Up to the next line feed the reader stays in a comment. -/
theorem read_comment {text : List Char} (h : '\n' ∉ text) :
    modeAfter .comment text = .comment ∧ partsFrom .comment text = [] := by
  induction text with
  | nil => exact ⟨rfl, rfl⟩
  | cons c rest ih =>
    rw [List.mem_cons, not_or] at h
    rw [modeAfter, partsFrom, Mode.step, if_neg (Ne.symm h.1)]
    exact ih h.2

/-- A comment line reads as white space, a comment and a line feed, whatever stands in the comment. -/
theorem balanced_commentLine {line : List Char} (h : Text.IsCommentLine line) :
    Balanced (String.ofList (line ++ ['\n'])) := by
  obtain ⟨indentation, text, rfl, hblank, htext⟩ := h
  obtain ⟨hmode, hparts⟩ := read_comment htext
  have hindent : Balanced (String.ofList indentation) := balanced_blank (by
    rwa [String.toList_ofList])
  have hcomment : Balanced (String.ofList ('/' :: '/' :: text ++ ['\n'])) := by
    constructor
    · rw [Closed, String.toList_ofList, modeAfter_append]
      change modeAfter (modeAfter .comment text) ['\n'] = .code
      rw [hmode]
      rfl
    · have hread : parts (String.ofList ('/' :: '/' :: text ++ ['\n'])) =
          partsFrom .comment (text ++ ['\n']) := by
        rw [parts, String.toList_ofList]
        rfl
      rw [hread, partsFrom_append, hparts, hmode]
      rfl
  have hline := hindent.append hcomment
  rwa [← String.ofList_append, ← List.append_assoc] at hline

/-- Comment lines are well formed. -/
theorem isStatements_comments {s : String} (h : Text.IsCommentText s.toList) : IsStatements s := by
  obtain ⟨comments, hcomments, hs⟩ := h
  obtain rfl : s = String.ofList (comments.flatMap (· ++ ['\n'])) := by
    rw [← hs, String.ofList_toList]
  clear hs
  induction comments with
  | nil => exact isStatements_empty
  | cons line rest ih =>
    have hline : IsStatements (String.ofList (line ++ ['\n'])) := by
      refine ⟨balanced_commentLine (hcomments line List.mem_cons_self), Or.inr ?_⟩
      exact ⟨String.ofList line, String.ofList_append⟩
    rw [List.flatMap_cons, String.ofList_append]
    exact hline.append (ih fun l hl => hcomments l (List.mem_cons_of_mem line hl))

/-! ### Pieces of statements -/

variable {a b c : String}

/-- A condition in round brackets with a block behind it. -/
theorem balanced_guarded (ha : Balanced a) (hb : Balanced b) :
    Balanced ("if (" ++ a ++ ") \x7b\n" ++ b ++ "\x7d") := by
  have hopen : Leads [] "if (" [.round] := by decide
  have hmiddle : Leads [.round] ") \x7b\n" [.curly] := by decide
  have hclose : Leads [.curly] "\x7d" [] := by decide
  exact (((hopen.append (ha.leads _)).append hmiddle).append (hb.leads _)).append hclose

/-- A block behind a word. -/
theorem balanced_otherwise (ha : Balanced a) : Balanced (" else \x7b\n" ++ a ++ "\x7d") := by
  have hopen : Leads [] " else \x7b\n" [.curly] := by decide
  have hclose : Leads [.curly] "\x7d" [] := by decide
  exact (hopen.append (ha.leads _)).append hclose

/-- A procedure with its name, its parameters and its body. -/
theorem isDefinition_procedure (ha : Balanced a) (hb : Balanced b) (hc : Balanced c) :
    IsDefinition ("function " ++ a ++ "(" ++ b ++ ") \x7b\n" ++ c ++ "\x7d") := by
  have hfunction : Leads [] "function " [] := by decide
  have hopen : Leads [] "(" [.round] := by decide
  have hmiddle : Leads [.round] ") \x7b\n" [.curly] := by decide
  have hclose : Leads [.curly] "\x7d" [] := by decide
  refine ⟨?_, _, rfl⟩
  have hhead := (hfunction.append (ha.leads _)).append hopen
  exact (((hhead.append (hb.leads _)).append hmiddle).append (hc.leads _)).append hclose

end BlockScript.Script
