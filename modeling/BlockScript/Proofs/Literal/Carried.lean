/-
  BlockScript.Proofs.Literal.Carried

  Texts that end in code and have certain texts among their literals. They can be put together, and
  what goes around them, ahead of their lines or in the place of a numeral costs no literal.
-/
import BlockScript.Proofs.Script.Numeral
import BlockScript.Proofs.Script.Recognition
import BlockScript.Proofs.Script.Tidy
import Mathlib.Data.List.Forall2

namespace BlockScript.Script

/-- A text that ends in code and has all texts of a sort among its literals. -/
structure Carries (L : String → Prop) (s : String) : Prop where
  closed : Closed s
  mem : ∀ text, L text → text ∈ literals s

/-! ## One text behind another -/

theorem Closed.carries {s : String} (h : Closed s) : Carries (fun _ => False) s :=
  ⟨h, fun _ hnone => absurd hnone not_false⟩

namespace Carries

variable {L L' : String → Prop} {s t : String}

theorem mono (h : Carries L s) (hL : ∀ text, L' text → L text) : Carries L' s :=
  ⟨h.closed, fun text htext => h.mem text (hL text htext)⟩

theorem append (hs : Carries L s) (ht : Carries L' t) :
    Carries (fun text => L text ∨ L' text) (s ++ t) where
  closed := hs.closed.append ht.closed
  mem := by
    intro text htext
    rw [literals_append hs.closed, List.mem_append]
    exact htext.imp (hs.mem text) (ht.mem text)

/-- A text with code behind it. -/
theorem ahead (h : Carries L s) (ht : Closed t) : Carries L (s ++ t) :=
  (h.append ht.carries).mono fun _ htext => Or.inl htext

/-- A text with code ahead of it. -/
theorem behind (hs : Closed s) (h : Carries L t) : Carries L (s ++ t) :=
  (hs.carries.append h).mono fun _ htext => Or.inr htext

/-- A text without literals has none of a sort that it has all of. -/
theorem not_of_literals_eq_nil (h : Carries L s) (hs : literals s = []) (text : String) :
    ¬ L text := by
  intro htext
  have hmem := h.mem text htext
  rw [hs] at hmem
  exact absurd hmem List.not_mem_nil

/-- The empty text has no literals, so anything closed may stand for it. -/
theorem replaceEmpty (h : Carries L "") (ht : Closed t) : Carries L t :=
  ht.carries.mono fun text htext => h.not_of_literals_eq_nil rfl text htext

end Carries

theorem carries_quote (s : String) : Carries (· = s) (Literal.quote s) where
  closed := closed_quote s
  mem := by
    rintro _ rfl
    rw [literals_quote]
    exact List.mem_cons_self

/-- Texts with closed separators between them have the literals of each. -/
theorem carries_join {separator : String} (hsep : Closed separator) {texts : List String}
    (h : ∀ s ∈ texts, Closed s) :
    Carries (fun text => ∃ s ∈ texts, text ∈ literals s) (Text.join separator texts) := by
  induction texts with
  | nil => exact ⟨rfl, fun text ⟨s, hs, _⟩ => absurd hs List.not_mem_nil⟩
  | cons s rest ih =>
    have hs : Carries (· ∈ literals s) s := ⟨h s List.mem_cons_self, fun _ htext => htext⟩
    have hrest := ih fun t ht => h t (List.mem_cons_of_mem s ht)
    cases rest with
    | nil =>
      refine hs.mono ?_
      rintro text ⟨t, ht, htext⟩
      rwa [List.mem_singleton.mp ht] at htext
    | cons t more =>
      refine ((hs.ahead hsep).append hrest).mono ?_
      rintro text ⟨u, hu, htext⟩
      rcases List.mem_cons.mp hu with rfl | hu
      · exact Or.inl htext
      · exact Or.inr ⟨u, hu, htext⟩

theorem closed_join {separator : String} (hsep : Closed separator) {texts : List String}
    (h : ∀ s ∈ texts, Closed s) : Closed (Text.join separator texts) :=
  (carries_join hsep h).closed

/-- Texts that carry something for each index are closed and have all of it together. -/
theorem carries_forall₂ {α : Type} {L : α → String → Prop} {indices : List α} {texts : List String}
    (h : List.Forall₂ (fun i => Carries (L i)) indices texts) :
    (∀ t ∈ texts, Closed t) ∧ ∀ i ∈ indices, ∀ s, L i s → ∃ t ∈ texts, s ∈ literals t := by
  induction h with
  | nil => exact ⟨fun t ht => absurd ht List.not_mem_nil, fun i hi => absurd hi List.not_mem_nil⟩
  | cons hfirst _ ih =>
    refine ⟨List.forall_mem_cons.mpr ⟨hfirst.closed, ih.1⟩, ?_⟩
    intro i hi s hs
    rcases List.mem_cons.mp hi with rfl | hi
    · exact ⟨_, List.mem_cons_self, hfirst.mem s hs⟩
    · obtain ⟨t, ht, hmem⟩ := ih.2 i hi s hs
      exact ⟨t, List.mem_cons_of_mem _ ht, hmem⟩

/-! ## Around values -/

theorem Carries.parens {L : String → Prop} {s : String} (h : Carries L s) :
    Carries L ("(" ++ s ++ ")") :=
  (Carries.behind (by decide) h).ahead (by decide)

theorem Carries.wrap {L : String → Prop} {s : String} (h : Carries L s) (outer inner : Order) :
    Carries L (Order.wrap s outer inner) := by
  rw [Order.wrap]
  split
  · exact h.parens
  · exact h

theorem Carries.forceString {L : String → Prop} {s : String} (h : Carries L s) :
    Carries L (Literal.forceString s).1 := by
  rw [Literal.forceString]
  split
  · exact h
  · exact (Carries.behind (by decide) h).ahead (by decide)

theorem closed_toString_int (n : Int) : Closed (toString n) :=
  (operand_toString_int n).whole.closed

/-! ## Plain numerals -/

/-- A plain numeral has no literals. -/
theorem literals_of_isPlain {s : String} (h : Numeral.isPlain s = true) : literals s = [] := by
  rw [literals_eq_texts, parts, texts_of_plain (plain_of_isPlain h)]
  rfl

/-! ## Indents and comments -/

theorem expandFrom_of_no_backslash {s : List Char} (h : '\\' ∉ s) :
    Text.expandFrom 0 s = .ok s := by
  induction s with
  | nil => rfl
  | cons c rest ih =>
    have hc : c ≠ '\\' := fun hc => h (hc ▸ List.mem_cons_self)
    rw [Text.expandFrom.eq_def]
    simp only [if_neg hc, ih fun hmem => h (List.mem_cons_of_mem c hmem)]
    rfl

/-- An inert indent goes ahead of every line as it is. -/
theorem prefixLines_of_inert {lead : String} (h : Inert lead.toList) (s : String) :
    Text.prefixLines s lead =
      .ok (lead ++ String.ofList (Text.insertAfterBreaks lead.toList s.toList)) := by
  have hbackslash : '\\' ∉ lead.toList := fun hmem => absurd (h _ hmem) (by decide)
  rw [Text.prefixLines, Text.expand, expandFrom_of_no_backslash hbackslash]
  rfl

/-- Behind an indent a text has its literals with the indent behind their line feeds. -/
theorem Carries.indented {L : String → Prop} {lead s text : String} (h : Carries L s)
    (hlead : Inert lead.toList) (htext : Text.prefixLines s lead = .ok text) :
    Carries (fun indented => ∃ literal, L literal ∧ indented = indentLines lead literal) text := by
  rw [prefixLines_of_inert hlead] at htext
  obtain rfl := Except.ok.inj htext
  refine ⟨closed_prefixed hlead h.closed, ?_⟩
  rintro _ ⟨literal, hliteral, rfl⟩
  rw [literals_prefixed hlead h.closed]
  exact List.mem_map_of_mem (h.mem literal hliteral)

theorem modeAfter_comment (s : List Char) :
    modeAfter .comment (indentChars "// ".toList s) = .comment := by
  induction s with
  | nil => rfl
  | cons c rest ih =>
    rw [indentChars, List.flatMap_cons, ← indentChars, modeAfter_append]
    by_cases hc : c = '\n'
    · rw [hc]
      exact ih
    · rw [breakChar, if_neg hc, modeAfter, Mode.step, if_neg hc]
      exact ih

/-- Comment lines that end with a line feed are closed. -/
theorem closed_commentLines (s : String) : Closed (Text.prefixed "// " (s ++ "\n")) := by
  have hfeed : (s ++ "\n").toList = s.toList ++ ['\n'] := String.toList_append
  rw [Closed, Text.prefixed, toList_prefixed, hfeed, insertAfterBreaks_concat, modeAfter_append,
    modeAfter_append]
  change modeAfter (modeAfter .comment _) _ = _
  rw [modeAfter_comment]
  rfl

end BlockScript.Script
