/-
  BlockScript.Proofs.Generate.Bounds

  What rules look up, within bounds: a field that holds none of its options, a setting that is no
  text and an index that is out of range are faults like others, of which a run tells its user. Only
  a text that no text here holds and a step without an end are beyond that.
-/
import BlockScript.Session
import Mathlib.Data.List.Basic

namespace BlockScript

/-! ## Results -/

namespace Fault

variable {α β : Type}

/-- A result within bounds: there is one, or a fault that is not beyond them. -/
def Bounds (result : Except Fault α) : Prop :=
  ∀ fault, result = .error fault → fault.isBeyond = false

namespace Bounds

theorem pure (a : α) : Bounds (pure a : Except Fault α) := by
  intro fault h
  cases h

theorem throw {fault : Fault} (h : fault.isBeyond = false) :
    Bounds (throw fault : Except Fault α) := by
  intro fault' hthrow
  obtain rfl := Except.error.inj hthrow
  exact h

theorem bind {result : Except Fault α} {f : α → Except Fault β} (h : Bounds result)
    (hf : ∀ a, Bounds (f a)) : Bounds (result >>= f) := by
  cases result with
  | error fault => exact throw (h fault rfl)
  | ok a => exact hf a

theorem map {result : Except Fault α} (h : Bounds result) (f : α → β) : Bounds (result.map f) := by
  cases result with
  | error fault => exact throw (h fault rfl)
  | ok a => exact pure (f a)

theorem mapM {f : α → Except Fault β} (hf : ∀ a, Bounds (f a)) (l : List α) :
    Bounds (l.mapM f) := by
  induction l with
  | nil => exact pure []
  | cons a rest ih =>
    rw [List.mapM_cons]
    exact (hf a).bind fun b => ih.bind fun bs => pure (b :: bs)

end Bounds

end Fault

open Fault (Bounds)

/-! ## Templates -/

namespace Text

theorem groupReference_bounds (s : List Char) : Bounds (groupReference s) := by
  unfold groupReference
  split
  · dsimp only
    split
    · exact .throw rfl
    · split
      · exact .throw rfl
      · split
        · exact .throw rfl
        · split
          · exact .pure _
          · exact .throw rfl
  · exact .throw rfl

theorem octalEscape_bounds (first : Char) (rest : List Char) : Bounds (octalEscape first rest) := by
  rw [octalEscape]
  split
  · exact .pure _
  · dsimp only
    split
    · exact .pure _
    · exact .throw rfl

theorem escapeText_bounds (c : Char) (rest : List Char) : Bounds (escapeText c rest) := by
  unfold escapeText
  split
  · exact groupReference_bounds rest
  · exact .pure _
  · exact .pure _
  · exact .pure _
  · exact .pure _
  · exact .pure _
  · exact .pure _
  · exact .pure _
  · exact .pure _
  · split
    · exact octalEscape_bounds _ rest
    · split
      · exact .throw rfl
      · exact .pure _

theorem expandFrom_bounds (taken : Nat) (s : List Char) : Bounds (expandFrom taken s) := by
  induction s generalizing taken with
  | nil => exact .pure []
  | cons c rest ih =>
    cases taken with
    | succ taken => exact ih taken
    | zero =>
      unfold expandFrom
      split
      · cases rest with
        | nil => exact .throw rfl
        | cons d tail =>
          apply (escapeText_bounds d tail).bind
          exact fun (text, count) => (ih (count + 1)).bind fun more => .pure (text ++ more)
      · exact (ih 0).bind fun more => .pure (c :: more)

/-- A prefix may be no template, which is a fault like others. -/
theorem prefixLines_bounds (s lead : String) : Bounds (prefixLines s lead) :=
  (expandFrom_bounds 0 lead.toList).bind fun _ => .pure _

end Text

/-! ## Settings -/

namespace Options

theorem indentText_bounds (o : Options) : Bounds o.indentText := by
  rw [indentText]
  split
  · exact .pure _
  · exact .throw rfl

end Options

theorem NameTable.prefixFor_bounds (t : NameTable) (category : Category) :
    Bounds (t.prefixFor category) := by
  cases category with
  | procedure => exact .pure ""
  | userVariable | developerVariable =>
    unfold prefixFor
    dsimp only
    cases t.variablePrefix? with
    | some lead => exact .pure lead
    | none => exact .throw rfl

/-- A name is handed out unless the prefix of its category is no text. -/
theorem NameTable.name_bounds (t : NameTable) (name : String) (category : Category) :
    Bounds (t.name name category).answer := by
  have hbounds := t.prefixFor_bounds category
  rw [NameTable.name]
  dsimp only
  split
  · exact hbounds.map _
  · cases hlead : t.prefixFor category with
    | ok lead => exact .pure _
    | error fault => exact .throw (hbounds fault hlead)

/-! ## Fields -/

theorem Head.parameters_bounds (head : Head) : Bounds head.parameters := by
  rw [parameters]
  split
  · exact .pure _
  · exact .pure _
  · exact .pure _
  · exact .pure _
  · exact .throw rfl

namespace Site

variable (site : Site)

theorem optionIn_bounds {α : Type} (field : String) (table : List (String × α)) :
    Bounds (site.optionIn field table) := by
  rw [optionIn]
  split
  · split
    · exact .pure _
    · exact .throw rfl
  · split
    · exact .throw rfl
    · exact .throw rfl

theorem optionAmong_bounds {α : Type} (field : String) (table : List (String × α)) :
    Bounds (site.optionAmong field table) := by
  rw [optionAmong]
  split
  · exact .pure _
  · exact .throw rfl

theorem hookText_bounds (setting : Json) : Bounds (site.hookText setting) := by
  unfold hookText
  split
  · exact .pure ""
  · split
    · exact .pure _
    · exact .throw rfl

theorem foldedIndex_bounds (numeral : String) (delta : Int) (negated : Bool) :
    Bounds (foldedIndex numeral delta negated) := by
  rw [foldedIndex]
  split
  · exact .throw rfl
  · split
    · exact .throw rfl
    · exact .pure _

theorem itemCount_bounds (value : Json) : Bounds (itemCount value) := by
  have hcount (count : Int) : Bounds (if count < 0 then throw (.negativeItemCount value)
      else pure count.toNat) := by
    split
    · exact .throw rfl
    · exact .pure _
  unfold itemCount
  dsimp only
  split
  · split
    · exact (Bounds.pure _).bind hcount
    · exact (Bounds.throw rfl).bind hcount
  · split
    · exact (Bounds.pure _).bind hcount
    · split
      · exact (Bounds.throw rfl).bind hcount
      · split
        · exact (Bounds.throw rfl).bind hcount
        · exact (Bounds.pure _).bind hcount
    · exact (Bounds.throw rfl).bind hcount

/-! ## Comments -/

theorem commentWidth_bounds (column : Json) : Bounds (commentWidth column) := by
  rw [commentWidth]
  split
  · exact .pure _
  · exact .throw rfl

theorem inputComments_bounds (slots : List (String × Option Input)) :
    Bounds (inputComments slots) := by
  have htext (comment : Json) : Bounds (commentText comment) := by
    cases comment with
    | str text => exact .pure text
    | _ => exact .throw rfl
  have hnested (b : Block) : Bounds (nestedComments b) :=
    (Bounds.mapM htext b.nestedComments).bind fun texts => .pure _
  exact (Bounds.mapM (fun input : Input => hnested input.block) _).bind fun texts => .pure _

/-- A text is wrapped within bounds at every width but NaN. -/
theorem wrapped_bounds (text : String) {width : Number} (h : width.isNaN = false) :
    Bounds (wrapped text width) := by
  rw [wrapped]
  split
  · exact .pure _
  · rw [h]
    exact .throw rfl

end Site

end BlockScript
