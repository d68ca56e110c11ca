/-
  BlockScript.Text.Template

  Line prefixes as templates. The first line of a text gets a prefix as it is written; the others
  get what it stands for when a backslash begins an escape. A prefix without a backslash stands for
  itself, so all lines get the same.
-/
import BlockScript.Fault
import BlockScript.Number.Numeral
import BlockScript.Text.Identifier
import BlockScript.Text.Lines

namespace BlockScript.Text

/-! ## Escapes -/

/-- Whether a character is an octal digit. -/
def isOctal (c : Char) : Bool :=
  '0' ≤ c && c ≤ '7'

/-- The value of octal digits. -/
def octalValue (digits : List Char) : Nat :=
  digits.foldl (fun n c => 8 * n + (c.toNat - 48)) 0

/-- The reference to a group whose name follows a bracket: the whole match is the line feed, and
    there is no other group. The count tells how many characters the reference takes. The end of the
    template behind the reference is looked at before the name, so a lone backslash there is the
    fault. -/
def groupReference : List Char → Except Fault (List Char × Nat)
  | '<' :: rest =>
    let name := rest.takeWhile (· ≠ '>')
    if name.isEmpty || name.length = rest.length then throw .badTemplate
    else if rest.drop (name.length + 1) = ['\\'] then throw .badTemplate
    else if isIdentifier name then throw .unknownTemplateGroup
    else match Numeral.readInteger? (String.ofList name) with
      | some 0 => pure (['\n'], name.length + 2)
      | _ => throw .badTemplate
  | _ => throw .badTemplate

/-- The character with a code of one to three octal digits, after the first of them. -/
def octalEscape (first : Char) (rest : List Char) : Except Fault (List Char × Nat) :=
  if first = '0' then
    let digits := (rest.take 2).takeWhile isOctal
    pure ([Char.ofNat (octalValue digits % 256)], digits.length)
  else
    let digits := first :: rest.take 2
    if digits.length = 3 && digits.all isOctal && octalValue digits < 256 then
      pure ([Char.ofNat (octalValue digits)], 2)
    else throw .badTemplate

/-- What the escape of a character stands for, and how many of the following characters it takes. -/
def escapeText (c : Char) (rest : List Char) : Except Fault (List Char × Nat) :=
  match c with
  | 'g' => groupReference rest
  | 'a' => pure (['\x07'], 0)
  | 'b' => pure (['\x08'], 0)
  | 'f' => pure (['\x0c'], 0)
  | 'n' => pure (['\n'], 0)
  | 'r' => pure (['\r'], 0)
  | 't' => pure (['\t'], 0)
  | 'v' => pure (['\x0b'], 0)
  | '\\' => pure (['\\'], 0)
  | c =>
    if c.isDigit then octalEscape c rest
    else if c.isAlpha then throw .badTemplate
    else pure (['\\', c], 0)

/-! ## Templates -/

/-- What a template stands for, apart from characters at its front that are taken already. -/
def expandFrom : Nat → List Char → Except Fault (List Char)
  | _, [] => pure []
  | taken + 1, _ :: rest => expandFrom taken rest
  | 0, c :: rest =>
    if c = '\\' then
      match rest with
      | [] => throw .badTemplate
      | d :: tail => do
        let (text, count) ← escapeText d tail
        return text ++ (← expandFrom (count + 1) rest)
    else do return c :: (← expandFrom 0 rest)

/-- What a template stands for. -/
def expand (s : List Char) : Except Fault (List Char) :=
  expandFrom 0 s

/-- Every line of a text behind a prefix; a line feed at the end starts no further line. -/
def prefixLines (s lead : String) : Except Fault String := do
  let insertion ← expand lead.toList
  return lead ++ String.ofList (insertAfterBreaks insertion s.toList)

end BlockScript.Text
