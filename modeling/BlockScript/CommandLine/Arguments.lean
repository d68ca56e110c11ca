/-
  BlockScript.CommandLine.Arguments

  The words of a command line. A word is an argument, holds options, or is the mark behind which
  everything is an argument. All words are told apart first and then read in their order, so a word
  that could be several options is refused before any option takes effect.
-/
import BlockScript.File.Path
import BlockScript.Text.Digit

namespace BlockScript.CommandLine

/-! ## Options -/

/-- The options without a value. -/
inductive Switch where
  | help
  | zeroBased
  | verbose
  deriving DecidableEq, Repr

/-- The options. -/
inductive OptionName where
  | switch (switch : Switch)
  | output
  deriving DecidableEq, Repr

namespace OptionName

/-- The long names of the options, without the two dashes. -/
def long : List (String × OptionName) := [
  ("help", switch .help), ("output", output), ("zero-based", switch .zeroBased),
  ("verbose", switch .verbose)]

/-- The option of a letter. -/
def ofLetter? : Char → Option OptionName
  | 'h' => some (switch .help)
  | 'o' => some output
  | 'v' => some (switch .verbose)
  | _ => none

end OptionName

/-! ## Words -/

/-- What follows the switches of a word. -/
inductive Ending where
  | nothing
  /-- A value for the output option. -/
  | output (value : String)
  /-- The output option, whose value is the next word. -/
  | outputNext
  /-- A text that no option takes. -/
  | refused
  deriving DecidableEq, Repr

/-- A word of a command line. -/
inductive Word where
  | argument (text : String)
  | mark
  | options (switches : List Switch) (ending : Ending)
  /-- A word in the place of an option that names none. -/
  | stray
  | ambiguous
  deriving DecidableEq, Repr

/-- Whether a text is a negative decimal numeral, a line feed at its end allowed. -/
def isNegativeNumeral (s : List Char) : Bool :=
  match s with
  | '-' :: body =>
    let body := if body.getLast? = some '\n' then body.dropLast else body
    match body.dropWhile Text.isDigit with
    | [] => !body.isEmpty
    | '.' :: fraction => !fraction.isEmpty && fraction.all Text.isDigit
    | _ => false
  | _ => false

/-- A word that begins with a dash and names no option. A number and a text with a space are
    arguments. -/
def wordOfNoOption (s : List Char) : Word :=
  if isNegativeNumeral s || s.contains ' ' then .argument (String.ofList s) else .stray

/-- The options of letters joined in one word: the option of the first one and the text behind it.
    Behind a switch the text has to go on with the letter of an option. Behind the output option it
    is the value, whatever it begins with. -/
def letters : OptionName → List Char → List Switch × Ending
  | .output, [] => ([], .outputNext)
  | .output, c :: rest => ([], .output (String.ofList (c :: rest)))
  | .switch s, [] => ([s], .nothing)
  | .switch s, c :: rest =>
    match OptionName.ofLetter? c with
    | none => ([], .refused)
    | some next =>
      let (switches, ending) := letters next rest
      (s :: switches, ending)

/-- The option of a word's first letter with an equals sign and a text. For the output option the
    text is the value, even an empty one; for a switch it goes on with letters, and there has to be
    one. -/
def lettersWithValue : OptionName → List Char → List Switch × Ending
  | .output, value => ([], .output (String.ofList value))
  | .switch _, [] => ([], .refused)
  | .switch s, c :: rest => letters (.switch s) (c :: rest)

/-- A word that begins with one dash: options by their letters. -/
def letterWord (s : List Char) : Word :=
  match s with
  | _ :: c :: rest => match OptionName.ofLetter? c with
    | some name =>
      let (switches, ending) := match rest with
        | '=' :: value => lettersWithValue name value
        | _ => letters name rest
      .options switches ending
    | none => wordOfNoOption s
  | _ => .argument (String.ofList s)

/-- A long option with what follows its name: nothing, or an equals sign and a value. -/
def longOption (name : OptionName) (tail : List Char) : Word :=
  match name, tail with
  | .switch s, [] => .options [s] .nothing
  | .switch _, _ => .options [] .refused
  | .output, [] => .options [] .outputNext
  | .output, _ :: value => .options [] (.output (String.ofList value))

/-- A word that begins with two dashes: an option by its name, or by any beginning of its name that
    no other option shares. -/
def longWord (s : List Char) : Word :=
  let body := s.drop 2
  let name := body.takeWhile (· ≠ '=')
  match OptionName.long.filter fun entry => name.isPrefixOf entry.1.toList with
  | [] => wordOfNoOption s
  | [(_, option)] => longOption option (body.dropWhile (· ≠ '='))
  | _ => .ambiguous

/-- A word ahead of the mark. -/
def Word.ofText (s : String) : Word :=
  match s.toList with
  | ['-', '-'] => .mark
  | '-' :: '-' :: rest => longWord ('-' :: '-' :: rest)
  | '-' :: rest => letterWord ('-' :: rest)
  | _ => .argument s

/-- The words of a command line. -/
def words : List String → List Word
  | [] => []
  | s :: rest => match Word.ofText s with
    | .mark => .mark :: rest.map .argument
    | word => word :: words rest

/-! ## Requests -/

/-- Where a run puts the program text. -/
inductive Destination where
  /-- The standard output. -/
  | standard
  | file (path : Path)
  /-- Nowhere: the output option has a value, and the value is no path. -/
  | nowhere
  deriving DecidableEq, Repr

/-- The destination of a value for the output option. A value that is the mark is dropped like the
    mark itself, and no path is left. -/
def Destination.ofText (value : String) : Destination :=
  if value = "--" then nowhere else file (.parse value)

/-- What a run reads, how it generates and where it writes. -/
structure Job where
  input : Path
  destination : Destination
  zeroBased : Bool
  verbose : Bool
  deriving DecidableEq, Repr

/-- What a command line asks for. -/
inductive Request where
  | generate (job : Job)
  | help
  /-- The command line is not one of this program. -/
  | misuse
  deriving DecidableEq, Repr

/-- What the words so far ask for. -/
structure Reading where
  input? : Option Path
  destination : Destination
  zeroBased : Bool
  verbose : Bool
  /-- Whether there was a word that nothing takes. -/
  hasStray : Bool

namespace Reading

/-- What no words ask for. -/
def empty : Reading :=
  { input? := none, destination := .standard, zeroBased := false, verbose := false,
    hasStray := false }

/-- Takes switches. -/
def turnOn (r : Reading) (switches : List Switch) : Reading :=
  { r with
    zeroBased := r.zeroBased || switches.contains .zeroBased
    verbose := r.verbose || switches.contains .verbose }

/-- Takes the input path. -/
def withInput (r : Reading) (text : String) : Reading :=
  { r with input? := some (.parse text) }

/-- Takes a value for the output option; the last one counts. -/
def withOutput (r : Reading) (value : String) : Reading :=
  { r with destination := .ofText value }

/-- Notes a word that nothing takes. -/
def withStray (r : Reading) : Reading :=
  { r with hasStray := true }

/-- The request at the end of the words: there has to be an input and nothing stray. -/
def request (r : Reading) : Request :=
  match r.input? with
  | some input =>
    if r.hasStray then .misuse
    else .generate
      { input, destination := r.destination, zeroBased := r.zeroBased, verbose := r.verbose }
  | none => .misuse

/-- The request of the words that are left. The first argument is the input, with the mark ahead of
    it or behind it. Help is given as soon as it is asked for by a word that is not refused. -/
def readWords (r : Reading) : List Word → Request
  | [] => r.request
  | .argument text :: .mark :: rest =>
    if r.input?.isNone then (r.withInput text).readWords rest else r.withStray.readWords rest
  | .argument text :: rest =>
    if r.input?.isNone then (r.withInput text).readWords rest else r.withStray.readWords rest
  | .mark :: .argument text :: rest =>
    if r.input?.isNone then (r.withInput text).readWords rest else r.withStray.readWords rest
  | .mark :: rest => r.withStray.readWords rest
  | .options switches .outputNext :: .argument text :: rest =>
    if switches.contains .help then .help
    else ((r.turnOn switches).withOutput text).readWords rest
  | .options _ .outputNext :: _ => .misuse
  | .options _ .refused :: _ => .misuse
  | .options switches ending :: rest =>
    if switches.contains .help then .help
    else
      let r := r.turnOn switches
      match ending with
      | .output value => (r.withOutput value).readWords rest
      | _ => r.readWords rest
  | .stray :: rest => r.withStray.readWords rest
  | .ambiguous :: _ => .misuse

end Reading

/-- What a command line asks for. -/
def Request.ofArguments (arguments : List String) : Request :=
  let words := words arguments
  if words.contains .ambiguous then .misuse else Reading.empty.readWords words

end BlockScript.CommandLine
