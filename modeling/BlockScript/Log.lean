/-
  BlockScript.Log

  The log of a pass: what was decided, in order, and what the user is warned of.
-/
import BlockScript.Text.Lines

namespace BlockScript

/-- What a record is about. -/
inductive Event where
  | helper
  | procedure
  | rename
  | defaultValue
  | skippedBlock
  deriving DecidableEq, Repr

/-- One decision of a pass. -/
structure Record where
  event : Event
  /-- The id of the block at which it was made, if there is one. -/
  blockId? : Option String
  /-- The name that it is about. -/
  subject : String
  /-- What became of it. -/
  detail : String
  deriving DecidableEq, Repr

/-- The records and warnings of a pass, the oldest first. -/
structure Log where
  records : List Record
  warnings : List String
  deriving DecidableEq, Repr

namespace Event

/-- Every sort of record with its name. -/
def named : List (String × Event) := [
  ("helper_function", helper), ("procedure", procedure), ("rename", rename),
  ("default_value", defaultValue), ("skipped_block", skippedBlock)]

/-- The name of a sort of record. -/
def name (event : Event) : String :=
  ((named.find? fun entry => entry.2 = event).map (·.1)).getD ""

end Event

namespace Log

/-- The log of a pass that has not begun. -/
def empty : Log :=
  ⟨[], []⟩

/-- Adds a record. -/
def record (log : Log) (entry : Record) : Log :=
  { log with records := log.records ++ [entry] }

/-- Adds records in their order. -/
def recordAll (log : Log) (entries : List Record) : Log :=
  { log with records := log.records ++ entries }

/-- Adds a warning. -/
def warn (log : Log) (message : String) : Log :=
  { log with warnings := log.warnings ++ [message] }

/-- The records of one sort. -/
def recordsOf (log : Log) (event : Event) : List Record :=
  log.records.filter (·.event = event)

/-! ## Summary -/

/-- The sorts of records in the order of their first occurrence. -/
def events (log : Log) : List Event :=
  log.records.foldl (fun seen r => if seen.contains r.event then seen else seen ++ [r.event]) []

/-- How often each sort of record occurs, in the order of first occurrence. -/
def counts (log : Log) : List (Event × Nat) :=
  log.events.map fun event => (event, (log.recordsOf event).length)

/-- The summary for the user: counts, renamed identifiers and warnings. -/
def summary (log : Log) : String :=
  let counted := log.counts.map fun (event, n) => "  " ++ event.name ++ ": " ++ toString n
  let renamed := (log.recordsOf .rename).map fun r => "  " ++ r.subject ++ " -> " ++ r.detail
  Text.join "\n" (
    ["=== Generation Summary ===", "Total events: " ++ toString log.records.length]
    ++ (if counted.isEmpty then [] else ["", "Events by kind:"] ++ counted)
    ++ (if renamed.isEmpty then [] else ["", "Renamed identifiers:"] ++ renamed)
    ++ ["", "Warnings: " ++ toString log.warnings.length]
    ++ log.warnings.map ("  " ++ ·))

end Log

end BlockScript
