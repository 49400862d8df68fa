import SqlLayout.Parsing.Step
import SqlLayout.Text.Quoted

/-! Events: what a run has to say about itself, by level of detail. -/

namespace SqlLayout

/-- How urgent an event is, the most urgent first. -/
inductive Level where
  /-- Something is wrong with the input. -/
  | warn
  /-- Something that is worth knowing. -/
  | info
  /-- A detail that helps to understand the answer. -/
  | debug
  /-- A detail that helps to understand the program. -/
  | trace
  deriving DecidableEq

namespace Level

/-- Every level, the most urgent first. -/
def all : List Level :=
  -- The order is the one in which the constructors are declared.
  [warn, info, debug, trace]

/-- The label a level is reported under. -/
def label : Level → String
  | warn => "WARN"
  | info => "INFO"
  | debug => "DEBUG"
  | trace => "TRACE"

/-- The level a label stands for. -/
def ofLabel? (label : String) : Option Level :=
  -- Labels are distinct, so at most one level answers to each.
  all.find? fun level => level.label == label

/-- The place of a level in the order of detail. -/
def rank : Level → Nat
  | warn => 0
  | info => 1
  | debug => 2
  | trace => 3

/-- Whether events of a level are shown when events up to a given level of detail are. -/
def shownAt (level detail : Level) : Bool :=
  -- The more urgent levels are shown too.
  level.rank ≤ detail.rank

end Level

/-- Something that happened in a run. -/
inductive Event where
  /-- A bind marker was replaced by a made-up name. -/
  | markerEncoded (marker code : Text)
  /-- A fragment of the text is no token. -/
  | unexpectedFragment (fragment : Text)
  /-- A production was refused because it was already under way at the same token. -/
  | stepRefused (step : Step)
  /-- A statement was found only inside brackets. -/
  | bracketsDropped
  /-- The text was not read to its end. -/
  | residueKept (residue : Text)
  /-- The input was read. -/
  | inputRead (bytes : Nat)
  /-- A check failed because the text was not read to its end. -/
  | residueReported (residue : Text)
  /-- A check failed because of diagnostic comments. -/
  | diagnosticsReported (count : Nat)

/-- The value of a field of an event. -/
inductive FieldValue where
  /-- A text, which a log line quotes. -/
  | text (value : Text)
  /-- A value whose written form a log line takes as it is. -/
  | plain (value : Text)

namespace FieldValue

/-- The value itself. -/
def raw : FieldValue → Text
  | text value => value
  | plain value => value

/-- The value as a log line shows it. -/
def shown : FieldValue → Text
  | text value => value.quoted
  | plain value => value

end FieldValue

/-- A step as a log line shows it. -/
def Step.shown (step : Step) : Text :=
  -- The place is the number of a token, or none at the end of the input.
  let place := match step.token with
    | some number => "Some(".toList ++ Nat.toDigits 10 number ++ [')']
    | none => "None".toList
  "StepKey \x7b production: ".toList ++ step.production.label.toList ++
    ", token: ".toList ++ place ++ " \x7d".toList

namespace Event

/-- How urgent an event is. -/
def level : Event → Level
  | markerEncoded _ _ | stepRefused _ => .trace
  | bracketsDropped | residueKept _ | inputRead _ => .debug
  | unexpectedFragment _ | residueReported _ | diagnosticsReported _ => .warn

/-- The words that say what happened. -/
def message : Event → String
  | markerEncoded _ _ => "encoded bind marker"
  | unexpectedFragment _ => "unexpected token in SQL text"
  | stepRefused _ => "refused re-entrant production"
  | bracketsDropped => "parsed statement wrapped in redundant brackets"
  | residueKept _ => "unparsed SQL residue"
  | inputRead _ => "read SQL input"
  | residueReported _ => "unparsed residue"
  | diagnosticsReported _ => "diagnostic comments in parse tree"

/-- The fields that say more about what happened. -/
def fields : Event → List (String × FieldValue)
  | markerEncoded marker code => [("marker", .text marker), ("code", .text code)]
  | unexpectedFragment fragment => [("fragment", .text fragment)]
  | stepRefused step => [("key", .plain step.shown)]
  | bracketsDropped => []
  | residueKept residue => [("residue", .text residue)]
  | inputRead bytes => [("bytes", .plain (Nat.toDigits 10 bytes))]
  | residueReported residue => [("residue", .text residue)]
  | diagnosticsReported count => [("count", .plain (Nat.toDigits 10 count))]

/-- An event as one line of a log. -/
def line (event : Event) : Text :=
  -- The level takes five columns and stands at their right.
  let level := event.level.label.toList
  List.replicate (5 - level.length) ' ' ++ level ++ [' '] ++ event.message.toList ++
    event.fields.flatMap fun (name, value) => [' '] ++ name.toList ++ ['='] ++ value.shown

end Event

/-- The events that are shown up to a given level of detail. -/
def shownEvents (detail : Level) (events : List Event) : List Event :=
  -- The order of the events is kept.
  events.filter fun event => event.level.shownAt detail

end SqlLayout
