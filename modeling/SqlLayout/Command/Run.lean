import SqlLayout.Command.Arguments
import SqlLayout.Layout.Tree
import SqlLayout.Report.Check
import SqlLayout.Report.Json
import SqlLayout.Report.Outline

/-! Running the command line: what is printed, what is logged and how the program ends. -/

namespace SqlLayout

/-- Why the input could not be read. -/
inductive InputError where
  /-- There is no such file. -/
  | notFound
  /-- The bytes are not UTF-8. -/
  | notText
  /-- The system refused, in its own words. -/
  | system (words : Text)
  deriving DecidableEq

/-- The words that say why the input could not be read. -/
def InputError.message : InputError → Text
  | notFound => "No such file or directory (os error 2)".toList
  | notText => "stream did not contain valid UTF-8".toList
  | system words => words

/-- Why a command failed. -/
inductive Failure where
  /-- The input could not be read. -/
  | input (error : InputError)
  /-- The options cannot be used. -/
  | options (error : WidthError)
  /-- A check found a flaw. -/
  | unparsed (flaw : Flaw)
  deriving DecidableEq

namespace Failure

/-- The words of the cause behind a failure, if it has one. -/
def cause? : Failure → Option Text
  | input error => some error.message
  | options error => some error.message
  | unparsed _ => none

/-- The words that say why a command failed. -/
def message : Failure → Text
  | input error => "IO error: ".toList ++ error.message
  | options error => "Invalid options: ".toList ++ error.message
  | unparsed flaw => "SQL was not fully parsed: ".toList ++ flaw.shown

/-- What is printed about a failure. -/
def shown (failure : Failure) : Text :=
  -- A cause is set off by an empty line.
  "Error: ".toList ++ failure.message ++ ['\n'] ++
    match failure.cause? with
    | some cause => "\nCaused by:\n    ".toList ++ cause ++ ['\n']
    | none => []

end Failure

/-- How a run of the program ends. -/
structure Outcome where
  /-- The exit code. -/
  exitCode : Nat
  /-- What goes to standard output. -/
  output : Text
  /-- What goes to standard error. -/
  log : Text

/-- The flaw of a statement as the failure of a check, or the word that there is none. -/
def checked (root : Token) : Except Failure Text :=
  -- A statement without a flaw is answered in one word.
  match root.flaw? with
  | some flaw => .error (.unparsed flaw)
  | none => .ok "ok".toList

/-- What a command prints about a parsed statement. -/
def Command.answer (command : Command) (width : IndentWidth) (root : Token) : Except Failure Text :=
  match command with
  | .format => .ok (SqlLayout.format width root)
  | .tree true => .ok root.json
  | .tree false => .ok root.outline
  | .check => checked root

/-- The events of a command on a parsed statement, beyond those of parsing it. -/
def Command.events (command : Command) (root : Token) : List Event :=
  -- Only a check looks for flaws.
  match command with
  | .check => root.flaw?.toList.map Flaw.event
  | _ => []

/-- The end of a run, from the events of the run and its answer. -/
def Outcome.ofAnswer (detail : Level) (events : List Event) (answer : Except Failure Text) :
    Outcome :=
  -- The log comes first, and a failure behind it.
  let log := (shownEvents detail events).flatMap fun event => event.line ++ ['\n']
  match answer with
  | .ok output => { exitCode := 0, output := output ++ ['\n'], log }
  | .error failure => { exitCode := 1, output := [], log := log ++ failure.shown }

/-- The end of a run whose arguments make no sense. -/
def Outcome.usage : Outcome :=
  -- One line says what they should have been.
  { exitCode := 2, output := []
    log := "usage: [-i FILE] [-t COLUMNS] [-v] (format | tree [--json] | check)\n".toList }

namespace Invocation

/-- How detailed the log is. -/
def detail (invocation : Invocation) : Level :=
  -- Details are logged only when asked for.
  if invocation.settings.verbose then .debug else .info

/-- The indent width in force. -/
def width (invocation : Invocation) : Except WidthError IndentWidth :=
  -- Without one that was asked for, the default is taken.
  match invocation.settings.tabSize with
  | some columns => IndentWidth.ofColumns columns
  | none => .ok .default

/-- The end of a run on an input that has been read. -/
def runOn (invocation : Invocation) (width : IndentWidth) (sql : Text) : Outcome :=
  let parsed := BindSyntax.generic.parse sql
  -- Reading comes before parsing, and the command behind both.
  .ofAnswer invocation.detail
    (.inputRead sql.byteLength :: parsed.events ++ invocation.command.events parsed.root)
    (invocation.command.answer width parsed.root)

/--
A run, given the means to read a file or, without a path, standard input.

The indent width is looked at before anything is read.
-/
def run {m : Type → Type} [Monad m] (invocation : Invocation)
    (read : (path : Option Text) → m (Except InputError Text)) : m Outcome := do
  match invocation.width with
  | .error error => return .ofAnswer invocation.detail [] (.error (.options error))
  | .ok width =>
    match ← read invocation.settings.input with
    | .error error => return .ofAnswer invocation.detail [] (.error (.input error))
    | .ok sql => return invocation.runOn width sql

end Invocation

end SqlLayout
