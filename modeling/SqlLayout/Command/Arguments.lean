import SqlLayout.Text.Basic

/-! The arguments of the command line. -/

namespace SqlLayout

/-- What the program is asked to do. -/
inductive Command where
  /-- Print the statement laid out. -/
  | format
  /-- Print the token tree, as JSON or as an outline. -/
  | tree (json : Bool)
  /-- Tell whether the statement is without flaws. -/
  | check
  deriving DecidableEq

/-- An option that takes a value. -/
inductive ValueOption where
  /-- The file to read. -/
  | input
  /-- The indent width. -/
  | tabSize
  deriving DecidableEq

/-- The options given in front of the command. -/
structure Settings where
  /-- The file to read, standard input if there is none. -/
  input : Option Text := none
  /-- The indent width that was asked for. -/
  tabSize : Option Nat := none
  /-- Whether details are logged. -/
  verbose : Bool := false
  deriving DecidableEq

/-- What the command line comes to. -/
structure Invocation where
  /-- The options in force. -/
  settings : Settings
  /-- What to do. -/
  command : Command
  deriving DecidableEq

/-- The number that decimal digits stand for. -/
def ofDigits (digits : Text) : Nat :=
  -- The first digit counts most.
  digits.foldl (fun number c => 10 * number + (c.toNat - '0'.toNat)) 0

/-- The smallest number that does not fit into 64 bits. -/
def numberBound : Nat :=
  -- Sixteen hexadecimal digits are all that fit.
  0x10000000000000000

/-- An unsigned number of at most 64 bits, in decimal digits with an optional plus in front. -/
def readNumber? (text : Text) : Option Nat :=
  let digits := match text with
    | '+' :: rest => rest
    | _ => text
  -- Leading zeros are of no consequence.
  if digits ≠ [] ∧ digits.all Char.isDigit ∧ ofDigits digits < numberBound then
    some (ofDigits digits)
  else none

namespace Settings

/-- Settings with the value of an option, which may be given only once. -/
def set (settings : Settings) (option : ValueOption) (value : Text) : Option Settings :=
  match option with
  | .input =>
    -- A path has at least one character.
    if settings.input.isSome ∨ value = [] then none else some { settings with input := some value }
  | .tabSize =>
    if settings.tabSize.isSome then none
    else (readNumber? value).map fun number => { settings with tabSize := some number }

/-- Settings with details logged, which may be asked for only once. -/
def beVerbose (settings : Settings) : Option Settings :=
  -- Asking twice is a mistake.
  if settings.verbose then none else some { settings with verbose := true }

/-- Settings with the value right behind a short option, or the option itself if none is there. -/
def shortValue (settings : Settings) (option : ValueOption) :
    Text → Option (Settings × Option ValueOption)
  | [] => some (settings, some option)
  -- An equals sign in front of the value is not part of it.
  | '=' :: value => (settings.set option value).map fun settings => (settings, none)
  | value => (settings.set option value).map fun settings => (settings, none)

/--
Settings with the short options of one argument, and the option whose value is still to come.

Options without a value may be followed by more, and a value by nothing else.
-/
def short (settings : Settings) : Text → Option (Settings × Option ValueOption)
  | [] => some (settings, none)
  | 'v' :: rest => settings.beVerbose.bind fun settings => settings.short rest
  | 'i' :: rest => settings.shortValue .input rest
  | 't' :: rest => settings.shortValue .tabSize rest
  -- No other letter is an option.
  | _ => none

/-- Settings with one long option, and the option itself if its value is still to come. -/
def long (settings : Settings) (argument : Text) : Option (Settings × Option ValueOption) :=
  let name := argument.takeWhile (· != '=')
  -- The value stands behind the first equals sign.
  let value := (argument.dropWhile (· != '=')).tail?
  if name = "verbose".toList then
    if value.isSome then none else settings.beVerbose.map fun settings => (settings, none)
  else
    let option := if name = "input".toList then some ValueOption.input
      else if name = "tab-size".toList then some .tabSize
      else none
    option.bind fun option =>
      match value with
      | some value => (settings.set option value).map fun settings => (settings, none)
      | none => some (settings, some option)

end Settings

/-- The command that an argument names, with the arguments behind it. -/
def Command.ofArguments? (name : Text) (rest : List Text) : Option Command :=
  -- A double dash ends the options of a command, of which only one command has any.
  let arguments := if rest.getLast? = some "--".toList then rest.dropLast else rest
  if name = "format".toList ∧ arguments = [] then some .format
  else if name = "check".toList ∧ arguments = [] then some .check
  else if name = "tree".toList ∧ arguments = [] then some (.tree false)
  else if name = "tree".toList ∧ arguments = ["--json".toList] then some (.tree true)
  else none

/-- Whether an argument cannot be the value of the option in front of it. -/
def isOption (argument : Text) : Bool :=
  -- A single dash is a value like any other.
  argument.head? == some '-' && argument != ['-']

/-- The options and the command that arguments name, given an option without its value. -/
def readArguments : (settings : Settings) → (pending : Option ValueOption) → List Text →
    Option Invocation
  | _, _, [] => none
  | settings, some option, argument :: rest =>
    if isOption argument then none
    else (settings.set option argument).bind fun settings => readArguments settings none rest
  | settings, none, argument :: rest =>
    match argument with
    | '-' :: '-' :: name =>
      (settings.long name).bind fun (settings, pending) => readArguments settings pending rest
    | '-' :: c :: letters =>
      (settings.short (c :: letters)).bind fun (settings, pending) =>
        readArguments settings pending rest
    -- The first argument that is no option names the command, and ends the options.
    | name => (Command.ofArguments? name rest).map fun command => { settings, command }

/--
What a command line comes to, given the indent width from the environment.

There is nothing to do when the arguments make no sense.
-/
def Invocation.ofArguments? (environment : Option Text) (arguments : List Text) :
    Option Invocation :=
  (readArguments {} none arguments).bind fun invocation =>
    match invocation.settings.tabSize, environment with
    -- An option goes before the environment.
    | none, some value =>
      (invocation.settings.set .tabSize value).map fun settings => { invocation with settings }
    | _, _ => some invocation

end SqlLayout
