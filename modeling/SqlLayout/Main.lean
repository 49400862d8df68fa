import SqlLayout.Command.Run

/-! The program: arguments, environment and files on one side, the library on the other. -/

namespace SqlLayout

/-- The variable of the environment that holds an indent width. -/
def widthVariable : String :=
  -- An option on the command line goes before it.
  "SQLSHAPE_TAB_SIZE"

/-- Bytes read as text. -/
def decodeInput (bytes : ByteArray) : Except InputError Text :=
  -- Bytes that are not UTF-8 are refused as a whole.
  match String.fromUTF8? bytes with
  | some text => .ok text.toList
  | none => .error .notText

/-- All that standard input holds. -/
partial def readAll (stream : IO.FS.Stream) (sofar : ByteArray) : IO ByteArray := do
  -- An empty read is the end of the stream.
  let chunk ← stream.read 65536
  if chunk.isEmpty then return sofar else readAll stream (sofar ++ chunk)

/-- The contents of a file or, without a path, of standard input. -/
def readInput (path : Option Text) : IO (Except InputError Text) := do
  try
    -- Both are read as a whole before they are looked at.
    let bytes ← match path with
      | some path => IO.FS.readBinFile (String.ofList path)
      | none => readAll (← IO.getStdin) ByteArray.empty
    return decodeInput bytes
  catch
    | .noFileOrDirectory .. => return .error .notFound
    | error => return .error (.system (toString error).toList)

end SqlLayout

/-- Runs the program on its arguments. -/
def main (arguments : List String) : IO UInt32 := do
  let environment ← IO.getEnv SqlLayout.widthVariable
  let invocation := SqlLayout.Invocation.ofArguments? (environment.map String.toList)
    (arguments.map String.toList)
  let outcome ← match invocation with
    | some invocation => invocation.run SqlLayout.readInput
    -- Arguments that make no sense are not acted on.
    | none => pure SqlLayout.Outcome.usage
  (← IO.getStderr).putStr (String.ofList outcome.log)
  (← IO.getStdout).putStr (String.ofList outcome.output)
  return outcome.exitCode.toUInt32
