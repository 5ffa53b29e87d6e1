import AugmentedBnf.CommandLine.Run

/-! # The program

Reads the files that the arguments name, runs the command and prints its report.
-/
namespace AugmentedBnf.CommandLine

/-- The bytes of a file, or why it cannot be read. -/
def readFile (path : Text) : IO (Except String ByteArray) := do
  try
    return .ok (← IO.FS.readBinFile (String.ofList path))
  catch
    | .noFileOrDirectory _ _ _ => return .error noSuchFile
    | .inappropriateType _ code _ =>
      return .error (if code = 20 then notDirectory else isDirectory)
    | cause => return .error (toString cause)

/-- The files that an invocation can read, each with its contents. -/
def namedFiles (invocation : Invocation) : List Text :=
  (match invocation.config with
    | some path => [path, path ++ ".toml".toList]
    | none => []) ++
  match invocation.command with
  | .check grammar arguments => [grammar.path, arguments.input]
  | .rules grammar => [grammar.path]

/-- Whether an invocation reads its standard input. -/
def readsStandardInput (invocation : Invocation) : Bool :=
  match invocation.command with
  | .check _ arguments => arguments.input == ['-']
  | .rules _ => false

/-- What an invocation can read. -/
def surroundings (invocation : Invocation) : IO Surroundings := do
  let files ← (namedFiles invocation).mapM fun path => do
    return (path, ← readFile path)
  let input ← if readsStandardInput invocation then (← IO.getStdin).readBinToEnd else pure .empty
  return ⟨fun path => (files.lookup path).getD (.error noSuchFile), input⟩

end AugmentedBnf.CommandLine

open AugmentedBnf.CommandLine in
/-- Runs the program on its arguments. -/
def main (arguments : List String) : IO UInt32 := do
  let texts := arguments.map String.toList
  let nowhere : Surroundings := ⟨fun _ => .error noSuchFile, .empty⟩
  let around ← match invocation texts with
    | .ok invocation => surroundings invocation
    | .error _ => pure nowhere
  let report := answer around texts
  IO.print (String.ofList report.output)
  IO.eprint (String.ofList report.messages)
  return report.status.toUInt32
