import MenuActions.CommandLine.DryRun

/-!
# The program

Reads the files that the command line names, draws random numbers, and prints what the dry run
gives.
-/

namespace MenuActions.CommandLine

/-- Why a file cannot be read. -/
def readFailure : IO.Error → String
  | .noFileOrDirectory .. => "No such file or directory (os error 2)"
  | .permissionDenied .. => "Permission denied (os error 13)"
  | .inappropriateType .. => "Is a directory (os error 21)"
  | error => toString error

/-- Reads a file, if it can be read. -/
def readText (path : String) : IO (Except String String) := do
  try
    let bytes ← IO.FS.readBinFile path
    match String.fromUTF8? bytes with
    | some text => return .ok text
    | none => return .error "stream did not contain valid UTF-8"
  catch error =>
    return .error (readFailure error)

/-- The values of the variables that the options of the program name. -/
def readEnvironment : IO (Table String) := do
  let mut found : Table String := []
  for option in program.shared do
    if let some name := option.envName then
      if let some value ← IO.getEnv name then
        found := found.put name value
  return found

/-- Draws some numbers from `[0, 1)`. -/
def drawNumbers (count : Nat) : IO (List Float) :=
  (List.replicate count ()).mapM fun _ => do
    let bits ← IO.rand 0 9007199254740991
    return Float.ofNat bits / 9007199254740992.0

/-- Reads the files that a command line names. -/
def readFiles (environment : String → Option String) (words : List String) :
    IO (Table (Except String String)) :=
  match Invocation.read environment words with
  | .error _ => return []
  | .ok invocation => invocation.paths.mapM fun path => return (path, ← readText path)

end MenuActions.CommandLine

open MenuActions CommandLine in
/-- Runs the program on the words of its command line. -/
def main (words : List String) : IO UInt32 := do
  let environment := (← readEnvironment).get?
  let files ← readFiles environment words
  let read := fun path => (files.get? path).getD (.error "No such file or directory (os error 2)")
  let output := run environment read (← drawNumbers 1024) words
  for line in output.stdout do
    IO.println line
  for line in output.stderr do
    IO.eprintln line
  return output.code.toUInt32
