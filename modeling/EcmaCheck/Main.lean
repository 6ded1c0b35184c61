import EcmaCheck.CommandLine

/-!
# The program `validate`

Reads the file named by the arguments and prints what the check of it found.
-/

namespace EcmaCheck.CommandLine

/-- A failure to read a file, in words. -/
def readErrorText : IO.Error → String
  | .noFileOrDirectory .. => ReadError.noSuchFile.message
  | .inappropriateType none .. => ReadError.isADirectory.message
  | .inappropriateType (some _) .. => ReadError.notADirectory.message
  | e => toString e

/-- What is printed when the program stops at its arguments. -/
def Usage.text : Usage → String
  | help => "Usage: validate <PATH>\n"
  | version => "validate 0.1.0\n"
  | missingPath => "error: a path is required\n"
  | unknownArgument => "error: unexpected argument\n"
  | emptyPath => "error: the path is empty\n"
  | attachedValue => "error: unexpected value for an option\n"

/-- The content of a file. -/
def readFile (path : String) : IO (Except String (List UInt8)) := do
  match ← (IO.FS.readBinFile path).toBaseIO with
  | .ok bytes => return .ok bytes.toList
  | .error e => return .error (readErrorText e)

/-- Prints what a run leaves behind and gives its exit code. -/
def report (c : Completion) : IO UInt32 := do
  (← IO.getStdout).putStr c.output
  (← IO.getStderr).putStr c.errorOutput
  return c.exitCode.toUInt32

/-- Runs the program. -/
def run (arguments : List String) : IO UInt32 := do
  match parseArguments arguments with
  | .ok path => report (complete (validate path (← readFile path)))
  | .error usage =>
    let text := usage.text
    report (if usage.exitCode = 0 then ⟨0, text, ""⟩ else ⟨usage.exitCode, "", text⟩)

end EcmaCheck.CommandLine

/-- The entry point. -/
def main (arguments : List String) : IO UInt32 :=
  EcmaCheck.CommandLine.run arguments
