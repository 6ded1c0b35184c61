import EcmaCheck.Check

/-!
# The command line

`validate PATH` checks one file. It prints `OK`, or one line that tells why not, and its exit code tells an invalid
program (1) from every other failure (2).
-/

namespace EcmaCheck.CommandLine

/-! ## Arguments -/

/-- Why the program stops at its arguments. -/
inductive Usage where
  | missingPath
  /-- A second path or an unknown option. -/
  | unknownArgument
  | emptyPath
  /-- A value attached to an option that takes none. -/
  | attachedValue
  | help
  | version
  deriving DecidableEq, Repr

/-- The exit code of a stop at the arguments. -/
def Usage.exitCode : Usage → Nat
  | help | version => 0
  | missingPath | unknownArgument | emptyPath | attachedValue => 2

/-- What an argument asks for if it is an option. -/
def option? (argument : String) : Option Usage :=
  match argument.toList with
  | ['-'] => none
  | ['-', '-', 'h', 'e', 'l', 'p'] => some .help
  | ['-', '-', 'v', 'e', 'r', 's', 'i', 'o', 'n'] => some .version
  | '-' :: '-' :: 'h' :: 'e' :: 'l' :: 'p' :: '=' :: _ => some .attachedValue
  | '-' :: '-' :: 'v' :: 'e' :: 'r' :: 's' :: 'i' :: 'o' :: 'n' :: '=' :: _ => some .attachedValue
  | '-' :: 'h' :: _ => some .help
  | '-' :: 'V' :: _ => some .version
  | '-' :: _ => some .unknownArgument
  | _ => none

/-- The path among the arguments after those read, or why the program stops. After `--` all arguments are paths. An
empty path is noticed at the end of the arguments, or before help is shown. -/
def parsePath (path? : Option String) (optionsEnded : Bool) : List String → Except Usage String
  | [] =>
    match path? with
    | none => .error .missingPath
    | some path => if path = "" then .error .emptyPath else .ok path
  | argument :: rest =>
    if !optionsEnded && argument = "--" then parsePath path? true rest
    else
      match if optionsEnded then none else option? argument, path? with
      | some usage, _ =>
        if path? = some "" && (usage = .help || usage = .version) then .error .emptyPath else .error usage
      | none, none => parsePath (some argument) optionsEnded rest
      | none, some _ => .error .unknownArgument

/-- The path that the arguments name, or why the program stops. -/
def parseArguments (arguments : List String) : Except Usage String :=
  parsePath none false arguments

/-! ## Failures -/

/-- The ways in which reading a path fails. -/
inductive ReadError where
  | noSuchFile
  | notADirectory
  | isADirectory
  deriving DecidableEq, Repr

/-- The failure as an operating system words it. -/
def ReadError.message : ReadError → String
  | noSuchFile => "No such file or directory (os error 2)"
  | notADirectory => "Not a directory (os error 20)"
  | isADirectory => "Is a directory (os error 21)"

/-- Why a check did not find a program. -/
inductive Failure where
  | invalid (path : String) (record : ErrorRecord)
  | tooDeep (path : String) (record : ErrorRecord)
  | unreadable (detail : String)
  | internal (detail : String)
  deriving DecidableEq, Repr

namespace Failure

/-- A record as a place in a file. -/
def located (path : String) (record : ErrorRecord) : String :=
  path ++ ":" ++ record.display

/-- The line that tells the failure. -/
def message : Failure → String
  | invalid path record => "Syntax error at " ++ located path record
  | tooDeep path record => "Nesting too deep at " ++ located path record
  | unreadable detail | internal detail => "Internal or IO error: " ++ detail

/-- One if the text is no program, two otherwise. -/
def exitCode : Failure → Nat
  | invalid _ record | tooDeep _ record => if record.kind.isTextFailure then 1 else 2
  | unreadable _ | internal _ => 2

end Failure

/-- Checks a file, from what reading it gave. -/
def validate (path : String) (content : Except String (List UInt8)) : Except Failure Unit :=
  match content with
  | .error failure => .error (.unreadable (readFailure path failure))
  | .ok bytes =>
    match checkBuffer { sourceType := .ofPath path } bytes with
    | .ok => .ok ()
    | .invalid record => .error (.invalid path record)
    | .tooDeep record => .error (.tooDeep path record)
    | .internalError detail => .error (.internal detail)

/-- What a run of the program leaves behind. -/
structure Completion where
  exitCode : Nat
  output : String
  errorOutput : String
  deriving DecidableEq, Repr

/-- What the program prints for the result of a check. -/
def complete : Except Failure Unit → Completion
  | .ok () => ⟨0, "OK\n", ""⟩
  | .error failure => ⟨failure.exitCode, "", failure.message ++ "\n"⟩

end EcmaCheck.CommandLine
