import EcmaCheck.Grammar.Program
import EcmaCheck.Outcome
import EcmaCheck.Path
import EcmaCheck.Utf8

/-!
# Checking

A text is checked as a script or a module (`fault?`), a buffer of bytes after a sentinel has been added and UTF-8
decoded (`checkBuffer`), and what reading a file gave under the source type that its path tells (`checkFile`).
-/

namespace EcmaCheck

/-- The two kinds of program. -/
inductive SourceType where
  | script
  | module
  deriving DecidableEq, Repr

namespace SourceType

/-- The source type of a file: `.mjs` files are modules. -/
def ofPath (path : String) : SourceType :=
  if (Path.fileName? path).bind Path.extension? = some "mjs" then module else script

end SourceType

/-- How a text is checked. -/
structure Options where
  sourceType : SourceType := .script
  /-- The number of nesting levels permitted. -/
  maxDepth : Nat := 1024
  deriving DecidableEq, Repr

/-- The fault of a text, if it is no program. -/
def fault? (options : Options) (text : List Char) : Option Fault :=
  Grammar.fault? (options.sourceType = .module) options.maxDepth (Source.ofText text)

/-- The bytes added to a buffer: a line feed, so that its last line ends, and a NUL that marks it. -/
def sentinel : List UInt8 := [10, 0]

/-- The fault of a buffer with its sentinel, if it is no program. Bytes that are not UTF-8 are a lexical error at the
first of them. -/
def bufferFault? (options : Options) (bytes : List UInt8) : Option Fault :=
  let (text, undecoded) := Utf8.decodePrefix bytes
  if undecoded.isEmpty then fault? options text
  else some (.lexical .invalidUtf8 (positionAt text (bytes.length - undecoded.length)))

/-- The outcome of checking a buffer. -/
def checkBuffer (options : Options) (buffer : List UInt8) : Outcome :=
  .ofDiagnostic? ((bufferFault? options (buffer ++ sentinel)).map Fault.diagnostic)

/-- The name of a text in messages; one without a name has that of the standard input. -/
def displayName (name? : Option String) : String :=
  match name? with
  | some name => if name = "" then "<stdin>" else name
  | none => "<stdin>"

/-- A failure to read a file, told with the path. -/
def readFailure (path failure : String) : String :=
  path ++ ": " ++ failure

/-- The outcome of checking a file, from what reading it gave: its bytes or a failure. -/
def checkFile (maxDepth : Nat) (path : String) (content : Except String (List UInt8)) : Outcome :=
  match content with
  | .ok bytes => checkBuffer ⟨.ofPath path, maxDepth⟩ bytes
  | .error failure => .internalError (readFailure path failure)

end EcmaCheck
