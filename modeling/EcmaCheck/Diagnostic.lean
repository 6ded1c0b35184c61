import EcmaCheck.Position

/-!
# Diagnostics

What a reader is told about a failure: its kind, a message and, if known, the position.
-/

namespace EcmaCheck

/-- The kinds of failure. -/
inductive ErrorKind where
  /-- A malformed lexeme. -/
  | lexical
  /-- A violation of the grammar. -/
  | grammatical
  /-- Nesting beyond the limit. -/
  | tooDeep
  /-- A failure that is not the text's. -/
  | internal
  deriving DecidableEq, Repr

namespace ErrorKind

/-- The name under which the kind is reported. -/
def name : ErrorKind → String
  | lexical => "LexError"
  | grammatical => "SyntaxError"
  | tooDeep => "TooDeep"
  | internal => "InternalError"

/-- The kinds whose name is given. -/
def ofName? (name : String) : Option ErrorKind :=
  [lexical, grammatical, tooDeep, internal].find? (·.name = name)

theorem ofName?_name (kind : ErrorKind) : ofName? kind.name = some kind := by
  cases kind <;> decide

/-- Whether the kind says that the text is not a program. -/
def isTextFailure : ErrorKind → Bool
  | lexical | grammatical => true
  | tooDeep | internal => false

end ErrorKind

/-- A failure as it is told. -/
structure Diagnostic where
  /-- The kind of failure. -/
  kind : ErrorKind
  /-- What is wrong. -/
  message : String
  /-- Where, if known. -/
  position? : Option Position
  deriving DecidableEq, Repr

namespace Diagnostic

/-- The message, followed by the line and column in parentheses where the position is known. -/
def display (d : Diagnostic) : String :=
  match d.position? with
  | some p => d.message ++ " (" ++ p.display ++ ")"
  | none => d.message

/-- A malformed lexeme. -/
def lexError (message : String) (p : Position) : Diagnostic := ⟨.lexical, message, some p⟩

/-- A violation of the grammar. -/
def grammarError (message : String) (p : Position) : Diagnostic := ⟨.grammatical, message, some p⟩

/-- Something else was expected than what stands there. -/
def unexpectedToken (expected got : String) (p : Position) : Diagnostic :=
  grammarError ("Expected " ++ expected ++ ", got " ++ got) p

/-- The text ends too early. -/
def unexpectedEnd (p : Position) : Diagnostic := grammarError "Unexpected end of input" p

/-- Nesting went beyond `limit` levels. -/
def tooDeep (p : Position) (limit : Nat) : Diagnostic :=
  ⟨.tooDeep, "Maximum nesting depth of " ++ toString limit ++ " exceeded", some p⟩

end Diagnostic

end EcmaCheck
