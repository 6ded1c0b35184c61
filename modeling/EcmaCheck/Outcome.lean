import EcmaCheck.Diagnostic

/-!
# Outcomes

The outcome of checking a text is that it is a program, or the one error that was recorded first, with its position. Of
several errors only the first is kept (`record_of_recorded`).
-/

namespace EcmaCheck

/-- An error with its place. -/
structure ErrorRecord where
  kind : ErrorKind
  line : Nat
  column : Nat
  offset : Nat
  message : String
  deriving DecidableEq, Repr

namespace ErrorRecord

/-- The record of a diagnostic; one without a position is recorded at the start. -/
def ofDiagnostic (d : Diagnostic) : ErrorRecord :=
  let p := d.position?.getD .start
  ⟨d.kind, p.line, p.column, p.offset, d.message⟩

/-- The text `line:column: message`. -/
def display (r : ErrorRecord) : String :=
  toString r.line ++ ":" ++ toString r.column ++ ": " ++ r.message

end ErrorRecord

/-- What has been recorded. -/
structure ErrorState where
  record? : Option ErrorRecord := none
  deriving DecidableEq, Repr

namespace ErrorState

/-- Records a diagnostic unless there is a record. Tells whether it was recorded. -/
def record (s : ErrorState) (d : Diagnostic) : ErrorState × Bool :=
  match s.record? with
  | some _ => (s, false)
  | none => (⟨some (.ofDiagnostic d)⟩, true)

theorem record_of_recorded {s : ErrorState} {r : ErrorRecord} (h : s.record? = some r) (d : Diagnostic) :
    s.record d = (s, false) := by
  simp [record, h]

end ErrorState

/-- The outcome of checking a text. -/
inductive Outcome where
  /-- The text is a program. -/
  | ok
  /-- The text is no program. -/
  | invalid (record : ErrorRecord)
  /-- The text nests too deep. -/
  | tooDeep (record : ErrorRecord)
  /-- The text could not be had or checked. -/
  | internalError (detail : String)
  deriving DecidableEq, Repr

namespace Outcome

/-- The outcome that a state amounts to. -/
def ofState (s : ErrorState) : Outcome :=
  match s.record? with
  | none => ok
  | some r =>
    match r.kind with
    | .tooDeep => tooDeep r
    | .internal => internalError r.message
    | .lexical | .grammatical => invalid r

/-- The outcome of a check that found the given diagnostic, if any. -/
def ofDiagnostic? (d? : Option Diagnostic) : Outcome :=
  match d? with
  | some d => ofState (ErrorState.record {} d).1
  | none => ofState {}

/-- The record of an error with a place. -/
def record? : Outcome → Option ErrorRecord
  | invalid r | tooDeep r => some r
  | ok | internalError _ => none

/-- What is reported: the line, the column and the message. An internal error has no place and is reported at line and
column zero. -/
def report? : Outcome → Option (Nat × Nat × String)
  | ok => none
  | invalid r | tooDeep r => some (r.line, r.column, r.message)
  | internalError detail => some (0, 0, detail)

end Outcome

end EcmaCheck
