import EcmaCheck.Grammar.Module
import EcmaCheck.Grammar.Operator

/-!
# Programs

Each nested production expands to the productions that it consists of (`expand`), and `derive` expands them as deep as
the limit on nesting permits. A program is a statement list that ends with the text.

The limit enters only through the number of levels of `derive`: without any, it fails with `tooDeep`, and otherwise it
expands a production with one level less inside (`derive_zero`, `derive_succ`).
-/

namespace EcmaCheck.Grammar

variable (nested : Derivation)

/-- The expansion of a statement or a declaration in a list. Imports and exports stand only at the top level of a
module. -/
def expandStatementListItem (topLevel : Bool) : Recognizer Unit := do
  let s ← get
  if s.token.isKeyword .function then functionDeclaration nested false
  else if s.token.isKeyword .«class» then discard (classDefinition nested true true)
  else if s.token.isKeyword .const then declarationStatement nested .constant
  else if ← isAtLetDeclaration then declarationStatement nested .let
  else if ← isAtAsyncFunction then
    advance
    functionDeclaration nested true
  else if s.token.isKeyword .«import» then
    let next ← peek
    if next.isPunctuator .openParen || next.isPunctuator .dot then statement nested
    else
      unless s.isModule && topLevel do fail .importOutsideModule s.token.start
      importDeclaration
  else if s.token.isKeyword .«export» then
    unless s.isModule && topLevel do unexpected
    exportDeclaration nested
  else statement nested

/-- What a nested production consists of. -/
def expand : (p : Production) → Recognizer p.Result
  | .statementListItem topLevel => expandStatementListItem nested topLevel
  | .statement => expandStatement nested
  | .functionBodyStatement => functionDeclaration nested false
  | .assignment allowIn => expandAssignment nested allowIn
  | .rightOperand precedence allowIn => binary nested precedence allowIn
  | .unary => expandUnary nested
  | .newExpression => newExpression nested
  | .heritage => leftHandSide nested
  | .objectMember => expandObjectMember nested
  | .classElement derived hasConstructor => expandClassElement nested derived hasConstructor
  | .bindingTarget lexical => expandBindingTarget nested lexical

/-- Runs a recognizer one nesting level deeper. -/
def deeper {α : Type} (body : Recognizer α) : Recognizer α := do
  modify fun s => { s with depth := s.depth + 1 }
  let result ← body
  modify fun s => { s with depth := s.depth - 1 }
  return result

/-- Recognizes nested productions when the given number of levels may still be opened. -/
def derive : Nat → Derivation
  | 0, _ => do
    let s ← get
    throw (.tooDeep s.depth s.token.start)
  | levels + 1, p => deeper (expand (derive levels) p)

theorem derive_zero (p : Production) (s : State) : derive 0 p s = .error (.tooDeep s.depth s.token.start) s := rfl

theorem derive_succ (levels : Nat) (p : Production) :
    derive (levels + 1) p = deeper (expand (derive levels) p) := rfl

/-- A whole program. -/
def program : Recognizer Unit := do
  start
  discard (directives nested)
  statementList nested true
  unless (← token).isEnd do unexpected

/-- The state before the first token is read. -/
def State.initial (isModule : Bool) (source : Source) : State where
  scanner := .ofSource source
  token := ⟨.endOfInput, .start, .start, "", false⟩
  consumed := []
  omitted := []
  operandStarts := []
  operandEnds := []
  repeated := []
  isModule
  depth := 0
  context := .ofProgram isModule
  labels := []
  attachedLabels := 0
  classDepth := 0
  turns := source.text.length + 2

/-- The recognition of a source as a program that nests at most `limit` levels. -/
def run (isModule : Bool) (limit : Nat) (source : Source) : EStateM.Result Fault State Unit :=
  program (derive limit) (.initial isModule source)

/-- The fault of a source, if it is no program that nests at most `limit` levels. -/
def fault? (isModule : Bool) (limit : Nat) (source : Source) : Option Fault :=
  match run isModule limit source with
  | .ok .. => none
  | .error f _ => some f

end EcmaCheck.Grammar
