import EcmaCheck.Grammar.State

/-!
# Nested productions

The grammar is recursive only through the productions listed here: each use of one opens a nesting level. The other
productions are functions of a `Derivation`, which recognizes the nested ones one level deeper.
-/

namespace EcmaCheck.Grammar

/-- The productions that open a nesting level. -/
inductive Production where
  | statementListItem (topLevel : Bool)
  | statement
  /-- A function declaration as the body of an `if` or after a label. -/
  | functionBodyStatement
  /-- An assignment expression; `allowIn` tells whether `in` is an operator in it. -/
  | assignment (allowIn : Bool)
  /-- The right operand of a binary operator, up to operators of lower precedence than the given one. -/
  | rightOperand (precedence : Nat) (allowIn : Bool)
  | unary
  /-- A `new` expression as what another one constructs. -/
  | newExpression
  /-- What a class extends. -/
  | heritage
  | objectMember
  /-- An element of a class; `hasConstructor` tells whether an element before is the constructor. -/
  | classElement (derived hasConstructor : Bool)
  /-- A pattern or an identifier that is bound. -/
  | bindingTarget (lexical : Bool)
  deriving DecidableEq, Repr

/-- What recognizing a nested production gives: the summary of an expression, or whether a class has its constructor
now. -/
abbrev Production.Result : Production → Type
  | .assignment _ | .rightOperand .. | .unary | .newExpression | .heritage | .objectMember => Summary
  | .classElement .. => Bool
  | .statementListItem _ | .statement | .functionBodyStatement | .bindingTarget _ => Unit

/-- A recognizer for each nested production. -/
abbrev Derivation := (p : Production) → Recognizer p.Result

variable (nested : Derivation)

/-! ## Expressions at the level of assignments and commas -/

/-- An assignment expression that may turn out to be a pattern. -/
def assignmentOrPattern (allowIn : Bool) : Recognizer Summary :=
  notingOperandEnd (nested (.assignment allowIn))

/-- An assignment expression. -/
def assignment (allowIn : Bool) : Recognizer Summary := do
  let e ← assignmentOrPattern nested allowIn
  rejectShorthand e
  return e

/-- Expressions with commas between them; a single one may turn out to be a pattern. -/
def expressionOrPattern (allowIn : Bool) : Recognizer Summary := notingOperandEnd do
  let first ← assignmentOrPattern nested allowIn
  if ← isAt .comma then
    rejectShorthand first
    loop () fun _ => do
      if ← eat .comma then
        discard (assignment nested allowIn)
        return .again ()
      else return .done ()
    return .other first.start
  else return first

/-- Expressions with commas between them. -/
def expression (allowIn : Bool) : Recognizer Summary := do
  let e ← expressionOrPattern nested allowIn
  rejectShorthand e
  return e

/-- What recognizes a pattern or an identifier that is bound. -/
def bindingTarget (lexical : Bool) : Recognizer Unit :=
  nested (.bindingTarget lexical)

/-- A statement inside another. -/
def statement : Recognizer Unit :=
  nested .statement

end EcmaCheck.Grammar
