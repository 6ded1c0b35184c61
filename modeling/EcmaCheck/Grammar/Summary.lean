import EcmaCheck.Position

/-!
# Summaries of expressions

No tree is built. What is kept of an expression is its shape, as far as that decides later whether the expression can
be assigned to, can be the parameters of an arrow function, or can be a pattern. Simple targets are assignment targets
(`isAssignmentTarget_of_isSimpleTarget`), and binding elements are assignment elements
(`isAssignmentElement_of_isBindingElement`).
-/

namespace EcmaCheck.Grammar

/-- The shape of an expression. -/
inductive Shape where
  /-- An identifier; not `assignable` are `eval` and `arguments` in strict code. -/
  | identifier (assignable : Bool)
  /-- A property access. -/
  | member
  /-- An identifier in parentheses. -/
  | parenthesizedIdentifier (assignable : Bool)
  /-- A property access in parentheses. -/
  | parenthesizedMember
  /-- An object or array literal that can be read as an assignment pattern, and with `binding` as a binding pattern. -/
  | pattern (binding : Bool)
  /-- An assignment with `=`; with `binding` it can be read as a binding element with a default. -/
  | assignment (binding : Bool)
  | arrow
  /-- A prefix operator with its operand. -/
  | unary
  /-- A disjunction or a conjunction. -/
  | logical
  /-- An application of `??`. -/
  | coalesce
  | other
  deriving DecidableEq, Repr

namespace Shape

/-- What `++` and compound assignments can assign to. -/
def isSimpleTarget : Shape → Bool
  | identifier assignable | parenthesizedIdentifier assignable => assignable
  | member | parenthesizedMember => true
  | _ => false

/-- What `=` can assign to. -/
def isAssignmentTarget (s : Shape) : Bool :=
  s.isSimpleTarget || s matches pattern _

/-- What an element of an assignment pattern can be. -/
def isAssignmentElement (s : Shape) : Bool :=
  s.isAssignmentTarget || s matches assignment _

/-- What a parameter without a default can be. -/
def isBindingTarget : Shape → Bool
  | identifier assignable => assignable
  | pattern binding => binding
  | _ => false

/-- What a parameter can be. -/
def isBindingElement (s : Shape) : Bool :=
  s.isBindingTarget || s = assignment true

/-- Whether the expression is an identifier without parentheses. -/
def isIdentifier (s : Shape) : Bool :=
  s matches identifier _

theorem isAssignmentTarget_of_isSimpleTarget {s : Shape} (h : s.isSimpleTarget = true) :
    s.isAssignmentTarget = true := by
  simp [isAssignmentTarget, h]

theorem isAssignmentElement_of_isBindingElement {s : Shape} (h : s.isBindingElement = true) :
    s.isAssignmentElement = true := by
  cases s <;> simp_all [isBindingElement, isBindingTarget, isAssignmentElement, isAssignmentTarget, isSimpleTarget]

/-- The shape of an expression in parentheses. -/
def inParentheses : Shape → Shape
  | identifier assignable | parenthesizedIdentifier assignable => parenthesizedIdentifier assignable
  | member | parenthesizedMember => parenthesizedMember
  | _ => other

end Shape

/-- What is kept of an expression. -/
@[ext] structure Summary where
  shape : Shape
  /-- Where it starts. -/
  start : Position
  /-- The place of the first `= value` of a shorthand property in it. It is only permitted if the expression turns out
  to be a pattern. -/
  shorthand? : Option Position := none
  deriving DecidableEq, Repr

/-- The summary of an expression that is no target of anything. -/
def Summary.other (start : Position) : Summary :=
  ⟨.other, start, none⟩

end EcmaCheck.Grammar
