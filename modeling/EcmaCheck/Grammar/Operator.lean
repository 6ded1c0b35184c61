import EcmaCheck.Grammar.Operand

/-!
# Operators

Prefix and update operators, binary operators by precedence, conditionals, assignments and `yield`. Of the binary
operators only `**` associates to the right; `??` does not mix with `||` and `&&` without parentheses.
-/

namespace EcmaCheck.Grammar

variable (nested : Derivation)

/-! ## Unary operators -/

/-- An operand with `++` or `--` after it on the same line. -/
def update : Recognizer Summary := notingOperandEnd do
  let e ← leftHandSide nested
  let t ← token
  if (t.isPunctuator .increment || t.isPunctuator .decrement) && !t.newlineBefore then
    requireOperand e
    unless e.shape.isSimpleTarget do fail .postfixTarget e.start
    advance
    return .other e.start
  else return e

/-- The operand of the prefix operator that is the current token. -/
def prefixed : Recognizer Summary := do
  advance
  let e ← nested .unary
  requireOperand e
  return e

/-- Whether the token is a prefix operator that takes any operand, apart from `await`. -/
def isPlainPrefix (t : Token) : Bool :=
  t.isPunctuator .plus || t.isPunctuator .minus || t.isPunctuator .not || t.isPunctuator .bitNot ||
    t.isKeyword .typeof || t.isKeyword .void

/-- The expansion of an operand with its prefix operators. -/
def expandUnary : Recognizer Summary := notingOperandEnd do
  let t ← token
  let c ← context
  if isPlainPrefix t || (c.awaitOperator && t.isWord "await") then
    discard (prefixed nested)
    return ⟨.unary, t.start, none⟩
  else if t.isKeyword .delete then
    let e ← prefixed nested
    if (← context).strict && (e.shape matches .identifier _ | .parenthesizedIdentifier _) then
      fail .strictDelete t.start
    return ⟨.unary, t.start, none⟩
  else if t.isPunctuator .increment || t.isPunctuator .decrement then
    let e ← prefixed nested
    unless e.shape.isSimpleTarget do fail .prefixTarget e.start
    return .other t.start
  else update nested

/-! ## Binary operators -/

/-- The precedence of a token as a binary operator, if it is one. -/
def precedence? (allowIn : Bool) (t : Token) : Option Nat :=
  match t.kind with
  | .punctuator p =>
    match p with
    | .coalesce => some 1
    | .logicalOr => some 2
    | .logicalAnd => some 3
    | .bitOr => some 4
    | .bitXor => some 5
    | .bitAnd => some 6
    | .equal | .notEqual | .strictEqual | .strictNotEqual => some 7
    | .less | .greater | .lessEqual | .greaterEqual => some 8
    | .shiftLeft | .shiftRight | .shiftRightUnsigned => some 9
    | .plus | .minus => some 10
    | .star | .slash | .percent => some 11
    | .power => some 12
    | _ => none
  | .keyword .instanceof => some 8
  | .keyword .«in» => if allowIn then some 8 else none
  | _ => none

/-- The shape of the application of a binary operator, unless it mixes `??` with `||` or `&&`. -/
def binaryShape? (operator : Token) (left right : Shape) : Option Shape :=
  if operator.isPunctuator .coalesce then
    if left = .logical || right = .logical then none else some .coalesce
  else if operator.isPunctuator .logicalOr || operator.isPunctuator .logicalAnd then
    if left = .coalesce || right = .coalesce then none else some .logical
  else some .other

/-- One more binary operator with its right operand, if one of at least the given precedence follows. -/
def binaryTurn (least : Nat) (allowIn : Bool) (left : Summary) : Recognizer (Turn Summary Summary) := do
  let operator ← token
  match precedence? allowIn operator with
  | none => return .done left
  | some precedence =>
    if precedence < least || left.shape = .arrow then return .done left
    let isPower := operator.isPunctuator .power
    if isPower && left.shape = .unary then fail .unaryBeforePower operator.start
    rejectShorthand left
    advance
    let right ← nested (.rightOperand (if isPower then precedence else precedence + 1) allowIn)
    requireOperand right
    match binaryShape? operator left.shape right.shape with
    | some shape => return .again ⟨shape, left.start, none⟩
    | none => throw (unexpectedFault operator)

/-- Applications of binary operators of at least the given precedence. -/
def binary (least : Nat) (allowIn : Bool) : Recognizer Summary := notingOperandEnd do
  loop (← expandUnary nested) (binaryTurn nested least allowIn)

/-! ## Conditionals and assignments -/

/-- A conditional expression. -/
def conditional (allowIn : Bool) : Recognizer Summary := notingOperandEnd do
  let test ← binary nested 1 allowIn
  if (← isAt .question) && test.shape ≠ .arrow then
    rejectShorthand test
    advance
    discard (assignment nested true)
    expect .colon
    discard (assignment nested allowIn)
    return .other test.start
  else return test

/-- Whether the token can begin the operand of `yield`. -/
def beginsYieldOperand (t : Token) : Bool :=
  match t.kind with
  | .endOfInput | .keyword .«in» => false
  | .punctuator p =>
    match p with
    | .closeParen | .closeBracket | .closeBrace | .comma | .semicolon | .colon => false
    | _ => true
  | _ => true

/-- A `yield` expression. Its operand must begin on the same line. -/
def yieldExpression (allowIn : Bool) : Recognizer Summary := do
  let start := (← token).start
  advance
  if (← token).newlineBefore then return .other start
  let delegates ← eat .star
  if delegates || beginsYieldOperand (← token) then discard (assignment nested allowIn)
  return .other start

/-- The assignment operator that a token is. -/
def assignmentOperator? (t : Token) : Option Punctuator :=
  match t.kind with
  | .punctuator p => if p.isAssignment then some p else none
  | _ => none

/-- The expansion of an assignment expression. -/
def expandAssignment (allowIn : Bool) : Recognizer Summary := do
  if (← context).yieldOperator && (← token).isWord "yield" then yieldExpression nested allowIn
  else
    let left ← conditional nested allowIn
    match assignmentOperator? (← token) with
    | none => return left
    | some .assign =>
      unless left.shape.isAssignmentTarget do fail .assignmentTarget left.start
      advance
      discard (assignment nested allowIn)
      return ⟨.assignment (left.shape matches .identifier _ | .pattern true), left.start, none⟩
    | some _ =>
      rejectShorthand left
      unless left.shape.isSimpleTarget do fail .assignmentTarget left.start
      advance
      discard (assignment nested allowIn)
      return .other left.start

end EcmaCheck.Grammar
