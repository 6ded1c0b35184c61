import EcmaCheck.Grammar.Class

/-!
# Operands

Primary expressions, literals, templates, arrow functions, and what may follow an operand: property accesses, arguments,
optional chains and templates.

What stands in parentheses, or between brackets or braces, may turn out to be the parameters of an arrow function or a
pattern. The decision is left to whoever sees the arrow or the assignment.
-/

namespace EcmaCheck.Grammar

variable (nested : Derivation)

/-! ## Arguments and members -/

/-- Arguments in parentheses. -/
def arguments : Recognizer Unit := do
  expect .openParen
  itemsUntil .closeParen () fun _ => do
    discard (eat .ellipsis)
    discard (assignment nested true)
  advance

/-- Stops unless a class body is around, as only there private names exist. -/
def requirePrivateScope : Recognizer Unit := do
  let s ← get
  if s.classDepth = 0 then fail (.undeclaredPrivate s.token.lexeme) s.token.start

/-- The name after a dot: any name, keywords included, or a private name. -/
def memberName : Recognizer Unit := do
  match (← token).kind with
  | .identifier .. | .keyword _ => advanceWith .division
  | .privateName _ =>
    requirePrivateScope
    advanceWith .division
  | _ => expectedIdentifier

/-- A computed property access in brackets. -/
def computedMember : Recognizer Unit := do
  expect .openBracket
  discard (expression nested true)
  expect .closeBracket

/-! ## Templates -/

/-- The spans of a template literal and the substitutions between them. Each brace that closes a substitution is read
again as template text. A malformed escape is only permitted with a tag. -/
def template (tagged : Bool) : Recognizer Unit :=
  loop () fun _ => do
    let span ← token
    match span.kind with
    | .template part _ =>
      if let (some p, false) := (span.malformedEscape?, tagged) then throw (.lexical .templateEscape p)
      advance
      if part.isLast then return .done ()
      discard (expression nested true)
      unless ← isAt .closeBrace do unexpected
      rescan .templateTail
      return .again ()
    | _ => unexpected

/-! ## Arrow functions -/

/-- An arrow and the body after it; `simple` tells whether the parameters are plain identifiers. -/
def arrowBody (start : Position) (isAsync simple : Bool) : Recognizer Summary := do
  advance
  inFunctionContext ((← context).ofArrow isAsync) do
    if ← isAt .openBrace then functionBody nested simple .division
    else discard (assignment nested true)
  return ⟨.arrow, start, none⟩

/-- Whether an arrow comes next on the same line. -/
def isAtArrow : Recognizer Bool := do
  let t ← token
  return t.isPunctuator .arrow && !t.newlineBefore

/-- What is kept of a list in parentheses that may be the parameters of an arrow function. -/
structure ParenthesizedList where
  count : Nat := 0
  /-- The last item that is no rest. -/
  last? : Option Summary := none
  /-- Whether the list can be parameters. -/
  allBinding : Bool := true
  /-- Whether all items are plain identifiers. -/
  allIdentifiers : Bool := true
  shorthand? : Option Position := none
  /-- The fault of the list if it is not followed by an arrow: it is empty, ends in a comma or has a rest. -/
  arrowOnly? : Option Fault := none
  deriving DecidableEq, Repr

namespace ParenthesizedList

/-- The list with one more item. -/
def push (list : ParenthesizedList) (item : Summary) : ParenthesizedList :=
  { list with
    count := list.count + 1
    last? := some item
    allBinding := list.allBinding && item.shape.isBindingElement
    allIdentifiers := list.allIdentifiers && item.shape.isIdentifier
    shorthand? := list.shorthand?.or item.shorthand? }

/-- The list with a rest; `last` tells whether it ends the list. -/
def pushRest (list : ParenthesizedList) (item : Summary) (last : Bool) : ParenthesizedList :=
  { list with
    count := list.count + 1
    allBinding := list.allBinding && item.shape.isBindingTarget && last
    allIdentifiers := false
    shorthand? := list.shorthand?.or item.shorthand? }

/-- The list, which at the token can only be parameters. -/
def onlyBeforeArrow (list : ParenthesizedList) (t : Token) : ParenthesizedList :=
  { list with arrowOnly? := list.arrowOnly?.or (some (unexpectedFault t)) }

/-- The shape of the list as an expression. -/
def shape (list : ParenthesizedList) : Shape :=
  match list.count, list.last? with
  | 1, some item => item.shape.inParentheses
  | _, _ => .other

end ParenthesizedList

/-- One item of a list in parentheses; `call` tells whether the list may be arguments. -/
def parenthesizedItem (call : Bool) (list : ParenthesizedList) :
    Recognizer (Turn ParenthesizedList ParenthesizedList) := do
  let t ← token
  if t.isPunctuator .ellipsis then
    let list := list.onlyBeforeArrow t
    advance
    let item ← assignmentOrPattern nested true
    let next ← token
    if next.isPunctuator .closeParen then return .done (list.pushRest item true)
    unless call do fail .restParameterNotLast next.start
    expect .comma
    return .again (list.pushRest item false)
  else
    let list := list.push (← assignmentOrPattern nested true)
    if ← isAt .closeParen then return .done list
    expect .comma
    let next ← token
    return .again (if next.isPunctuator .closeParen then list.onlyBeforeArrow next else list)

/-- A list in parentheses that may be the parameters of an arrow function. -/
def parenthesizedList (call : Bool) : Recognizer ParenthesizedList := do
  expect .openParen
  let first ← token
  let list : ParenthesizedList := {}
  let list ←
    loop (if first.isPunctuator .closeParen then list.onlyBeforeArrow first else list) fun list => do
      if ← isAt .closeParen then return .done list
      parenthesizedItem nested call list
  advance
  return list

/-- Refuses shorthand initializers in a list that turned out to be no parameters. -/
def ParenthesizedList.rejectShorthand (list : ParenthesizedList) : Recognizer Unit :=
  match list.shorthand? with
  | some p => fail .shorthandInitializer p
  | none => pure ()

/-- An expression in parentheses, or an arrow function. -/
def parenthesized : Recognizer Summary := do
  let start := (← token).start
  let list ← parenthesizedList nested false
  if ← isAtArrow then
    unless list.allBinding do fail .arrowParameters start
    arrowBody nested start false list.allIdentifiers
  else
    if let some f := list.arrowOnly? then throw f
    list.rejectShorthand
    return ⟨list.shape, start, none⟩

/-- What follows `async` before a parenthesis: a call, or an arrow function if an arrow follows and no line ends before
the parenthesis. -/
def asyncCallOrArrow (start : Position) (newlineBeforeParen : Bool) : Recognizer Summary := do
  let list ← parenthesizedList nested true
  if ← isAtArrow then
    if newlineBeforeParen then unexpected
    unless list.allBinding do fail .arrowParameters start
    arrowBody nested start true list.allIdentifiers
  else
    list.rejectShorthand
    return .other start

/-- An async arrow function from its one parameter on, which has no parentheses. -/
def asyncArrow (start : Position) : Recognizer Summary := do
  match identifier? (← token) with
  | some i =>
    if i.name = "await" then fail .reservedAwait i.position
    checkBinding false i
    advance
    unless ← isAtArrow do unexpected
    arrowBody nested start true true
  | none => expectedIdentifier

/-- An identifier, or an arrow function that it is the parameter of. -/
def plainIdentifier (i : Identifier) : Recognizer Summary := do
  checkReference i
  advance
  let restricted := (← context).forbidsAssigning i.name
  if ← isAtArrow then
    if restricted then fail .strictBinding i.position
    arrowBody nested i.position false true
  else return ⟨.identifier !restricted, i.position, none⟩

/-- What begins with an identifier: the identifier, an arrow function, or after `async` an async function. -/
def identifierExpression (i : Identifier) : Recognizer Summary := do
  if ← isAtWord "async" then
    let next ← peek
    if !next.newlineBefore && next.isKeyword .function then
      advance
      function nested true false false
    else if !next.newlineBefore && next.isIdentifier then
      advance
      asyncArrow nested i.position
    else if next.isPunctuator .openParen then
      advance
      asyncCallOrArrow nested i.position next.newlineBefore
    else plainIdentifier nested i
  else plainIdentifier nested i

/-! ## Array and object literals -/

/-- What is kept of the elements of a literal. -/
structure Elements where
  /-- Whether the literal can be an assignment pattern. -/
  assignable : Bool := true
  /-- Whether the literal can be a binding pattern. -/
  binding : Bool := true
  shorthand? : Option Position := none
  deriving DecidableEq, Repr

/-- The elements with one more, and what it can be. -/
def Elements.push (es : Elements) (e : Summary) (assignable binding : Bool) : Elements :=
  ⟨es.assignable && assignable, es.binding && binding, es.shorthand?.or e.shorthand?⟩

/-- The summary of the literal. -/
def Elements.summary (es : Elements) (start : Position) : Summary :=
  ⟨if es.assignable then .pattern es.binding else .other, start, es.shorthand?⟩

/-- An array literal. Elements may be left out. -/
def arrayLiteral : Recognizer Summary := do
  let start := (← token).start
  advance
  let es ← loop ({} : Elements) fun es => do
    if ← isAt .closeBracket then return .done es
    if ← eat .comma then return .again es
    let es ←
      if ← eat .ellipsis then do
        let e ← assignmentOrPattern nested true
        let last ← isAt .closeBracket
        pure (es.push e (e.shape.isAssignmentTarget && last) (e.shape.isBindingTarget && last))
      else do
        let e ← assignmentOrPattern nested true
        pure (es.push e e.shape.isAssignmentElement e.shape.isBindingElement)
    unless ← isAt .closeBracket do expect .comma
    return .again es
  advance
  return es.summary start

/-- The expansion of a property of an object literal. Its shape is a pattern if the property can be one of a pattern. -/
def expandObjectMember : Recognizer Summary := do
  let start := (← token).start
  let m ← modifiers
  let key ← propertyName nested false
  if m.isSpecial || (← isAt .openParen) then
    method nested m false
    return .other start
  if ← eat .colon then
    let value ← assignmentOrPattern nested true
    let shape := if value.shape.isAssignmentElement then .pattern value.shape.isBindingElement else .other
    return ⟨shape, start, value.shorthand?⟩
  match key.identifier? with
  | some i =>
    checkReference i
    let shape := if (← context).forbidsAssigning i.name then .other else .pattern true
    let mark := (← token).start
    if ← eat .assign then
      discard (assignment nested true)
      return ⟨shape, start, some mark⟩
    else return ⟨shape, start, none⟩
  | none => unexpected

/-- An object literal. -/
def objectLiteral : Recognizer Summary := do
  let start := (← token).start
  advance
  let es ← itemsUntil .closeBrace ({} : Elements) fun es => do
    if ← eat .ellipsis then
      let e ← assignment nested true
      let last ← isAt .closeBrace
      return es.push e (e.shape.isSimpleTarget && last) (e.shape = .identifier true && last)
    else
      let e ← nested .objectMember
      return match e.shape with
        | .pattern binding => es.push e true binding
        | _ => es.push e false false
  advance
  return es.summary start

/-! ## Primary expressions -/

/-- A private name, which must be the left operand of `in`. -/
def privateOperand : Recognizer Summary := do
  let start := (← token).start
  requirePrivateScope
  advance
  unless ← isAtKeyword .«in» do unexpected
  return .other start

/-- A literal that is one token. -/
def tokenLiteral : Recognizer Summary := do
  let start := (← token).start
  advance
  return .other start

/-- A primary expression. A `/` that was read as an operator is read again as a regular expression. -/
def primary : Recognizer Summary := do
  if (← isAt .slash) || (← isAt .slashAssign) then rescan .regExp
  noteOperandStart
  let t ← token
  match t.kind with
  | .identifier name escaped => identifierExpression nested ⟨name, escaped, t.start⟩
  | .privateName _ => privateOperand
  | .number legacyOctal =>
    if legacyOctal && (← context).strict then fail .strictOctalLiteral t.start
    tokenLiteral
  | .string legacyOctalEscape =>
    if legacyOctalEscape && (← context).strict then fail .strictOctalEscape t.start
    tokenLiteral
  | .bigInt | .regExp | .keyword .this | .keyword .null | .keyword .true | .keyword .false => tokenLiteral
  | .template .. =>
    template nested false
    return .other t.start
  | .keyword .function => function nested false false false
  | .keyword .«class» => classDefinition nested false false
  | .punctuator .openParen => parenthesized nested
  | .punctuator .openBracket => arrayLiteral nested
  | .punctuator .openBrace => objectLiteral nested
  | _ => unexpected

/-! ## What follows an operand -/

/-- What follows `?.`. -/
def optionalMember : Recognizer Unit := do
  advance
  let t ← token
  if t.isPunctuator .openParen then arguments nested
  else if t.isPunctuator .openBracket then computedMember nested
  else if t.isTemplate then fail .templateAfterOptionalChain t.start
  else memberName

/-- One access, call or template after an operand; none means that nothing more follows. The result is the shape of the
whole and whether an optional chain has begun. -/
def callTailPart (allowCall inChain : Bool) (e : Summary) : Recognizer (Option (Shape × Bool)) := do
  let t ← token
  if t.isPunctuator .dot then
    rejectShorthand e
    advance
    memberName
    return some (.member, inChain)
  else if t.isPunctuator .optionalChain then
    unless allowCall do fail .optionalChainAfterNew t.start
    rejectShorthand e
    optionalMember nested
    return some (.other, true)
  else if t.isPunctuator .openBracket then
    rejectShorthand e
    computedMember nested
    return some (.member, inChain)
  else if allowCall && t.isPunctuator .openParen then
    rejectShorthand e
    arguments nested
    return some (.other, inChain)
  else if t.isTemplate then
    if inChain then fail .templateAfterOptionalChain t.start
    rejectShorthand e
    template nested true
    return some (.other, inChain)
  else return none

/-- All that follows an operand. What `new` constructs takes no arguments and no optional chain here. In an optional
chain nothing can be assigned to. -/
def callTail (allowCall : Bool) (operand : Summary) : Recognizer Summary := do
  if operand.shape = .arrow then return operand
  loop (operand, false) fun (e, inChain) => do
    match ← callTailPart nested allowCall inChain e with
    | some (shape, inChain) => return .again (⟨if inChain then .other else shape, e.start, none⟩, inChain)
    | none => return .done e

/-! ## The keywords `super`, `new` and `import` as operands -/

/-- A call of the super constructor or an access to a super property. -/
def superExpression : Recognizer Summary := do
  let start := (← token).start
  advance
  let c ← context
  if ← isAt .openParen then
    unless c.superCall do fail .unexpectedSuper start
    arguments nested
    return .other start
  unless c.superProperty do fail .unexpectedSuper start
  if ← isAt .dot then
    advance
    match (← token).kind with
    | .privateName _ => unexpected
    | _ => memberName
  else if ← isAt .openBracket then computedMember nested
  else fail .unexpectedSuper start
  return ⟨.member, start, none⟩

/-- `new.target` from its dot on. -/
def newTarget (start : Position) : Recognizer Summary := do
  advance
  unless ← isAtWord "target" do unexpected
  unless (← context).newTarget do fail .newTarget start
  advance
  return .other start

/-- What `new` constructs. -/
def constructed : Recognizer Summary := do
  let t ← token
  if t.isKeyword .new then nested .newExpression
  else if t.isKeyword .super then
    if (← peek).isPunctuator .openParen then fail .unexpectedSuper t.start
    superExpression nested
  else if t.isKeyword .«import» then fail .newImport t.start
  else primary nested

/-- A `new` expression. -/
def newExpression : Recognizer Summary := do
  let start := (← token).start
  advance
  if ← isAt .dot then newTarget start
  else
    let callee ← constructed nested
    requireOperand callee
    discard (callTail nested false callee)
    if ← isAt .openParen then arguments nested
    return .other start

/-- A dynamic import or `import.meta`. -/
def importExpression : Recognizer Summary := do
  let start := (← token).start
  advance
  if ← isAt .dot then
    advance
    unless ← isAtWord "meta" do unexpected
    unless (← get).isModule do fail .importMetaOutsideModule start
    advance
    return .other start
  expect .openParen
  discard (assignment nested true)
  if ← eat .comma then
    unless ← isAt .closeParen do
      discard (assignment nested true)
      discard (eat .comma)
  expect .closeParen
  return .other start

/-- An operand with all that follows it. -/
def leftHandSide : Recognizer Summary := notingOperandEnd do
  let t ← token
  let operand ←
    if t.isKeyword .new then newExpression nested
    else if t.isKeyword .super then superExpression nested
    else if t.isKeyword .«import» then importExpression nested
    else primary nested
  callTail nested true operand

end EcmaCheck.Grammar
