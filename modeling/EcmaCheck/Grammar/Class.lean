import EcmaCheck.Grammar.Function

/-!
# Classes

Class declarations and expressions. All parts of a class are strict code, private names are permitted between its
braces, and it has at most one constructor.
-/

namespace EcmaCheck.Grammar

variable (nested : Derivation)

/-- A static block from its brace on. -/
def staticBlock : Recognizer Unit :=
  inFunctionContext .ofStaticBlock do
    expect .openBrace
    statementList nested false
    expectWith .closeBrace .division

/-- What is wrong with a method of a class, if anything. -/
def methodError? (isStatic hasConstructor : Bool) (m : Modifiers) (publicName? : Option String) :
    Option GrammarError :=
  if !isStatic && publicName? = some "constructor" then
    if m.isSpecial then some .specialConstructor
    else if hasConstructor then some .repeatedConstructor
    else none
  else if isStatic && publicName? = some "prototype" then some .staticPrototype
  else none

/-- What is wrong with the name of a field, if anything. -/
def fieldError? (isStatic : Bool) (publicName? : Option String) : Option GrammarError :=
  match publicName? with
  | some name =>
    if name = "constructor" || (isStatic && name = "prototype") then some (.fieldName name) else none
  | none => none

/-- A method, an accessor or a field, after `static`. Tells whether the class has its constructor now. -/
def classMember (derived hasConstructor isStatic : Bool) : Recognizer Bool := do
  let m ← modifiers
  let start := (← token).start
  let key ← propertyName nested true
  if key.isPrivate && key.name? = some "constructor" then fail .privateConstructor start
  let publicName? := if key.isPrivate then none else key.name?
  if ← isAt .openParen then
    failIf (methodError? isStatic hasConstructor m publicName?) start
    let isConstructor := !isStatic && publicName? = some "constructor"
    method nested m (isConstructor && derived)
    return hasConstructor || isConstructor
  if m.isSpecial then unexpected
  failIf (fieldError? isStatic publicName?) start
  if ← eat .assign then
    inFunctionContext (← context).ofField (discard (assignment nested true))
  consumeSemicolon
  return hasConstructor

/-- The expansion of a class element. -/
def expandClassElement (derived hasConstructor : Bool) : Recognizer Bool := do
  if ← isAtWord "static" then
    let next ← peek
    if next.isPunctuator .openBrace then
      advance
      staticBlock nested
      return hasConstructor
    else if endsPropertyName next then classMember nested derived hasConstructor false
    else
      advance
      classMember nested derived hasConstructor true
  else classMember nested derived hasConstructor false

/-- The elements of a class up to its closing brace. Semicolons may stand between them. -/
def classBody (derived : Bool) : Recognizer Unit :=
  loop false fun hasConstructor => do
    let t ← token
    if t.isPunctuator .closeBrace then return .done ()
    if t.isEnd then unexpected
    if ← eat .semicolon then return .again hasConstructor
    return .again (← nested (.classElement derived hasConstructor))

/-- A class after its strictness has been set. -/
def classTail (declaration nameRequired : Bool) : Recognizer Unit := do
  advance
  match identifier? (← token) with
  | some i =>
    checkBinding true i
    advance
  | none => if nameRequired then expectedIdentifier
  let derived ← isAtKeyword .«extends»
  if derived then
    advance
    requireOperand (← nested .heritage)
  expect .openBrace
  modify fun s => { s with classDepth := s.classDepth + 1 }
  classBody nested derived
  modify fun s => { s with classDepth := s.classDepth - 1 }
  expectWith .closeBrace (if declaration then .regExp else .division)

/-- A class from the keyword `class` on. -/
def classDefinition (declaration nameRequired : Bool) : Recognizer Summary := do
  let outer ← get
  set { outer with context := { outer.context with strict := true } }
  classTail nested declaration nameRequired
  modify fun s => { s with context := { s.context with strict := outer.context.strict } }
  return .other outer.token.start

end EcmaCheck.Grammar
