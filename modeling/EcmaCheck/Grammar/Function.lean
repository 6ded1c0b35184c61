import EcmaCheck.Grammar.Binding

/-!
# Functions

Statement lists with their directives, function bodies, parameters, and function declarations, expressions and methods.
A `use strict` directive makes the rest of the list strict, and is refused after a string with a legacy octal escape and
in functions whose parameters are not plain identifiers.
-/

namespace EcmaCheck.Grammar

variable (nested : Derivation)

/-! ## Statement lists -/

/-- Statements up to a closing brace or the end of the text. -/
def statementList (topLevel : Bool) : Recognizer Unit :=
  loop () fun _ => do
    let t ← token
    if t.isEnd || t.isPunctuator .closeBrace then return .done ()
    nested (.statementListItem topLevel)
    return .again ()

/-- What the directives so far tell. -/
structure Directives where
  /-- The place of the first `use strict`. -/
  useStrict? : Option Position := none
  /-- The place of the first directive with a legacy octal escape. -/
  octalEscape? : Option Position := none
  deriving DecidableEq, Repr

/-- Whether a string token is the directive `use strict`, which must be spelled without escapes. -/
def isUseStrict (t : Token) : Bool :=
  t.lexeme = "\"use strict\"" || t.lexeme = "'use strict'"

/-- Takes a directive into account. -/
def noteDirective (directive : Token) (legacyOctalEscape : Bool) (d : Directives) : Recognizer Directives := do
  let octalEscape? := if legacyOctalEscape then d.octalEscape?.or (some directive.start) else d.octalEscape?
  if isUseStrict directive then
    if let some p := octalEscape? then fail .strictOctalEscape p
    modify fun s => { s with context := { s.context with strict := true } }
    return ⟨d.useStrict?.or (some directive.start), octalEscape?⟩
  else return { d with octalEscape? }

/-- The statements at the start of a list that begin with a string. Those that are a string alone are directives; the
first other one ends them. -/
def directives : Recognizer Directives :=
  loop {} fun d => do
    let first ← token
    match first.kind with
    | .string legacyOctalEscape =>
      discard (expression nested true)
      let isDirective := (← get).previousEnd.offset = first.stop.offset
      consumeSemicolon
      if isDirective then return .again (← noteDirective first legacyOctalEscape d) else return .done d
    | _ => return .done d

/-- The body of a function in braces; `simple` tells whether its parameters are plain identifiers. The token after it is
read under the goal. -/
def functionBody (simple : Bool) (close : LexicalGoal) : Recognizer Unit := do
  expect .openBrace
  let d ← directives nested
  statementList nested false
  if let (some p, false) := (d.useStrict?, simple) then fail .strictDirectiveParameters p
  expectWith .closeBrace close

/-! ## Parameters -/

/-- What is kept of a parameter list. -/
structure Parameters where
  count : Nat := 0
  /-- Whether all are plain identifiers. -/
  simple : Bool := true
  /-- Whether the last is a rest parameter. -/
  rest : Bool := false
  deriving DecidableEq, Repr

/-- A parameter list in parentheses. -/
def parameters : Recognizer Parameters := do
  expect .openParen
  let ps ← loop ({} : Parameters) fun ps => do
    if ← isAt .closeParen then return .done ps
    if ← eat .ellipsis then
      bindingTarget nested false
      requireLast .closeParen .restParameterNotLast
      return .done ⟨ps.count + 1, false, true⟩
    let isPlain ← bindingElement nested false
    unless ← isAt .closeParen do expect .comma
    return .again ⟨ps.count + 1, ps.simple && isPlain, ps.rest⟩
  expect .closeParen
  return ps

/-- What is wrong with the parameters of an accessor, if anything. -/
def accessorError? (accessor? : Option Accessor) (ps : Parameters) : Option GrammarError :=
  match accessor? with
  | some .getter => if ps.count = 0 then none else some .getterParameters
  | some .setter => if ps.count = 1 && !ps.rest then none else some .setterParameters
  | none => none

/-! ## Functions and methods -/

/-- The parameters and the body of a function, in its own context. -/
def parametersAndBody (m : Modifiers) (close : LexicalGoal) : Recognizer Unit := do
  let start := (← token).start
  let ps ← parameters nested
  failIf (accessorError? m.accessor? ps) start
  modify fun s => { s with context := s.context.inBody m.isGenerator m.isAsync }
  functionBody nested ps.simple close

/-- A function from the keyword `function` on; `async` before it has been consumed. A declaration binds its name in the
context around it, an expression in its own. -/
def function (isAsync declaration nameRequired : Bool) : Recognizer Summary := do
  let start := (← token).start
  advance
  let isGenerator ← eat .star
  let s ← get
  match identifier? s.token with
  | some i =>
    let binder :=
      if declaration then s.context else s.context.ofFunctionName s.isModule isGenerator isAsync
    failIf (binder.bindingError? false i) i.position
    advance
  | none => if nameRequired then expectedIdentifier
  inFunctionContext (.ofFunction s.context.strict s.isModule isGenerator isAsync)
    (parametersAndBody nested ⟨isAsync, isGenerator, none⟩ (if declaration then .regExp else .division))
  return .other start

/-- A function declaration with its name. -/
def functionDeclaration (isAsync : Bool) : Recognizer Unit :=
  discard (function nested isAsync true true)

/-- A method from its parameters on. -/
def method (m : Modifiers) (superCall : Bool) : Recognizer Unit := do
  let s ← get
  inFunctionContext (.ofMethod s.context.strict s.isModule m.isGenerator m.isAsync superCall)
    (parametersAndBody nested m .division)

end EcmaCheck.Grammar
