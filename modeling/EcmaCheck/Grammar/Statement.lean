import EcmaCheck.Grammar.Function

/-!
# Statements

Declarations of variables, control statements, jumps and labels. `break` and `continue` find their labels in the current
function; only the labels directly before a loop can be continued.
-/

namespace EcmaCheck.Grammar

variable (nested : Derivation)

/-! ## Declarations -/

/-- The words that declare variables. -/
inductive DeclarationKind where
  | «variable»
  | «let»
  | constant
  deriving DecidableEq, Repr

/-- What is kept of a list of declarations. -/
structure Declarations where
  count : Nat := 0
  hasInitializer : Bool := false
  /-- Whether the first declares a pattern. -/
  firstIsPattern : Bool := false
  /-- The first that lacks an initializer it should have. -/
  missing? : Option Fault := none
  deriving DecidableEq, Repr

/-- What it is to lack an initializer, if the declaration should have one. -/
def missingInitializer? (kind : DeclarationKind) (isPattern : Bool) : Option GrammarError :=
  if isPattern then some .missingPatternInitializer
  else if kind = .constant then some .missingConstInitializer
  else none

/-- One declaration. In the head of a `for` an initializer may turn out not to be missed. -/
def declaration (kind : DeclarationKind) (inFor : Bool) (ds : Declarations) : Recognizer Declarations := do
  let isPattern := !(← token).isIdentifier
  bindingTarget nested (kind ≠ .variable)
  let ds := { ds with
    count := ds.count + 1
    firstIsPattern := if ds.count = 0 then isPattern else ds.firstIsPattern }
  if ← eat .assign then
    discard (assignment nested !inFor)
    return { ds with hasInitializer := true }
  else
    match ds.missing?, missingInitializer? kind isPattern with
    | none, some e =>
      let fault := .grammatical e (← token).start
      if inFor then return { ds with missing? := some fault } else throw fault
    | _, _ => return ds

/-- Declarations with commas between them. -/
def declarations (kind : DeclarationKind) (inFor : Bool) : Recognizer Declarations :=
  loop {} fun ds => do
    let ds ← declaration nested kind inFor ds
    if ← eat .comma then return .again ds else return .done ds

/-- A declaration statement from its word on. -/
def declarationStatement (kind : DeclarationKind) : Recognizer Unit := do
  advance
  discard (declarations nested kind false)
  consumeSemicolon

/-- Whether a declaration with `let` comes next: in sloppy code only if a target follows the word. -/
def isAtLetDeclaration : Recognizer Bool := do
  if ← isAtWord "let" then
    let next ← peek
    return next.isIdentifier || next.isPunctuator .openBracket || next.isPunctuator .openBrace || (← context).strict
  else return false

/-! ## Blocks, conditions and bodies -/

/-- A block. -/
def block : Recognizer Unit := do
  expect .openBrace
  statementList nested false
  expectWith .closeBrace .regExp

/-- An expression in parentheses before a body. -/
def condition : Recognizer Unit := do
  expect .openParen
  discard (expression nested true)
  expectWith .closeParen .regExp

/-- The body of a branch of `if`. In sloppy code it may be a function declaration, but not one of a generator. -/
def branch : Recognizer Unit := do
  let c ← context
  if (← isAtKeyword .function) && !c.strict then
    if (← peek).isPunctuator .star then statement nested else nested .functionBodyStatement
  else statement nested

/-- An `if` statement. -/
def ifStatement : Recognizer Unit := do
  advance
  condition nested
  branch nested
  if ← isAtKeyword .«else» then
    advance
    branch nested

/-- The body of a loop. -/
def loopBody : Recognizer Unit := do
  let outer ← context
  modify fun s => { s with context := { s.context with inIteration := true, inBreakable := true } }
  statement nested
  modify fun s =>
    { s with context :=
      { s.context with inIteration := outer.inIteration, inBreakable := outer.inBreakable } }

/-! ## Loops -/

/-- A `while` statement. -/
def whileStatement : Recognizer Unit := do
  advance
  condition nested
  loopBody nested

/-- A `do` statement. Anything may follow it on the same line. -/
def doStatement : Recognizer Unit := do
  advance
  loopBody nested
  unless ← isAtKeyword .«while» do unexpected
  advance
  condition nested
  if ← isAt .semicolon then advanceWith .regExp else omitSemicolon

/-- The rest of a `for` statement with three clauses, after its first semicolon. -/
def forClauses : Recognizer Unit := do
  unless ← isAt .semicolon do discard (expression nested true)
  expect .semicolon
  unless ← isAt .closeParen do discard (expression nested true)
  expectWith .closeParen .regExp
  loopBody nested

/-- The rest of a `for`-`in` or `for`-`of` statement, from that word on. -/
def forEach (kind : ForLoop) (isAwait : Bool) : Recognizer Unit := do
  if isAwait && kind = .forIn then unexpected
  advance
  match kind with
  | .forOf => discard (assignment nested true)
  | .forIn => discard (expression nested true)
  expectWith .closeParen .regExp
  loopBody nested

/-- The loop that the word after a head announces. -/
def forLoop? : Recognizer (Option ForLoop) := do
  let t ← token
  return if t.isWord "of" then some .forOf else if t.isKeyword .«in» then some .forIn else none

/-- What is wrong with declarations as the head of a loop, if anything. Sloppy code may initialize the one variable
declared with `var` before `in`. -/
def loopHeadError? (kind : DeclarationKind) (strict : Bool) (ds : Declarations) (l : ForLoop) :
    Option GrammarError :=
  if ds.count ≠ 1 then some (.loopBindingCount l)
  else if ds.hasInitializer && !(kind = .variable && l = .forIn && !strict && !ds.firstIsPattern) then
    some (.loopBindingInitializer l)
  else none

/-- A `for` statement whose head declares variables, from the declaring word on. -/
def forDeclaration (kind : DeclarationKind) (isAwait : Bool) : Recognizer Unit := do
  let headStart := (← token).start
  advance
  let ds ← declarations nested kind true
  match ← forLoop? with
  | some l =>
    failIf (loopHeadError? kind (← context).strict ds l) headStart
    forEach nested l isAwait
  | none =>
    if let some f := ds.missing? then throw f
    if isAwait then unexpected
    expect .semicolon
    forClauses nested

/-- A `for` statement whose head is an expression. -/
def forExpression (isAwait : Bool) : Recognizer Unit := do
  let first ← token
  let head ← expressionOrPattern nested false
  match ← forLoop? with
  | some l =>
    if l = .forOf && first.isWord "let" then fail .forOfLet first.start
    if l = .forOf && first.isWord "async" && !isAwait && head.shape.isIdentifier then fail .forOfAsync first.start
    unless head.shape.isAssignmentTarget do fail .forTarget head.start
    forEach nested l isAwait
  | none =>
    rejectShorthand head
    if isAwait then unexpected
    expect .semicolon
    forClauses nested

/-- The `await` after `for`, if there is one. -/
def forAwait : Recognizer Bool := do
  if ← isAtWord "await" then
    unless (← context).awaitOperator do unexpected
    advance
    return true
  else return false

/-- A `for` statement. -/
def forStatement : Recognizer Unit := do
  advance
  let isAwait ← forAwait
  expect .openParen
  if ← isAt .semicolon then
    if isAwait then unexpected
    advance
    forClauses nested
  else if ← isAtKeyword .var then forDeclaration nested .variable isAwait
  else if ← isAtKeyword .const then forDeclaration nested .constant isAwait
  else if ← isAtLetDeclaration then forDeclaration nested .let isAwait
  else forExpression nested isAwait

/-! ## Jumps -/

/-- The label after `break` or `continue`, on the same line. -/
def jumpLabel? : Recognizer (Option Identifier) := do
  let t ← token
  return if t.newlineBefore then none else identifier? t

/-- What is wrong with continuing the statement with the label, if anything. -/
def continueError? (labels : List Label) (name : String) : Option GrammarError :=
  match labels.find? (·.name = name) with
  | some l => if l.iteration then none else some (.continueTarget name)
  | none => some (.undefinedLabel name)

/-- A `continue` statement. -/
def continueStatement : Recognizer Unit := do
  let start := (← token).start
  advance
  match ← jumpLabel? with
  | some i =>
    failIf (continueError? (← get).labels i.name) i.position
    advance
  | none => unless (← context).inIteration do fail .continueOutsideLoop start
  consumeSemicolon

/-- A `break` statement. -/
def breakStatement : Recognizer Unit := do
  let start := (← token).start
  advance
  match ← jumpLabel? with
  | some i =>
    unless (← get).labels.any (·.name = i.name) do fail (.undefinedLabel i.name) i.position
    advance
  | none => unless (← context).inBreakable do fail .illegalBreak start
  consumeSemicolon

/-- A `return` statement. -/
def returnStatement : Recognizer Unit := do
  unless (← context).inFunction do fail .illegalReturn (← token).start
  advance
  let t ← token
  unless t.newlineBefore || t.isPunctuator .semicolon || t.isPunctuator .closeBrace || t.isEnd do
    discard (expression nested true)
  consumeSemicolon

/-- A `throw` statement. -/
def throwStatement : Recognizer Unit := do
  advance
  let t ← token
  if t.newlineBefore then fail .newlineAfterThrow t.start
  discard (expression nested true)
  consumeSemicolon

/-! ## Other statements -/

/-- A `with` statement. -/
def withStatement : Recognizer Unit := do
  if (← context).strict then fail .strictWith (← token).start
  advance
  condition nested
  statement nested

/-- A `case` or `default` clause with its statements; `hasDefault` tells whether a clause before is the default one.
Tells whether one is now. -/
def caseClause (hasDefault : Bool) : Recognizer Bool := do
  let t ← token
  if t.isKeyword .case then
    advance
    discard (expression nested true)
  else if t.isKeyword .default then
    if hasDefault then fail .repeatedDefault t.start
    advance
  else unexpected
  expect .colon
  loop () fun _ => do
    let t ← token
    if t.isPunctuator .closeBrace || t.isKeyword .case || t.isKeyword .default || t.isEnd then return .done ()
    nested (.statementListItem false)
    return .again ()
  return hasDefault || t.isKeyword .default

/-- The clauses of a `switch` statement. -/
def caseClauses : Recognizer Unit :=
  loop false fun hasDefault => do
    if ← isAt .closeBrace then return .done ()
    return .again (← caseClause nested hasDefault)

/-- A `switch` statement. -/
def switchStatement : Recognizer Unit := do
  advance
  expect .openParen
  discard (expression nested true)
  expect .closeParen
  expect .openBrace
  let outer ← context
  modify fun s => { s with context := { s.context with inBreakable := true } }
  caseClauses nested
  modify fun s => { s with context := { s.context with inBreakable := outer.inBreakable } }
  expectWith .closeBrace .regExp

/-- The handler of a `try` statement, if it has one. -/
def catchClause : Recognizer Bool := do
  if ← isAtKeyword .«catch» then
    advance
    if ← eat .openParen then
      bindingTarget nested false
      expect .closeParen
    block nested
    return true
  else return false

/-- The final block of a `try` statement, if it has one. -/
def finallyClause : Recognizer Bool := do
  if ← isAtKeyword .«finally» then
    advance
    block nested
    return true
  else return false

/-- A `try` statement. -/
def tryStatement : Recognizer Unit := do
  advance
  block nested
  let caught ← catchClause nested
  let finalized ← finallyClause nested
  unless caught || finalized do fail .missingHandler (← token).start

/-! ## Labels -/

/-- Marks the labels directly before a loop, the innermost `attached` ones. -/
def markIteration (attached : Nat) (labels : List Label) : List Label :=
  (labels.take attached).map (fun l => { l with iteration := true }) ++ labels.drop attached

theorem length_markIteration (attached : Nat) (labels : List Label) :
    (markIteration attached labels).length = labels.length := by
  rw [markIteration, List.length_append, List.length_map, ← List.length_append, List.take_append_drop]

/-- Marks the labels attached to a loop that the current token begins. -/
def markLabels (attached : Nat) : Recognizer Unit := do
  let s ← get
  if s.labels.length < attached then throw (.labelsMissing s.token.start)
  modify fun s => { s with labels := markIteration attached s.labels }

theorem markLabels_of_le {attached : Nat} {s : State} (h : attached ≤ s.labels.length) :
    markLabels attached s = .ok () { s with labels := markIteration attached s.labels } :=
  congrFun (if_neg (Nat.not_lt_of_le h)) s

/-- A statement with a label, which follows `attached` others. In sloppy code the statement may be a function
declaration. -/
def labelledStatement (attached : Nat) (i : Identifier) : Recognizer Unit := do
  checkReference i
  let labels := (← get).labels
  if labels.any (·.name = i.name) then fail (.repeatedLabel i.name) i.position
  modify fun s => { s with labels := ⟨i.name, false⟩ :: labels }
  advance
  expectWith .colon .regExp
  let isFunction ← isAtKeyword .function
  if isFunction && !(← context).strict then nested .functionBodyStatement
  else
    modify fun s => { s with attachedLabels := attached + 1 }
    statement nested
  modify fun s => { s with attachedLabels := 0, labels := s.labels.tail }

/-- A statement that begins with an identifier. -/
def identifierStatement (attached : Nat) (i : Identifier) : Recognizer Unit := do
  let t ← token
  let next ← peek
  if next.isPunctuator .colon then labelledStatement nested attached i
  else
    if t.isWord "let" && next.isPunctuator .openBracket then fail .declarationStatement t.start
    if t.isWord "async" && next.isKeyword .function && !next.newlineBefore then
      fail .asyncFunctionStatement t.start
    discard (expression nested true)
    consumeSemicolon

/-- The expansion of a statement. -/
def expandStatement : Recognizer Unit := do
  let attached := (← get).attachedLabels
  modify fun s => { s with attachedLabels := 0 }
  let t ← token
  match t.kind with
  | .keyword .var => declarationStatement nested .variable
  | .keyword .«if» => ifStatement nested
  | .keyword .«for» =>
    markLabels attached
    forStatement nested
  | .keyword .«while» =>
    markLabels attached
    whileStatement nested
  | .keyword .«do» =>
    markLabels attached
    doStatement nested
  | .keyword .«continue» => continueStatement
  | .keyword .«break» => breakStatement
  | .keyword .«return» => returnStatement nested
  | .keyword .«with» => withStatement nested
  | .keyword .switch => switchStatement nested
  | .keyword .throw => throwStatement nested
  | .keyword .«try» => tryStatement nested
  | .keyword .debugger =>
    advance
    consumeSemicolon
  | .keyword .function => fail (.functionStatement (← context).strict) t.start
  | .keyword .«class» | .keyword .const => fail .declarationStatement t.start
  | .punctuator .openBrace => block nested
  | .punctuator .semicolon => advanceWith .regExp
  | .identifier name escaped => identifierStatement nested attached ⟨name, escaped, t.start⟩
  | _ =>
    discard (expression nested true)
    consumeSemicolon

end EcmaCheck.Grammar
