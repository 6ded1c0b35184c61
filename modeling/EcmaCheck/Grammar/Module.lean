import EcmaCheck.Grammar.Class
import EcmaCheck.Grammar.Statement

/-!
# Imports and exports

The declarations that only modules have, and only at their top level.
-/

namespace EcmaCheck.Grammar

variable (nested : Derivation)

/-- The string that names another module. -/
def moduleSpecifier : Recognizer Unit := do
  if (← token).isString then advance else unexpected

/-- A name under which something is exported: any name or a string. -/
def exportName : Recognizer Unit := do
  match (← token).kind with
  | .string _ | .identifier .. | .keyword _ => advanceWith .division
  | _ => unexpected

/-- The attributes of an import after its specifier, if there are any. -/
def importAttributes : Recognizer Unit := do
  let t ← token
  if t.isKeyword .«with» || (t.isWord "assert" && !t.newlineBefore) then
    advance
    expect .openBrace
    itemsUntil .closeBrace () fun _ => do
      exportName
      expect .colon
      moduleSpecifier
    advance

/-- The word `from` with the specifier of a module and its attributes, up to the end of the statement. -/
def fromClause : Recognizer Unit := do
  expectWord "from"
  moduleSpecifier
  importAttributes
  consumeSemicolon

/-! ## Imports -/

/-- One of the names imported in braces. A name that is no identifier must be bound to one. -/
def importSpecifier : Recognizer Unit := do
  match (← token).kind with
  | .string _ =>
    advance
    expectWord "as"
    bindingIdentifier true
  | .identifier .. | .keyword _ =>
    if (← peek).isWord "as" then
      advanceWith .division
      advance
    bindingIdentifier true
  | _ => unexpected

/-- The names imported in braces, or the whole module under one name. -/
def namedImports : Recognizer Unit := do
  if ← eat .star then
    expectWord "as"
    bindingIdentifier true
  else if ← isAt .openBrace then
    advance
    itemsUntil .closeBrace () fun _ => importSpecifier
    advance
  else unexpected

/-- An import declaration. -/
def importDeclaration : Recognizer Unit := do
  advance
  let t ← token
  if t.isString then
    advance
    importAttributes
    consumeSemicolon
  else
    let more ←
      if t.isIdentifier then do
        bindingIdentifier true
        eat .comma
      else pure true
    if more then namedImports
    fromClause

/-! ## Exports -/

/-- The names exported in braces. The result is the fault of the first that no variable of this module can have, which
is one only if no other module is named. -/
def exportClause : Recognizer (Option Fault) := do
  advance
  let foreign? ← itemsUntil .closeBrace (none : Option Fault) fun foreign? => do
    let t ← token
    let foreign? := if t.isIdentifier then foreign? else foreign?.or (some (unexpectedFault t))
    exportName
    if ← isAtWord "as" then
      advance
      exportName
    return foreign?
  advance
  return foreign?

/-- The export of all names of another module, after the star. -/
def exportAll : Recognizer Unit := do
  if ← isAtWord "as" then
    advance
    exportName
  fromClause

/-- The export of names in braces. -/
def exportNames : Recognizer Unit := do
  let foreign? ← exportClause
  if ← isAtWord "from" then fromClause
  else
    if let some f := foreign? then throw f
    consumeSemicolon

/-- A default export from the word `default` on. -/
def exportDefault : Recognizer Unit := do
  advance
  if ← isAtKeyword .function then discard (function nested false true false)
  else if ← isAtAsyncFunction then
    advance
    discard (function nested true true false)
  else if ← isAtKeyword .«class» then discard (classDefinition nested true false)
  else
    discard (assignment nested true)
    consumeSemicolon

/-- An export declaration. -/
def exportDeclaration : Recognizer Unit := do
  advance
  if ← eat .star then exportAll
  else if ← isAt .openBrace then exportNames
  else if ← isAtKeyword .default then exportDefault nested
  else if ← isAtKeyword .var then declarationStatement nested .variable
  else if ← isAtKeyword .const then declarationStatement nested .constant
  else if ← isAtWord "let" then declarationStatement nested .let
  else if ← isAtKeyword .function then functionDeclaration nested false
  else if ← isAtAsyncFunction then
    advance
    functionDeclaration nested true
  else if ← isAtKeyword .«class» then discard (classDefinition nested true true)
  else unexpected

end EcmaCheck.Grammar
