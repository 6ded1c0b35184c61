import EcmaCheck.Grammar.Property

/-!
# Binding patterns

The targets of declarations, parameters and `catch` clauses: identifiers, and array and object patterns of targets with
defaults.
-/

namespace EcmaCheck.Grammar

/-- An identifier that is bound. -/
def bindingIdentifier (lexical : Bool) : Recognizer Unit := do
  match identifier? (← token) with
  | some i =>
    checkBinding lexical i
    advance
  | none => expectedIdentifier

variable (nested : Derivation)

/-- A target with or without a default. Tells whether it is an identifier without one. -/
def bindingElement (lexical : Bool) : Recognizer Bool := do
  let isPlain := (← token).isIdentifier
  bindingTarget nested lexical
  if ← eat .assign then
    discard (assignment nested true)
    return false
  else return isPlain

/-- Stops unless the closing punctuator comes next, as a rest element must be the last. -/
def requireLast (close : Punctuator) (e : GrammarError) : Recognizer Unit := do
  let t ← token
  unless t.isPunctuator close do fail e t.start

/-- An array pattern. Elements may be left out. -/
def arrayBinding (lexical : Bool) : Recognizer Unit := do
  advance
  loop () fun _ => do
    if ← isAt .closeBracket then return .done ()
    if ← eat .comma then return .again ()
    if ← eat .ellipsis then
      bindingTarget nested lexical
      requireLast .closeBracket .restElementNotLast
      return .done ()
    discard (bindingElement nested lexical)
    unless ← isAt .closeBracket do expect .comma
    return .again ()
  advance

/-- A property of an object pattern: a name with a target, or an identifier that is both. -/
def propertyBinding (lexical : Bool) : Recognizer Unit := do
  let key ← propertyName nested false
  if ← eat .colon then discard (bindingElement nested lexical)
  else
    match key.identifier? with
    | some i =>
      checkBinding lexical i
      if ← eat .assign then discard (assignment nested true)
    | none => unexpected

/-- An object pattern. -/
def objectBinding (lexical : Bool) : Recognizer Unit := do
  advance
  loop () fun _ => do
    if ← isAt .closeBrace then return .done ()
    if ← eat .ellipsis then
      bindingIdentifier lexical
      requireLast .closeBrace .restElementNotLast
      return .done ()
    propertyBinding nested lexical
    unless ← isAt .closeBrace do expect .comma
    return .again ()
  advance

/-- The expansion of a binding target. -/
def expandBindingTarget (lexical : Bool) : Recognizer Unit := do
  if ← isAt .openBracket then arrayBinding nested lexical
  else if ← isAt .openBrace then objectBinding nested lexical
  else bindingIdentifier lexical

end EcmaCheck.Grammar
