import EcmaCheck.Grammar.Production

/-!
# Property names

The names of properties in object literals, patterns and classes, and the words that may stand before the name of a
method.
-/

namespace EcmaCheck.Grammar

/-- The accessors. -/
inductive Accessor where
  | getter
  | setter
  deriving DecidableEq, Repr

/-- What stands before the name of a method. -/
structure Modifiers where
  isAsync : Bool
  isGenerator : Bool
  accessor? : Option Accessor
  deriving DecidableEq, Repr

/-- Whether only a method can have the modifiers. -/
def Modifiers.isSpecial (m : Modifiers) : Bool :=
  m.isAsync || m.isGenerator || m.accessor?.isSome

/-- The name of a property. -/
structure PropertyKey where
  /-- The identifier that the name is, which may stand for a variable too. -/
  identifier? : Option Identifier := none
  /-- The name, where it is known from the text. -/
  name? : Option String := none
  isPrivate : Bool := false
  deriving DecidableEq, Repr

/-- Whether a word before the token is itself the name of a property. -/
def endsPropertyName (t : Token) : Bool :=
  t.isEnd || t.isPunctuator .openParen || t.isPunctuator .colon || t.isPunctuator .assign || t.isPunctuator .comma ||
    t.isPunctuator .semicolon || t.isPunctuator .closeBrace

/-- The words and the star before the name of a property. Each of the words is a name itself before certain tokens, and
`async` also at the end of a line. -/
def modifiers : Recognizer Modifiers := do
  let t ← token
  if t.isWord "async" then
    let next ← peek
    let isAsync := !next.newlineBefore && !endsPropertyName next
    if isAsync then advance
    return ⟨isAsync, ← eat .star, none⟩
  else if t.isWord "get" || t.isWord "set" then
    if endsPropertyName (← peek) then return ⟨false, ← eat .star, none⟩
    advance
    return ⟨false, false, some (if t.isWord "get" then .getter else .setter)⟩
  else return ⟨false, ← eat .star, none⟩

/-- The text of a string literal between its quotes, if it has no escapes. -/
def plainStringValue? (lexeme : String) : Option String :=
  let text := lexeme.toList
  if text.contains '\\' then none else some (String.ofList ((text.drop 1).dropLast))

variable (nested : Derivation)

/-- The name of a property. A private name is only permitted with `allowPrivate`. -/
def propertyName (allowPrivate : Bool) : Recognizer PropertyKey := do
  let t ← token
  match t.kind with
  | .identifier name escaped =>
    advanceWith .division
    return { identifier? := some ⟨name, escaped, t.start⟩, name? := some name }
  | .keyword k =>
    advanceWith .division
    return { name? := some k.spelling }
  | .string _ =>
    advanceWith .division
    return { name? := plainStringValue? t.lexeme }
  | .number legacyOctal =>
    if legacyOctal && (← context).strict then fail .strictOctalLiteral t.start
    advanceWith .division
    return {}
  | .bigInt =>
    advanceWith .division
    return {}
  | .privateName name =>
    if allowPrivate then
      advanceWith .division
      return { name? := some name, isPrivate := true }
    else unexpected
  | .punctuator .openBracket =>
    advance
    discard (assignment nested true)
    expectWith .closeBracket .division
    return {}
  | _ => unexpected

end EcmaCheck.Grammar
