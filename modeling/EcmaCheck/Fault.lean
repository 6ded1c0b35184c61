import EcmaCheck.Diagnostic

/-!
# Faults

Why a text is not a program. `LexicalError` lists the ways a lexeme can be malformed, `GrammarError` the ways tokens can
violate the grammar; a `Fault` is one of them at its position, or nesting beyond the limit. The wording of each is in
one `message` function, and `Fault.diagnostic` says how a fault is told.
-/

namespace EcmaCheck

/-- A character as it is quoted in a message: printable ASCII as it is, but quotes and the backslash after a backslash,
anything else as an escape. -/
def quoteChar (c : Char) : String :=
  if c = '\t' then "\\t"
  else if c = '\r' then "\\r"
  else if c = '\n' then "\\n"
  else if c = '\'' || c = '"' || c = '\\' then "\\" ++ c.toString
  else if ' ' ≤ c && c ≤ '~' then c.toString
  else "\\u\x7b" ++ String.ofList (Nat.toDigits 16 c.toNat) ++ "\x7d"

/-- The ways a lexeme can be malformed. -/
inductive LexicalError where
  /-- The bytes are not UTF-8. -/
  | invalidUtf8
  /-- No token begins with the character. -/
  | unexpectedCharacter (c : Char)
  /-- A number sign without a name after it. -/
  | bareNumberSign
  | unterminatedComment
  | unterminatedString
  | unterminatedTemplate
  | unterminatedRegExp
  /-- An `x` escape without two hexadecimal digits. -/
  | hexEscape
  /-- A `u` escape that names no code point, or none that may stand there. -/
  | unicodeEscape
  /-- A `u` escape in braces beyond the last code point. -/
  | codePointTooLarge
  /-- A malformed escape in a template without a tag. -/
  | templateEscape
  /-- Flags that may not stand together, or an escape among them. -/
  | regExpFlags
  | regExpFlag (c : Char)
  /-- A radix mark without digits. -/
  | radixWithoutDigits (radix : Nat)
  | separatorAfterLeadingZero
  | misplacedSeparator
  | trailingSeparator
  | emptyExponent
  /-- A legacy octal literal with a separator or a suffix. -/
  | legacyOctalSuffix
  /-- A numeric literal that runs into a name or a digit. -/
  | numberRunsOn
  deriving DecidableEq, Repr

/-- The wording of a lexical error. -/
def LexicalError.message : LexicalError → String
  | invalidUtf8 => "Invalid UTF-8 sequence"
  | unexpectedCharacter c => "Invalid or unexpected token '" ++ quoteChar c ++ "'"
  | bareNumberSign => "Invalid or unexpected token '#'"
  | unterminatedComment => "Unterminated multi-line comment"
  | unterminatedString => "Unterminated string literal"
  | unterminatedTemplate => "Unterminated template literal"
  | unterminatedRegExp => "Unterminated regular expression literal"
  | hexEscape => "Invalid hexadecimal escape sequence"
  | unicodeEscape => "Invalid Unicode escape sequence"
  | codePointTooLarge => "Undefined Unicode code-point"
  | templateEscape => "Invalid escape sequence in template literal"
  | regExpFlags => "Invalid regular expression flags"
  | regExpFlag c => "Invalid regular expression flag '" ++ c.toString ++ "'"
  | radixWithoutDigits radix => "Expected digits after radix " ++ toString radix ++ " prefix"
  | separatorAfterLeadingZero => "Numeric separator can not be used after leading 0"
  | misplacedSeparator => "Numeric separators are not allowed here"
  | trailingSeparator => "Numeric separators are not allowed at the end of numeric literals"
  | emptyExponent => "Invalid exponent in numeric literal"
  | legacyOctalSuffix => "Invalid legacy octal literal"
  | numberRunsOn => "Invalid or unexpected token after numeric literal"

/-- The two loops whose head may declare a variable without a semicolon. -/
inductive ForLoop where
  | forIn
  | forOf
  deriving DecidableEq, Repr

/-- The loop as messages name it. -/
def ForLoop.name : ForLoop → String
  | forIn => "for-in"
  | forOf => "for-of"

/-- The ways tokens can violate the grammar. -/
inductive GrammarError where
  | unexpectedEnd
  /-- A token that cannot stand here, described. -/
  | unexpectedToken (found : String)
  /-- Not the identifier that must stand here but something else, described. -/
  | expectedIdentifier (found : String)
  /-- A keyword spelled with an escape. -/
  | escapedKeyword
  | reservedYield
  | reservedAwait
  /-- `arguments` in a field initializer or a static block. -/
  | argumentsInField
  | strictReservedWord
  /-- `eval` or `arguments` bound in strict code. -/
  | strictBinding
  /-- `let` bound by a lexical declaration. -/
  | letBinding
  | strictOctalEscape
  | strictOctalLiteral
  /-- A `use strict` directive after parameters that are not plain identifiers. -/
  | strictDirectiveParameters
  | importOutsideModule
  | importMetaOutsideModule
  /-- A function declaration as a bare statement. -/
  | functionStatement (strict : Bool)
  /-- A lexical or class declaration as a bare statement. -/
  | declarationStatement
  | asyncFunctionStatement
  | missingPatternInitializer
  | missingConstInitializer
  | loopBindingCount (loop : ForLoop)
  | loopBindingInitializer (loop : ForLoop)
  | forOfLet
  | forOfAsync
  | forTarget
  | undefinedLabel (name : String)
  | repeatedLabel (name : String)
  /-- `continue` with the label of something that is no loop. -/
  | continueTarget (name : String)
  | continueOutsideLoop
  | illegalBreak
  | illegalReturn
  | newlineAfterThrow
  | strictWith
  | repeatedDefault
  | missingHandler
  /-- `= value` in an object literal that did not turn out to be a pattern. -/
  | shorthandInitializer
  /-- An arrow after what cannot be parameters, or an arrow function as an operand. -/
  | arrowParameters
  | assignmentTarget
  | prefixTarget
  | postfixTarget
  /-- A prefix operator directly left of `**`. -/
  | unaryBeforePower
  | strictDelete
  | newTarget
  | unexpectedSuper
  | newImport
  | optionalChainAfterNew
  | templateAfterOptionalChain
  /-- A private name outside class bodies, as written. -/
  | undeclaredPrivate (written : String)
  | restParameterNotLast
  | restElementNotLast
  | getterParameters
  | setterParameters
  | privateConstructor
  | specialConstructor
  | repeatedConstructor
  | staticPrototype
  /-- A field named like the constructor, or a static field named like the prototype. -/
  | fieldName (name : String)
  deriving DecidableEq, Repr

/-- The wording of a grammar error. -/
def GrammarError.message : GrammarError → String
  | unexpectedEnd => "Unexpected end of input"
  | unexpectedToken found => "Unexpected token " ++ found
  | expectedIdentifier found => "Expected identifier, got " ++ found
  | escapedKeyword => "Keyword must not contain escaped characters"
  | reservedYield => "Unexpected identifier 'yield'"
  | reservedAwait => "Unexpected reserved word 'await'"
  | argumentsInField => "'arguments' is not allowed in class field initializer or static initialization block"
  | strictReservedWord => "Unexpected strict mode reserved word"
  | strictBinding => "Unexpected eval or arguments in strict mode"
  | letBinding => "let is disallowed as a lexically bound name"
  | strictOctalEscape => "Octal escape sequences are not allowed in strict mode."
  | strictOctalLiteral => "Octal literals are not allowed in strict mode."
  | strictDirectiveParameters => "Illegal 'use strict' directive in function with non-simple parameter list"
  | importOutsideModule => "Cannot use import statement outside a module"
  | importMetaOutsideModule => "Cannot use 'import.meta' outside a module"
  | functionStatement true =>
    "In strict mode code, functions can only be declared at top level or inside a block."
  | functionStatement false =>
    "In non-strict mode code, functions can only be declared at top level, inside a block, or as the body of an " ++
      "if statement."
  | declarationStatement => "Lexical declaration cannot appear in a single-statement context"
  | asyncFunctionStatement => "Async functions can only be declared at the top level or inside a block."
  | missingPatternInitializer => "Missing initializer in destructuring declaration"
  | missingConstInitializer => "Missing initializer in const declaration"
  | loopBindingCount loop => "Invalid left-hand side in " ++ loop.name ++ " loop: Must have a single binding."
  | loopBindingInitializer loop => loop.name ++ " loop variable declaration may not have an initializer."
  | forOfLet => "The left-hand side of a for-of loop may not be 'let'."
  | forOfAsync => "The left-hand side of a for-of loop may not be 'async'."
  | forTarget => "Invalid left-hand side in for-loop"
  | undefinedLabel name => "Undefined label '" ++ name ++ "'"
  | repeatedLabel name => "Label '" ++ name ++ "' has already been declared"
  | continueTarget name =>
    "Illegal continue statement: '" ++ name ++ "' does not denote an iteration statement"
  | continueOutsideLoop => "Illegal continue statement: no surrounding iteration statement"
  | illegalBreak => "Illegal break statement"
  | illegalReturn => "Illegal return statement"
  | newlineAfterThrow => "Illegal newline after throw"
  | strictWith => "Strict mode code may not include a with statement"
  | repeatedDefault => "More than one default clause in switch statement"
  | missingHandler => "Missing catch or finally after try"
  | shorthandInitializer => "Invalid shorthand property initializer"
  | arrowParameters => "Malformed arrow function parameter list"
  | assignmentTarget => "Invalid left-hand side in assignment"
  | prefixTarget => "Invalid left-hand side expression in prefix operation"
  | postfixTarget => "Invalid left-hand side expression in postfix operation"
  | unaryBeforePower =>
    "Unary operator used immediately before exponentiation expression. Parenthesis must be used to " ++
      "disambiguate operator precedence"
  | strictDelete => "Delete of an unqualified identifier in strict mode."
  | newTarget => "new.target expression is not allowed here"
  | unexpectedSuper => "'super' keyword unexpected here"
  | newImport => "Cannot use new with import"
  | optionalChainAfterNew => "Invalid optional chain from new expression"
  | templateAfterOptionalChain => "Invalid tagged template on optional chain"
  | undeclaredPrivate written => "Private field '" ++ written ++ "' must be declared in an enclosing class"
  | restParameterNotLast => "Rest parameter must be last formal parameter"
  | restElementNotLast => "Rest element must be last element"
  | getterParameters => "Getter must not have any formal parameters."
  | setterParameters => "Setter must have exactly one formal parameter."
  | privateConstructor => "Classes may not have a private field named '#constructor'"
  | specialConstructor => "Class constructor may not be a special method"
  | repeatedConstructor => "A class may only have one constructor"
  | staticPrototype => "Classes may not have a static property named 'prototype'"
  | fieldName name => "Classes may not have a field named '" ++ name ++ "'"

/-- Why the reading of a text stopped, and where. -/
inductive Fault where
  | lexical (error : LexicalError) (position : Position)
  | grammatical (error : GrammarError) (position : Position)
  /-- The text nests deeper than `limit` levels. -/
  | tooDeep (limit : Nat) (position : Position)
  /-- A repetition did not get on within the turns that the length of the text allows. -/
  | stalled (position : Position)
  /-- More labels are attached to a statement than are around it. -/
  | labelsMissing (position : Position)
  deriving DecidableEq, Repr

namespace Fault

/-- Where the reading stopped. -/
def position : Fault → Position
  | lexical _ p | grammatical _ p | tooDeep _ p | stalled p | labelsMissing p => p

/-- How the fault is told. -/
def diagnostic : Fault → Diagnostic
  | lexical error p => .lexError error.message p
  | grammatical error p => .grammarError error.message p
  | tooDeep limit p => .tooDeep p limit
  | stalled p => ⟨.internal, "the reading of the text does not get on", some p⟩
  | labelsMissing p => ⟨.internal, "the labels of the statement are missing", some p⟩

theorem position?_diagnostic (fault : Fault) : fault.diagnostic.position? = some fault.position := by
  cases fault <;> rfl

end Fault

end EcmaCheck
