import EcmaCheck.Token
import EcmaCheck.Fault

/-!
# The context of a production

What the surrounding functions, classes and loops permit, and the early errors of identifiers that follow from it.
Identifiers that fail in sloppy code fail in strict code too (`identifierError?_strict`).
-/

namespace EcmaCheck.Grammar

/-- What is permitted where a production stands. -/
@[ext] structure Context where
  strict : Bool := false
  /-- `return` is permitted. -/
  inFunction : Bool := false
  /-- `yield` is an operator. -/
  yieldOperator : Bool := false
  /-- `yield` is no identifier. -/
  yieldReserved : Bool := false
  /-- `await` is an operator. -/
  awaitOperator : Bool := false
  /-- `await` is no identifier. -/
  awaitReserved : Bool := false
  /-- `continue` is permitted. -/
  inIteration : Bool := false
  /-- `break` is permitted. -/
  inBreakable : Bool := false
  /-- `super.x` is permitted. -/
  superProperty : Bool := false
  /-- `super()` is permitted. -/
  superCall : Bool := false
  /-- `new.target` is permitted. -/
  newTarget : Bool := false
  /-- The production lies in a field initializer or a static block, where `arguments` is not permitted. -/
  classField : Bool := false
  deriving DecidableEq, Repr

/-- An identifier as it is written somewhere. -/
structure Identifier where
  name : String
  /-- Whether it is spelled with escapes. -/
  escaped : Bool
  position : Position
  deriving DecidableEq, Repr

/-- The identifier that a token is. -/
def identifier? (t : Token) : Option Identifier :=
  match t.kind with
  | .identifier name escaped => some ⟨name, escaped, t.start⟩
  | _ => none

/-- The words that strict code reserves beyond the keywords. -/
def strictReservedWords : List String :=
  ["implements", "interface", "let", "package", "private", "protected", "public", "static", "yield"]

/-- Whether strict code may not bind or assign the name. -/
def isEvalOrArguments (name : String) : Bool :=
  name = "eval" || name = "arguments"

namespace Context

/-- Whether the name may not be assigned here. -/
def forbidsAssigning (c : Context) (name : String) : Bool :=
  c.strict && isEvalOrArguments name

/-- What is wrong with an identifier, if anything; `binding` tells whether it is bound or only referred to. -/
def identifierError? (c : Context) (binding : Bool) (i : Identifier) : Option GrammarError :=
  if i.escaped && (Keyword.ofName? i.name).isSome then some .escapedKeyword
  else if i.name = "yield" && (c.yieldOperator || c.yieldReserved) then some .reservedYield
  else if i.name = "await" && (c.awaitOperator || c.awaitReserved) then some .reservedAwait
  else if i.name = "arguments" && c.classField then some .argumentsInField
  else if c.strict && strictReservedWords.contains i.name then some .strictReservedWord
  else if c.strict && binding && isEvalOrArguments i.name then some .strictBinding
  else none

/-- What is wrong with a bound identifier, if anything; `lexical` tells whether a lexical declaration binds it. -/
def bindingError? (c : Context) (lexical : Bool) (i : Identifier) : Option GrammarError :=
  (c.identifierError? true i).or (if lexical && i.name = "let" then some .letBinding else none)

/-- An identifier without errors in strict code has none in sloppy code. -/
theorem identifierError?_strict {c : Context} {binding : Bool} {i : Identifier}
    (h : identifierError? { c with strict := true } binding i = none) :
    identifierError? { c with strict := false } binding i = none := by
  simp only [identifierError?] at h ⊢
  grind

/-- The context of a function's parameters; the operators `yield` and `await` are only permitted in its body. -/
def ofFunction (strict isModule isGenerator isAsync : Bool) : Context :=
  { strict, inFunction := true, yieldReserved := isGenerator, awaitReserved := isAsync || isModule, newTarget := true }

/-- The context of a method's parameters; `superCall` tells whether it is the constructor of a derived class. -/
def ofMethod (strict isModule isGenerator isAsync superCall : Bool) : Context :=
  { ofFunction strict isModule isGenerator isAsync with superProperty := true, superCall }

/-- The context of a function's body, from that of its parameters. -/
def inBody (c : Context) (isGenerator isAsync : Bool) : Context :=
  { c with yieldOperator := isGenerator, awaitOperator := isAsync }

/-- The context in which the name of a function expression is bound, which is the function's own. -/
def ofFunctionName (c : Context) (isModule isGenerator isAsync : Bool) : Context :=
  { c with
    yieldOperator := false
    yieldReserved := isGenerator
    awaitOperator := false
    awaitReserved := isAsync || isModule }

/-- The context of an arrow function's body, inside the context of the function. -/
def ofArrow (c : Context) (isAsync : Bool) : Context :=
  { strict := c.strict
    inFunction := true
    awaitOperator := isAsync
    awaitReserved := isAsync || c.awaitReserved
    superProperty := c.superProperty
    superCall := c.superCall
    newTarget := c.newTarget
    classField := c.classField }

/-- The context of a field initializer, inside the context of the class. -/
def ofField (c : Context) : Context :=
  { strict := true
    awaitReserved := c.awaitReserved || c.awaitOperator
    superProperty := true
    newTarget := true
    classField := true }

/-- The context of a static block. -/
def ofStaticBlock : Context :=
  { strict := true, awaitReserved := true, superProperty := true, newTarget := true, classField := true }

/-- The context of a whole program. -/
def ofProgram (isModule : Bool) : Context :=
  { strict := isModule, awaitOperator := isModule, awaitReserved := isModule }

end Context

end EcmaCheck.Grammar
