import EcmaCheck.Proofs.Trait.Basic

/-!
# Traits of productions

A production has a trait if the nested productions have it. What the grammar does to the surroundings of a production is
done in few places, and whether a trait survives it is not for the text of the recognizer to tell: a `Discipline` says
so once for each of them. It is about two traits, as the body of a function may change the context it runs in, which the
function puts back: `outer` is the trait of productions, and `inner`, which asks less, that of the bodies of functions.

Statements after labels are left out: what they do to the labels is no matter of their text alone.
-/

namespace EcmaCheck.Grammar

set_option synthInstance.maxSize 20000

/-- Two traits, of productions and of the bodies of functions, and why what is done to the surroundings of productions
agrees with them. -/
structure Discipline where
  /-- The trait of productions. -/
  outer : Trait
  /-- The trait of the bodies of functions. -/
  inner : Trait
  inner_of_outer {α : Type} {x : Recognizer α} : outer.Holds x → inner.Holds x
  holds_changeContext (g : State → Context) : inner.Holds (modify fun s => { s with context := g s } : Recognizer Unit)
  holds_inFunctionContext {α : Type} {body : Recognizer α} (c : Context) : inner.Holds body →
    outer.Holds (inFunctionContext c body)
  /-- The body of a class. -/
  holds_classBody {body rest : Recognizer Unit} : outer.Holds body → outer.Holds rest → outer.Holds (do
    modify fun s => { s with classDepth := s.classDepth + 1 }
    body
    modify fun s => { s with classDepth := s.classDepth - 1 }
    rest)
  /-- A class, all parts of which are strict. -/
  holds_strictly {body : Recognizer Unit} : outer.Holds body → outer.Holds (do
    let outer ← get
    set { outer with context := { outer.context with strict := true } }
    body
    modify fun s => { s with context := { s.context with strict := outer.context.strict } }
    return .other outer.token.start : Recognizer Summary)
  holds_loopBody {nested : Derivation} : outer.Holds (nested .statement) → outer.Holds (loopBody nested)
  /-- The clauses of a `switch` statement. -/
  holds_clauses {body rest : Recognizer Unit} : outer.Holds body → outer.Holds rest → outer.Holds (do
    let outer ← context
    modify fun s => { s with context := { s.context with inBreakable := true } }
    body
    modify fun s => { s with context := { s.context with inBreakable := outer.inBreakable } }
    rest)

variable {α : Type} {T : Trait} {D : Discipline}

instance (priority := low) (x : Recognizer α) [h : Has D.outer x] : Has D.inner x :=
  ⟨D.inner_of_outer h.holds⟩

instance (g : State → Context) : Has D.inner (modify fun s => { s with context := g s } : Recognizer Unit) :=
  ⟨D.holds_changeContext g⟩

instance (c : Context) (body : Recognizer α) [h : Has D.inner body] : Has D.outer (inFunctionContext c body) :=
  ⟨D.holds_inFunctionContext c h.holds⟩

instance (body rest : Recognizer Unit) [hbody : Has D.outer body] [hrest : Has D.outer rest] : Has D.outer (do
    modify fun s => { s with classDepth := s.classDepth + 1 }
    body
    modify fun s => { s with classDepth := s.classDepth - 1 }
    rest) :=
  ⟨D.holds_classBody hbody.holds hrest.holds⟩

variable {nested : Derivation} [∀ p, Has D.outer (nested p)]

/-! ## Expressions and property names -/

instance (allowIn : Bool) : Has D.outer (assignmentOrPattern nested allowIn) := by
  unfold assignmentOrPattern
  infer_instance

instance (allowIn : Bool) : Has D.outer (assignment nested allowIn) := by
  unfold assignment
  infer_instance

instance (allowIn : Bool) : Has D.outer (expressionOrPattern nested allowIn) := by
  unfold expressionOrPattern
  infer_instance

instance (allowIn : Bool) : Has D.outer (expression nested allowIn) := by
  unfold expression
  infer_instance

instance (lexical : Bool) : Has D.outer (bindingTarget nested lexical) := by
  unfold bindingTarget
  infer_instance

instance : Has D.outer (statement nested) := by
  unfold statement
  infer_instance

instance : Has T modifiers := by
  unfold modifiers
  infer_instance

instance (allowPrivate : Bool) : Has D.outer (propertyName nested allowPrivate) := by
  unfold propertyName
  refine .bind inferInstance fun t => ?_
  dsimp only
  split <;> infer_instance

/-! ## Binding patterns -/

instance (lexical : Bool) : Has T (bindingIdentifier lexical) := by
  unfold bindingIdentifier
  refine .bind inferInstance fun t => ?_
  split <;> infer_instance

instance (lexical : Bool) : Has D.outer (bindingElement nested lexical) := by
  unfold bindingElement
  infer_instance

instance (close : Punctuator) (e : GrammarError) : Has T (requireLast close e) := by
  unfold requireLast
  infer_instance

instance (lexical : Bool) : Has D.outer (arrayBinding nested lexical) := by
  unfold arrayBinding
  dsimp only
  infer_instance

instance (lexical : Bool) : Has D.outer (propertyBinding nested lexical) := by
  unfold propertyBinding
  refine .bind inferInstance fun key => .bind inferInstance fun _ => ?_
  split
  · infer_instance
  · split <;> infer_instance

instance (lexical : Bool) : Has D.outer (objectBinding nested lexical) := by
  unfold objectBinding
  infer_instance

instance (lexical : Bool) : Has D.outer (expandBindingTarget nested lexical) := by
  unfold expandBindingTarget
  infer_instance

/-! ## Functions -/

instance (topLevel : Bool) : Has D.outer (statementList nested topLevel) := by
  unfold statementList
  infer_instance

instance (directive : Token) (legacyOctalEscape : Bool) (d : Directives) :
    Has D.inner (noteDirective directive legacyOctalEscape d) := by
  unfold noteDirective
  dsimp only
  split
  · split <;> infer_instance
  · infer_instance

instance : Has D.inner (directives nested) := by
  unfold directives
  refine .loop fun d => .bind inferInstance fun first => ?_
  split <;> infer_instance

instance (simple : Bool) (close : LexicalGoal) [Ordinary close] : Has D.inner (functionBody nested simple close) := by
  unfold functionBody
  refine .bind inferInstance fun _ => .bind inferInstance fun d => .bind inferInstance fun _ => ?_
  dsimp only
  split <;> infer_instance

instance : Has D.outer (parameters nested) := by
  unfold parameters
  dsimp only
  infer_instance

instance (m : Modifiers) (close : LexicalGoal) [Ordinary close] : Has D.inner (parametersAndBody nested m close) := by
  unfold parametersAndBody
  infer_instance

instance (isAsync declaration nameRequired : Bool) :
    Has D.outer (function nested isAsync declaration nameRequired) := by
  unfold function
  refine .bind inferInstance fun t => .bind inferInstance fun _ => .bind inferInstance fun _ =>
    .bind inferInstance fun s => ?_
  dsimp only
  split <;> infer_instance

instance (isAsync : Bool) : Has D.outer (functionDeclaration nested isAsync) := by
  unfold functionDeclaration
  infer_instance

instance (m : Modifiers) (superCall : Bool) : Has D.outer (method nested m superCall) := by
  unfold method
  infer_instance

/-! ## Classes -/

instance : Has D.outer (staticBlock nested) := by
  unfold staticBlock
  infer_instance

instance (derived hasConstructor isStatic : Bool) :
    Has D.outer (classMember nested derived hasConstructor isStatic) := by
  unfold classMember
  dsimp only
  infer_instance

instance (derived hasConstructor : Bool) : Has D.outer (expandClassElement nested derived hasConstructor) := by
  unfold expandClassElement
  infer_instance

instance (derived : Bool) : Has D.outer (classBody nested derived) := by
  unfold classBody
  dsimp only
  infer_instance

instance (declaration nameRequired : Bool) : Has D.outer (classTail nested declaration nameRequired) := by
  unfold classTail
  refine .bind inferInstance fun _ => .bind inferInstance fun t => ?_
  dsimp only
  split <;> infer_instance

instance (declaration nameRequired : Bool) : Has D.outer (classDefinition nested declaration nameRequired) :=
  ⟨D.holds_strictly (Has.holds (x := classTail nested declaration nameRequired))⟩

/-! ## Operands -/

instance : Has D.outer (arguments nested) := by
  unfold arguments
  infer_instance

instance : Has T requirePrivateScope := by
  unfold requirePrivateScope
  infer_instance

instance : Has T memberName := by
  unfold memberName
  refine .bind inferInstance fun t => ?_
  split <;> infer_instance

instance : Has D.outer (computedMember nested) := by
  unfold computedMember
  infer_instance

instance : Has T (do
    unless ← isAt .closeBrace do unexpected
    rescan .templateTail
    return .again () : Recognizer (Turn Unit Unit)) :=
  ⟨T.holds_rereadBrace⟩

instance (tagged : Bool) : Has D.outer (template nested tagged) := by
  unfold template
  refine .loop fun _ => .bind inferInstance fun span => ?_
  dsimp only
  split
  · split <;> infer_instance
  · infer_instance

instance (start : Position) (isAsync simple : Bool) : Has D.outer (arrowBody nested start isAsync simple) := by
  unfold arrowBody
  infer_instance

instance : Has T isAtArrow := by
  unfold isAtArrow
  infer_instance

instance (call : Bool) (list : ParenthesizedList) : Has D.outer (parenthesizedItem nested call list) := by
  unfold parenthesizedItem
  dsimp only
  infer_instance

instance (call : Bool) : Has D.outer (parenthesizedList nested call) := by
  unfold parenthesizedList
  dsimp only
  infer_instance

instance (list : ParenthesizedList) : Has T list.rejectShorthand := by
  unfold ParenthesizedList.rejectShorthand
  split <;> infer_instance

instance : Has D.outer (parenthesized nested) := by
  unfold parenthesized
  refine .bind inferInstance fun t => .bind inferInstance fun list => .bind inferInstance fun isArrow => ?_
  dsimp only
  split
  · infer_instance
  · split <;> infer_instance

instance (start : Position) (newlineBeforeParen : Bool) :
    Has D.outer (asyncCallOrArrow nested start newlineBeforeParen) := by
  unfold asyncCallOrArrow
  dsimp only
  infer_instance

instance (start : Position) : Has D.outer (asyncArrow nested start) := by
  unfold asyncArrow
  refine .bind inferInstance fun t => ?_
  dsimp only
  split <;> infer_instance

instance (i : Identifier) : Has D.outer (plainIdentifier nested i) := by
  unfold plainIdentifier
  dsimp only
  infer_instance

instance (i : Identifier) : Has D.outer (identifierExpression nested i) := by
  unfold identifierExpression
  infer_instance

instance : Has D.outer (arrayLiteral nested) := by
  unfold arrayLiteral
  dsimp only
  infer_instance

instance : Has D.outer (expandObjectMember nested) := by
  unfold expandObjectMember
  refine .bind inferInstance fun t => .bind inferInstance fun m => .bind inferInstance fun key =>
    .bind inferInstance fun isMethod => ?_
  dsimp only
  split
  · infer_instance
  · refine .bind inferInstance fun hasValue => ?_
    split
    · infer_instance
    · split <;> infer_instance

instance : Has D.outer (objectLiteral nested) := by
  unfold objectLiteral
  dsimp only
  infer_instance

instance : Has T privateOperand := by
  unfold privateOperand
  dsimp only
  infer_instance

instance : Has T tokenLiteral := by
  unfold tokenLiteral
  dsimp only
  infer_instance

protected theorem Has.rereadDivision {body : Recognizer α} (h : Has T body) : Has T (do
    if (← isAt .slash) || (← isAt .slashAssign) then rescan .regExp
    body : Recognizer α) :=
  ⟨T.holds_rereadDivision h.holds⟩

instance : Has D.outer (primary nested) := by
  unfold primary
  refine .rereadDivision (.bind inferInstance fun _ => .bind inferInstance fun t => ?_)
  split <;> infer_instance

instance : Has D.outer (optionalMember nested) := by
  unfold optionalMember
  infer_instance

instance (allowCall inChain : Bool) (e : Summary) : Has D.outer (callTailPart nested allowCall inChain e) := by
  unfold callTailPart
  dsimp only
  infer_instance

instance (allowCall : Bool) (operand : Summary) : Has D.outer (callTail nested allowCall operand) := by
  unfold callTail
  split
  · infer_instance
  · refine .loop fun ⟨e, inChain⟩ => .bind inferInstance fun part => ?_
    split <;> infer_instance

instance : Has D.outer (superExpression nested) := by
  unfold superExpression
  dsimp only
  repeat' first
    | infer_instance
    | split
    | refine .bind inferInstance fun _ => ?_

instance (start : Position) : Has T (newTarget start) := by
  unfold newTarget
  dsimp only
  infer_instance

instance : Has D.outer (constructed nested) := by
  unfold constructed
  dsimp only
  infer_instance

instance : Has D.outer (newExpression nested) := by
  unfold newExpression
  dsimp only
  infer_instance

instance : Has D.outer (importExpression nested) := by
  unfold importExpression
  dsimp only
  infer_instance

instance : Has D.outer (leftHandSide nested) := by
  unfold leftHandSide
  dsimp only
  infer_instance

/-! ## Operators -/

instance : Has D.outer (update nested) := by
  unfold update
  dsimp only
  infer_instance

instance : Has D.outer (prefixed nested) := by
  unfold prefixed
  infer_instance

instance : Has D.outer (expandUnary nested) := by
  unfold expandUnary
  dsimp only
  infer_instance

instance (least : Nat) (allowIn : Bool) : Has D.outer (binary nested least allowIn) := by
  unfold binary binaryTurn
  refine .notingOperandEnd (.bind inferInstance fun first => .loop fun left => .bind inferInstance fun operator => ?_)
  dsimp only
  repeat' first
    | infer_instance
    | split
    | refine .bind inferInstance fun _ => ?_

instance (allowIn : Bool) : Has D.outer (conditional nested allowIn) := by
  unfold conditional
  infer_instance

instance (allowIn : Bool) : Has D.outer (yieldExpression nested allowIn) := by
  unfold yieldExpression
  dsimp only
  infer_instance

instance (allowIn : Bool) : Has D.outer (expandAssignment nested allowIn) := by
  unfold expandAssignment
  dsimp only
  repeat' first
    | infer_instance
    | split
    | refine .bind inferInstance fun _ => ?_

/-! ## Statements -/

instance (kind : DeclarationKind) (inFor : Bool) (ds : Declarations) :
    Has D.outer (declaration nested kind inFor ds) := by
  unfold declaration
  dsimp only
  repeat' first
    | infer_instance
    | split
    | refine .bind inferInstance fun _ => ?_

instance (kind : DeclarationKind) (inFor : Bool) : Has D.outer (declarations nested kind inFor) := by
  unfold declarations
  infer_instance

instance (kind : DeclarationKind) : Has D.outer (declarationStatement nested kind) := by
  unfold declarationStatement
  infer_instance

instance : Has T isAtLetDeclaration := by
  unfold isAtLetDeclaration
  infer_instance

instance : Has D.outer (block nested) := by
  unfold block
  infer_instance

instance : Has D.outer (condition nested) := by
  unfold condition
  infer_instance

instance : Has D.outer (branch nested) := by
  unfold branch
  infer_instance

instance : Has D.outer (ifStatement nested) := by
  unfold ifStatement
  infer_instance

instance : Has D.outer (loopBody nested) :=
  ⟨D.holds_loopBody (Has.holds (x := nested .statement))⟩

instance : Has D.outer (whileStatement nested) := by
  unfold whileStatement
  infer_instance

instance : Has D.outer (doStatement nested) := by
  unfold doStatement
  dsimp only
  infer_instance

instance : Has D.outer (forClauses nested) := by
  unfold forClauses
  dsimp only
  infer_instance

instance (kind : ForLoop) (isAwait : Bool) : Has D.outer (forEach nested kind isAwait) := by
  unfold forEach
  dsimp only
  repeat' first | infer_instance | split

instance : Has T forLoop? := by
  unfold forLoop?
  infer_instance

instance (kind : DeclarationKind) (isAwait : Bool) : Has D.outer (forDeclaration nested kind isAwait) := by
  unfold forDeclaration
  dsimp only
  repeat' first
    | infer_instance
    | split
    | refine .bind inferInstance fun _ => ?_

instance (isAwait : Bool) : Has D.outer (forExpression nested isAwait) := by
  unfold forExpression
  dsimp only
  repeat' first
    | infer_instance
    | split
    | refine .bind inferInstance fun _ => ?_

instance : Has T forAwait := by
  unfold forAwait
  dsimp only
  infer_instance

instance : Has D.outer (forStatement nested) := by
  unfold forStatement
  dsimp only
  infer_instance

instance : Has T jumpLabel? := by
  unfold jumpLabel?
  infer_instance

instance : Has T continueStatement := by
  unfold continueStatement
  dsimp only
  repeat' first
    | infer_instance
    | split
    | refine .bind inferInstance fun _ => ?_

instance : Has T breakStatement := by
  unfold breakStatement
  dsimp only
  repeat' first
    | infer_instance
    | split
    | refine .bind inferInstance fun _ => ?_

instance : Has D.outer (returnStatement nested) := by
  unfold returnStatement
  dsimp only
  infer_instance

instance : Has D.outer (throwStatement nested) := by
  unfold throwStatement
  dsimp only
  infer_instance

instance : Has D.outer (withStatement nested) := by
  unfold withStatement
  dsimp only
  infer_instance

instance (hasDefault : Bool) : Has D.outer (caseClause nested hasDefault) := by
  unfold caseClause
  dsimp only
  infer_instance

instance : Has D.outer (caseClauses nested) := by
  unfold caseClauses
  infer_instance

instance (body rest : Recognizer Unit) [hbody : Has D.outer body] [hrest : Has D.outer rest] : Has D.outer (do
    let outer ← context
    modify fun s => { s with context := { s.context with inBreakable := true } }
    body
    modify fun s => { s with context := { s.context with inBreakable := outer.inBreakable } }
    rest) :=
  ⟨D.holds_clauses hbody.holds hrest.holds⟩

instance : Has D.outer (switchStatement nested) := by
  unfold switchStatement
  dsimp only
  infer_instance

instance : Has D.outer (catchClause nested) := by
  unfold catchClause
  dsimp only
  infer_instance

instance : Has D.outer (finallyClause nested) := by
  unfold finallyClause
  infer_instance

instance : Has D.outer (tryStatement nested) := by
  unfold tryStatement
  infer_instance

/-! ## Modules -/

instance : Has T moduleSpecifier := by
  unfold moduleSpecifier
  infer_instance

instance : Has T exportName := by
  unfold exportName
  repeat' first
    | infer_instance
    | split
    | refine .bind inferInstance fun _ => ?_

instance : Has T importAttributes := by
  unfold importAttributes
  infer_instance

instance : Has T fromClause := by
  unfold fromClause
  infer_instance

instance : Has T importSpecifier := by
  unfold importSpecifier
  dsimp only
  repeat' first
    | infer_instance
    | split
    | refine .bind inferInstance fun _ => ?_

instance : Has T namedImports := by
  unfold namedImports
  infer_instance

instance : Has T importDeclaration := by
  unfold importDeclaration
  dsimp only
  infer_instance

instance : Has T exportClause := by
  unfold exportClause
  dsimp only
  infer_instance

instance : Has T exportAll := by
  unfold exportAll
  dsimp only
  infer_instance

instance : Has T exportNames := by
  unfold exportNames
  dsimp only
  repeat' first
    | infer_instance
    | split
    | refine .bind inferInstance fun _ => ?_

instance : Has D.outer (exportDefault nested) := by
  unfold exportDefault
  infer_instance

instance : Has D.outer (exportDeclaration nested) := by
  unfold exportDeclaration
  infer_instance

end EcmaCheck.Grammar
