import EcmaCheck.Proofs.Following.Taking

/-!
# Productions that take the current token

A production takes the current token if the nested productions do.
-/

namespace EcmaCheck.Grammar

set_option synthInstance.maxSize 20000

variable {α : Type} {nested : Derivation} [∀ p, Takes (nested p)] [∀ p, Moves (nested p)]

/-! ## Expressions and property names -/

instance (allowIn : Bool) : Takes (assignmentOrPattern nested allowIn) := by
  unfold assignmentOrPattern
  infer_instance

instance (allowIn : Bool) : Takes (assignment nested allowIn) := by
  unfold assignment
  infer_instance

instance (allowIn : Bool) : Takes (expressionOrPattern nested allowIn) := by
  unfold expressionOrPattern
  infer_instance

instance (allowIn : Bool) : Takes (expression nested allowIn) := by
  unfold expression
  infer_instance

instance (lexical : Bool) : Takes (bindingTarget nested lexical) := by
  unfold bindingTarget
  infer_instance

instance : Takes (statement nested) := by
  unfold statement
  infer_instance

instance : Gentle modifiers := by
  unfold modifiers
  infer_instance

instance (allowPrivate : Bool) : Takes (propertyName nested allowPrivate) := by
  unfold propertyName
  repeat' first
    | infer_instance
    | split
    | refine Takes.bind inferInstance fun _ => ?_
    | refine Takes.behind inferInstance fun _ => ?_

/-! ## Binding patterns -/

instance (lexical : Bool) : Takes (bindingIdentifier lexical) := by
  unfold bindingIdentifier
  repeat' first
    | infer_instance
    | split
    | refine Takes.bind inferInstance fun _ => ?_
    | refine Takes.behind inferInstance fun _ => ?_

instance (lexical : Bool) : Takes (bindingElement nested lexical) := by
  unfold bindingElement
  infer_instance

instance (close : Punctuator) (e : GrammarError) : Still (requireLast close e) := by
  unfold requireLast
  infer_instance

instance (lexical : Bool) : Takes (arrayBinding nested lexical) := by
  unfold arrayBinding
  infer_instance

instance (lexical : Bool) : Takes (propertyBinding nested lexical) := by
  unfold propertyBinding
  repeat' first
    | infer_instance
    | split
    | refine Takes.bind inferInstance fun _ => ?_

instance (lexical : Bool) : Takes (objectBinding nested lexical) := by
  unfold objectBinding
  infer_instance

instance (lexical : Bool) : Takes (expandBindingTarget nested lexical) := by
  unfold expandBindingTarget
  infer_instance

/-! ## Functions -/

omit [∀ p, Takes (nested p)] [∀ p, Moves (nested p)] in
theorem takes_inFunctionContext {c : Context} {body : Recognizer α} (h : Takes body) :
    Takes (inFunctionContext c body) := by
  refine ⟨fun hrun => ?_⟩
  obtain ⟨outer, s₁, hget, hrun⟩ := bind_eq_ok.mp hrun
  cases hget
  obtain ⟨_, s₂, hset, hrun⟩ := bind_eq_ok.mp hrun
  cases hset
  obtain ⟨r, u, hbody, hrun⟩ := bind_eq_ok.mp hrun
  cases hrun
  have htakes := h.takes hbody
  exact htakes

instance (c : Context) (body : Recognizer α) [h : Takes body] : Takes (inFunctionContext c body) :=
  takes_inFunctionContext h

instance : Gentle (directives nested) := by
  unfold directives
  refine .loop (fun d => .bind inferInstance (fun first => ?_) fun first => ?_) fun d =>
    .bind inferInstance fun first => ?_ <;>
    split <;> infer_instance

instance (topLevel : Bool) : Gentle (statementList nested topLevel) := by
  unfold statementList
  infer_instance

instance (simple : Bool) (close : LexicalGoal) [Ordinary close] : Takes (functionBody nested simple close) := by
  unfold functionBody
  repeat' first
    | infer_instance
    | split
    | refine Takes.bind inferInstance fun _ => ?_
    | refine Takes.behind inferInstance fun _ => ?_
    | refine Moves.bind inferInstance fun _ => ?_

instance : Takes (parameters nested) := by
  unfold parameters
  dsimp only
  infer_instance

instance (m : Modifiers) (close : LexicalGoal) [Ordinary close] : Takes (parametersAndBody nested m close) := by
  unfold parametersAndBody
  dsimp only
  infer_instance

instance (isAsync declaration nameRequired : Bool) : TakesTwo (function nested isAsync declaration nameRequired) := by
  unfold function
  refine .behind inferInstance fun t => .advance fun _ => ?_
  repeat' first
    | infer_instance
    | split
    | refine Takes.bind inferInstance fun _ => ?_
    | refine Takes.behind inferInstance fun _ => ?_

instance (isAsync : Bool) : TakesTwo (functionDeclaration nested isAsync) := by
  unfold functionDeclaration
  infer_instance

instance (m : Modifiers) (superCall : Bool) : Takes (method nested m superCall) := by
  unfold method
  infer_instance

/-! ## Classes -/

instance : Takes (staticBlock nested) := by
  unfold staticBlock
  infer_instance

instance (derived hasConstructor isStatic : Bool) : Takes (classMember nested derived hasConstructor isStatic) := by
  unfold classMember
  dsimp only
  infer_instance

instance (derived hasConstructor : Bool) : Takes (expandClassElement nested derived hasConstructor) := by
  unfold expandClassElement
  infer_instance

instance (derived : Bool) : Gentle (classBody nested derived) := by
  unfold classBody
  infer_instance

instance (declaration nameRequired : Bool) : Takes (classTail nested declaration nameRequired) := by
  unfold classTail
  repeat' first
    | infer_instance
    | split
    | refine Takes.bind inferInstance fun _ => ?_
    | refine Takes.behind inferInstance fun _ => ?_
    | refine Moves.bind inferInstance fun _ => ?_

instance (declaration nameRequired : Bool) : Takes (classDefinition nested declaration nameRequired) := by
  refine ⟨fun hrun => ?_⟩
  obtain ⟨outer, s₁, hget, hrun⟩ := bind_eq_ok.mp hrun
  cases hget
  obtain ⟨_, s₂, hset, hrun⟩ := bind_eq_ok.mp hrun
  cases hset
  obtain ⟨r, u, hbody, hrun⟩ := bind_eq_ok.mp hrun
  cases hrun
  have htakes := Takes.takes (x := classTail nested declaration nameRequired) hbody
  exact htakes

/-! ## Operands -/

instance : Takes (arguments nested) := by
  unfold arguments
  infer_instance

instance : Still requirePrivateScope := by
  unfold requirePrivateScope
  infer_instance

instance : Takes memberName := by
  unfold memberName
  repeat' first
    | infer_instance
    | split
    | refine Takes.bind inferInstance fun _ => ?_
    | refine Takes.behind inferInstance fun _ => ?_

instance : Takes (computedMember nested) := by
  unfold computedMember
  infer_instance

instance (start : Position) (isAsync simple : Bool) : Takes (arrowBody nested start isAsync simple) := by
  unfold arrowBody
  infer_instance

instance (call : Bool) (list : ParenthesizedList) : Takes (parenthesizedItem nested call list) := by
  unfold parenthesizedItem
  dsimp only
  infer_instance

instance (call : Bool) : Takes (parenthesizedList nested call) := by
  unfold parenthesizedList
  infer_instance

instance : Takes (parenthesized nested) := by
  unfold parenthesized
  repeat' first
    | infer_instance
    | split
    | refine Takes.bind inferInstance fun _ => ?_
    | refine Takes.behind inferInstance fun _ => ?_

instance (start : Position) (newlineBeforeParen : Bool) : Takes (asyncCallOrArrow nested start newlineBeforeParen) := by
  unfold asyncCallOrArrow
  repeat' first
    | infer_instance

instance (start : Position) : Takes (asyncArrow nested start) := by
  unfold asyncArrow
  repeat' first
    | infer_instance
    | split
    | refine Takes.bind inferInstance fun _ => ?_
    | refine Takes.behind inferInstance fun _ => ?_

instance (i : Identifier) : Takes (plainIdentifier nested i) := by
  unfold plainIdentifier
  dsimp only
  infer_instance

instance (i : Identifier) : Takes (identifierExpression nested i) := by
  unfold identifierExpression
  infer_instance

instance : Takes (arrayLiteral nested) := by
  unfold arrayLiteral
  dsimp only
  infer_instance

instance : Takes (expandObjectMember nested) := by
  unfold expandObjectMember
  repeat' first
    | infer_instance
    | split
    | refine Takes.bind inferInstance fun _ => ?_
    | refine Takes.behind inferInstance fun _ => ?_

instance : Takes (objectLiteral nested) := by
  unfold objectLiteral
  dsimp only
  infer_instance

instance : Takes privateOperand := by
  unfold privateOperand
  dsimp only
  infer_instance

instance : Takes tokenLiteral := by
  unfold tokenLiteral
  dsimp only
  infer_instance

instance (tagged : Bool) : Takes (template nested tagged) := by
  unfold template
  refine .loop (fun _ => .behind inferInstance fun span => ?_) fun _ => .bind inferInstance fun span => ?_
  all_goals
    dsimp only
    split
    · split <;> infer_instance
    · infer_instance

omit [∀ p, Takes (nested p)] [∀ p, Moves (nested p)] in
/-- A division may be read again before it is taken. -/
protected theorem Takes.rereadDivision {body : Recognizer α} (h : Takes body) : Takes (do
    if (← isAt .slash) || (← isAt .slashAssign) then rescan .regExp
    body : Recognizer α) := by
  refine ⟨fun {s t a} hrun => ?_⟩
  by_cases hdivision : isDivision s.token = true
  · have hrun := (congrFun (if_pos hdivision) s).symm.trans hrun
    obtain ⟨_, u, hrescan, hbody⟩ := bind_eq_ok.mp hrun
    exact (Input.Rests.rescan (.regExp hdivision) (input_of_rescan hrescan) (.refl _)).takes (h.takes hbody)
  · exact h.takes ((congrFun (if_neg hdivision) s).symm.trans hrun)

instance : Takes (primary nested) := by
  unfold primary
  refine .rereadDivision (.behind inferInstance fun _ => .behind inferInstance fun t => ?_)
  split <;> infer_instance

instance : Takes (optionalMember nested) := by
  unfold optionalMember
  infer_instance

omit [∀ p, Takes (nested p)] [∀ p, Moves (nested p)] in
theorem none_or_takes_of_ite {γ : Type} {c : Prop} [Decidable c] {x y : Recognizer (Option γ)} {s t : State}
    {r : Option γ} (h : (if c then x else y) s = .ok r t) (hx : Takes x)
    (hy : y s = .ok r t → r = none ∧ t = s ∨ s.input.Takes t.input) : r = none ∧ t = s ∨ s.input.Takes t.input := by
  by_cases hc : c
  · rw [if_pos hc] at h
    exact .inr (hx.takes h)
  · rw [if_neg hc] at h
    exact hy h

omit [∀ p, Takes (nested p)] in
/-- An operand ends where nothing follows it, or else the next token is taken. -/
theorem none_or_takes_of_callTailPart {allowCall inChain : Bool} {e : Summary} {s t : State} {r : Option (Shape × Bool)}
    (h : callTailPart nested allowCall inChain e s = .ok r t) : r = none ∧ t = s ∨ s.input.Takes t.input := by
  refine none_or_takes_of_ite h inferInstance fun h => none_or_takes_of_ite h inferInstance fun h =>
    none_or_takes_of_ite h inferInstance fun h => none_or_takes_of_ite h inferInstance fun h =>
      none_or_takes_of_ite h inferInstance fun h => ?_
  cases h
  exact .inl ⟨rfl, rfl⟩

instance : Takes (superExpression nested) := by
  unfold superExpression
  repeat' first
    | infer_instance
    | split
    | refine Takes.bind inferInstance fun _ => ?_
    | refine Takes.behind inferInstance fun _ => ?_
    | refine Moves.bind inferInstance fun _ => ?_

instance (start : Position) : Takes (newTarget start) := by
  unfold newTarget
  dsimp only
  infer_instance

instance : Takes (constructed nested) := by
  unfold constructed
  infer_instance

instance : Takes (newExpression nested) := by
  unfold newExpression
  dsimp only
  infer_instance

instance : TakesTwo (importExpression nested) := by
  unfold importExpression
  dsimp only
  infer_instance

instance : Takes (leftHandSide nested) := by
  unfold leftHandSide
  repeat' first
    | infer_instance

/-! ## Operators -/

instance : Takes (update nested) := by
  unfold update
  dsimp only
  infer_instance

instance : Takes (prefixed nested) := by
  unfold prefixed
  infer_instance

instance : Takes (expandUnary nested) := by
  unfold expandUnary
  dsimp only
  infer_instance

instance (least : Nat) (allowIn : Bool) : Takes (binary nested least allowIn) := by
  unfold binary binaryTurn
  refine .notingOperandEnd (.bind inferInstance fun _ => Has.loop fun _ => Moves.bind inferInstance fun operator => ?_)
  dsimp only
  repeat' first
    | infer_instance
    | split
    | refine Takes.bind inferInstance fun _ => ?_
    | refine Takes.behind inferInstance fun _ => ?_
    | refine Moves.bind inferInstance fun _ => ?_

instance (allowIn : Bool) : Takes (conditional nested allowIn) := by
  unfold conditional
  infer_instance

instance (allowIn : Bool) : Takes (yieldExpression nested allowIn) := by
  unfold yieldExpression
  dsimp only
  infer_instance

instance (allowIn : Bool) : Takes (expandAssignment nested allowIn) := by
  unfold expandAssignment
  dsimp only
  repeat' first
    | infer_instance
    | split
    | refine Takes.bind inferInstance fun _ => ?_
    | refine Takes.behind inferInstance fun _ => ?_
    | refine Moves.bind inferInstance fun _ => ?_

/-! ## Statements -/

instance (kind : DeclarationKind) (inFor : Bool) (ds : Declarations) : Takes (declaration nested kind inFor ds) := by
  unfold declaration
  dsimp only
  repeat' first
    | infer_instance
    | split
    | refine Takes.bind inferInstance fun _ => ?_
    | refine Takes.behind inferInstance fun _ => ?_

instance (kind : DeclarationKind) (inFor : Bool) : Takes (declarations nested kind inFor) := by
  unfold declarations
  exact .loop (fun _ => inferInstance) fun _ => inferInstance

instance (kind : DeclarationKind) : TakesTwo (declarationStatement nested kind) := by
  unfold declarationStatement
  infer_instance

instance : Still isAtLetDeclaration := by
  unfold isAtLetDeclaration
  infer_instance

instance : Takes (block nested) := by
  unfold block
  infer_instance

instance : Takes (condition nested) := by
  unfold condition
  infer_instance

instance : Takes (branch nested) := by
  unfold branch
  infer_instance

instance : Takes (ifStatement nested) := by
  unfold ifStatement
  infer_instance

instance : Takes (loopBody nested) := by
  unfold loopBody
  infer_instance

instance : Takes (whileStatement nested) := by
  unfold whileStatement
  infer_instance

instance : Takes (doStatement nested) := by
  unfold doStatement
  dsimp only
  infer_instance

instance : Takes (forClauses nested) := by
  unfold forClauses
  dsimp only
  infer_instance

instance (kind : ForLoop) (isAwait : Bool) : Takes (forEach nested kind isAwait) := by
  unfold forEach
  dsimp only
  repeat' first
    | infer_instance
    | split

instance : Still forLoop? := by
  unfold forLoop?
  infer_instance

instance (kind : DeclarationKind) (isAwait : Bool) : TakesTwo (forDeclaration nested kind isAwait) := by
  unfold forDeclaration
  dsimp only
  have hrest (p : Position) : Takes (do
      let ds ← declarations nested kind true
      match ← forLoop? with
      | some l =>
        failIf (loopHeadError? kind (← context).strict ds l) p
        forEach nested l isAwait
      | none =>
        if let some f := ds.missing? then throw f
        if isAwait then unexpected
        expect .semicolon
        forClauses nested : Recognizer Unit) := by
    dsimp only
    repeat' first
      | infer_instance
      | split
      | refine Takes.bind inferInstance fun _ => ?_
      | refine Takes.behind inferInstance fun _ => ?_
      | refine Moves.bind inferInstance fun _ => ?_
  infer_instance

instance (isAwait : Bool) : Takes (forExpression nested isAwait) := by
  unfold forExpression
  dsimp only
  repeat' first
    | infer_instance
    | split
    | refine Takes.bind inferInstance fun _ => ?_
    | refine Takes.behind inferInstance fun _ => ?_
    | refine Moves.bind inferInstance fun _ => ?_

instance : Gentle forAwait := by
  unfold forAwait
  dsimp only
  infer_instance

instance : Takes (forStatement nested) := by
  unfold forStatement
  dsimp only
  infer_instance

instance : Takes continueStatement := by
  unfold continueStatement
  dsimp only
  repeat' first
    | infer_instance
    | split
    | refine Takes.bind inferInstance fun _ => ?_
    | refine Takes.behind inferInstance fun _ => ?_
    | refine Moves.bind inferInstance fun _ => ?_

instance : Takes breakStatement := by
  unfold breakStatement
  dsimp only
  repeat' first
    | infer_instance
    | split
    | refine Takes.bind inferInstance fun _ => ?_
    | refine Takes.behind inferInstance fun _ => ?_
    | refine Moves.bind inferInstance fun _ => ?_

instance : Takes (returnStatement nested) := by
  unfold returnStatement
  dsimp only
  infer_instance

instance : Takes (throwStatement nested) := by
  unfold throwStatement
  dsimp only
  infer_instance

instance : Takes (withStatement nested) := by
  unfold withStatement
  dsimp only
  infer_instance

instance (hasDefault : Bool) : Takes (caseClause nested hasDefault) := by
  unfold caseClause
  dsimp only
  repeat' first
    | infer_instance

instance : Gentle (caseClauses nested) := by
  unfold caseClauses
  infer_instance

instance : Takes (switchStatement nested) := by
  unfold switchStatement
  dsimp only
  infer_instance

instance : Takes (tryStatement nested) := by
  unfold tryStatement
  infer_instance

instance (attached : Nat) (i : Identifier) : TakesTwo (labelledStatement nested attached i) := by
  unfold labelledStatement
  dsimp only
  infer_instance

instance (attached : Nat) (i : Identifier) : Takes (identifierStatement nested attached i) := by
  unfold identifierStatement
  dsimp only
  infer_instance

instance (attached : Nat) : Still (markLabels attached) := by
  unfold markLabels
  infer_instance

instance : Takes (expandStatement nested) := by
  unfold expandStatement
  dsimp only
  repeat' first
    | infer_instance
    | split
    | refine Takes.bind inferInstance fun _ => ?_
    | refine Takes.behind inferInstance fun _ => ?_

/-! ## Modules -/

instance : Takes moduleSpecifier := by
  unfold moduleSpecifier
  infer_instance

instance : Takes exportName := by
  unfold exportName
  repeat' first
    | infer_instance
    | split
    | refine Takes.bind inferInstance fun _ => ?_
    | refine Takes.behind inferInstance fun _ => ?_

instance : Takes fromClause := by
  unfold fromClause
  infer_instance

instance : Takes importSpecifier := by
  unfold importSpecifier
  repeat' first
    | infer_instance
    | split
    | refine Takes.bind inferInstance fun _ => ?_
    | refine Takes.behind inferInstance fun _ => ?_

instance : Takes namedImports := by
  unfold namedImports
  infer_instance

instance : Takes importDeclaration := by
  unfold importDeclaration
  dsimp only
  infer_instance

instance : Takes exportClause := by
  unfold exportClause
  dsimp only
  infer_instance

instance : Takes exportAll := by
  unfold exportAll
  infer_instance

instance : Takes exportNames := by
  unfold exportNames
  repeat' first
    | infer_instance
    | split
    | refine Takes.bind inferInstance fun _ => ?_

instance : Takes (exportDefault nested) := by
  unfold exportDefault
  infer_instance

instance : Takes (exportDeclaration nested) := by
  unfold exportDeclaration
  infer_instance

/-! ## Derivations -/

instance (topLevel : Bool) : Takes (expandStatementListItem nested topLevel) := by
  unfold expandStatementListItem
  dsimp only
  infer_instance

instance (p : Production) : Takes (expand nested p) := by
  cases p <;> unfold expand <;> infer_instance

instance (body : Recognizer α) [Takes body] [Moves body] : Takes (deeper body) := by
  unfold deeper
  infer_instance

omit [∀ p, Takes (nested p)] [∀ p, Moves (nested p)] in
instance (levels : Nat) (p : Production) : Takes (derive levels p) := by
  induction levels generalizing p with
  | zero =>
    unfold derive
    infer_instance
  | succ levels ih =>
    rw [derive_succ]
    infer_instance


end EcmaCheck.Grammar
