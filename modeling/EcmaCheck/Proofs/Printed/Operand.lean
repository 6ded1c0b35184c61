import EcmaCheck.Proofs.Printed.Facing

/-!
# Operands that are printed

Between an operand and the assignment expression that it is stand all the operators there are. If a token follows that
is none of them (`stops`), what decides the operand decides the expression (`assignment_of_operand`).
-/

namespace EcmaCheck

/-- Whether an operand ends before the token, with nothing more of the expression but an assignment. -/
def TokenKind.stops : TokenKind → Bool
  | .punctuator p =>
    match p with
    | .closeParen | .closeBracket | .closeBrace | .openBrace | .comma | .semicolon | .colon | .assign => true
    | _ => false
  | .identifier .. | .endOfInput => true
  | _ => false

/-- Whether the token begins an operand without a prefix operator. -/
def TokenKind.beginsOperand : TokenKind → Bool
  | .punctuator p =>
    match p with
    | .openParen | .openBracket | .openBrace => true
    | _ => false
  | .keyword k =>
    match k with
    | .function | .class | .new | .super => true
    | _ => false
  | .identifier .. | .number _ | .string _ => true
  | _ => false

end EcmaCheck

namespace EcmaCheck.Grammar

variable {α : Type} {s t : State} {v : Prop} {l : Lexeme} {ls : List Lexeme} {nested : Derivation} {R : Summary → Prop}

/-- The state that has noted the end of an operand. -/
def State.ended (s : State) : State :=
  { s with operandEnds := (s.previousEnd, s.token) :: s.operandEnds }

theorem notingOperandEnd_ends {E : Fault → Prop} {Q : Summary → State → Prop} {x : Recognizer Summary}
    (hended : ∀ e t, Q e t → Q e t.ended) (h : Ends E Q (x s)) : Ends E Q (notingOperandEnd x s) :=
  h.bind fun e u hu => hended e u hu

theorem notingOperandEnd_concluded {Q : Summary → State → Prop} {x : Recognizer Summary}
    (hended : ∀ e t, Q e t → Q e t.ended) (h : Concluded v Q (x s)) : Concluded v Q (notingOperandEnd x s) := by
  rw [concluded_iff_ends] at h ⊢
  exact notingOperandEnd_ends (fun e t ht => ⟨ht.1, hended e t ht.2⟩) h

theorem notingOperandEnd_decided {x : Recognizer Summary} (h : Decided s v ls R (x s)) :
    Decided s v ls R (notingOperandEnd x s) := by
  refine notingOperandEnd_concluded (fun e t ht => ⟨⟨⟨ht.1.surroundings, ht.1.isModule⟩, ?_⟩, ht.2⟩) h
  exact ht.1.faces.of_eq rfl rfl

/-! ## What follows an operand -/

/-- What is known of a token that the operand of an operator ends before. -/
structure StopsOperand (t : Token) : Prop where
  dot : t.isPunctuator .dot = false
  chain : t.isPunctuator .optionalChain = false
  bracket : t.isPunctuator .openBracket = false
  paren : t.isPunctuator .openParen = false
  template : t.isTemplate = false
  update : (t.isPunctuator .increment || t.isPunctuator .decrement) = false

/-- What is known of a token that an operand ends before, without an operator. -/
structure Stops (t : Token) : Prop extends StopsOperand t where
  binary (allowIn : Bool) : precedence? allowIn t = none
  question : t.isPunctuator .question = false

theorem stops_of_kind {t : Token} (h : t.kind.stops = true) : Stops t := by
  obtain ⟨kind, start, stop, lexeme, newlineBefore⟩ := t
  cases kind with
  | punctuator p =>
    cases p <;> first
      | exact ⟨⟨rfl, rfl, rfl, rfl, rfl, rfl⟩, fun _ => rfl, rfl⟩
      | cases h
  | identifier name escaped => exact ⟨⟨rfl, rfl, rfl, rfl, rfl, rfl⟩, fun _ => rfl, rfl⟩
  | endOfInput => exact ⟨⟨rfl, rfl, rfl, rfl, rfl, rfl⟩, fun _ => rfl, rfl⟩
  | _ => cases h

theorem assignmentOperator?_stops {t : Token} (h : t.kind.stops = true) (hassign : t.kind ≠ .punctuator .assign) :
    assignmentOperator? t = none := by
  obtain ⟨kind, start, stop, lexeme, newlineBefore⟩ := t
  cases kind with
  | punctuator p =>
    cases p <;> first
      | rfl
      | exact absurd rfl hassign
      | cases h
  | identifier | endOfInput => rfl
  | _ => cases h

theorem callTailPart_stops (h : StopsOperand s.token) (allowCall inChain : Bool) (e : Summary) :
    callTailPart nested allowCall inChain e s = .ok none s := by
  unfold callTailPart
  rw [token_bind, h.dot, if_neg Bool.false_ne_true, h.chain, if_neg Bool.false_ne_true, h.bracket,
    if_neg Bool.false_ne_true, h.paren, Bool.and_false, if_neg Bool.false_ne_true, h.template,
    if_neg Bool.false_ne_true]
  rfl

/-- The operand of an operator ends in the state, whatever is noted there. -/
structure EndsBefore (Q : Summary → State → Prop) : Prop where
  stops : ∀ e t, Q e t → StopsOperand t.token
  ended : ∀ e t, Q e t → Q e t.ended

/-- An operand ends in the state, without an operator behind it. -/
structure EndsOperand (Q : Summary → State → Prop) : Prop where
  stops : ∀ e t, Q e t → t.token.kind.stops = true
  ended : ∀ e t, Q e t → Q e t.ended

theorem EndsOperand.endsBefore {Q : Summary → State → Prop} (hQ : EndsOperand Q) : EndsBefore Q where
  stops e t ht := (stops_of_kind (hQ.stops e t ht)).toStopsOperand
  ended := hQ.ended

theorem EndsBefore.and_valid {Q : Summary → State → Prop} (hQ : EndsBefore Q) (v : Prop) :
    EndsBefore fun e t => v ∧ Q e t where
  stops e t ht := hQ.stops e t ht.2
  ended e t ht := ⟨ht.1, hQ.ended e t ht.2⟩

theorem endsOperand_reaches (s : State) (R : Summary → Prop) (hstop : l.kind.stops = true) :
    EndsOperand fun e t => s.Reaches t (l :: ls) ∧ R e where
  stops _ _ ht := ht.1.kind ▸ hstop
  ended _ _ ht := ⟨⟨⟨ht.1.surroundings, ht.1.isModule⟩, ht.1.faces.of_eq rfl rfl⟩, ht.2⟩

theorem EndsOperand.and_valid {Q : Summary → State → Prop} (hQ : EndsOperand Q) (v : Prop) :
    EndsOperand fun e t => v ∧ Q e t where
  stops e t ht := hQ.stops e t ht.2
  ended e t ht := ⟨ht.1, hQ.ended e t ht.2⟩

/-- What is known of a token that begins an operand without a prefix operator. -/
structure Begins (t : Token) : Prop where
  prefixed : isPlainPrefix t = false
  delete : t.isKeyword .delete = false
  update : (t.isPunctuator .increment || t.isPunctuator .decrement) = false

theorem begins_of_kind {t : Token} (h : t.kind.beginsOperand = true) : Begins t := by
  obtain ⟨kind, start, stop, lexeme, newlineBefore⟩ := t
  cases kind with
  | punctuator p =>
    cases p <;> first
      | exact ⟨rfl, rfl, rfl⟩
      | cases h
  | keyword k =>
    cases k <;> first
      | exact ⟨rfl, rfl, rfl⟩
      | cases h
  | identifier | number | string => exact ⟨rfl, rfl, rfl⟩
  | _ => cases h

/-! ## From operands to assignment expressions -/

/-- Neither `await` nor `yield` is an operator. -/
structure Context.Plain (c : Context) : Prop where
  await : c.awaitOperator = false
  yield : c.yieldOperator = false

/-- The current token is not an operator `await` or `yield`. -/
structure State.Quiet (s : State) : Prop where
  await : (s.context.awaitOperator && s.token.isWord "await") = false
  yield : (s.context.yieldOperator && s.token.isWord "yield") = false

theorem Context.Plain.quiet (h : s.context.Plain) : s.Quiet where
  await := by rw [h.await, Bool.false_and]
  yield := by rw [h.yield, Bool.false_and]

theorem isWord_of_kind {t : Token} (h : t.isIdentifier = false) (w : String) : t.isWord w = false := by
  unfold Token.isIdentifier at h
  unfold Token.isWord
  cases hkind : t.kind with
  | identifier => rw [hkind] at h; cases h
  | _ => rfl

/-- A token that is no identifier is no such operator. -/
theorem quiet_of_kind {k : TokenKind} (h : s.token.kind = k) (hk : ∀ name escaped, k ≠ .identifier name escaped) :
    s.Quiet := by
  have hidentifier : s.token.isIdentifier = false := by
    unfold Token.isIdentifier
    rw [h]
    cases k with
    | identifier name escaped => exact absurd rfl (hk name escaped)
    | _ => rfl
  constructor <;> rw [isWord_of_kind hidentifier, Bool.and_false]

section

variable {E : Fault → Prop} {Q : Summary → State → Prop} (hE : ∀ p, E (.stalled p))

include hE

theorem callTail_stops (hstops : StopsOperand s.token) (allowCall : Bool) (e : Summary) :
    Ends E (fun e' t => e' = e ∧ t = s) (callTail nested allowCall e s) := by
  have hdone : Ends E (fun e' t => e' = e ∧ t = s) (.ok e s) := ⟨rfl, rfl⟩
  unfold callTail
  split
  · exact hdone
  · exact .done hE (bind_of_ok (callTailPart_stops hstops allowCall false e)) ⟨rfl, rfl⟩ s.turns

/-- An operand with nothing after it. -/
theorem callTail_ends {x : Recognizer Summary} (hQ : EndsBefore Q) (h : Ends E Q (x s)) :
    Ends E Q ((x >>= callTail nested true) s) := by
  refine h.bind fun e u hu => ?_
  refine (callTail_stops hE (hQ.stops e u hu) true e).imp fun e' t ht => ?_
  rwa [ht.1, ht.2]

theorem leftHandSide_ends (hQ : EndsBefore Q) (h : Ends E Q (primary nested s))
    (hnew : s.token.isKeyword .new = false) (hsuper : s.token.isKeyword .super = false)
    (himport : s.token.isKeyword .import = false) : Ends E Q (leftHandSide nested s) := by
  refine notingOperandEnd_ends hQ.ended ?_
  rw [token_bind, hnew, if_neg Bool.false_ne_true, hsuper, if_neg Bool.false_ne_true, himport,
    if_neg Bool.false_ne_true]
  exact callTail_ends hE hQ h

omit hE in
theorem update_ends (hQ : EndsBefore Q) (h : Ends E Q (leftHandSide nested s)) : Ends E Q (update nested s) := by
  refine notingOperandEnd_ends hQ.ended (h.bind fun e u hu => ?_)
  rw [token_bind, (hQ.stops e u hu).update, Bool.false_and, if_neg Bool.false_ne_true]
  exact hu

omit hE in
theorem expandUnary_ends (hQ : EndsBefore Q) (h : Ends E Q (update nested s)) (hbegin : Begins s.token)
    (hquiet : s.Quiet) : Ends E Q (expandUnary nested s) := by
  refine notingOperandEnd_ends hQ.ended ?_
  obtain ⟨hplain, hdelete, hupdate⟩ := hbegin
  rw [token_bind, context_bind, hquiet.await, hplain, Bool.or_false, if_neg Bool.false_ne_true, hdelete,
    if_neg Bool.false_ne_true, hupdate, if_neg Bool.false_ne_true]
  exact h

theorem binary_ends (hQ : EndsOperand Q) (h : Ends E Q (expandUnary nested s)) (least : Nat) (allowIn : Bool) :
    Ends E Q (binary nested least allowIn s) := by
  refine notingOperandEnd_ends hQ.ended (h.bind fun e u hu => ?_)
  have hstops := stops_of_kind (hQ.stops e u hu)
  refine .done (b := e) (u := u) hE ?_ hu u.turns
  unfold binaryTurn
  rw [token_bind, hstops.binary]
  rfl

omit hE in
/-- Operators without a question mark after them are a conditional expression. -/
theorem conditional_of_binary {allowIn : Bool} (hQ : EndsOperand Q) (h : Ends E Q (binary nested 1 allowIn s)) :
    Ends E Q (conditional nested allowIn s) := by
  refine notingOperandEnd_ends hQ.ended (h.bind fun e u hu => ?_)
  have hstops := stops_of_kind (hQ.stops e u hu)
  rw [isAt_bind, hstops.question, Bool.false_and, if_neg Bool.false_ne_true]
  exact hu

/-- An operand by itself is a conditional expression. -/
theorem conditional_ends (hQ : EndsOperand Q) (h : Ends E Q (leftHandSide nested s)) (hbegin : Begins s.token)
    (hquiet : s.Quiet) (allowIn : Bool) : Ends E Q (conditional nested allowIn s) := by
  have hunary : Ends E Q (expandUnary nested s) :=
    expandUnary_ends hQ.endsBefore (update_ends hQ.endsBefore h) hbegin hquiet
  exact conditional_of_binary hQ (binary_ends hE hQ hunary 1 allowIn)

omit hE in
/-- A conditional expression is an assignment expression, where nothing is assigned. -/
theorem expandAssignment_ends {allowIn : Bool} (hQ : EndsOperand Q) (h : Ends E Q (conditional nested allowIn s))
    (hquiet : s.Quiet) (hassign : ∀ e t, Q e t → t.token.kind ≠ .punctuator .assign) :
    Ends E Q (expandAssignment nested allowIn s) := by
  unfold expandAssignment
  rw [context_bind, token_bind, hquiet.yield, if_neg Bool.false_ne_true]
  refine h.bind fun e u hu => ?_
  rw [token_bind, assignmentOperator?_stops (hQ.stops e u hu) (hassign e u hu)]
  exact hu

end

section

variable {Q : Summary → State → Prop}

theorem isLimit_stalled (v : Prop) (p : Position) : (Fault.stalled p).IsLimit ∨ ¬ v :=
  .inl (.inr rfl)

/-- An operand with nothing after it is decided by what decides the operand. -/
theorem callTail_of_operand {x : Recognizer Summary} (hQ : EndsOperand Q) (h : Concluded v Q (x s)) :
    Concluded v Q ((x >>= callTail nested true) s) := by
  rw [concluded_iff_ends] at h ⊢
  exact callTail_ends (isLimit_stalled v) (hQ.endsBefore.and_valid v) h

theorem leftHandSide_of_primary (hQ : EndsOperand Q) (h : Concluded v Q (primary nested s))
    (hnew : s.token.isKeyword .new = false) (hsuper : s.token.isKeyword .super = false)
    (himport : s.token.isKeyword .import = false) : Concluded v Q (leftHandSide nested s) := by
  rw [concluded_iff_ends] at h ⊢
  exact leftHandSide_ends (isLimit_stalled v) (hQ.endsBefore.and_valid v) h hnew hsuper himport

/-- What decides the operand decides the conditional expression that it is. -/
theorem conditional_of_leftHandSide (hQ : EndsOperand Q) (h : Concluded v Q (leftHandSide nested s))
    (hbegin : Begins s.token) (hquiet : s.Quiet) (allowIn : Bool) :
    Concluded v Q (conditional nested allowIn s) := by
  rw [concluded_iff_ends] at h ⊢
  exact conditional_ends (isLimit_stalled v) (hQ.and_valid v) h hbegin hquiet allowIn

/-- What decides the conditional expression decides the assignment expression, where nothing is assigned. -/
theorem expandAssignment_of_conditional {allowIn : Bool} (hQ : EndsOperand Q)
    (h : Concluded v Q (conditional nested allowIn s)) (hquiet : s.Quiet)
    (hassign : ∀ e t, Q e t → t.token.kind ≠ .punctuator .assign) :
    Concluded v Q (expandAssignment nested allowIn s) := by
  rw [concluded_iff_ends] at h ⊢
  exact expandAssignment_ends (hQ.and_valid v) h hquiet fun e t ht => hassign e t ht.2

end

/-- What is assigned with `=` needs a target. -/
theorem expandAssignment_assign {allowIn : Bool} {valid : Prop} {ms : List Lexeme}
    (h : Decided s v (.punctuator .assign :: ls) R (conditional nested allowIn s)) (hplain : s.context.Plain)
    (htarget : ∀ e, R e → (e.shape.isAssignmentTarget = true ↔ valid))
    (hvalue : ∀ u, s.Reaches u ls → Decided u True ms (fun _ => True) (assignment nested allowIn u)) :
    Decided s (v ∧ valid) ms (fun e => ∃ left, R left ∧
      e = ⟨.assignment (left.shape matches .identifier _ | .pattern true), left.start, none⟩)
      (expandAssignment nested allowIn s) := by
  unfold expandAssignment
  rw [context_bind, token_bind, hplain.yield, Bool.false_and, if_neg Bool.false_ne_true]
  refine Decided.bind (.refl s) h fun left u _ hu hleft => ?_
  have hassign : assignmentOperator? u.token = some .assign := by
    unfold assignmentOperator?
    rw [hu.kind]
    rfl
  rw [token_bind, hassign]
  dsimp only
  by_cases hshape : left.shape.isAssignmentTarget = true
  · rw [if_pos hshape]
    refine .advance hu fun u hu => ?_
    refine Decided.call hu.toAgrees (.discard (.refl u) (hvalue u hu)) fun _ u hu _ => ?_
    exact ⟨(htarget left hleft).mp hshape, hu, left, hleft, rfl⟩
  · rw [if_neg hshape]
    exact .refuse fun hvalid => hshape ((htarget left hleft).mpr hvalid)

/-! ## Primary expressions -/

/-- The state that has noted the start of an operand. -/
def State.noted (s : State) : State :=
  { s with operandStarts := s.token :: s.operandStarts }

theorem noteOperandStart_bind {β : Type} (f : Unit → Recognizer β) (s : State) :
    (noteOperandStart >>= f) s = f () s.noted := rfl

theorem token_noted (s : State) : s.noted.token = s.token := rfl

theorem primary_identifier {name : String} {escaped : Bool} (h : s.token.kind = .identifier name escaped) :
    primary nested s = identifierExpression nested ⟨name, escaped, s.token.start⟩ s.noted := by
  have hslash := isPunctuator_of_kind h .slash
  have hassign := isPunctuator_of_kind h .slashAssign
  unfold primary
  rw [isAt_bind, isAt_bind, hslash, hassign, if_neg (by simp)]
  dsimp only
  rw [noteOperandStart_bind, token_bind, token_noted, h]

theorem primary_string (h : s.token.kind = .string false) : primary nested s = tokenLiteral s.noted := by
  have hslash := isPunctuator_of_kind h .slash
  have hassign := isPunctuator_of_kind h .slashAssign
  unfold primary
  rw [isAt_bind, isAt_bind, hslash, hassign, if_neg (by simp)]
  dsimp only
  rw [noteOperandStart_bind, token_bind, token_noted, h]
  dsimp only
  rw [context_bind, Bool.false_and, if_neg Bool.false_ne_true]

theorem primary_function (h : s.token.kind = .keyword .function) :
    primary nested s = function nested false false false s.noted := by
  have hslash := isPunctuator_of_kind h .slash
  have hassign := isPunctuator_of_kind h .slashAssign
  unfold primary
  rw [isAt_bind, isAt_bind, hslash, hassign, if_neg (by simp)]
  dsimp only
  rw [noteOperandStart_bind, token_bind, token_noted, h]

theorem primary_class (h : s.token.kind = .keyword .class) :
    primary nested s = classDefinition nested false false s.noted := by
  have hslash := isPunctuator_of_kind h .slash
  have hassign := isPunctuator_of_kind h .slashAssign
  unfold primary
  rw [isAt_bind, isAt_bind, hslash, hassign, if_neg (by simp)]
  dsimp only
  rw [noteOperandStart_bind, token_bind, token_noted, h]

theorem primary_openParen (h : s.token.kind = .punctuator .openParen) :
    primary nested s = parenthesized nested s.noted := by
  have hslash := isPunctuator_of_kind h .slash
  have hassign := isPunctuator_of_kind h .slashAssign
  unfold primary
  rw [isAt_bind, isAt_bind, hslash, hassign, if_neg (by simp)]
  dsimp only
  rw [noteOperandStart_bind, token_bind, token_noted, h]

theorem primary_openBracket (h : s.token.kind = .punctuator .openBracket) :
    primary nested s = arrayLiteral nested s.noted := by
  have hslash := isPunctuator_of_kind h .slash
  have hassign := isPunctuator_of_kind h .slashAssign
  unfold primary
  rw [isAt_bind, isAt_bind, hslash, hassign, if_neg (by simp)]
  dsimp only
  rw [noteOperandStart_bind, token_bind, token_noted, h]

theorem primary_openBrace (h : s.token.kind = .punctuator .openBrace) :
    primary nested s = objectLiteral nested s.noted := by
  have hslash := isPunctuator_of_kind h .slash
  have hassign := isPunctuator_of_kind h .slashAssign
  unfold primary
  rw [isAt_bind, isAt_bind, hslash, hassign, if_neg (by simp)]
  dsimp only
  rw [noteOperandStart_bind, token_bind, token_noted, h]

/-! ## Numbers and names -/

/-- What is known of the expression: its shape, and whether a shorthand initializer is pending in it. -/
structure Summary.Is (shape : Shape) (pending : Bool) (e : Summary) : Prop where
  shape_eq : e.shape = shape
  pending_eq : e.shorthand?.isSome = pending

theorem Summary.Is.none_iff {shape : Shape} {pending : Bool} {e : Summary} (h : e.Is shape pending) :
    e.shorthand? = none ↔ pending = false := by
  rw [← h.pending_eq, Option.isSome_eq_false_iff, Option.isNone_iff_eq_none]

theorem tokenLiteral_eq_ok (h : advance s = .ok () t) : tokenLiteral s = .ok (.other s.token.start) t := by
  unfold tokenLiteral
  rw [token_bind]
  exact bind_of_ok h

theorem tokenLiteral_concluded (hs : s.Faces (l :: ls)) :
    Concluded True (fun e t => s.Reaches t ls ∧ e.Is .other false) (tokenLiteral s) := by
  obtain ⟨t, hadvance, ht, _⟩ := advanceWith_reaches (.refl hs) (goalAfter_ne_templateTail s.token)
  rw [tokenLiteral_eq_ok hadvance]
  exact ⟨trivial, ht, rfl, rfl⟩

theorem faces_noted (hs : s.Faces ls) : s.noted.Faces ls :=
  hs.of_eq rfl rfl

theorem agrees_noted (s : State) : s.Agrees s.noted :=
  ⟨rfl, rfl⟩

theorem primary_number {legacy : Bool} {n : Literal (.number legacy)} (hs : s.Faces (.literal n :: ls)) :
    Decided s (¬ (legacy && s.context.strict) = true) ls (Summary.Is .other false) (primary nested s) := by
  have hslash := isPunctuator_of_kind hs.kind .slash
  have hassign := isPunctuator_of_kind hs.kind .slashAssign
  have hkind : s.token.kind = .number legacy := hs.kind
  unfold primary
  rw [isAt_bind, isAt_bind, hslash, hassign, if_neg (by simp [Lexeme.kind])]
  dsimp only
  rw [noteOperandStart_bind, token_bind, token_noted, hkind]
  dsimp only
  rw [context_bind]
  by_cases hstrict : (legacy && s.noted.context.strict) = true
  · rw [if_pos hstrict]
    exact .refuse fun h => h hstrict
  · rw [if_neg hstrict]
    refine ((tokenLiteral_concluded (faces_noted hs)).iff (iff_of_true trivial hstrict)).imp fun _ e t ht => ?_
    exact ⟨.of_agrees (agrees_noted s) ht.1, ht.2⟩

/-- Whether a name may not be referred to, or bound, in the context. -/
def Context.forbids (c : Context) (binding : Bool) (name : String) : Bool :=
  (c.identifierError? binding ⟨name, false, .start⟩).isSome

/-- A word that is free can be spelled with escapes as well. -/
theorem identifierError?_free {c : Context} {binding escaped : Bool} {v : Variable} {p : Position} :
    c.identifierError? binding ⟨v.name, escaped, p⟩ = none ↔ c.forbids binding v.name = false := by
  have hfree : Keyword.ofName? v.name = none := v.free
  unfold Context.forbids Context.identifierError?
  simp only [hfree, Option.isSome_none, Bool.and_false, Bool.false_eq_true, if_false]
  rw [Option.isSome_eq_false_iff, Option.isNone_iff_eq_none]

theorem bindingError?_free {c : Context} {escaped : Bool} {v : Variable} {p : Position} :
    c.bindingError? false ⟨v.name, escaped, p⟩ = none ↔ c.forbids true v.name = false := by
  unfold Context.bindingError?
  rw [Bool.false_and, if_neg Bool.false_ne_true, Option.or_none, identifierError?_free]

/-- Code of a script, strict or not, in which no other words are reserved. -/
structure Context.Free (c : Context) (strict : Bool) : Prop extends c.Plain where
  strict_eq : c.strict = strict
  yieldReserved : c.yieldReserved = false
  awaitReserved : c.awaitReserved = false
  classField : c.classField = false

namespace Context.Free

variable {c : Context} {strict : Bool}

theorem forbids (h : c.Free strict) (binding : Bool) (name : String) : c.forbids binding name =
    (strict && (strictReservedWords.contains name || binding && isEvalOrArguments name)) := by
  unfold Context.forbids Context.identifierError?
  simp only [h.yield, h.yieldReserved, h.await, h.awaitReserved, h.classField, h.strict_eq]
  cases strict <;> cases binding <;> cases strictReservedWords.contains name <;> cases isEvalOrArguments name <;> simp

theorem forbids_sloppy (h : c.Free false) (binding : Bool) (name : String) : c.forbids binding name = false :=
  h.forbids binding name

/-- What strict code may bind. -/
theorem forbids_strict (h : c.Free true) {name : String} :
    c.forbids true name = false ↔ name ∉ strictReservedWords ∧ name ≠ "eval" ∧ name ≠ "arguments" := by
  rw [h.forbids, Bool.true_and, Bool.true_and, Bool.or_eq_false_iff, isEvalOrArguments, Bool.or_eq_false_iff,
    decide_eq_false_iff_not, decide_eq_false_iff_not, ← Bool.not_eq_true, List.contains_iff_mem]

theorem forbidsAssigning (h : c.Free strict) (name : String) :
    c.forbidsAssigning name = (strict && isEvalOrArguments name) := by
  unfold Context.forbidsAssigning
  rw [h.strict_eq]

theorem ofArrow (h : c.Free strict) : (c.ofArrow false).Free strict :=
  ⟨⟨rfl, rfl⟩, h.strict_eq, rfl, h.awaitReserved, h.classField⟩

end Context.Free

theorem Context.ofScript_free (strict : Bool) : ({ strict } : Context).Free strict :=
  ⟨⟨rfl, rfl⟩, rfl, rfl, rfl, rfl⟩

theorem Context.ofFunction_free (strict : Bool) : (Context.ofFunction strict false false false).Free strict :=
  ⟨⟨rfl, rfl⟩, rfl, rfl, rfl, rfl⟩

theorem failIf_decided (hs : s.Faces ls) (e : Option GrammarError) (p : Position) :
    Decided s (e = none) ls (fun _ => True) (failIf e p s) := by
  cases e with
  | none => exact ⟨rfl, .refl hs, trivial⟩
  | some e => exact .refuse (Option.some_ne_none e)

theorem rejectShorthand_decided (hs : s.Faces ls) (e : Summary) :
    Decided s (e.shorthand? = none) ls (fun _ => True) (rejectShorthand e s) := by
  unfold rejectShorthand
  cases h : e.shorthand? with
  | none => exact ⟨rfl, .refl hs, trivial⟩
  | some p => exact .refuse (Option.some_ne_none p)

theorem checkReference_decided {v : Variable} {escaped : Bool} {place : Position} (hs : s.Faces ls) :
    Decided s (s.context.forbids false v.name = false) ls (fun _ => True)
      (checkReference ⟨v.name, escaped, place⟩ s) :=
  (failIf_decided hs _ _).iff identifierError?_free

theorem isAtArrow_bind {β : Type} (f : Bool → Recognizer β) (s : State) :
    (isAtArrow >>= f) s = f (s.token.isPunctuator .arrow && !s.token.newlineBefore) s := rfl

/-- A name that no parenthesis follows is no asynchronous function. -/
theorem identifierExpression_plain {v : Variable} {p : Punctuator} {i : Identifier}
    (hs : s.Faces (.word v.toWord :: .punctuator p :: ls)) (hcall : p ≠ .openParen) :
    identifierExpression nested i s = plainIdentifier nested i s := by
  unfold identifierExpression
  rw [isAtWord_bind]
  split
  · obtain ⟨next, hpeek, hnext, _⟩ := peek_reaches (.refl hs)
    have hfunction : next.isKeyword .function = false := isKeyword_of_kind hnext .function
    have hidentifier : next.isIdentifier = false := by
      unfold Token.isIdentifier
      rw [hnext]
      rfl
    have hparen : next.isPunctuator .openParen = false := by
      rw [isPunctuator_of_kind hnext]
      simpa [Lexeme.kind] using hcall
    rw [bind_of_ok hpeek, hfunction, Bool.and_false, if_neg Bool.false_ne_true, hidentifier, Bool.and_false,
      if_neg Bool.false_ne_true, hparen, if_neg Bool.false_ne_true]
  · rfl

/-- A name that is neither called nor the parameter of an arrow function. -/
theorem primary_name {v : Variable} {p : Punctuator} (hs : s.Faces (.word v.toWord :: .punctuator p :: ls))
    (hcall : p ≠ .openParen) (harrow : p ≠ .arrow) :
    Decided s (s.context.forbids false v.name = false) (.punctuator p :: ls)
      (Summary.Is (.identifier !s.context.forbidsAssigning v.name) false) (primary nested s) := by
  have hkind : s.token.kind = .identifier v.name v.value.escaped := hs.kind.trans v.kind_eq
  rw [primary_identifier hkind]
  have hs' := faces_noted hs
  have hplain : Decided s.noted (s.context.forbids false v.name = false) (.punctuator p :: ls)
      (Summary.Is (.identifier !s.context.forbidsAssigning v.name) false)
      (plainIdentifier nested ⟨v.name, v.value.escaped, s.token.start⟩ s.noted) := by
    unfold plainIdentifier
    refine Decided.andThen (.refl _) (checkReference_decided hs') fun _ t _ ht _ => ?_
    refine .advance ht fun u hu => ?_
    have hnot : u.token.isPunctuator .arrow = false := by
      rw [isPunctuator_of_kind hu.kind]
      simpa [Lexeme.kind] using harrow
    rw [context_bind, isAtArrow_bind, hnot, Bool.false_and, if_neg Bool.false_ne_true]
    exact ⟨trivial, hu, by rw [hu.context]; rfl, rfl⟩
  refine .of_agrees (agrees_noted s) ?_
  rw [identifierExpression_plain hs' hcall]
  exact hplain

/-! ## Nested productions -/

/-- The state one level deeper. -/
def State.deepened (s : State) : State :=
  { s with depth := s.depth + 1 }

theorem State.Quiet.deepened (h : s.Quiet) : s.deepened.Quiet :=
  ⟨h.await, h.yield⟩

/-- The state one level less deep. -/
def State.surfaced (s : State) : State :=
  { s with depth := s.depth - 1 }

theorem agrees_surfaced (h : s.deepened.Agrees t) : s.Agrees t.surfaced :=
  have hlevel : t.depth = s.depth + 1 := h.depth
  ⟨Surroundings.ext h.context h.labels h.attachedLabels h.classDepth (congrArg Nat.pred hlevel), h.isModule⟩

theorem reaches_surfaced (h : s.deepened.Reaches t ls) : s.Reaches t.surfaced ls :=
  ⟨agrees_surfaced h.toAgrees, h.faces.of_eq rfl rfl⟩

/-- What a production expands to ends one level deeper, unless no level is left. -/
theorem derive_ends {levels : Nat} {p : Production} {E : Fault → Prop} {Q : p.Result → State → Prop}
    (hzero : levels = 0 → ∀ n p, E (.tooDeep n p))
    (h : ∀ n, levels = n + 1 → Ends E (fun a t => Q a t.surfaced) (expand (derive n) p s.deepened)) :
    Ends E Q (derive levels p s) := by
  cases levels with
  | zero => exact hzero rfl _ _
  | succ n =>
    change Ends E Q ((expand (derive n) p >>= fun result => do
      modify fun s => { s with depth := s.depth - 1 }
      return result) s.deepened)
    exact (h n rfl).bind fun a u hu => hu

theorem derive_refused {levels : Nat} {p : Production} (h : ∀ n, Refused (expand (derive n) p s.deepened)) :
    Refused (derive levels p s) :=
  derive_ends (fun _ _ _ => trivial) fun n _ => h n

/-- What the expansion of a production concludes one level deeper, the derivation concludes. Without a level left it is
cut off. -/
theorem derive_concluded {levels : Nat} {p : Production} {Q : p.Result → State → Prop}
    (h : ∀ n, levels = n + 1 → Concluded v (fun a t => Q a t.surfaced) (expand (derive n) p s.deepened)) :
    Concluded v Q (derive levels p s) := by
  cases levels with
  | zero => exact .inl (.inl rfl)
  | succ n => exact (h n rfl).andThen (f := fun result => do
      modify fun s => { s with depth := s.depth - 1 }
      return result) fun a u _ hu => ⟨trivial, hu⟩

theorem derive_decided {levels : Nat} {p : Production} {R : p.Result → Prop}
    (h : ∀ n, levels = n + 1 → Decided s.deepened v ls R (expand (derive n) p s.deepened)) :
    Decided s v ls R (derive levels p s) :=
  derive_concluded fun n hn => Concluded.imp (h n hn) fun _ _ _ ha => ⟨reaches_surfaced ha.1, ha.2⟩

/-- What decides the operand decides the assignment expression that it is. -/
theorem assignment_of_leftHandSide {levels : Nat} (hquiet : s.Quiet)
    (hbegin : s.token.kind.beginsOperand = true) (hstop : l.kind.stops = true) (hassign : l.kind ≠ .punctuator .assign)
    (h : ∀ n, levels = n + 1 → Decided s.deepened v (l :: ls) R (leftHandSide (derive n) s.deepened)) :
    Decided s v (l :: ls) R (derive levels (.assignment true) s) := by
  refine derive_decided (p := .assignment true) fun n hn => ?_
  have hQ : EndsOperand fun e t => s.deepened.Reaches t (l :: ls) ∧ R e := endsOperand_reaches s.deepened R hstop
  refine expandAssignment_of_conditional hQ ?_ hquiet.deepened fun e t ht => ?_
  · exact conditional_of_leftHandSide hQ (h n hn) (begins_of_kind hbegin) hquiet.deepened true
  · rw [ht.1.kind]
    exact hassign

theorem assignment_of_primary {levels : Nat} (hquiet : s.Quiet)
    (hbegin : s.token.kind.beginsOperand = true) (hstop : l.kind.stops = true) (hassign : l.kind ≠ .punctuator .assign)
    (hnew : s.token.isKeyword .new = false) (hsuper : s.token.isKeyword .super = false)
    (himport : s.token.isKeyword .import = false)
    (h : ∀ n, levels = n + 1 → Decided s.deepened v (l :: ls) R (primary (derive n) s.deepened)) :
    Decided s v (l :: ls) R (derive levels (.assignment true) s) :=
  assignment_of_leftHandSide hquiet hbegin hstop hassign fun n hn =>
    leftHandSide_of_primary (endsOperand_reaches _ R hstop) (h n hn) hnew hsuper himport

/-- A number by itself. -/
theorem assignment_number {levels : Nat} {legacy : Bool} {n : Literal (.number legacy)} (hquiet : s.Quiet)
    (hs : s.Faces (.literal n :: l :: ls)) (hstop : l.kind.stops = true) (hassign : l.kind ≠ .punctuator .assign) :
    Decided s (¬ (legacy && s.context.strict) = true) (l :: ls) (Summary.Is .other false)
      (derive levels (.assignment true) s) := by
  have hnot (k : Keyword) : s.token.isKeyword k = false := isKeyword_of_kind hs.kind k
  have hbegins : s.token.kind.beginsOperand = true := by
    rw [hs.kind]
    rfl
  refine assignment_of_primary hquiet hbegins hstop hassign (hnot _) (hnot _) (hnot _) fun m _ => ?_
  exact primary_number (hs.of_eq rfl rfl)

/-- What is decided of an assignment expression is also decided of it as an operand whose end is noted. -/
theorem assignmentOrPattern_decided {allowIn : Bool} (h : Decided s v ls R (nested (.assignment allowIn) s)) :
    Decided s v ls R (assignmentOrPattern nested allowIn s) :=
  notingOperandEnd_decided h

section

variable {Q : Summary → State → Prop}

/-- An expression in which no shorthand initializer may be pending. -/
theorem rejecting_concluded {x : Recognizer Summary} {w : Prop} (h : Concluded v Q (x s))
    (hpending : ∀ e t, Q e t → (e.shorthand? = none ↔ w)) :
    Concluded (v ∧ w) (fun e t => Q e t ∧ e.shorthand? = none) ((do
      let e ← x
      rejectShorthand e
      return e) s) := by
  refine h.bind fun e t _ ht => ?_
  have hpending := hpending e t ht
  unfold rejectShorthand
  cases hnone : e.shorthand? with
  | none => exact ⟨hpending.mp hnone, ht, hnone⟩
  | some p => exact .refuse fun hw => Option.some_ne_none p (hnone.symm.trans (hpending.mpr hw))

theorem expressionOrPattern_ends {E : Fault → Prop} {allowIn : Bool} (hended : ∀ e t, Q e t → Q e t.ended)
    (h : Ends E Q (nested (.assignment allowIn) s)) (hcomma : ∀ e t, Q e t → t.token.kind ≠ .punctuator .comma) :
    Ends E Q (expressionOrPattern nested allowIn s) := by
  refine notingOperandEnd_ends hended ((notingOperandEnd_ends hended h).bind fun e t ht => ?_)
  have hat : t.token.isPunctuator .comma = false :=
    (isPunctuator_of_kind rfl .comma).trans (decide_eq_false (hcomma e t ht))
  rw [isAt_bind, hat, if_neg Bool.false_ne_true]
  exact ht

theorem expressionOrPattern_concluded {allowIn : Bool} (hended : ∀ e t, Q e t → Q e t.ended)
    (h : Concluded v Q (nested (.assignment allowIn) s))
    (hcomma : ∀ e t, Q e t → t.token.kind ≠ .punctuator .comma) :
    Concluded v Q (expressionOrPattern nested allowIn s) := by
  rw [concluded_iff_ends] at h ⊢
  exact expressionOrPattern_ends (fun e t ht => ⟨ht.1, hended e t ht.2⟩) h fun e t ht => hcomma e t ht.2

end

section

variable {allowIn : Bool} {w : Prop}

/-- No shorthand initializer may be pending in an assignment expression. -/
theorem assignment_decided (h : Decided s v ls R (nested (.assignment allowIn) s))
    (hpending : ∀ e, R e → (e.shorthand? = none ↔ w)) :
    Decided s (v ∧ w) ls (fun e => R e ∧ e.shorthand? = none) (assignment nested allowIn s) :=
  (rejecting_concluded (assignmentOrPattern_decided h) fun e _ he => hpending e he.2).imp
    fun _ _ _ he => ⟨he.1.1, he.1.2, he.2⟩

/-- An expression without commas is its assignment expression. -/
theorem expressionOrPattern_decided (h : Decided s v (l :: ls) R (nested (.assignment allowIn) s))
    (hcomma : l.kind ≠ .punctuator .comma) : Decided s v (l :: ls) R (expressionOrPattern nested allowIn s) := by
  refine expressionOrPattern_concluded (fun e t ht => ⟨⟨⟨ht.1.surroundings, ht.1.isModule⟩, ?_⟩, ht.2⟩) h
    fun e t ht => ht.1.kind ▸ hcomma
  exact ht.1.faces.of_eq rfl rfl

theorem expression_decided (h : Decided s v (l :: ls) R (nested (.assignment allowIn) s))
    (hcomma : l.kind ≠ .punctuator .comma) (hpending : ∀ e, R e → (e.shorthand? = none ↔ w)) :
    Decided s (v ∧ w) (l :: ls) (fun e => R e ∧ e.shorthand? = none) (expression nested allowIn s) :=
  (rejecting_concluded (expressionOrPattern_decided h hcomma) fun e _ he => hpending e he.2).imp
    fun _ _ _ he => ⟨he.1.1, he.1.2, he.2⟩

end

end EcmaCheck.Grammar
