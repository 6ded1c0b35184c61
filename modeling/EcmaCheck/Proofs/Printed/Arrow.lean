import EcmaCheck.Proofs.Printed.Control

/-!
# Arrow functions of one parameter

The one parameter of an arrow function needs no parentheses. Without them it is bound before the arrow is seen
(`bareArrow_decided`, `asyncArrow_decided`); in parentheses it is first an operand, and a parameter only if the operand
turns out to be a plain name (`operandOf_decided`). Where `yield` or `await` is an operator, it is no such name.
-/

namespace EcmaCheck

open Punctuator (piece)

/-- The word before the parameter of an async arrow function. -/
def nameAsync : Variable :=
  .plain "async".toList (by decide +kernel) (by decide)

/-- An arrow function of one parameter as it is printed, the parameter in parentheses or not. -/
def arrowPieces (isAsync enclosed : Bool) (x : Variable) : List Piece :=
  (if isAsync then [nameAsync.piece, .space] else []) ++
    (if enclosed then [piece .openParen, x.piece, piece .closeParen] else [x.piece]) ++
    [.space, piece .arrow, .space, .lexeme (.literal Grammar.zero)]

end EcmaCheck

namespace EcmaCheck.Grammar

variable {s t : State} {v : Prop} {l first : Lexeme} {ls ms : List Lexeme} {nested : Derivation} {levels : Nat}
  {x : Variable} {p : Punctuator}

/-! ## Names that may be bound -/

/-- A name may be bound if it may be referred to and assigned. -/
theorem forbids_binding_iff {c : Context} {name : String} :
    c.forbids true name = false ↔ c.forbids false name = false ∧ c.forbidsAssigning name = false := by
  unfold Context.forbids Context.identifierError? Context.forbidsAssigning
  grind

theorem forbids_yield {c : Context} (h : c.yieldOperator = true) (binding : Bool) :
    c.forbids binding "yield" = true := by
  unfold Context.forbids Context.identifierError?
  simp [h]

theorem forbids_await {c : Context} (h : c.awaitOperator = true) (binding : Bool) :
    c.forbids binding "await" = true := by
  unfold Context.forbids Context.identifierError?
  simp [h]

theorem isWord_variable (hs : s.Faces (.word x.toWord :: ls)) (w : String) :
    s.token.isWord w = (!x.value.escaped && decide (x.name = w)) := by
  unfold Token.isWord
  rw [hs.kind.trans x.kind_eq]

/-! ## Operators without an operand -/

/-- No operand begins with an arrow or a closing parenthesis. -/
theorem primary_refused (h : s.token.kind = .punctuator p) (hp : p = .arrow ∨ p = .closeParen) :
    Refused (primary nested s) := by
  have hslash : s.token.isPunctuator .slash = false :=
    (isPunctuator_of_kind h .slash).trans (decide_eq_false (by rcases hp with rfl | rfl <;> nofun))
  have hassign : s.token.isPunctuator .slashAssign = false :=
    (isPunctuator_of_kind h .slashAssign).trans (decide_eq_false (by rcases hp with rfl | rfl <;> nofun))
  unfold primary
  rw [isAt_bind, isAt_bind, hslash, hassign, if_neg (by simp)]
  dsimp only
  rw [noteOperandStart_bind, token_bind, token_noted, h]
  rcases hp with rfl | rfl <;> trivial

theorem endsOperand_refused : EndsOperand fun _ _ => False :=
  ⟨fun _ _ h => h.elim, fun _ _ h => h⟩

theorem expandUnary_refused (h : s.token.kind = .punctuator p) (hp : p = .arrow ∨ p = .closeParen) :
    Refused (expandUnary nested s) := by
  have hnot (k : Keyword) : s.token.isKeyword k = false := isKeyword_of_kind h k
  have hbegins : Begins s.token := by
    generalize s.token = token at h ⊢
    obtain ⟨kind, start, stop, lexeme, newlineBefore⟩ := token
    cases h
    rcases hp with rfl | rfl <;> exact ⟨rfl, rfl, rfl⟩
  have hleft : Refused (leftHandSide nested s) :=
    leftHandSide_ends (fun _ => trivial) endsOperand_refused.endsBefore (primary_refused h hp) (hnot _)
      (hnot _) (hnot _)
  exact expandUnary_ends endsOperand_refused.endsBefore (update_ends endsOperand_refused.endsBefore hleft) hbegins
    (quiet_of_kind h nofun)

theorem conditional_refused {allowIn : Bool} (h : Refused (expandUnary nested s)) :
    Refused (conditional nested allowIn s) :=
  conditional_of_binary endsOperand_refused (binary_ends (fun _ => trivial) endsOperand_refused h 1 allowIn)

/-- `await` as an operator takes an operand. -/
theorem expandAssignment_await (hs : s.Faces (.word x.toWord :: .punctuator p :: ls))
    (hp : p = .arrow ∨ p = .closeParen) (h : (s.context.awaitOperator && s.token.isWord "await") = true) :
    Refused (expandAssignment (derive levels) true s) := by
  have hword : s.token.isWord "yield" = false := by
    have hawait := (isWord_variable hs "await").symm.trans ((Bool.and_eq_true _ _).mp h).2
    rw [isWord_variable hs, of_decide_eq_true ((Bool.and_eq_true _ _).mp hawait).2]
    simp
  have hoperator : (isPlainPrefix s.token || (s.context.awaitOperator && s.token.isWord "await")) = true :=
    (Bool.or_eq_true _ _).mpr (.inr h)
  have hprefixed : Refused (prefixed (derive levels) s) := by
    obtain ⟨t, hadvance, ht⟩ := advance_reaches (.refl hs)
    unfold prefixed
    rw [bind_of_ok hadvance]
    exact (derive_refused (p := .unary) fun n => expandUnary_refused (s := t.deepened) ht.kind hp).bind
  have hunary : Refused (expandUnary (derive levels) s) := by
    refine notingOperandEnd_ends (fun _ _ h => h) ?_
    rw [token_bind, context_bind, hoperator, if_pos rfl]
    exact hprefixed.bind.bind
  unfold expandAssignment
  rw [context_bind, token_bind, hword, Bool.and_false, if_neg Bool.false_ne_true]
  exact (conditional_refused hunary).bind

/-- The operand of `yield` does not begin with an arrow. -/
theorem expandAssignment_yield (hs : s.Faces (.word x.toWord :: .punctuator .arrow :: ls))
    (h : (s.context.yieldOperator && s.token.isWord "yield") = true) :
    Refused (expandAssignment (derive levels) true s) := by
  obtain ⟨t, hadvance, ht⟩ := advance_reaches (.refl hs)
  have hbegins : beginsYieldOperand t.token = true := by
    unfold beginsYieldOperand
    rw [ht.kind]
    rfl
  have hoperand : Refused (derive levels (.assignment true) t) := by
    refine derive_refused (p := .assignment true) fun n => ?_
    have hkind : t.deepened.token.kind = .punctuator .arrow := ht.kind
    exact expandAssignment_ends endsOperand_refused (conditional_refused (expandUnary_refused hkind (.inl rfl)))
      (quiet_of_kind hkind nofun) fun _ _ h => h.elim
  have hvalue : Refused (assignmentOrPattern (derive levels) true t) :=
    notingOperandEnd_ends (fun _ _ h => h) hoperand
  unfold expandAssignment
  rw [context_bind, token_bind, h, if_pos rfl]
  unfold yieldExpression
  rw [token_bind, bind_of_ok hadvance, token_bind, ht.faces.line, if_neg Bool.false_ne_true,
    bind_of_ok (eat_of_not (isPunctuator_of_kind ht.kind .star)), token_bind, hbegins, Bool.or_true, if_pos rfl]
  exact hvalue.bind.bind.bind

/-- Before a closing parenthesis `yield` needs no operand. -/
theorem expandAssignment_yieldAlone (hs : s.Faces (.word x.toWord :: .punctuator .closeParen :: ls))
    (h : (s.context.yieldOperator && s.token.isWord "yield") = true) :
    Decided s True (.punctuator .closeParen :: ls) (Summary.Is .other false) (expandAssignment nested true s) := by
  unfold expandAssignment
  rw [context_bind, token_bind, h, if_pos rfl]
  unfold yieldExpression
  rw [token_bind]
  refine .advance (.refl hs) fun t ht => ?_
  have hends : beginsYieldOperand t.token = false := by
    unfold beginsYieldOperand
    rw [ht.kind]
    rfl
  rw [token_bind, ht.faces.line, if_neg Bool.false_ne_true,
    bind_of_ok (eat_of_not (isPunctuator_of_kind ht.kind .star)), token_bind, hends, Bool.or_false,
    if_neg Bool.false_ne_true]
  exact ⟨trivial, ht, rfl, rfl⟩

/-! ## The parameter -/

/-- A name in parentheses is read as an operand. It can be a parameter just if it may be bound. -/
theorem operandOf_decided (c : Context) (x : Variable) : ∃ (valid : Prop) (shape : Shape),
    (valid ∧ shape.isBindingElement = true ↔ c.forbids true x.name = false) ∧
      ∀ (levels : Nat) (s : State) (ls : List Lexeme), s.context = c →
        s.Faces (.word x.toWord :: .punctuator .closeParen :: ls) →
        Decided s valid (.punctuator .closeParen :: ls) (Summary.Is shape false)
          (derive levels (.assignment true) s) := by
  by_cases hyield : (c.yieldOperator && (!x.value.escaped && decide (x.name = "yield"))) = true
  · have hname : c.forbids true x.name = true := by
      simp only [Bool.and_eq_true, decide_eq_true_eq] at hyield
      rw [hyield.2.2, forbids_yield hyield.1]
    refine ⟨True, .other, ?_, fun levels s ls hc hs => derive_decided (p := .assignment true) fun n _ => ?_⟩
    · exact iff_of_false (fun h => Bool.false_ne_true h.2) fun h => Bool.false_ne_true (h.symm.trans hname)
    · have hdeepened : s.deepened.Faces (.word x.toWord :: .punctuator .closeParen :: ls) := hs.of_eq rfl rfl
      refine expandAssignment_yieldAlone hdeepened ?_
      rwa [isWord_variable hdeepened, show s.deepened.context = c from hc]
  by_cases hawait : (c.awaitOperator && (!x.value.escaped && decide (x.name = "await"))) = true
  · have hname : c.forbids true x.name = true := by
      simp only [Bool.and_eq_true, decide_eq_true_eq] at hawait
      rw [hawait.2.2, forbids_await hawait.1]
    refine ⟨False, .other, ?_, fun levels s ls hc hs => derive_decided (p := .assignment true) fun n _ => ?_⟩
    · exact iff_of_false (fun h => h.1) fun h => Bool.false_ne_true (h.symm.trans hname)
    · have hdeepened : s.deepened.Faces (.word x.toWord :: .punctuator .closeParen :: ls) := hs.of_eq rfl rfl
      refine (expandAssignment_await hdeepened (.inr rfl) ?_).concluded not_false
      rwa [isWord_variable hdeepened, show s.deepened.context = c from hc]
  refine ⟨c.forbids false x.name = false, .identifier !c.forbidsAssigning x.name, ?_, fun levels s ls hc hs => ?_⟩
  · rw [forbids_binding_iff]
    refine and_congr_right fun _ => ?_
    cases c.forbidsAssigning x.name <;> simp [Shape.isBindingElement, Shape.isBindingTarget]
  · have hquiet : s.Quiet := by
      constructor <;> rw [isWord_variable hs, hc]
      · exact Bool.eq_false_iff.mpr hawait
      · exact Bool.eq_false_iff.mpr hyield
    subst hc
    have hkind : s.token.kind = .identifier x.name x.value.escaped := hs.kind.trans x.kind_eq
    have hnot (k : Keyword) : s.token.isKeyword k = false := isKeyword_of_kind hkind k
    exact assignment_of_primary hquiet (by rw [hkind]; rfl) rfl (by decide) (hnot _) (hnot _) (hnot _) fun n _ =>
      primary_name (s := s.deepened) (hs.of_eq rfl rfl) (by decide) (by decide)

/-! ## The arrow -/

/-- An arrow before a number. -/
theorem arrowBody_number {start : Position} {isAsync simple : Bool} {n : Literal (.number false)}
    (hstop : l.kind.stops = true) (hassign : l.kind ≠ .punctuator .assign)
    (hs : s.Faces (.punctuator .arrow :: .literal n :: l :: ls)) :
    Decided s True (l :: ls) (Summary.Is .arrow false) (arrowBody (derive levels) start isAsync simple s) := by
  unfold arrowBody
  refine .advance (.refl hs) fun t ht => ?_
  rw [context_bind]
  refine Decided.andThen (R := fun _ => True) ht.toAgrees (inFunctionContext_decided ?_)
    fun _ u _ (hu : s.Reaches u (l :: ls)) _ => ⟨trivial, hu, rfl, rfl⟩
  have hfaces := faces_inside ht.faces (t.context.ofArrow isAsync)
  have hbrace : (t.inside (t.context.ofArrow isAsync)).token.isPunctuator .openBrace = false :=
    isPunctuator_of_kind hfaces.kind _
  rw [isAt_bind, hbrace, if_neg Bool.false_ne_true]
  have hnumber : Decided (t.inside (t.context.ofArrow isAsync)) (¬ (false && _) = true) (l :: ls)
    (Summary.Is .other false)
      (derive levels (.assignment true) (t.inside (t.context.ofArrow isAsync))) :=
    assignment_number (quiet_of_kind hfaces.kind nofun) hfaces hstop hassign
  have hassignment := assignment_decided hnumber (w := True) fun e he => iff_of_true (he.none_iff.mpr rfl) trivial
  exact .discard (.refl _) (hassignment.iff (by simp))

theorem isAtArrow_of_faces (hs : s.Faces (.punctuator .arrow :: ls)) :
    (s.token.isPunctuator .arrow && !s.token.newlineBefore) = true := by
  rw [isPunctuator_of_kind hs.kind, hs.line]
  rfl

theorem allBinding_single {shape : Shape} {pending : Bool} {e : Summary} (he : e.Is shape pending) :
    (({} : ParenthesizedList).push e).allBinding = shape.isBindingElement := by
  change (true && e.shape.isBindingElement) = _
  rw [Bool.true_and, he.shape_eq]

/-- What stands in parentheses before an arrow must be able to be parameters. -/
theorem arrowAfter_decided {list : ParenthesizedList} {start : Position} {isAsync : Bool}
    (h : Decided s True ls (Summary.Is .arrow false) (arrowBody nested start isAsync list.allIdentifiers s)) :
    Decided s (list.allBinding = true) ls (Summary.Is .arrow false) ((do
      unless list.allBinding do fail .arrowParameters start
      arrowBody nested start isAsync list.allIdentifiers : Recognizer Summary) s) := by
  cases hlist : list.allBinding with
  | false => exact .refuse Bool.false_ne_true
  | true => exact h.iff (iff_of_true trivial rfl)

section

variable {shape : Shape} {pending : Bool} (hs : s.Faces (.punctuator .openParen :: first :: ms))
  (hclose : first.kind ≠ .punctuator .closeParen) (hrest : first.kind ≠ .punctuator .ellipsis)
  (hitem : ∀ t, s.Reaches t (first :: ms) →
    Decided t v (.punctuator .closeParen :: .punctuator .arrow :: ls) (Summary.Is shape pending)
      (nested (.assignment true) t))
  {ns : List Lexeme} (hbody : ∀ (t : State) (start : Position) (isAsync simple : Bool),
    s.Reaches t (.punctuator .arrow :: ls) →
      Decided t True ns (Summary.Is .arrow false) (arrowBody nested start isAsync simple t))

include hs hclose hrest hitem hbody

/-- An arrow function with one item in parentheses. -/
theorem parenthesizedArrow_decided : Decided s (v ∧ shape.isBindingElement = true) ns (Summary.Is .arrow false)
    (parenthesized nested s) := by
  unfold parenthesized
  rw [token_bind]
  refine Decided.bind (.refl s) (parenthesizedList_single hs hclose hrest hitem false) fun list t _ ht hlist => ?_
  obtain ⟨e, he, rfl⟩ := hlist
  rw [isAtArrow_bind, isAtArrow_of_faces ht.faces, if_pos rfl, ← allBinding_single he]
  exact .of_agrees ht.toAgrees (arrowAfter_decided (hbody t _ _ _ ht))

/-- An async arrow function with one item in parentheses. -/
theorem asyncParenthesizedArrow_decided {start : Position} : Decided s (v ∧ shape.isBindingElement = true) ns
    (Summary.Is .arrow false) (asyncCallOrArrow nested start false s) := by
  unfold asyncCallOrArrow
  refine Decided.bind (.refl s) (parenthesizedList_single hs hclose hrest hitem true) fun list t _ ht hlist => ?_
  obtain ⟨e, he, rfl⟩ := hlist
  rw [isAtArrow_bind, isAtArrow_of_faces ht.faces, if_pos rfl, ← allBinding_single he]
  exact .of_agrees ht.toAgrees (arrowAfter_decided (hbody t _ _ _ ht))

end

/-! ## Both spellings -/

section

variable (hstop : l.kind.stops = true) (hassign : l.kind ≠ .punctuator .assign)

include hstop hassign

/-- An arrow function whose parameter stands by itself. -/
theorem bareArrow_decided {escaped : Bool} {place : Position}
    (hs : s.Faces (.word x.toWord :: .punctuator .arrow :: .literal zero :: l :: ls)) :
    Decided s (s.context.forbids true x.name = false) (l :: ls) (Summary.Is .arrow false)
      (plainIdentifier (derive levels) ⟨x.name, escaped, place⟩ s) := by
  unfold plainIdentifier
  refine (Decided.bind (.refl s) (checkReference_decided hs) fun _ t _ ht _ => ?_).iff forbids_binding_iff.symm
  refine .advance ht fun t ht => ?_
  rw [context_bind, isAtArrow_bind, isAtArrow_of_faces ht.faces, if_pos rfl, ht.context]
  cases s.context.forbidsAssigning x.name with
  | false =>
    refine Decided.iff ?_ (iff_of_true trivial rfl)
    exact .of_agrees ht.toAgrees (arrowBody_number hstop hassign ht.faces)
  | true => exact .refuse Bool.false_ne_true.symm

/-- An async arrow function whose parameter stands by itself must not call it `await`. -/
theorem asyncArrow_decided {start : Position}
    (hs : s.Faces (.word x.toWord :: .punctuator .arrow :: .literal zero :: l :: ls)) :
    Decided s (x.name ≠ "await" ∧ s.context.forbids true x.name = false) (l :: ls) (Summary.Is .arrow false)
      (asyncArrow (derive levels) start s) := by
  unfold asyncArrow
  rw [token_bind, identifier?_variable hs]
  dsimp only
  by_cases hname : x.name = "await"
  · rw [if_pos hname]
    exact .refuse fun h => h.1 hname
  rw [if_neg hname]
  have hbinding : Decided s (s.context.forbids true x.name = false)
      (.word x.toWord :: .punctuator .arrow :: .literal zero :: l :: ls) (fun _ => True)
      (checkBinding false ⟨x.name, x.value.escaped, s.token.start⟩ s) :=
    (failIf_decided hs _ _).iff bindingError?_free
  refine (Decided.andThen (.refl s) hbinding fun _ t _ ht _ => ?_).iff (and_iff_right hname).symm
  refine .advance ht fun t ht => ?_
  rw [isAtArrow_bind, isAtArrow_of_faces ht.faces, if_pos rfl]
  exact .of_agrees ht.toAgrees (arrowBody_number hstop hassign ht.faces)

end

theorem isWord_async (hs : s.Faces (.word nameAsync.toWord :: ls)) (w : String) :
    s.token.isWord w = decide ("async" = w) := by
  rw [isWord_variable hs, show nameAsync.name = "async" by decide]
  rfl

/-- What follows `async` before a name. -/
theorem identifierExpression_name {i : Identifier} (hs : s.Faces (.word nameAsync.toWord :: .word x.toWord :: ls)) :
    identifierExpression nested i s = (advance >>= fun _ => asyncArrow nested i.position) s := by
  obtain ⟨next, hpeek, hnext, hline⟩ := peek_reaches (.refl hs)
  have hkind : next.kind = .identifier x.name x.value.escaped := hnext.trans x.kind_eq
  have hfunction : next.isKeyword .function = false := isKeyword_of_kind hkind .function
  have hidentifier : next.isIdentifier = true := by
    unfold Token.isIdentifier
    rw [hkind]
  unfold identifierExpression
  rw [isAtWord_bind, isWord_async hs, if_pos (by rfl), bind_of_ok hpeek, hline, hfunction, Bool.and_false,
    if_neg Bool.false_ne_true, hidentifier, if_pos (by rfl)]

/-- What follows `async` before a parenthesis. -/
theorem identifierExpression_openParen {i : Identifier}
    (hs : s.Faces (.word nameAsync.toWord :: .punctuator .openParen :: ls)) :
    identifierExpression nested i s = (advance >>= fun _ => asyncCallOrArrow nested i.position false) s := by
  obtain ⟨next, hpeek, hnext, hline⟩ := peek_reaches (.refl hs)
  have hkind : next.kind = .punctuator .openParen := hnext
  have hfunction : next.isKeyword .function = false := isKeyword_of_kind hkind .function
  have hparen : next.isPunctuator .openParen = true := isPunctuator_of_kind hkind .openParen
  have hidentifier : next.isIdentifier = false := by
    unfold Token.isIdentifier
    rw [hkind]
  unfold identifierExpression
  rw [isAtWord_bind, isWord_async hs, if_pos (by rfl), bind_of_ok hpeek, hline, hfunction, Bool.and_false,
    if_neg Bool.false_ne_true, hidentifier, Bool.and_false, if_neg Bool.false_ne_true, hparen, if_pos rfl]

/-- Whether an arrow function may have the parameter. Without parentheses an async one must not call it `await`. -/
def Context.TakesParameter (c : Context) (isAsync enclosed : Bool) (x : Variable) : Prop :=
  c.forbids true x.name = false ∧ (isAsync = true → enclosed = false → x.name ≠ "await")

section

variable (hstop : l.kind.stops = true) (hassign : l.kind ≠ .punctuator .assign)

include hstop hassign

/-- An arrow function of one parameter as an operand. -/
theorem primary_arrow {isAsync enclosed : Bool} (hs : s.Faces (lexemes (arrowPieces isAsync enclosed x) ++ l :: ls)) :
    Decided s (s.context.TakesParameter isAsync enclosed x) (l :: ls) (Summary.Is .arrow false)
      (primary (derive levels) s) := by
  unfold Context.TakesParameter
  obtain ⟨valid, shape, hvalid, hitem⟩ := operandOf_decided s.context x
  have hne {k : TokenKind} (hk : ∀ name escaped, k ≠ .identifier name escaped) : (Lexeme.word x.toWord).kind ≠ k :=
    variable_ne x hk
  have hbody (t : State) (start : Position) (isAsync simple : Bool)
      (ht : t.Faces (.punctuator .arrow :: .literal zero :: l :: ls)) :
      Decided t True (l :: ls) (Summary.Is .arrow false) (arrowBody (derive levels) start isAsync simple t) :=
    arrowBody_number hstop hassign ht
  cases isAsync <;> cases enclosed
  · have hs : s.Faces (.word x.toWord :: .punctuator .arrow :: .literal zero :: l :: ls) := hs
    rw [primary_identifier (hs.kind.trans x.kind_eq), identifierExpression_plain (faces_noted hs) nofun]
    exact (Decided.of_agrees (agrees_noted s) (bareArrow_decided hstop hassign (faces_noted hs))).iff
      (by simp [State.noted])
  · have hs : s.Faces (.punctuator .openParen :: .word x.toWord :: .punctuator .closeParen :: .punctuator .arrow ::
      .literal zero :: l :: ls) := hs
    rw [primary_openParen hs.kind]
    refine (Decided.of_agrees (agrees_noted s) (parenthesizedArrow_decided (faces_noted hs) (hne nofun) (hne nofun)
      (fun t ht => hitem levels t _ ht.context ht.faces) fun t _ _ _ ht => hbody t _ _ _ ht.faces)).iff ?_
    exact hvalid.trans (by simp)
  · have hs : s.Faces (.word nameAsync.toWord :: .word x.toWord :: .punctuator .arrow :: .literal zero :: l :: ls) := hs
    rw [primary_identifier (hs.kind.trans nameAsync.kind_eq), identifierExpression_name (faces_noted hs)]
    refine .of_agrees (agrees_noted s) (.advance (.refl (faces_noted hs)) fun t ht => ?_)
    refine (Decided.of_agrees ht.toAgrees (asyncArrow_decided hstop hassign ht.faces)).iff ?_
    rw [ht.context, and_comm]
    simp [State.noted]
  · have hs : s.Faces (.word nameAsync.toWord :: .punctuator .openParen :: .word x.toWord :: .punctuator .closeParen ::
      .punctuator .arrow :: .literal zero :: l :: ls) := hs
    rw [primary_identifier (hs.kind.trans nameAsync.kind_eq), identifierExpression_openParen (faces_noted hs)]
    refine .of_agrees (agrees_noted s) (.advance (.refl (faces_noted hs)) fun t ht => ?_)
    refine (Decided.of_agrees ht.toAgrees (asyncParenthesizedArrow_decided ht.faces (hne nofun) (hne nofun)
      (fun u hu => hitem levels u _ (hu.context.trans ht.context) hu.faces) fun t _ _ _ ht =>
        hbody t _ _ _ ht.faces)).iff ?_
    exact hvalid.trans (by simp)

omit hstop hassign in
/-- Where the parameter is an operator, there is no arrow function. -/
theorem bareArrow_refused (hs : s.Faces (.word x.toWord :: .punctuator .arrow :: ls)) (h : ¬ s.Quiet) :
    Refused (expandAssignment (derive levels) true s) ∧ s.context.forbids true x.name = true := by
  by_cases hawait : (s.context.awaitOperator && s.token.isWord "await") = true
  · refine ⟨expandAssignment_await hs (.inl rfl) hawait, ?_⟩
    simp only [isWord_variable hs, Bool.and_eq_true, decide_eq_true_eq] at hawait
    rw [hawait.2.2, forbids_await hawait.1]
  by_cases hyield : (s.context.yieldOperator && s.token.isWord "yield") = true
  · refine ⟨expandAssignment_yield hs hyield, ?_⟩
    simp only [isWord_variable hs, Bool.and_eq_true, decide_eq_true_eq] at hyield
    rw [hyield.2.2, forbids_yield hyield.1]
  exact absurd ⟨Bool.eq_false_iff.mpr hawait, Bool.eq_false_iff.mpr hyield⟩ h

/-- An arrow function of one parameter is valid if it may have the parameter. -/
theorem arrowFunction_decided {isAsync enclosed : Bool}
    (hs : s.Faces (lexemes (arrowPieces isAsync enclosed x) ++ l :: ls)) :
    Decided s (s.context.TakesParameter isAsync enclosed x) (l :: ls) (Summary.Is .arrow false)
      (derive levels (.assignment true) s) := by
  by_cases hquiet : s.Quiet
  · have hkind : (∀ k, s.token.isKeyword k = false) ∧ s.token.kind.beginsOperand = true := by
      cases isAsync <;> cases enclosed
      · have hkind : s.token.kind = .identifier x.name x.value.escaped := hs.kind.trans x.kind_eq
        exact ⟨isKeyword_of_kind hkind, by rw [hkind]; rfl⟩
      · have hkind : s.token.kind = .punctuator .openParen := hs.kind
        exact ⟨isKeyword_of_kind hkind, by rw [hkind]; rfl⟩
      all_goals
        have hkind : s.token.kind = .identifier nameAsync.name nameAsync.value.escaped :=
          hs.kind.trans nameAsync.kind_eq
        exact ⟨isKeyword_of_kind hkind, by rw [hkind]; rfl⟩
    exact assignment_of_primary hquiet hkind.2 hstop hassign (hkind.1 _) (hkind.1 _) (hkind.1 _) fun n _ =>
      primary_arrow (s := s.deepened) hstop hassign (hs.of_eq rfl rfl)
  · refine derive_decided (p := .assignment true) fun n _ => ?_
    have hdeepened : ¬ s.deepened.Quiet := fun h => hquiet ⟨h.await, h.yield⟩
    cases isAsync <;> cases enclosed
    · have hfaces : s.deepened.Faces (.word x.toWord :: .punctuator .arrow :: .literal zero :: l :: ls) :=
        hs.of_eq rfl rfl
      obtain ⟨hrefused, hforbids⟩ := bareArrow_refused hfaces hdeepened
      exact hrefused.concluded fun h => Bool.false_ne_true (h.1.symm.trans hforbids)
    · exact absurd (quiet_of_kind hs.kind nofun) hquiet
    all_goals
      refine absurd ?_ hquiet
      constructor <;> rw [isWord_async hs] <;> exact Bool.and_false _

end

end EcmaCheck.Grammar
