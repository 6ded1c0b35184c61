import EcmaCheck.Proofs.Following.Token

/-!
# Productions that follow others

What two derivations have to satisfy for the grammar built on them to follow from token to token (`Following.Derives`).
The summaries of expressions widen, since what cannot be assigned to in strict code may be assigned to in sloppy code. A
few branches are chosen by what comes next, so that it matters how the first derivation begins there (`Openings`).

The rules here are for what all productions use: expressions, checks of identifiers, lists of items and the contexts of
functions.
-/

namespace EcmaCheck.Grammar

set_option synthInstance.maxSize 20000

/-- Whether the production is a statement or an element of a class, behind which a regular expression may begin. -/
def Production.isStatement : Production → Bool
  | .statementListItem _ | .statement | .functionBodyStatement | .classElement .. => true
  | _ => false

/-- Whether the production takes the current token without looking at it. -/
def Production.takesAny : Production → Bool
  | .functionBodyStatement | .newExpression => true
  | _ => false

/-- What the second result of a production is when the first is given. -/
def Production.Widens : (p : Production) → p.Result → p.Result → Prop
  | .assignment _ | .rightOperand .. | .unary | .newExpression | .heritage | .objectMember => Summary.WidensTo
  | .classElement .. => Eq
  | .statementListItem _ | .statement | .functionBodyStatement | .bindingTarget _ => Eq

/-- Whether a binding target can begin with the token. -/
def beginsTarget (t : Token) : Bool :=
  t.isIdentifier || t.isPunctuator .openBracket || t.isPunctuator .openBrace

/-- How the productions of a derivation begin, where that decides what another recognition does. -/
structure Openings (nested : Derivation) : Prop where
  bindingTarget {lexical : Bool} {s t : State} {u : Unit} : nested (.bindingTarget lexical) s = .ok u t →
    beginsTarget s.token = true
  /-- No statement begins with `function`. -/
  statement {s t : State} {u : Unit} : nested .statement s = .ok u t → s.token.isKeyword .function = false
  /-- A dynamic import does not end with its keyword. -/
  import_takesTwo {s t : State} {u : Unit} : nested .statement s = .ok u t → s.token.isKeyword .«import» = true →
    s.input.TakesTwo t.input
  function_takesTwo : TakesTwo (nested .functionBodyStatement)
  function_next {s t : State} {u : Unit} {next : Token} : nested .functionBodyStatement s = .ok u t →
    (s.scanner.next s.token.goalAfter).1 = .ok next → next.kind ≠ .regExp

/-- The same identifier, wherever it stands. -/
structure SameName (i₁ i₂ : Identifier) : Prop where
  name : i₂.name = i₁.name
  escaped : i₂.escaped = i₁.escaped

/-- The recognizer results in an arrow function only if the expression is one, unless it takes the token. -/
class KeepsArrow (e : Summary) (x : Recognizer Summary) : Prop where
  keeps_or_takes {s t : State} {c : Summary} : x s = .ok c t →
    s.input.Rests t.input ∧ (c.shape = .arrow → e.shape = .arrow) ∨ s.input.Takes t.input

namespace Following

/-- Behind an operand a private name may ask for `in`, which is the same in both only if the first takes it there. An
arrow function is no such operand. -/
def operand (F : Following) (e : Summary) (i : Input) : Prop :=
  e.shape ≠ .arrow → i.token.isKeyword .«in» = true → F.Continues i

/-- What is given behind a production. -/
def behind (F : Following) : (p : Production) → p.Result → Input → Prop
  | .assignment allowIn => F.ending allowIn
  | .rightOperand .. | .unary | .newExpression | .heritage => F.operand
  | .objectMember => always
  | .classElement .. => always
  | .statementListItem _ | .statement | .functionBodyStatement | .bindingTarget _ => always

/-- The nested productions of the second follow those of the first. -/
structure Derives (F : Following) (nested₁ nested₂ : Derivation) : Prop where
  begins : Openings nested₁
  production (p : Production) {b : Bool} {s₁ s₂ : State} (hs : F.At b s₁ s₂)
    (hk : p.takesAny = true → s₂.token.kind = s₁.token.kind) :
    F.Outcome (F.behind p) (fun a₁ a₂ t₁ t₂ => p.Widens a₁ a₂ ∧ F.After (!p.isStatement) t₁ t₂) (nested₁ p s₁)
      (nested₂ p s₂)
  /-- Scripts have the same statements at their top level as inside. -/
  innerItem {b : Bool} {s₁ s₂ : State} (hs : F.At b s₁ s₂) (hmodule : s₁.isModule = false) :
    F.Yields Eq false (nested₁ (.statementListItem true) s₁) (nested₂ (.statementListItem false) s₂)

variable {F : Following} {α β : Type} {value : α → α → Prop} {b : Bool} {s₁ s₂ : State}
  {post : α → α → State → State → Prop} {given : α → Input → Prop} {nested₁ nested₂ : Derivation}

/-! ## Identifiers -/

theorem identifier?_eq_none_iff {t : Token} : identifier? t = none ↔ t.isIdentifier = false := by
  cases h : t.kind <;> simp only [identifier?, Token.isIdentifier, h, reduceCtorEq]

/-- The current tokens are both identifiers or both none. -/
theorem At.identifier?_cases (hs : F.At b s₁ s₂) :
    identifier? s₁.token = none ∧ identifier? s₂.token = none ∨
      ∃ i₁ i₂, SameName i₁ i₂ ∧ identifier? s₁.token = some i₁ ∧ identifier? s₂.token = some i₂ ∧
        s₂.token.kind = s₁.token.kind := by
  have hidentifier := hs.heads.isIdentifier
  cases h : s₁.token.kind with
  | identifier name escaped =>
    have hk := hs.heads.kind (isDivision_of_kind h ⟨nofun, nofun⟩)
    rw [h] at hk
    refine .inr ⟨⟨name, escaped, s₁.token.start⟩, ⟨name, escaped, s₂.token.start⟩, ⟨rfl, rfl⟩, ?_, ?_, hk⟩
    · simp only [identifier?, h]
    · simp only [identifier?, hk]
  | _ =>
    rw [identifier?_eq_none_iff, identifier?_eq_none_iff, hidentifier]
    simp only [Token.isIdentifier, h, true_and, true_or]

end Following

/-! ## Checks -/

namespace Around

variable {F : Following} {α : Type} {s₁ s₂ : State} {post : α → α → State → State → Prop} {given : α → Input → Prop}

protected theorem checkReference {i₁ i₂ : Identifier} {f₁ f₂ : Unit → Recognizer α} (hs : Around s₁ s₂)
    (hi : SameName i₁ i₂) (hf : F.Outcome given post (f₁ () s₁) (f₂ () s₂)) :
    F.Outcome given post ((checkReference i₁ >>= f₁) s₁) ((checkReference i₂ >>= f₂) s₂) :=
  .failIf (hs.context.identifierError? hi.name hi.escaped) hf

protected theorem checkBinding {lexical : Bool} {i₁ i₂ : Identifier} {f₁ f₂ : Unit → Recognizer α} (hs : Around s₁ s₂)
    (hi : SameName i₁ i₂) (hf : F.Outcome given post (f₁ () s₁) (f₂ () s₂)) :
    F.Outcome given post ((checkBinding lexical i₁ >>= f₁) s₁) ((checkBinding lexical i₂ >>= f₂) s₂) :=
  .failIf (hs.context.bindingError? hi.name hi.escaped) hf

end Around

namespace Following

variable {F : Following} {α β : Type} {value : α → α → Prop} {b : Bool} {s₁ s₂ : State}
  {post : α → α → State → State → Prop} {given : α → Input → Prop} {nested₁ nested₂ : Derivation}

theorem state_of_rejectShorthand {e : Summary} {s t : State} {u : Unit} (h : Grammar.rejectShorthand e s = .ok u t) :
    t = s := by
  obtain ⟨_, _, _ | _⟩ := e <;> cases h
  rfl

theorem state_of_requireOperand {e : Summary} {s t : State} {u : Unit} (h : Grammar.requireOperand e s = .ok u t) :
    t = s := by
  obtain ⟨_, v, hreject, h⟩ := bind_eq_ok.mp h
  cases state_of_rejectShorthand hreject
  split at h <;> cases h
  rfl

/-- A shorthand initializer is refused only where the first refuses one. -/
theorem Outcome.rejectShorthand {e₁ e₂ : Summary} {f₁ f₂ : Unit → Recognizer α} (he : e₁.WidensTo e₂)
    (hf : F.Outcome given post (f₁ () s₁) (f₂ () s₂)) :
    F.Outcome given post ((rejectShorthand e₁ >>= f₁) s₁) ((rejectShorthand e₂ >>= f₂) s₂) := by
  unfold Grammar.rejectShorthand
  cases h : e₁.shorthand? with
  | some p => exact .error
  | none =>
    rw [he.shorthand?_eq_none h]
    exact hf

theorem Outcome.requireOperand {e₁ e₂ : Summary} {f₁ f₂ : Unit → Recognizer α} (he : e₁.WidensTo e₂)
    (hf : F.Outcome given post (f₁ () s₁) (f₂ () s₂)) :
    F.Outcome given post ((requireOperand e₁ >>= f₁) s₁) ((requireOperand e₂ >>= f₂) s₂) := by
  unfold Grammar.requireOperand
  rw [bind_assoc, bind_assoc]
  refine .rejectShorthand he ?_
  by_cases h : e₁.shape = .arrow
  · rw [if_pos h]
    exact .error
  · rw [if_neg h, if_neg (mt he.isArrow.mp h)]
    exact hf

/-! ## Items and surroundings -/

namespace At

/-- The comma after an item, which the last one need not have. -/
theorem separator {β : Type} {close : Punctuator} {r₁ r₂ : β} {post : β → β → State → State → Prop}
    (hs : F.At true s₁ s₂) (h : ∀ t₁ t₂, F.At true t₁ t₂ → post r₁ r₂ t₁ t₂) :
    F.Outcome F.continuing post
      ((do
        unless ← isAt close do expect .comma
        return r₁ : Recognizer β) s₁)
      ((do
        unless ← isAt close do expect .comma
        return r₂ : Recognizer β) s₂) := by
  refine .bind_isAt (.ite (hs.tokens.isPunctuator _) (fun _ => .ok (h _ _ hs)) fun _ => ?_)
  exact hs.expect.bindGentle fun _ _ t₁ t₂ _ ht => .ok (h t₁ t₂ ht)

/-- A list whose items consume tokens, before its closing punctuator. -/
protected theorem itemsUntil {close : Punctuator} {item₁ item₂ : α → Recognizer α} {a₁ a₂ : α}
    (value : α → α → Prop) (hs : F.At true s₁ s₂) (ha : value a₁ a₂)
    (hi : ∀ a₁ a₂ t₁ t₂, value a₁ a₂ → F.At true t₁ t₂ → F.Passes value true (item₁ a₁ t₁) (item₂ a₂ t₂))
    [hgentle : ∀ a, Gentle (item₁ a)] [hmoves : ∀ a, Moves (item₁ a)] :
    F.Outcome F.continuing (fun a₁ a₂ t₁ t₂ => value a₁ a₂ ∧ F.At true t₁ t₂ ∧ t₁.token.isPunctuator close = true)
      (itemsUntil close a₁ item₁ s₁) (itemsUntil close a₂ item₂ s₂) := by
  refine hs.loop value ha fun a₁ a₂ t₁ t₂ ha ht => ?_
  refine .bind_isAt (.ite (ht.tokens.isPunctuator _) (fun h => .ok ⟨ha, ht, h⟩) fun _ => ?_)
  refine (hi a₁ a₂ t₁ t₂ ha ht).bindGentle fun a₁ a₂ u₁ u₂ hpost => ?_
  exact hpost.2.separator fun v₁ v₂ hv => ⟨hpost.1, hv⟩

/-- A function leaves its surroundings as they were. -/
protected theorem inFunctionContext {inner₁ inner₂ : Context} {body₁ body₂ : Recognizer α} {b' : Bool}
    (hs : F.At b s₁ s₂) (hinner : inner₁.RelaxesTo inner₂)
    (hb : ∀ t₁ t₂, F.At b t₁ t₂ → F.Yields value b' (body₁ t₁) (body₂ t₂)) :
    F.Yields value b' (inFunctionContext inner₁ body₁ s₁) (inFunctionContext inner₂ body₂ s₂) := by
  refine .bind_get (.bind_set ((hb _ _ ?_).bind fun a₁ a₂ t₁ t₂ ha ht => .ok ⟨ha, ?_⟩))
  · exact hs.of_sameReading { hs with context := hinner, labels := rfl, attachedLabels := rfl }
      ⟨rfl, rfl, rfl, rfl⟩ ⟨rfl, rfl, rfl, rfl⟩
  · exact ht.of_sameReading
      { ht with context := hs.context, labels := hs.labels, attachedLabels := hs.attachedLabels }
      ⟨rfl, rfl, rfl, rfl⟩ ⟨rfl, rfl, rfl, rfl⟩

end At

/-! ## Operands -/

/-- What takes its token behind an operand in particular takes `in` there. -/
theorem Outcome.passes_of_operand {value : Summary → Summary → Prop} {r₁ r₂ : EStateM.Result Fault State Summary}
    (h : F.Outcome F.operand (fun a₁ a₂ t₁ t₂ => value a₁ a₂ ∧ F.After b t₁ t₂) r₁ r₂) : F.Passes value b r₁ r₂ :=
  (h.given_mono fun _ _ _ hcontinues _ _ => hcontinues).at_of_continuing

/-- What follows an operand and does not change that it is one, or takes a token. -/
theorem Outcome.bindKeeping {post post' : Summary → Summary → State → State → Prop} {x₁ x₂ : Recognizer Summary}
    {f₁ f₂ : Summary → Recognizer Summary} (h : F.Outcome F.operand post (x₁ s₁) (x₂ s₂))
    (hkeeps : ∀ e, KeepsArrow e (f₁ e))
    (hf : ∀ e₁ e₂ t₁ t₂, post e₁ e₂ t₁ t₂ → F.Outcome F.operand post' (f₁ e₁ t₁) (f₂ e₂ t₂)) :
    F.Outcome F.operand post' ((x₁ >>= f₁) s₁) ((x₂ >>= f₂) s₂) := by
  refine h.bindWith (fun e t c u _ hrun => ?_) (fun e t c u _ hrun hu hc harrow hin => ?_) hf
  · exact ((hkeeps e).keeps_or_takes hrun).elim (·.1.leads) (·.leads)
  · rcases (hkeeps e).keeps_or_takes hrun with ⟨hrests, hkeep⟩ | htakes
    · have htoken : u.input.token = t.input.token := hrests.token_of_isKeyword hin
      obtain ⟨j, hj, hfinishes⟩ := hc (mt hkeep harrow) (htoken ▸ hin)
      exact ⟨j, hrests.takes hj, hfinishes⟩
    · exact ⟨u.input, htakes, hu⟩

theorem Outcome.bindOperand {post post' : Summary → Summary → State → State → Prop} {x₁ x₂ : Recognizer Summary}
    {f₁ f₂ : Summary → Recognizer Summary} (h : F.Outcome F.operand post (x₁ s₁) (x₂ s₂))
    (hf : ∀ e₁ e₂ t₁ t₂, post e₁ e₂ t₁ t₂ → F.Outcome F.operand post' (f₁ e₁ t₁) (f₂ e₂ t₂))
    [hkeeps : ∀ e, KeepsArrow e (f₁ e)] :
    F.Outcome F.operand post' ((x₁ >>= f₁) s₁) ((x₂ >>= f₂) s₂) :=
  h.bindKeeping hkeeps hf

/-- Where an operand has ended is noted without taking a token. -/
theorem Outcome.noting {given : Summary → Input → Prop} {x₁ x₂ : Recognizer Summary} {value : Summary → Summary → Prop}
    (h : F.Outcome given (fun e₁ e₂ t₁ t₂ => value e₁ e₂ ∧ F.After b t₁ t₂) (x₁ s₁) (x₂ s₂))
    (hgiven : ∀ e i, given e i.noteEnd → given e i) :
    F.Outcome given (fun e₁ e₂ t₁ t₂ => value e₁ e₂ ∧ F.After b t₁ t₂) (notingOperandEnd x₁ s₁)
      (notingOperandEnd x₂ s₂) := by
  refine h.bindWith (fun e t c u _ hrun => ?_) (fun e t c u _ hrun _ hc => ?_) fun _ _ _ _ he =>
    .ok ⟨he.1, he.2.noteEnd⟩
  · exact Moves.leads inferInstance hrun
  · cases hrun
    exact hgiven _ _ hc

theorem Continues.of_noteEnd {i : Input} (h : F.Continues i.noteEnd) : F.Continues i := by
  obtain ⟨j, htakes, hfinishes⟩ := h
  exact ⟨j, (Input.Rests.noteEnd (.refl _)).takes htakes, hfinishes⟩

theorem Outcome.notingOperand {x₁ x₂ : Recognizer Summary} {value : Summary → Summary → Prop}
    (h : F.Outcome F.operand (fun e₁ e₂ t₁ t₂ => value e₁ e₂ ∧ F.After b t₁ t₂) (x₁ s₁) (x₂ s₂)) :
    F.Outcome F.operand (fun e₁ e₂ t₁ t₂ => value e₁ e₂ ∧ F.After b t₁ t₂) (notingOperandEnd x₁ s₁)
      (notingOperandEnd x₂ s₂) :=
  h.noting fun _ _ hgiven harrow hin => (hgiven harrow hin).of_noteEnd

theorem Outcome.notingEnding {allowIn : Bool} {x₁ x₂ : Recognizer Summary} {value : Summary → Summary → Prop}
    (h : F.Outcome (F.ending allowIn) (fun e₁ e₂ t₁ t₂ => value e₁ e₂ ∧ F.After b t₁ t₂) (x₁ s₁) (x₂ s₂)) :
    F.Outcome (F.ending allowIn) (fun e₁ e₂ t₁ t₂ => value e₁ e₂ ∧ F.After b t₁ t₂) (notingOperandEnd x₁ s₁)
      (notingOperandEnd x₂ s₂) :=
  h.noting fun _ _ hgiven hno => (hgiven hno).of_noteEnd

/-! ## Expressions -/

namespace Derives

variable (hd : F.Derives nested₁ nested₂)

include hd

protected theorem bindingTarget (lexical : Bool) (hs : F.At b s₁ s₂) :
    F.Yields Eq true (bindingTarget nested₁ lexical s₁) (bindingTarget nested₂ lexical s₂) :=
  hd.production (.bindingTarget lexical) hs nofun

protected theorem statement (hs : F.At b s₁ s₂) : F.Yields Eq false (statement nested₁ s₁) (statement nested₂ s₂) :=
  hd.production .statement hs nofun

theorem item (topLevel : Bool) (hs : F.At b s₁ s₂) :
    F.Yields Eq false (nested₁ (.statementListItem topLevel) s₁) (nested₂ (.statementListItem topLevel) s₂) :=
  hd.production (.statementListItem topLevel) hs nofun

theorem classElement {derived hasConstructor : Bool} (hs : F.At b s₁ s₂) :
    F.Yields Eq false (nested₁ (.classElement derived hasConstructor) s₁)
      (nested₂ (.classElement derived hasConstructor) s₂) :=
  hd.production (.classElement derived hasConstructor) hs nofun

theorem objectMember (hs : F.At b s₁ s₂) :
    F.Yields Summary.WidensTo true (nested₁ .objectMember s₁) (nested₂ .objectMember s₂) :=
  hd.production .objectMember hs nofun

theorem heritage (hs : F.At b s₁ s₂) :
    F.Passes Summary.WidensTo true (nested₁ .heritage s₁) (nested₂ .heritage s₂) :=
  Outcome.passes_of_operand (hd.production .heritage hs nofun)

theorem assignmentOrPatternOf (allowIn : Bool) (hs : F.At b s₁ s₂) :
    F.Outcome (F.ending allowIn) (fun e₁ e₂ t₁ t₂ => e₁.WidensTo e₂ ∧ F.After true t₁ t₂)
      (assignmentOrPattern nested₁ allowIn s₁) (assignmentOrPattern nested₂ allowIn s₂) :=
  Outcome.notingEnding (hd.production (.assignment allowIn) hs nofun)

theorem assignmentOf (allowIn : Bool) (hs : F.At b s₁ s₂) :
    F.Outcome (F.ending allowIn) (fun e₁ e₂ t₁ t₂ => e₁.WidensTo e₂ ∧ F.After true t₁ t₂)
      (assignment nested₁ allowIn s₁) (assignment nested₂ allowIn s₂) :=
  (hd.assignmentOrPatternOf allowIn hs).bindEnding fun _ _ _ _ he => .rejectShorthand he.1 (.ok he)

protected theorem assignmentOrPattern (hs : F.At b s₁ s₂) :
    F.Yields Summary.WidensTo true (assignmentOrPattern nested₁ true s₁) (assignmentOrPattern nested₂ true s₂) :=
  (hd.assignmentOrPatternOf true hs).given_mono fun _ _ _ _ => nofun

protected theorem assignment (hs : F.At b s₁ s₂) :
    F.Yields Summary.WidensTo true (assignment nested₁ true s₁) (assignment nested₂ true s₂) :=
  (hd.assignmentOf true hs).given_mono fun _ _ _ _ => nofun

variable [∀ p, Moves (nested₁ p)] [∀ p, Takes (nested₁ p)]

theorem expressionOrPatternOf (allowIn : Bool) (hs : F.At b s₁ s₂) :
    F.Outcome (F.ending allowIn) (fun e₁ e₂ t₁ t₂ => e₁.WidensTo e₂ ∧ F.After true t₁ t₂)
      (expressionOrPattern nested₁ allowIn s₁) (expressionOrPattern nested₂ allowIn s₂) := by
  refine Outcome.notingEnding ?_
  refine (hd.assignmentOrPatternOf allowIn hs).bindEnding fun e₁ e₂ t₁ t₂ he => .bind_isAt ?_
  obtain ⟨he, ht⟩ := he
  refine ht.branch_of_takes (fun h _ _ hrun => ?_) (fun ht => ht.tokens.isPunctuator _) (fun h => h.isPunctuator _)
    (fun _ ht => .rejectShorthand he ?_) fun _ => .ok ⟨he, ht⟩
  · -- where a comma follows, the first turn takes it
    obtain ⟨_, u, hreject, hrun⟩ := bind_eq_ok.mp hrun
    obtain ⟨_, v, hloop, hrun⟩ := bind_eq_ok.mp hrun
    cases hrun
    cases state_of_rejectShorthand hreject
    refine takes_of_loop hloop (fun r w hturn => ?_) fun _ => inferInstance
    change (eat .comma >>= _) t₁ = _ at hturn
    rw [eat_bind, if_pos h] at hturn
    exact Takes.takes hturn
  refine Outcome.bindEnding (P := fun _ _ => F.After true) (ht.after.loopEnding Eq rfl fun _ _ u₁ u₂ _ hu => ?_)
    fun _ _ _ _ h => .ok ⟨.other _ _, h⟩
  refine hu.eatTaking (fun v₁ v₂ hv => ?_) (.ok hu)
  exact (hd.assignmentOf allowIn hv).discardEnding.bindEnding fun _ _ w₁ w₂ hw => .ok ⟨rfl, hw⟩

protected theorem expression (hs : F.At b s₁ s₂) :
    F.Yields Summary.WidensTo true (expression nested₁ true s₁) (expression nested₂ true s₂) := by
  refine ((hd.expressionOrPatternOf true hs).given_mono fun _ _ _ _ => nofun).bind fun _ _ _ _ he => ?_
  exact .rejectShorthand he.1 (.ok he)

end Derives

end Following

end EcmaCheck.Grammar
