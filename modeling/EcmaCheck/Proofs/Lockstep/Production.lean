import EcmaCheck.Proofs.Lockstep.Token

/-!
# Productions in lockstep

What two derivations have to satisfy for the grammar built on them to run in lockstep (`Simulation.Derives`): a
production that may be opened with the credit there is, recognized from corresponding states, leads to corresponding
results, and consumes at least one token. Statements may begin with nested productions, so they ask for more credit
(`Production.rank`).

The rules here are for what all productions use: expressions, checks of identifiers, lists of items and the contexts of
functions.
-/

namespace EcmaCheck.Grammar

set_option synthInstance.maxSize 20000

/-- The number of nesting levels that may be opened from the production on before a token is consumed. -/
def Production.rank : Production → Nat
  | .statementListItem _ => 3
  | .statement => 2
  | _ => 1

theorem Production.rank_pos (p : Production) : 1 ≤ p.rank := by
  cases p <;> exact Nat.succ_pos _

theorem Production.rank_le (p : Production) : p.rank ≤ 3 := by
  cases p <;> simp [rank]

/-- Whether the production is an expression, after which `/` divides. -/
def Production.endsOperand : Production → Bool
  | .assignment _ | .rightOperand .. | .unary | .newExpression | .heritage => true
  | _ => false

/-- Whether the production takes the current token without looking at it. -/
def Production.takesToken : Production → Bool
  | .functionBodyStatement | .newExpression => true
  | _ => false

namespace Simulation

variable (sim : Simulation)

/-- What corresponding results of a production are. -/
def result : (p : Production) → p.Result → p.Result → Prop
  | .assignment _ | .rightOperand .. | .unary | .newExpression | .heritage | .objectMember => sim.Summaries
  | .classElement .. => Eq
  | .statementListItem _ | .statement | .functionBodyStatement | .bindingTarget _ => Eq

/-- The nested productions run in lockstep at the given depth. -/
structure Derives (depth : Nat) (nested₁ nested₂ : Derivation) : Prop where
  production (p : Production) {b : Bool} {c : Nat} {s₁ s₂ : State} (hs : sim.At b depth c s₁ s₂) (hc : p.rank ≤ c)
    (he : p.takesToken = true → s₁.token.isEnd = false) :
    sim.Yields (sim.result p) p.endsOperand depth (c + 1) (nested₁ p s₁) (nested₂ p s₂)
  /-- No expression begins where the text ends. -/
  atEnd (allowIn : Bool) {s : State} : s.token.isEnd = true →
    ∃ f t, nested₁ (.assignment allowIn) s = .error f t ∧ f.position = s.token.start
  /-- A function declaration begins with its word. -/
  opensFunction {s : State} : sim.Opens s (nested₁ .functionBodyStatement s)

/-- Identifiers that corresponding tokens are. -/
def Identifiers (i₁ i₂ : Identifier) : Prop :=
  ∃ t₁ t₂, sim.Tokens t₁ t₂ ∧ identifier? t₁ = some i₁ ∧ identifier? t₂ = some i₂

variable {sim} {α β : Type} {value : α → α → Prop} {b : Bool} {k c : Nat} {s₁ s₂ : State}
  {post : α → α → State → State → Prop} {nested₁ nested₂ : Derivation}

/-- What is noted first corresponds if all that is noted does. -/
theorem rel_or {r : α → β → Prop} {o₁ p₁ : Option α} {o₂ p₂ : Option β} (ho : Option.Rel r o₁ o₂)
    (hp : Option.Rel r p₁ p₂) : Option.Rel r (o₁.or p₁) (o₂.or p₂) := by
  cases ho with
  | some h => exact .some h
  | none => exact hp

/-! ## Identifiers -/

namespace Identifiers

theorem of_kind {t₁ t₂ : Token} {name : String} {escaped : Bool} (h : sim.Tokens t₁ t₂)
    (hk : t₁.kind = .identifier name escaped) :
    sim.Identifiers ⟨name, escaped, t₁.start⟩ ⟨name, escaped, t₂.start⟩ :=
  ⟨t₁, t₂, h, by simp only [identifier?, hk], by simp only [identifier?, h.kind, hk]⟩

variable {i₁ i₂ : Identifier} (h : sim.Identifiers i₁ i₂)

include h

theorem same : i₂.name = i₁.name ∧ i₂.escaped = i₁.escaped := by
  obtain ⟨t₁, t₂, ht, h₁, h₂⟩ := h
  unfold identifier? at h₁ h₂
  rw [ht.kind] at h₂
  split at h₁
  · rename_i hk
    rw [hk] at h₂
    cases h₁
    cases h₂
    exact ⟨rfl, rfl⟩
  · cases h₁

protected theorem name : i₂.name = i₁.name :=
  h.same.1

protected theorem escaped : i₂.escaped = i₁.escaped :=
  h.same.2

protected theorem position : sim.place i₁.position i₂.position := by
  obtain ⟨t₁, t₂, ht, h₁, h₂⟩ := h
  rw [start_of_identifier? h₁, start_of_identifier? h₂]
  exact ht.start

/-- An error about the identifier quotes the token that it is. -/
protected theorem fault {e : GrammarError} (he : ∀ {t}, identifier? t = some i₁ → e.Quotes t) :
    sim.fault (.grammatical e i₁.position) (.grammatical e i₂.position) := by
  obtain ⟨t₁, t₂, ht, h₁, h₂⟩ := h
  rw [start_of_identifier? h₁, start_of_identifier? h₂]
  exact sim.fault_of_token ht (he h₁)

end Identifiers

theorem identifierError?_eq {i₁ i₂ : Identifier} (hi : sim.Identifiers i₁ i₂) (x : Context) (binding : Bool) :
    x.identifierError? binding i₂ = x.identifierError? binding i₁ := by
  simp only [Context.identifierError?, hi.name, hi.escaped]

theorem bindingError?_eq {i₁ i₂ : Identifier} (hi : sim.Identifiers i₁ i₂) (x : Context) (lexical : Bool) :
    x.bindingError? lexical i₂ = x.bindingError? lexical i₁ := by
  simp only [Context.bindingError?, identifierError?_eq hi, hi.name]

namespace At

/-- The current tokens are both identifiers or both none. -/
theorem identifier?_cases (hs : sim.At b k c s₁ s₂) :
    identifier? s₁.token = none ∧ identifier? s₂.token = none ∨
      ∃ i₁ i₂, sim.Identifiers i₁ i₂ ∧ identifier? s₁.token = some i₁ ∧ identifier? s₂.token = some i₂ ∧
        s₁.token.endsOperand = true := by
  have hk := hs.tokens.kind
  cases h : s₁.token.kind with
  | identifier name escaped =>
    refine .inr ⟨⟨name, escaped, s₁.token.start⟩, ⟨name, escaped, s₂.token.start⟩, .of_kind hs.tokens h, ?_, ?_, ?_⟩
    · simp only [identifier?, h]
    · simp only [identifier?, hk, h]
    · simp only [Token.endsOperand, h]
  | _ => exact .inl ⟨by simp only [identifier?, h], by simp only [identifier?, hk, h]⟩

protected theorem checkReference {i₁ i₂ : Identifier} {f₁ f₂ : Unit → Recognizer α} (hs : sim.At b k c s₁ s₂)
    (hi : sim.Identifiers i₁ i₂) (hf : sim.Outcome post (f₁ () s₁) (f₂ () s₂)) :
    sim.Outcome post ((checkReference i₁ >>= f₁) s₁) ((checkReference i₂ >>= f₂) s₂) := by
  refine hs.failIf ?_ (fun he => sim.fault_of_place (Context.isFixed_of_identifierError? he) hi.position) hf
  rw [hs.context, identifierError?_eq hi]

protected theorem checkBinding {i₁ i₂ : Identifier} {lexical : Bool} {f₁ f₂ : Unit → Recognizer α}
    (hs : sim.At b k c s₁ s₂) (hi : sim.Identifiers i₁ i₂) (hf : sim.Outcome post (f₁ () s₁) (f₂ () s₂)) :
    sim.Outcome post ((checkBinding lexical i₁ >>= f₁) s₁) ((checkBinding lexical i₂ >>= f₂) s₂) := by
  refine hs.failIf ?_ (fun he => sim.fault_of_place (Context.isFixed_of_bindingError? he) hi.position) hf
  rw [hs.context, bindingError?_eq hi]

/-! ## Expressions that are no patterns -/

protected theorem rejectShorthand {e₁ e₂ : Summary} {f₁ f₂ : Unit → Recognizer α} (hs : sim.At b k c s₁ s₂)
    (he : sim.Summaries e₁ e₂) (hf : sim.Outcome post (f₁ () s₁) (f₂ () s₂)) :
    sim.Outcome post ((rejectShorthand e₁ >>= f₁) s₁) ((rejectShorthand e₂ >>= f₂) s₂) := by
  obtain ⟨shape₁, start₁, shorthand₁⟩ := e₁
  obtain ⟨shape₂, start₂, shorthand₂⟩ := e₂
  obtain h | _ := he.shorthand?
  · exact hs.failFirst h rfl
  · exact hf

protected theorem requireOperand {e₁ e₂ : Summary} {f₁ f₂ : Unit → Recognizer α} (hs : sim.At b k c s₁ s₂)
    (he : sim.Summaries e₁ e₂) (hf : sim.Outcome post (f₁ () s₁) (f₂ () s₂)) :
    sim.Outcome post ((requireOperand e₁ >>= f₁) s₁) ((requireOperand e₂ >>= f₂) s₂) := by
  unfold Grammar.requireOperand
  rw [bind_assoc, bind_assoc]
  refine hs.rejectShorthand he ?_
  rw [he.shape]
  split
  · exact hs.failFirst he.start rfl
  · exact hf

/-! ## Items and surroundings -/

/-- The comma after an item, which the last one need not have. -/
theorem separator {β : Type} {close : Punctuator} {r₁ r₂ : β} {post : β → β → State → State → Prop}
    (hs : sim.At b k c s₁ s₂) (h : ∀ t₁ t₂, sim.At false k c t₁ t₂ → post r₁ r₂ t₁ t₂) :
    sim.Outcome post
      ((do
        unless ← isAt close do expect .comma
        return r₁ : Recognizer β) s₁)
      ((do
        unless ← isAt close do expect .comma
        return r₂ : Recognizer β) s₂) := by
  refine .bind_isAt (.whenNot (sim.At false k c) (hs.tokens.isPunctuator _) (fun _ => hs.weaken) (fun _ => ?_) ?_)
  · exact hs.expect.mono fun _ _ _ _ h => h.2.weaken.mono (by omega)
  · exact fun t₁ t₂ ht => .ok (h t₁ t₂ ht)

/-- A list whose items consume tokens. -/
protected theorem itemsUntil {close : Punctuator} {item₁ item₂ : α → Recognizer α} {a₁ a₂ : α}
    (hs : sim.At b k c s₁ s₂) (ha : value a₁ a₂)
    (hi : ∀ c' a₁ a₂ t₁ t₂, c ≤ c' → value a₁ a₂ → sim.At false k c' t₁ t₂ → t₁.token.isPunctuator close = false →
      sim.Yields value false k (c' + 1) (item₁ a₁ t₁) (item₂ a₂ t₂)) [hmoves : ∀ a, Moves (item₁ a)] :
    sim.Outcome (fun a₁ a₂ t₁ t₂ => value a₁ a₂ ∧ sim.At false k c t₁ t₂ ∧ t₁.token.isPunctuator close = true)
      (itemsUntil close a₁ item₁ s₁) (itemsUntil close a₂ item₂ s₂) := by
  refine hs.weaken.loop value ha fun c' a₁ a₂ t₁ t₂ hc ha ht => ?_
  refine .bind_isAt (.ite (ht.tokens.isPunctuator _) (fun h => .ok ⟨ha, ht.mono hc, h⟩) fun h => ?_)
  refine (hi c' a₁ a₂ t₁ t₂ hc ha ht h).bind fun a₁ a₂ u₁ u₂ ha hu => ?_
  exact hu.separator fun v₁ v₂ hv => ⟨ha, hv⟩

/-- A function leaves its surroundings as they were. -/
protected theorem inFunctionContext {inner₁ inner₂ : Context} {body₁ body₂ : Recognizer α} {b' : Bool} {c' : Nat}
    (hs : sim.At b k c s₁ s₂) (hx : inner₂ = inner₁)
    (hb : ∀ t₁ t₂, sim.At b k c t₁ t₂ → sim.Yields value b' k c' (body₁ t₁) (body₂ t₂)) :
    sim.Yields value b' k c' (inFunctionContext inner₁ body₁ s₁) (inFunctionContext inner₂ body₂ s₂) := by
  refine .bind_get (.bind_set ((hb _ _ ?_).bind fun a₁ a₂ t₁ t₂ ha ht => .ok ⟨ha, ?_⟩))
  · exact { hs with context := hx, labels := rfl, attachedLabels := rfl, attached := Nat.le_refl 0 }
  · exact { ht with
      context := hs.context
      labels := hs.labels
      attachedLabels := hs.attachedLabels
      attached := hs.attached }

end At

/-! ## Expressions -/

namespace Derives

variable (hd : sim.Derives k nested₁ nested₂)

include hd

protected theorem assignmentOrPattern (allowIn : Bool) (hs : sim.At b k c s₁ s₂) (hc : 1 ≤ c) :
    sim.Yields sim.Summaries true k (c + 1) (assignmentOrPattern nested₁ allowIn s₁)
      (assignmentOrPattern nested₂ allowIn s₂) :=
  (hd.production (.assignment allowIn) hs hc nofun).notingOperandEnd

protected theorem bindingTarget (lexical : Bool) (hs : sim.At b k c s₁ s₂) (hc : 1 ≤ c) :
    sim.Yields Eq false k (c + 1) (bindingTarget nested₁ lexical s₁) (bindingTarget nested₂ lexical s₂) :=
  hd.production (.bindingTarget lexical) hs hc nofun

protected theorem statement (hs : sim.At b k c s₁ s₂) (hc : 2 ≤ c) :
    sim.Yields Eq false k (c + 1) (statement nested₁ s₁) (statement nested₂ s₂) :=
  hd.production .statement hs hc nofun

protected theorem assignment (allowIn : Bool) (hs : sim.At b k c s₁ s₂) (hc : 1 ≤ c) :
    sim.Yields sim.Summaries true k (c + 1) (assignment nested₁ allowIn s₁) (assignment nested₂ allowIn s₂) := by
  refine (hd.assignmentOrPattern allowIn hs (by omega)).bind fun e₁ e₂ t₁ t₂ he ht => ?_
  exact ht.rejectShorthand he (.ok ⟨he, ht⟩)

/-- Where the text has ended, an expression fails. -/
theorem expression_at_end (allowIn : Bool) (hs : sim.At b k c s₁ s₂) (he : s₁.token.isEnd = true)
    (hc : 1 ≤ c) :
    ∃ f t, expression nested₁ allowIn s₁ = .error f t ∧ f.position = s₁.token.start ∧
      (sim.finish false t.input → ∃ g, sim.fault f g ∧ sim.history t.input) := by
  obtain ⟨f, t, hf, hp⟩ := hd.atEnd allowIn he
  have hassignment : assignmentOrPattern nested₁ allowIn s₁ = .error f t := bind_eq_error.mpr (.inl hf)
  have hexpression : expression nested₁ allowIn s₁ = .error f t :=
    bind_eq_error.mpr (.inl (bind_eq_error.mpr (.inl (bind_eq_error.mpr (.inl hassignment)))))
  refine ⟨f, t, hexpression, hp, fun hfinish => ?_⟩
  have h := hd.assignmentOrPattern allowIn hs (by omega)
  rw [hassignment] at h
  specialize h hfinish
  cases h₂ : assignmentOrPattern nested₂ allowIn s₂ with
  | ok => rw [h₂] at h; exact ⟨f, sim.fault_of_cut h.1, h.2⟩
  | error g => rw [h₂] at h; exact ⟨g, h⟩

variable [∀ p, Moves (nested₁ p)]

protected theorem expressionOrPattern (allowIn : Bool) (hs : sim.At b k c s₁ s₂) (hc : 1 ≤ c) :
    sim.Yields sim.Summaries true k (c + 1) (expressionOrPattern nested₁ allowIn s₁)
      (expressionOrPattern nested₂ allowIn s₂) := by
  refine Yields.notingOperandEnd ?_
  refine (hd.assignmentOrPattern allowIn hs (by omega)).bind fun e₁ e₂ t₁ t₂ he ht => ?_
  refine .bind_isAt (.ite (ht.tokens.isPunctuator _) (fun _ => ?_) fun _ => .ok ⟨he, ht⟩)
  refine ht.rejectShorthand he ?_
  refine Outcome.seq (fun _ _ => sim.At true k (c + 1)) ?_ fun _ _ _ _ h => .ok ⟨.other he.start, h⟩
  refine ht.loop Eq rfl fun c' _ _ u₁ u₂ hc' _ hu => ?_
  refine hu.eat (fun v₁ v₂ hv => ?_) fun _ => .ok (hu.mono hc')
  refine (hd.assignment allowIn hv (by omega)).discard.bind fun _ _ w₁ w₂ _ h => .ok ⟨rfl, h.mono (by omega)⟩

protected theorem expression (allowIn : Bool) (hs : sim.At b k c s₁ s₂) (hc : 1 ≤ c) :
    sim.Yields sim.Summaries true k (c + 1) (expression nested₁ allowIn s₁) (expression nested₂ allowIn s₂) := by
  refine (hd.expressionOrPattern allowIn hs (by omega)).bind fun e₁ e₂ t₁ t₂ he ht => ?_
  exact ht.rejectShorthand he (.ok ⟨he, ht⟩)

end Derives

end Simulation

end EcmaCheck.Grammar
