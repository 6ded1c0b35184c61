import EcmaCheck.Grammar.Operator

/-!
# Laxer contexts and wider summaries

A context relaxes to another that permits at least as much: it may be sloppy where the first is strict, and may be that
of a function. An identifier that is right in the first is right in the second (`RelaxesTo.identifierError?`). The
summary of an expression widens with it: what can be assigned to or bound in the first can be in the second.
-/

namespace EcmaCheck.Grammar

/-! ## Contexts -/

namespace Context

/-- The second context permits what the first does. -/
structure RelaxesTo (c₁ c₂ : Context) : Prop where
  strict : c₂.strict = true → c₁.strict = true
  inFunction : c₁.inFunction = true → c₂.inFunction = true
  newTarget : c₁.newTarget = true → c₂.newTarget = true
  yieldOperator : c₂.yieldOperator = c₁.yieldOperator
  yieldReserved : c₂.yieldReserved = c₁.yieldReserved
  awaitOperator : c₂.awaitOperator = c₁.awaitOperator
  awaitReserved : c₂.awaitReserved = c₁.awaitReserved
  inIteration : c₂.inIteration = c₁.inIteration
  inBreakable : c₂.inBreakable = c₁.inBreakable
  superProperty : c₂.superProperty = c₁.superProperty
  superCall : c₂.superCall = c₁.superCall
  classField : c₂.classField = c₁.classField

variable {c₁ c₂ : Context}

namespace RelaxesTo

protected theorem refl (c : Context) : c.RelaxesTo c :=
  ⟨id, id, id, rfl, rfl, rfl, rfl, rfl, rfl, rfl, rfl, rfl⟩

theorem forbidsAssigning (h : c₁.RelaxesTo c₂) {name : String} (hname : c₂.forbidsAssigning name = true) :
    c₁.forbidsAssigning name = true := by
  simp only [Context.forbidsAssigning, Bool.and_eq_true] at hname ⊢
  exact ⟨h.strict hname.1, hname.2⟩

/-- An identifier that is right in a context is right in a laxer one, wherever it stands. -/
theorem identifierError? (h : c₁.RelaxesTo c₂) {binding : Bool} {i j : Identifier} (hname : j.name = i.name)
    (hescaped : j.escaped = i.escaped) (hi : c₁.identifierError? binding i = none) :
    c₂.identifierError? binding j = none := by
  have hstrict := h.strict
  simp only [Context.identifierError?, hname, hescaped, h.yieldOperator, h.yieldReserved, h.awaitOperator,
    h.awaitReserved, h.classField] at hi ⊢
  grind

theorem bindingError? (h : c₁.RelaxesTo c₂) {lexical : Bool} {i j : Identifier} (hname : j.name = i.name)
    (hescaped : j.escaped = i.escaped) (hi : c₁.bindingError? lexical i = none) :
    c₂.bindingError? lexical j = none := by
  simp only [Context.bindingError?, Option.or_eq_none_iff, hname] at hi ⊢
  exact ⟨h.identifierError? hname hescaped hi.1, hi.2⟩

/-! ### Contexts inside -/

/-- Both may become strict. -/
theorem withStrict (h : c₁.RelaxesTo c₂) : RelaxesTo { c₁ with strict := true } { c₂ with strict := true } :=
  { h with strict := id }

theorem inBody (h : c₁.RelaxesTo c₂) (isGenerator isAsync : Bool) :
    (c₁.inBody isGenerator isAsync).RelaxesTo (c₂.inBody isGenerator isAsync) :=
  { h with yieldOperator := rfl, awaitOperator := rfl }

theorem ofFunction {strict₁ strict₂ : Bool} (h : strict₂ = true → strict₁ = true)
    (isModule isGenerator isAsync : Bool) :
    (Context.ofFunction strict₁ isModule isGenerator isAsync).RelaxesTo
      (Context.ofFunction strict₂ isModule isGenerator isAsync) :=
  { RelaxesTo.refl (Context.ofFunction strict₁ isModule isGenerator isAsync) with strict := h }

theorem ofMethod {strict₁ strict₂ : Bool} (h : strict₂ = true → strict₁ = true)
    (isModule isGenerator isAsync superCall : Bool) :
    (Context.ofMethod strict₁ isModule isGenerator isAsync superCall).RelaxesTo
      (Context.ofMethod strict₂ isModule isGenerator isAsync superCall) :=
  { RelaxesTo.refl (Context.ofMethod strict₁ isModule isGenerator isAsync superCall) with strict := h }

theorem ofFunctionName (h : c₁.RelaxesTo c₂) (isModule isGenerator isAsync : Bool) :
    (c₁.ofFunctionName isModule isGenerator isAsync).RelaxesTo (c₂.ofFunctionName isModule isGenerator isAsync) :=
  { h with yieldOperator := rfl, yieldReserved := rfl, awaitOperator := rfl, awaitReserved := rfl }

theorem ofArrow (h : c₁.RelaxesTo c₂) (isAsync : Bool) : (c₁.ofArrow isAsync).RelaxesTo (c₂.ofArrow isAsync) where
  strict := h.strict
  inFunction := id
  newTarget := h.newTarget
  yieldOperator := rfl
  yieldReserved := rfl
  awaitOperator := rfl
  awaitReserved := congrArg (isAsync || ·) h.awaitReserved
  inIteration := rfl
  inBreakable := rfl
  superProperty := h.superProperty
  superCall := h.superCall
  classField := h.classField

theorem ofField (h : c₁.RelaxesTo c₂) : c₁.ofField.RelaxesTo c₂.ofField :=
  { RelaxesTo.refl c₁.ofField with
    awaitReserved := by
      change (c₂.awaitReserved || c₂.awaitOperator) = (c₁.awaitReserved || c₁.awaitOperator)
      rw [h.awaitReserved, h.awaitOperator] }

end RelaxesTo

end Context

/-! ## Shapes -/

namespace Shape

/-- The second shape can be all that the first can be. -/
inductive WidensTo : Shape → Shape → Prop
  | refl (s : Shape) : WidensTo s s
  | identifier : WidensTo (.identifier false) (.identifier true)
  | parenthesizedIdentifier : WidensTo (.parenthesizedIdentifier false) (.parenthesizedIdentifier true)
  | pattern : WidensTo (.pattern false) (.pattern true)
  | assignment : WidensTo (.assignment false) (.assignment true)
  | other (binding : Bool) : WidensTo .other (.pattern binding)

namespace WidensTo

variable {s t : Shape}

theorem isSimpleTarget (h : s.WidensTo t) (hs : s.isSimpleTarget = true) : t.isSimpleTarget = true := by
  cases h <;> first | exact hs | cases hs

theorem isAssignmentTarget (h : s.WidensTo t) (hs : s.isAssignmentTarget = true) : t.isAssignmentTarget = true := by
  cases h <;> first | exact hs | cases hs

theorem isAssignmentElement (h : s.WidensTo t) (hs : s.isAssignmentElement = true) : t.isAssignmentElement = true := by
  cases h <;> first | exact hs | cases hs

theorem isBindingTarget (h : s.WidensTo t) (hs : s.isBindingTarget = true) : t.isBindingTarget = true := by
  cases h <;> first | exact hs | cases hs

theorem isBindingElement (h : s.WidensTo t) (hs : s.isBindingElement = true) : t.isBindingElement = true := by
  cases h <;> first | exact hs | cases hs

theorem eq_identifier (h : s.WidensTo t) (hs : s = .identifier true) : t = .identifier true := by
  subst hs
  cases h
  rfl

theorem isIdentifier (h : s.WidensTo t) : t.isIdentifier = s.isIdentifier := by
  cases h <;> rfl

theorem inParentheses (h : s.WidensTo t) : s.inParentheses.WidensTo t.inParentheses := by
  cases h with
  | refl => exact .refl _
  | identifier | parenthesizedIdentifier => exact .parenthesizedIdentifier
  | pattern | assignment | other => exact .refl _

/-- Shapes that can be no target do not widen, apart from patterns. -/
theorem eq_iff (h : s.WidensTo t) {u : Shape} (hu : u = .arrow ∨ u = .unary ∨ u = .logical ∨ u = .coalesce) :
    t = u ↔ s = u := by
  cases h with
  | refl => exact Iff.rfl
  | _ => rcases hu with rfl | rfl | rfl | rfl <;> exact ⟨nofun, nofun⟩

end WidensTo

end Shape

/-- The second summary is that of an expression that can be all that the first can be. -/
structure Summary.WidensTo (e₁ e₂ : Summary) : Prop where
  shape : e₁.shape.WidensTo e₂.shape
  shorthand? : e₂.shorthand?.isSome = e₁.shorthand?.isSome

namespace Summary.WidensTo

variable {e₁ e₂ : Summary}

theorem of_shape {s : Shape} {p q : Position} : WidensTo ⟨s, p, none⟩ ⟨s, q, none⟩ :=
  ⟨.refl s, rfl⟩

theorem other (p q : Position) : WidensTo (.other p) (.other q) :=
  of_shape

theorem shorthand?_eq_none (h : e₁.WidensTo e₂) (h₁ : e₁.shorthand? = none) : e₂.shorthand? = none := by
  have h₂ := h.shorthand?
  rw [h₁] at h₂
  exact Option.isSome_eq_false_iff.mp h₂ |> Option.isNone_iff_eq_none.mp

theorem isArrow (h : e₁.WidensTo e₂) : e₂.shape = .arrow ↔ e₁.shape = .arrow :=
  h.shape.eq_iff (.inl rfl)

end Summary.WidensTo

/-- The shape of a binary expression does not depend on what its operands can be assigned. -/
theorem binaryShape?_eq {t₁ t₂ : Token} (ht : t₂.kind = t₁.kind) {l₁ l₂ r₁ r₂ : Shape} (hl : l₁.WidensTo l₂)
    (hr : r₁.WidensTo r₂) : binaryShape? t₂ l₂ r₂ = binaryShape? t₁ l₁ r₁ := by
  have hlogical : (l₂ = .logical || r₂ = .logical) = (l₁ = .logical || r₁ = .logical) := by
    rw [decide_eq_decide.mpr (hl.eq_iff (.inr (.inr (.inl rfl)))),
      decide_eq_decide.mpr (hr.eq_iff (.inr (.inr (.inl rfl))))]
  have hcoalesce : (l₂ = .coalesce || r₂ = .coalesce) = (l₁ = .coalesce || r₁ = .coalesce) := by
    rw [decide_eq_decide.mpr (hl.eq_iff (.inr (.inr (.inr rfl)))),
      decide_eq_decide.mpr (hr.eq_iff (.inr (.inr (.inr rfl))))]
  have hpunctuator (p : Punctuator) : t₂.isPunctuator p = t₁.isPunctuator p := by
    simp only [Token.isPunctuator, ht]
  simp only [binaryShape?, hpunctuator, hlogical, hcoalesce]

end EcmaCheck.Grammar
