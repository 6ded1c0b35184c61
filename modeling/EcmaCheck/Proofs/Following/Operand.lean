import EcmaCheck.Proofs.Following.Arrow

/-!
# Operands that follow others

Literals, whose elements can be in the second all that they can be in the first (`Elements.WidensTo`), the other primary
expressions and what may follow an operand. A private name asks for `in` without taking it, so that operands follow only
where `in` is taken behind them (`Following.operand`).
-/

namespace EcmaCheck.Grammar

set_option synthInstance.maxSize 20000

/-! ## Operands that stay operands -/

section

variable (e : Summary) (p : Prop) [Decidable p] (x y : Recognizer Summary)

instance : KeepsArrow e (pure e) :=
  ⟨fun h => by cases h; exact .inl ⟨.refl _, id⟩⟩

instance (priority := low) [h : Takes x] : KeepsArrow e x :=
  ⟨fun hrun => .inr (h.takes hrun)⟩

instance [KeepsArrow e x] [KeepsArrow e y] : KeepsArrow e (if p then x else y) := by
  split <;> infer_instance

instance {α : Type} (z : Recognizer α) (f : α → Recognizer Summary) [hz : Still z] [hf : ∀ a, KeepsArrow e (f a)] :
    KeepsArrow e (z >>= f) := by
  refine ⟨fun hrun => ?_⟩
  obtain ⟨a, _, hfirst, hnext⟩ := bind_eq_ok.mp hrun
  have hrests := hz.rests hfirst
  exact ((hf a).keeps_or_takes hnext).imp (fun h => ⟨hrests.trans h.1, h.2⟩) hrests.takes

/-- What may follow an operand. -/
instance {nested : Derivation} [∀ p, Moves (nested p)] [∀ p, Takes (nested p)] (allowCall : Bool) :
    KeepsArrow e (callTail nested allowCall e) := by
  refine ⟨fun {s t c} hrun => ?_⟩
  by_cases harrow : e.shape = .arrow
  · cases (congrFun (if_pos harrow) s).symm.trans hrun
    exact .inl ⟨.refl _, id⟩
  obtain ⟨_, _, hget, hrun⟩ := bind_eq_ok.mp ((congrFun (if_neg harrow) s).symm.trans hrun)
  cases hget
  cases hn : s.turns with
  | zero =>
    rw [hn] at hrun
    cases hrun
  | succ n =>
    rw [hn] at hrun
    obtain ⟨_, _, htoken, hrun⟩ := bind_eq_ok.mp hrun
    cases htoken
    obtain ⟨r, u, hturn, hrest⟩ := bind_eq_ok.mp hrun
    obtain ⟨part, v, hpart, hturn⟩ := bind_eq_ok.mp hturn
    have hmoves (p : Summary × Bool) : Moves (do
        match ← callTailPart nested allowCall p.2 p.1 with
        | some (shape, inChain) => return .again (⟨if inChain then .other else shape, p.1.start, none⟩, inChain)
        | none => return .done p.1 : Recognizer (Turn (Summary × Bool) Summary)) :=
      .bind inferInstance fun part => by split <;> infer_instance
    rcases none_or_takes_of_callTailPart hpart with ⟨rfl, hv⟩ | htakes
    · cases hturn
      cases hrest
      rw [hv]
      exact .inl ⟨.refl _, id⟩
    · refine .inr ((htakes.trans (Moves.leads ?_ hturn)).trans (Moves.leads ?_ hrest))
      · split <;> infer_instance
      · split
        · exact .bind inferInstance fun _ => inferInstance
        · infer_instance

instance {nested : Derivation} [∀ p, Moves (nested p)] [∀ p, Takes (nested p)] (allowCall : Bool) :
    Gentle (callTail nested allowCall e) :=
  ⟨fun hrun => (KeepsArrow.keeps_or_takes (e := e) hrun).imp_left And.left⟩

/-- What results in no arrow function. -/
theorem KeepsArrow.of_gentle (h : Gentle x) (hresult : ∀ s c t, x s = .ok c t → c.shape ≠ .arrow) : KeepsArrow e x :=
  ⟨fun hrun => (h.rests_or_takes hrun).imp_left fun hrests => ⟨hrests, fun h => (hresult _ _ _ hrun h).elim⟩⟩

end

/-! ## Array and object literals -/

/-- The second shape can be a pattern if the first can, and one that binds if the first can be such a one. -/
theorem Shape.WidensTo.ofPattern {a₁ a₂ b₁ b₂ : Bool} (ha : a₁ = true → a₂ = true) (hb : b₁ = true → b₂ = true) :
    Shape.WidensTo (if a₁ then .pattern b₁ else .other) (if a₂ then .pattern b₂ else .other) := by
  cases a₁ with
  | true =>
    rw [ha rfl]
    cases b₁ with
    | true =>
      rw [hb rfl]
      exact .refl _
    | false =>
      cases b₂ with
      | true => exact .pattern
      | false => exact .refl _
  | false =>
    cases a₂ with
    | true => exact .other b₂
    | false => exact .refl _

/-- What is restricted in the second is restricted in the first. -/
theorem Shape.WidensTo.ofRestricted {r₁ r₂ : Bool} (h : r₂ = true → r₁ = true) :
    Shape.WidensTo (if r₁ then .other else .pattern true) (if r₂ then .other else .pattern true) := by
  cases r₂ with
  | true =>
    rw [h rfl]
    exact .refl _
  | false =>
    cases r₁ with
    | true => exact .other true
    | false => exact .refl _

/-- The second literal can be all that the first can be. -/
structure Elements.WidensTo (es₁ es₂ : Elements) : Prop where
  assignable : es₁.assignable = true → es₂.assignable = true
  binding : es₁.binding = true → es₂.binding = true
  shorthand? : es₂.shorthand?.isSome = es₁.shorthand?.isSome

namespace Elements.WidensTo

variable {es₁ es₂ : Elements} (hes : es₁.WidensTo es₂)

protected theorem refl (es : Elements) : es.WidensTo es :=
  ⟨id, id, rfl⟩

include hes

theorem push {e₁ e₂ : Summary} {a₁ a₂ b₁ b₂ : Bool} (he : e₁.WidensTo e₂) (ha : a₁ = true → a₂ = true)
    (hb : b₁ = true → b₂ = true) : (es₁.push e₁ a₁ b₁).WidensTo (es₂.push e₂ a₂ b₂) where
  assignable h := by
    simp only [Elements.push, Bool.and_eq_true] at h ⊢
    exact ⟨hes.assignable h.1, ha h.2⟩
  binding h := by
    simp only [Elements.push, Bool.and_eq_true] at h ⊢
    exact ⟨hes.binding h.1, hb h.2⟩
  shorthand? := by simp only [Elements.push, Option.isSome_or, hes.shorthand?, he.shorthand?]

theorem summary (p q : Position) : (es₁.summary p).WidensTo (es₂.summary q) where
  shape := .ofPattern hes.assignable hes.binding
  shorthand? := hes.shorthand?

end Elements.WidensTo

namespace Following

variable {F : Following} {α : Type} {b : Bool} {s₁ s₂ : State} {nested₁ nested₂ : Derivation}
  {post : α → α → State → State → Prop} {given : α → Input → Prop}
  [∀ p, Moves (nested₁ p)] [∀ p, Takes (nested₁ p)]

namespace Derives

variable (hd : F.Derives nested₁ nested₂)

include hd

protected theorem arrayLiteral (hs : F.At b s₁ s₂) (h : s₁.token.isPunctuator .openBracket = true) :
    F.Yields Summary.WidensTo true (arrayLiteral nested₁ s₁) (arrayLiteral nested₂ s₂) := by
  refine .bind_token ((hs.passPunctuator h).bindTaking fun _ _ t₁ t₂ _ ht => ?_)
  refine Outcome.bindTaking (P := fun es₁ es₂ u₁ u₂ => es₁.WidensTo es₂ ∧ F.At true u₁ u₂ ∧
      u₁.token.isPunctuator .closeBracket = true)
    (ht.loop Elements.WidensTo (.refl _) fun es₁ es₂ u₁ u₂ hes hu => ?_) fun es₁ es₂ u₁ u₂ h => ?_
  · refine .bind_isAt (.ite (hu.tokens.isPunctuator _) (fun h => .ok ⟨hes, hu, h⟩) fun _ => ?_)
    refine hu.eat (fun v₁ v₂ hv => .ok ⟨hes, hv⟩) fun _ => ?_
    refine hu.eat (fun v₁ v₂ hv => ?_) fun _ => ?_
    · refine (hd.assignmentOrPattern hv).bindGentle fun e₁ e₂ w₁ w₂ he hw => .bind_isAt ?_
      rw [hw.tokens.isPunctuator]
      refine hw.separator fun _ _ hx => ⟨hes.push he (fun h => ?_) fun h => ?_, hx⟩
      · rw [Bool.and_eq_true] at h ⊢
        exact ⟨he.shape.isAssignmentTarget h.1, h.2⟩
      · rw [Bool.and_eq_true] at h ⊢
        exact ⟨he.shape.isBindingTarget h.1, h.2⟩
    · refine (hd.assignmentOrPattern hu).bindGentle fun e₁ e₂ w₁ w₂ he hw => ?_
      exact hw.separator fun _ _ hx => ⟨hes.push he he.shape.isAssignmentElement he.shape.isBindingElement, hx⟩
  · exact (h.2.1.passPunctuator h.2.2).bind fun _ _ v₁ v₂ _ hv => .ok ⟨h.1.summary _ _, hv⟩

protected theorem expandObjectMember (hs : F.At b s₁ s₂) :
    F.Yields Summary.WidensTo true (expandObjectMember nested₁ s₁) (expandObjectMember nested₂ s₂) := by
  refine .bind_token (hs.modifiers.bindBefore
    (fun m => .bind inferInstance fun key => .bind inferInstance fun isMethod => ?_) fun m₁ m₂ t₁ t₂ hm => ?_)
  · dsimp only
    split
    · infer_instance
    · refine .bind inferInstance fun hasValue => ?_
      split
      · infer_instance
      · split <;> infer_instance
  obtain ⟨rfl, ht⟩ := hm
  refine (hd.propertyName false ht).bindMoving (fun key => .bind inferInstance fun isMethod => ?_)
    fun key₁ key₂ u₁ u₂ hkey hu => .bind_isAt ?_
  · dsimp only
    split
    · infer_instance
    · refine .bind inferInstance fun hasValue => ?_
      split
      · infer_instance
      · split <;> infer_instance
  cases hspecial : m₁.isSpecial with
  | true =>
    rw [Bool.true_or, Bool.true_or]
    exact hu.live fun hu => (hd.method hu).bind fun _ _ v₁ v₂ _ hv => .ok ⟨.other _ _, hv⟩
  | false =>
    rw [Bool.false_or, Bool.false_or]
    refine hu.branch (fun hu => hu.tokens.isPunctuator _) (fun h => h.isPunctuator _) (fun _ hu => ?_)
      fun _ => hu.eatTaking (fun v₁ v₂ hv => ?_) ?_
    · exact (hd.method hu).bind fun _ _ v₁ v₂ _ hv => .ok ⟨.other _ _, hv⟩
    · refine (hd.assignmentOrPattern hv).bind fun e₁ e₂ w₁ w₂ he hw => .ok ⟨⟨?_, he.shorthand?⟩, hw⟩
      exact .ofPattern he.shape.isAssignmentElement he.shape.isBindingElement
    · have hid := hkey.identifier?
      cases h₁ : key₁.identifier? <;> cases h₂ : key₂.identifier? <;> rw [h₁, h₂] at hid <;> cases hid
      · exact .of_fails
      · rename_i i₁ i₂ hi
        refine hu.checkReference hi (.bind_context (.bind_token ?_))
        have hshape : Shape.WidensTo (if u₁.context.forbidsAssigning i₁.name = true then .other else .pattern true)
            (if u₂.context.forbidsAssigning i₂.name = true then .other else .pattern true) := by
          rw [hi.name]
          exact .ofRestricted hu.context.forbidsAssigning
        refine hu.eatTaking (fun v₁ v₂ hv => ?_) (.ok ⟨⟨hshape, rfl⟩, hu⟩)
        exact (hd.assignment hv).discard.bind fun _ _ w₁ w₂ _ hw => .ok ⟨⟨hshape, rfl⟩, hw⟩

protected theorem objectLiteral (hs : F.At b s₁ s₂) (h : s₁.token.isPunctuator .openBrace = true) :
    F.Yields Summary.WidensTo true (objectLiteral nested₁ s₁) (objectLiteral nested₂ s₂) := by
  refine .bind_token ((hs.passPunctuator h).bindTaking fun _ _ t₁ t₂ _ ht => ?_)
  refine (ht.itemsUntil Elements.WidensTo (Elements.WidensTo.refl _) fun es₁ es₂ u₁ u₂ hes hu => ?_).bindTaking
    fun es₁ es₂ u₁ u₂ h => ?_
  · refine hu.eat (fun v₁ v₂ hv => ?_) fun _ => ?_
    · refine (hd.assignment hv).bindGentle fun e₁ e₂ w₁ w₂ he hw => .bind_isAt ?_
      rw [hw.tokens.isPunctuator]
      refine .ok ⟨hes.push he (fun h => ?_) fun h => ?_, hw⟩
      · rw [Bool.and_eq_true] at h ⊢
        exact ⟨he.shape.isSimpleTarget h.1, h.2⟩
      · rw [Bool.and_eq_true, decide_eq_true_eq] at h ⊢
        exact ⟨he.shape.eq_identifier h.1, h.2⟩
    · refine (hd.objectMember hu).bindGentle fun e₁ e₂ w₁ w₂ he hw => ?_
      have hshape := he.shape
      generalize e₁.shape = shape₁ at hshape ⊢
      generalize e₂.shape = shape₂ at hshape ⊢
      cases hshape with
      | refl => cases shape₁ <;> exact .ok ⟨hes.push he id id, hw⟩
      | pattern => exact .ok ⟨hes.push he id nofun, hw⟩
      | other => exact .ok ⟨hes.push he nofun nofun, hw⟩
      | _ => exact .ok ⟨hes.push he id id, hw⟩
  · exact (h.2.1.passPunctuator h.2.2).bind fun _ _ v₁ v₂ _ hv => .ok ⟨h.1.summary _ _, hv⟩

end Derives

omit [∀ p, Moves (nested₁ p)] [∀ p, Takes (nested₁ p)]

/-! ## Primary expressions -/

/-- A private name is an operand in both, if the first takes the `in` behind it. -/
protected theorem At.privateOperand (hs : F.At b s₁ s₂) (hk : s₂.token.kind = s₁.token.kind) :
    F.Outcome F.operand (fun e₁ e₂ t₁ t₂ => e₁.WidensTo e₂ ∧ F.After true t₁ t₂) (privateOperand s₁)
      (privateOperand s₂) := by
  refine .bind_token (Around.requirePrivateScope hs.toAround ((hs.pass hk).bind fun _ _ t₁ t₂ _ ht => ?_))
  refine .bind_isAtKeyword ?_
  cases hin : t₁.token.isKeyword .«in» with
  | false => exact .of_fails
  | true =>
    rintro e u hrun hfinishes hoperand
    cases hrun
    have hat := ht.at_of_continues (hoperand nofun hin)
    rw [hat.tokens.isKeyword, hin]
    exact ⟨.other _ _, ht⟩

protected theorem At.tokenLiteral (hs : F.At b s₁ s₂) (hk : s₂.token.kind = s₁.token.kind) :
    F.Yields Summary.WidensTo true (tokenLiteral s₁) (tokenLiteral s₂) :=
  .bind_token ((hs.pass hk).bind fun _ _ _ _ _ h => .ok ⟨.other _ _, h⟩)

variable [∀ p, Moves (nested₁ p)] [∀ p, Takes (nested₁ p)]

namespace Derives

variable (hd : F.Derives nested₁ nested₂)

include hd

protected theorem primary (hs : F.At b s₁ s₂) :
    F.Outcome F.operand (fun e₁ e₂ t₁ t₂ => e₁.WidensTo e₂ ∧ F.After true t₁ t₂) (primary nested₁ s₁)
      (primary nested₂ s₂) := by
  refine hs.rereadDivision (.bind inferInstance fun _ => .bind inferInstance fun t => ?_) fun t₁ t₂ ht hk =>
    ht.noteOperandStart fun u₁ u₂ hu h₁ h₂ => .bind_token ?_
  · dsimp only
    split <;> infer_instance
  have hkind : u₂.token.kind = u₁.token.kind := by rw [h₁, h₂, hk]
  rw [hkind]
  cases hk : u₁.token.kind with
  | identifier name escaped =>
    have hi : SameName ⟨name, escaped, u₁.token.start⟩ ⟨name, escaped, u₂.token.start⟩ := ⟨rfl, rfl⟩
    exact (hd.identifierExpression hu hi hkind).ofAlways
  | privateName => exact hu.privateOperand hkind
  | number legacyOctal =>
    refine .bind_context (.guard (fun h => ?_) fun _ => (hu.tokenLiteral hkind).ofAlways)
    rw [Bool.and_eq_true] at h ⊢
    exact ⟨h.1, hu.context.strict h.2⟩
  | string legacyOctalEscape =>
    refine .bind_context (.guard (fun h => ?_) fun _ => (hu.tokenLiteral hkind).ofAlways)
    rw [Bool.and_eq_true] at h ⊢
    exact ⟨h.1, hu.context.strict h.2⟩
  | bigInt | regExp => exact (hu.tokenLiteral hkind).ofAlways
  | template => exact ((hd.template hu).bind fun _ _ v₁ v₂ _ h => .ok ⟨.other _ _, h⟩)
  | keyword w =>
    cases w with
    | this | null | true | false => exact (hu.tokenLiteral hkind).ofAlways
    | function => exact (hd.function hu hkind).ofAlways
    | «class» => exact (hd.classDefinition hu hkind).ofAlways
    | _ => exact .of_fails
  | punctuator p =>
    have hp : u₁.token.isPunctuator p = true := Token.isPunctuator_iff.mpr hk
    cases p with
    | openParen => exact (hd.parenthesized hu).ofAlways
    | openBracket => exact (hd.arrayLiteral hu hp).ofAlways
    | openBrace => exact (hd.objectLiteral hu hp).ofAlways
    | _ => exact .of_fails
  | endOfInput => exact .of_fails

/-! ## What follows an operand -/

protected theorem optionalMember (hs : F.At b s₁ s₂) (h : s₁.token.isPunctuator .optionalChain = true) :
    F.Yields Eq true (optionalMember nested₁ s₁) (optionalMember nested₂ s₂) := by
  refine (hs.passPunctuator h).bindTaking fun _ _ t₁ t₂ _ ht => .bind_token ?_
  refine .ite (ht.tokens.isPunctuator _) (fun _ => hd.arguments ht) fun _ => ?_
  refine .ite (ht.tokens.isPunctuator _) (fun _ => hd.computedMember ht) fun _ => ?_
  exact .ite ht.tokens.isTemplate (fun _ => .of_fails) fun _ => ht.memberName

/-- Where nothing follows the operand in the first, nothing does in the second. -/
protected theorem callTailPart {allowCall inChain : Bool} {e₁ e₂ : Summary} (hs : F.After true s₁ s₂)
    (he : e₁.WidensTo e₂) :
    F.Yields Eq true (callTailPart nested₁ allowCall inChain e₁ s₁) (callTailPart nested₂ allowCall inChain e₂ s₂) := by
  refine .bind_token (hs.branch (fun hs => hs.tokens.isPunctuator _) (fun h => h.isPunctuator _)
    (fun h hs => .rejectShorthand he ?_) fun _ => ?_)
  · refine (hs.passPunctuator h).bindTaking fun _ _ t₁ t₂ _ ht => ?_
    exact ht.memberName.bind fun _ _ u₁ u₂ _ hu => .ok ⟨rfl, hu⟩
  refine hs.branch (fun hs => hs.tokens.isPunctuator _) (fun h => h.isPunctuator _) (fun h hs => ?_) fun _ => ?_
  · refine .require id fun _ => .rejectShorthand he ?_
    exact (hd.optionalMember hs h).bind fun _ _ t₁ t₂ _ ht => .ok ⟨rfl, ht⟩
  refine hs.branch (fun hs => hs.tokens.isPunctuator _) (fun h => h.isPunctuator _)
    (fun _ hs => .rejectShorthand he ?_) fun _ => ?_
  · exact (hd.computedMember hs).bind fun _ _ t₁ t₂ _ ht => .ok ⟨rfl, ht⟩
  refine hs.branch (fun hs => by rw [hs.tokens.isPunctuator]) (fun h => by rw [h.isPunctuator _, Bool.and_false])
    (fun _ hs => .rejectShorthand he ?_) fun _ => ?_
  · exact (hd.arguments hs).bind fun _ _ t₁ t₂ _ ht => .ok ⟨rfl, ht⟩
  refine hs.branch (fun hs => hs.tokens.isTemplate) (fun h => h.isTemplate) (fun _ hs => ?_) fun _ => .ok ⟨rfl, hs⟩
  refine .guard id fun _ => .rejectShorthand he ?_
  exact (hd.template hs).bind fun _ _ t₁ t₂ _ ht => .ok ⟨rfl, ht⟩

protected theorem callTail {allowCall : Bool} {e₁ e₂ : Summary} (hs : F.After true s₁ s₂) (he : e₁.WidensTo e₂) :
    F.Yields Summary.WidensTo true (callTail nested₁ allowCall e₁ s₁) (callTail nested₂ allowCall e₂ s₂) := by
  refine .branch he.isArrow.symm (fun _ => .ok ⟨he, hs⟩) fun _ => ?_
  refine hs.loopMoving (fun p₁ p₂ => p₁.1.WidensTo p₂.1 ∧ p₂.2 = p₁.2) ⟨he, rfl⟩ (fun p => ?_)
    fun p₁ p₂ t₁ t₂ hp ht => ?_
  · obtain ⟨e, inChain⟩ := p
    exact .bind inferInstance fun part => by split <;> infer_instance
  obtain ⟨e₁, chain₁⟩ := p₁
  obtain ⟨e₂, chain₂⟩ := p₂
  obtain ⟨he, rfl⟩ := hp
  refine (hd.callTailPart ht he).bindMoving (fun part => ?_) fun r₁ r₂ u₁ u₂ hr hu => ?_
  · split <;> infer_instance
  subst hr
  cases r₁ with
  | some r => exact .ok ⟨⟨.of_shape, rfl⟩, hu⟩
  | none => exact .ok ⟨he, hu⟩

end Derives

/-! ## The keywords that begin operands -/

omit [∀ p, Moves (nested₁ p)] [∀ p, Takes (nested₁ p)] in
protected theorem At.newTarget {p q : Position} (hs : F.At b s₁ s₂) (h : s₁.token.isPunctuator .dot = true) :
    F.Yields Summary.WidensTo true (newTarget p s₁) (newTarget q s₂) := by
  refine (hs.passPunctuator h).bindTaking fun _ _ t₁ t₂ _ ht => .bind_isAtWord ?_
  refine .ite (ht.tokens.isWord _) (fun h => .bind_context ?_) fun _ => .of_fails
  refine .require ht.context.newTarget fun _ => ?_
  exact (ht.passWord h).bind fun _ _ u₁ u₂ _ hu => .ok ⟨.other _ _, hu⟩

namespace Derives

variable (hd : F.Derives nested₁ nested₂)

include hd

protected theorem superExpression (hs : F.At b s₁ s₂) (h : s₁.token.isKeyword .super = true) :
    F.Yields Summary.WidensTo true (superExpression nested₁ s₁) (superExpression nested₂ s₂) := by
  refine .bind_token ((hs.passKeyword h).bindBefore (fun _ => .behind inferInstance fun c => ?_)
    fun _ _ t₁ t₂ _ ht => .bind_context (.bind_isAt ?_))
  · dsimp only
    repeat' first
      | infer_instance
      | split
      | refine .behind inferInstance fun _ => ?_
  refine .ite (ht.tokens.isPunctuator _) (fun _ => ?_) fun _ => ?_
  · refine .require (fun h => ht.context.superCall.trans h) fun _ => ?_
    exact (hd.arguments ht).bind fun _ _ u₁ u₂ _ hu => .ok ⟨.other _ _, hu⟩
  refine .require (fun h => ht.context.superProperty.trans h) fun _ =>
    .bind_isAt (.ite (ht.tokens.isPunctuator _) (fun h => ?_) fun _ => ?_)
  · refine (ht.passPunctuator h).bindBefore (fun _ => .behind inferInstance fun t => ?_) fun _ _ u₁ u₂ _ hu =>
      .bind_token ?_
    · split <;> infer_instance
    rw [hu.kind]
    cases u₁.token.kind with
    | privateName => exact .of_fails
    | _ => exact hu.memberName.bind fun _ _ v₁ v₂ _ h => .ok ⟨.of_shape, h⟩
  · refine .bind_isAt (.ite (ht.tokens.isPunctuator _) (fun _ => ?_) fun _ => .of_fails)
    exact (hd.computedMember ht).bind fun _ _ u₁ u₂ _ hu => .ok ⟨.of_shape, hu⟩

protected theorem constructed (hs : F.At true s₁ s₂) :
    F.Outcome F.operand (fun e₁ e₂ t₁ t₂ => e₁.WidensTo e₂ ∧ F.After true t₁ t₂) (constructed nested₁ s₁)
      (constructed nested₂ s₂) := by
  refine .bind_token (.ite (hs.tokens.isKeyword _) (fun h => ?_) fun _ => ?_)
  · exact hd.production .newExpression hs fun _ => hs.kind
  refine .ite (hs.tokens.isKeyword _) (fun h => ?_) fun _ => ?_
  · refine hs.peek (Token.isName_of_isKeyword h)
      (.inl (Token.goalAfter_of_endsOperand (Token.endsOperand_of_isKeyword h)))
      (fun u₁ u₂ hu => ?_) fun u₁ u₂ hu _ => ?_
    · refine .ite (hu.isPunctuator _) (fun _ => .of_fails) fun _ => ?_
      exact (hd.superExpression hs h).ofAlways
    · refine .guard (fun h => ?_) fun _ => (hd.superExpression hs h).ofAlways
      rw [hu.isPunctuator _] at h
      cases h
  · exact .ite (hs.tokens.isKeyword _) (fun _ => .of_fails) fun _ => hd.primary hs

protected theorem newExpression (hs : F.At b s₁ s₂) (hk : s₂.token.kind = s₁.token.kind) :
    F.Outcome F.operand (fun e₁ e₂ t₁ t₂ => e₁.WidensTo e₂ ∧ F.After true t₁ t₂) (newExpression nested₁ s₁)
      (newExpression nested₂ s₂) := by
  refine .bind_token ((hs.pass hk).bindTaking fun _ _ t₁ t₂ _ ht => .bind_isAt ?_)
  refine .ite (ht.tokens.isPunctuator _) (fun h => (ht.newTarget h).ofAlways) fun _ => ?_
  refine (hd.constructed ht).bindKeeping (fun e => .of_gentle _ _ inferInstance fun s c t hrun => ?_)
    fun e₁ e₂ u₁ u₂ he => .requireOperand he.1 ?_
  · obtain ⟨_, _, _, hrun⟩ := bind_eq_ok.mp hrun
    obtain ⟨_, _, _, hrun⟩ := bind_eq_ok.mp hrun
    obtain ⟨isCall, u, _, hrun⟩ := bind_eq_ok.mp hrun
    cases isCall with
    | true =>
      obtain ⟨_, _, _, hrun⟩ := bind_eq_ok.mp hrun
      cases hrun
      exact nofun
    | false =>
      cases hrun
      exact nofun
  refine (hd.callTail he.2 he.1).discard.bind fun _ _ v₁ v₂ _ hv => .bind_isAt ?_
  refine hv.branch (fun hv => hv.tokens.isPunctuator _) (fun h => h.isPunctuator _) (fun _ hv => ?_)
    fun _ => .ok ⟨.other _ _, hv⟩
  exact (hd.arguments hv).bind fun _ _ _ _ _ hw => .ok ⟨.other _ _, hw⟩

protected theorem importExpression (hs : F.At b s₁ s₂) (h : s₁.token.isKeyword .«import» = true) :
    F.Yields Summary.WidensTo true (importExpression nested₁ s₁) (importExpression nested₂ s₂) := by
  have close : ∀ {b : Bool} {t₁ t₂ : State}, F.At b t₁ t₂ →
      F.Yields Summary.WidensTo true
        ((do expect .closeParen; return .other s₁.token.start : Recognizer Summary) t₁)
        ((do expect .closeParen; return .other s₂.token.start : Recognizer Summary) t₂) := fun ht =>
    ht.expect.bind fun _ _ u₁ u₂ _ h => .ok ⟨.other _ _, h⟩
  refine .bind_token ((hs.passKeyword h).bindTaking fun _ _ t₁ t₂ _ ht => .bind_isAt ?_)
  refine .ite (ht.tokens.isPunctuator _) (fun h => ?_) fun _ => ?_
  · refine (ht.passPunctuator h).bindTaking fun _ _ u₁ u₂ _ hu => .bind_isAtWord ?_
    refine .ite (hu.tokens.isWord _) (fun h => .bind_get ?_) fun _ => .of_fails
    refine .require (fun h => hu.isModule.trans h) fun _ => ?_
    exact (hu.passWord h).bind fun _ _ v₁ v₂ _ hv => .ok ⟨.other _ _, hv⟩
  · refine ht.expect.bindTaking fun _ _ u₁ u₂ _ hu => ?_
    refine (hd.assignment hu).discard.bindTaking fun _ _ v₁ v₂ _ hv => ?_
    refine hv.after.eatTaking (fun w₁ w₂ hw => .bind_isAt ?_) (close hv)
    refine .ite (hw.tokens.isPunctuator _) (fun _ => close hw) fun _ => ?_
    refine (hd.assignment hw).discard.bindTaking fun _ _ x₁ x₂ _ hx => ?_
    exact hx.eatAny.discard.bindTaking fun _ _ y₁ y₂ _ hy => close hy

protected theorem leftHandSide (hs : F.At b s₁ s₂) :
    F.Outcome F.operand (fun e₁ e₂ t₁ t₂ => e₁.WidensTo e₂ ∧ F.After true t₁ t₂) (leftHandSide nested₁ s₁)
      (leftHandSide nested₂ s₂) := by
  have tail : ∀ {x₁ x₂ : Recognizer Summary},
      F.Outcome F.operand (fun e₁ e₂ t₁ t₂ => e₁.WidensTo e₂ ∧ F.After true t₁ t₂) (x₁ s₁) (x₂ s₂) →
      F.Outcome F.operand (fun e₁ e₂ t₁ t₂ => e₁.WidensTo e₂ ∧ F.After true t₁ t₂) ((x₁ >>= callTail nested₁ true) s₁)
        ((x₂ >>= callTail nested₂ true) s₂) := fun h =>
    h.bindOperand fun _ _ _ _ he => (hd.callTail he.2 he.1).ofAlways
  refine Outcome.notingOperand (.bind_token ?_)
  refine .ite (hs.heads.isKeyword _) (fun h => tail (hd.newExpression hs ?_)) fun _ => ?_
  · exact hs.heads.kind (isDivision_of_isKeyword h)
  refine .ite (hs.heads.isKeyword _) (fun h => tail (hd.superExpression hs h).ofAlways) fun _ => ?_
  exact .ite (hs.heads.isKeyword _) (fun h => tail (hd.importExpression hs h).ofAlways) fun _ => tail (hd.primary hs)

end Derives

end Following

end EcmaCheck.Grammar
