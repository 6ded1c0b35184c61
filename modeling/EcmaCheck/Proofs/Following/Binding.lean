import EcmaCheck.Proofs.Following.Production

/-!
# Property names and binding patterns that follow others

The words before the name of a method depend on the token after them. Where the first would be stuck with that token, it
has no such word, as a name must follow.
-/

namespace EcmaCheck.Grammar

set_option synthInstance.maxSize 20000

/-- The same name, which may stand for a variable in both. -/
structure SameKeys (key₁ key₂ : PropertyKey) : Prop where
  identifier? : Option.Rel SameName key₁.identifier? key₂.identifier?
  name? : key₂.name? = key₁.name?
  isPrivate : key₂.isPrivate = key₁.isPrivate

namespace Following

variable {F : Following} {α : Type} {b : Bool} {s₁ s₂ : State} {nested₁ nested₂ : Derivation}
  {post : α → α → State → State → Prop} {given : α → Input → Prop}

/-! ## Property names -/

/-- Where the first would be stuck with the next token, it does not take its own before another. -/
theorem Outcome.of_stuckNext_advance {g₁ : Unit → Recognizer α} {r₂ : EStateM.Result Fault State α}
    (h : F.stuckNext s₁.input) [hgentle : ∀ u, Gentle (g₁ u)] :
    F.Outcome F.continuing post ((advance >>= g₁) s₁) r₂ := by
  rintro a₁ t₁ hrun _ ⟨k, htakes, l, hleads, hfinish⟩
  obtain ⟨_, u, hadvance, hnext⟩ := bind_eq_ok.mp hrun
  have hbehind : u.input.Takes k := by
    rcases (hgentle _).rests_or_takes hnext with hrests | hbetween
    · exact hrests.takes htakes
    · exact hbetween.trans htakes.leads
  have htwo : s₁.input.TakesTwo k :=
    ⟨_, _, _, .refl _, Token.goalAfter_ne_templateTail _, input_of_advanceWith hadvance, hbehind⟩
  exact absurd hfinish (F.not_finish_next h htwo hleads)

theorem endsPropertyName_eq {stop : Position → Position → Prop} {t₁ t₂ : Token} (h : SameTokens stop t₁ t₂) :
    endsPropertyName t₂ = endsPropertyName t₁ := by
  simp only [endsPropertyName, h.isEnd, h.isPunctuator]

/-- A star that may be there before a name. -/
theorem At.star (hs : F.At b s₁ s₂) (isAsync : Bool) :
    F.Passes Eq false ((do return ⟨isAsync, ← eat .star, none⟩ : Recognizer Modifiers) s₁)
      ((do return ⟨isAsync, ← eat .star, none⟩ : Recognizer Modifiers) s₂) := by
  refine hs.eatAny.bindGentle fun star₁ star₂ t₁ t₂ hstar ht => ?_
  subst hstar
  exact .ok ⟨rfl, ht.weaken⟩

protected theorem At.modifiers (hs : F.At b s₁ s₂) : F.Passes Eq false (modifiers s₁) (modifiers s₂) := by
  refine .bind_token ?_
  refine .ite (hs.heads.isWord _) (fun h => ?_) fun _ => ?_
  · refine hs.peekWord h (fun u₁ u₂ hu => ?_) fun u₁ u₂ hu hstuck => ?_
    · rw [hu.newlineBefore, endsPropertyName_eq hu]
      refine .ite rfl (fun _ => ?_) fun _ => hs.star _
      exact (hs.passWord h).bindGentle fun _ _ t₁ t₂ _ ht => ht.star _
    · rw [hu.endsPropertyName, Bool.not_true, Bool.and_false]
      cases !u₁.newlineBefore && !endsPropertyName u₁ with
      | true => exact .of_stuckNext_advance hstuck
      | false => exact hs.star false
  have haccessor : (s₂.token.isWord "get" || s₂.token.isWord "set") =
      (s₁.token.isWord "get" || s₁.token.isWord "set") := by
    rw [hs.heads.isWord, hs.heads.isWord]
  refine .ite haccessor (fun h => ?_) fun _ => hs.star false
  · obtain ⟨w, hw⟩ : ∃ w, s₁.token.isWord w = true :=
      (Bool.or_eq_true _ _ ▸ h).elim (fun h => ⟨_, h⟩) fun h => ⟨_, h⟩
    refine hs.peekWord hw (fun u₁ u₂ hu => ?_) fun u₁ u₂ hu hstuck => ?_
    · refine .ite (endsPropertyName_eq hu) (fun _ => hs.star false) fun _ => ?_
      refine (hs.passWord hw).bindGentle fun _ _ t₁ t₂ _ ht => .ok ⟨?_, ht.weaken⟩
      rw [hs.heads.isWord]
    · rw [hu.endsPropertyName]
      cases endsPropertyName u₁ with
      | true => exact hs.star false
      | false => exact .of_stuckNext_advance hstuck

variable [∀ p, Moves (nested₁ p)] [∀ p, Takes (nested₁ p)]

omit [∀ p, Moves (nested₁ p)] in
protected theorem Derives.propertyName (hd : F.Derives nested₁ nested₂) (allowPrivate : Bool) (hs : F.At b s₁ s₂) :
    F.Yields SameKeys true (propertyName nested₁ allowPrivate s₁) (propertyName nested₂ allowPrivate s₂) := by
  refine .bind_token ?_
  rcases hs.heads with htwins | ⟨hdivision, -⟩
  case regExp => rcases kind_of_isDivision hdivision with hk | hk <;> rw [hk] <;> exact .error
  have name {key₁ key₂ : PropertyKey} (hkey : SameKeys key₁ key₂) :
      F.Yields SameKeys true ((do advanceWith .division; return key₁ : Recognizer PropertyKey) s₁)
        ((do advanceWith .division; return key₂ : Recognizer PropertyKey) s₂) :=
    (hs.advanceWith htwins.kind (by decide)).bind fun _ _ _ _ _ ht => .ok ⟨hkey, ht⟩
  have hpass := hs.pass htwins.kind
  rw [htwins.kind, htwins.lexeme]
  cases s₁.token.kind with
  | identifier n escaped => exact name ⟨.some ⟨rfl, rfl⟩, rfl, rfl⟩
  | keyword | string | bigInt => exact name ⟨.none, rfl, rfl⟩
  | number legacyOctal =>
    refine .bind_context (.guard (fun h => ?_) fun _ => name ⟨.none, rfl, rfl⟩)
    rw [Bool.and_eq_true] at h ⊢
    exact ⟨h.1, hs.context.strict h.2⟩
  | privateName n => exact .ite rfl (fun _ => name ⟨.none, rfl, rfl⟩) fun _ => .error
  | punctuator p =>
    cases p with
    | openBracket =>
      refine hpass.bindTaking fun _ _ t₁ t₂ _ ht => (hd.assignment ht).discard.bindTaking fun _ _ u₁ u₂ _ hu => ?_
      exact hu.expectWith.bind fun _ _ v₁ v₂ _ hv => .ok ⟨⟨.none, rfl, rfl⟩, hv⟩
    | _ => exact .error
  | _ => exact .error

/-! ## Binding patterns -/

omit [∀ p, Moves (nested₁ p)] [∀ p, Takes (nested₁ p)] in
protected theorem At.bindingIdentifier {lexical : Bool} (hs : F.At b s₁ s₂) :
    F.Yields Eq true (bindingIdentifier lexical s₁) (bindingIdentifier lexical s₂) := by
  refine .bind_token ?_
  obtain ⟨h₁, h₂⟩ | ⟨i₁, i₂, hi, h₁, h₂, hk⟩ := hs.identifier?_cases
  · rw [h₁]
    exact .of_fails
  · rw [h₁, h₂]
    exact hs.checkBinding hi (hs.pass hk)

omit [∀ p, Moves (nested₁ p)] [∀ p, Takes (nested₁ p)] in
/-- After a rest element the closing punctuator comes next. -/
protected theorem At.requireLast {close : Punctuator} {e : GrammarError} {given : Unit → Input → Prop}
    (hs : F.At true s₁ s₂) :
    F.Outcome given (fun _ _ t₁ t₂ => F.At true t₁ t₂ ∧ t₁.token.isPunctuator close = true)
      (requireLast close e s₁) (requireLast close e s₂) :=
  .bind_token (.ite (hs.tokens.isPunctuator _) (fun h => .ok ⟨hs, h⟩) fun _ => .error)

namespace Derives

variable (hd : F.Derives nested₁ nested₂) {lexical : Bool}

include hd

protected theorem bindingElement (hs : F.At b s₁ s₂) :
    F.Yields Eq true (bindingElement nested₁ lexical s₁) (bindingElement nested₂ lexical s₂) := by
  refine .bind_token ((hd.bindingTarget lexical hs).bind fun _ _ t₁ t₂ _ ht => ?_)
  refine ht.eatTaking (fun u₁ u₂ hu => ?_) (.ok ⟨hs.heads.isIdentifier.symm, ht⟩)
  exact (hd.assignment hu).discard.bind fun _ _ _ _ _ h => .ok ⟨rfl, h⟩

protected theorem arrayBinding (hs : F.At b s₁ s₂) (h : s₁.token.isPunctuator .openBracket = true) :
    F.Yields Eq true (arrayBinding nested₁ lexical s₁) (arrayBinding nested₂ lexical s₂) := by
  refine (hs.passPunctuator h).bindTaking fun _ _ t₁ t₂ _ ht => ?_
  refine Outcome.bindTaking (P := fun _ _ u₁ u₂ => F.At true u₁ u₂ ∧ u₁.token.isPunctuator .closeBracket = true) ?_
    fun _ _ u₁ u₂ hu => hu.1.passPunctuator hu.2
  refine ht.loop Eq rfl fun _ _ u₁ u₂ _ hu => ?_
  refine .bind_isAt (.ite (hu.tokens.isPunctuator _) (fun h => .ok ⟨hu, h⟩) fun _ => ?_)
  refine hu.eat (fun v₁ v₂ hv => .ok ⟨rfl, hv⟩) fun _ => hu.eat (fun v₁ v₂ hv => ?_) fun _ => ?_
  · refine (hd.bindingTarget lexical hv).bindGentle fun _ _ w₁ w₂ _ hw => ?_
    exact hw.requireLast.bindGentle fun _ _ x₁ x₂ hx => .ok hx
  · refine (hd.bindingElement hu).discard.bindGentle fun _ _ v₁ v₂ _ hv => ?_
    exact hv.separator fun _ _ hw => ⟨rfl, hw⟩

protected theorem propertyBinding (hs : F.At b s₁ s₂) :
    F.Yields Eq true (propertyBinding nested₁ lexical s₁) (propertyBinding nested₂ lexical s₂) := by
  refine (hd.propertyName false hs).bindMoving (fun key => ?_) fun key₁ key₂ t₁ t₂ hkey ht => ?_
  · refine .bind inferInstance fun _ => ?_
    split
    · infer_instance
    · split <;> infer_instance
  refine ht.eatTaking (fun u₁ u₂ hu => (hd.bindingElement hu).discard) ?_
  have hidentifier := hkey.identifier?
  cases h₁ : key₁.identifier? <;> cases h₂ : key₂.identifier? <;> rw [h₁, h₂] at hidentifier <;> cases hidentifier
  · exact .error
  · rename_i i₁ i₂ hi
    refine ht.checkBinding hi (ht.eatTaking (fun u₁ u₂ hu => ?_) (.ok ⟨rfl, ht⟩))
    exact (hd.assignment hu).discard

protected theorem objectBinding (hs : F.At b s₁ s₂) (h : s₁.token.isPunctuator .openBrace = true) :
    F.Yields Eq true (objectBinding nested₁ lexical s₁) (objectBinding nested₂ lexical s₂) := by
  refine (hs.passPunctuator h).bindTaking fun _ _ t₁ t₂ _ ht => ?_
  refine Outcome.bindTaking (P := fun _ _ u₁ u₂ => F.At true u₁ u₂ ∧ u₁.token.isPunctuator .closeBrace = true) ?_
    fun _ _ u₁ u₂ hu => hu.1.passPunctuator hu.2
  refine ht.loop Eq rfl fun _ _ u₁ u₂ _ hu => ?_
  refine .bind_isAt (.ite (hu.tokens.isPunctuator _) (fun h => .ok ⟨hu, h⟩) fun _ => ?_)
  refine hu.eat (fun v₁ v₂ hv => ?_) fun _ => ?_
  · refine hv.bindingIdentifier.bindGentle fun _ _ w₁ w₂ _ hw => ?_
    exact hw.requireLast.bindGentle fun _ _ x₁ x₂ hx => .ok hx
  · refine (hd.propertyBinding hu).bindGentle fun _ _ v₁ v₂ _ hv => ?_
    exact hv.separator fun _ _ hw => ⟨rfl, hw⟩

protected theorem expandBindingTarget (hs : F.At b s₁ s₂) :
    F.Yields Eq true (expandBindingTarget nested₁ lexical s₁) (expandBindingTarget nested₂ lexical s₂) := by
  refine .bind_isAt (.ite (hs.heads.isPunctuator _) (fun h => hd.arrayBinding hs h) fun _ => ?_)
  exact .bind_isAt (.ite (hs.heads.isPunctuator _) (fun h => hd.objectBinding hs h) fun _ => hs.bindingIdentifier)

end Derives

end Following

end EcmaCheck.Grammar
