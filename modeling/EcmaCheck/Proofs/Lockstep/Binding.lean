import EcmaCheck.Grammar.Binding
import EcmaCheck.Proofs.Lockstep.Production

/-!
# Property names and binding patterns in lockstep

Corresponding property keys have the same name, and identifiers at corresponding places (`Simulation.Keys`).
-/

namespace EcmaCheck.Grammar.Simulation

set_option synthInstance.maxSize 20000

variable {sim : Simulation} {b : Bool} {k c : Nat} {s₁ s₂ : State} {nested₁ nested₂ : Derivation}
  [∀ p, Moves (nested₁ p)]

/-! ## Property names -/

/-- The same name, at corresponding places where it may stand for a variable. -/
structure Keys (sim : Simulation) (key₁ key₂ : PropertyKey) : Prop where
  identifier? : Option.Rel sim.Identifiers key₁.identifier? key₂.identifier?
  name? : key₂.name? = key₁.name?
  isPrivate : key₂.isPrivate = key₁.isPrivate

theorem endsPropertyName_eq {breaks : Prop} {t₁ t₂ : Token} (h : AlikeKinds breaks t₁ t₂) :
    endsPropertyName t₂ = endsPropertyName t₁ := by
  simp only [endsPropertyName, h.isEnd, h.isPunctuator]

/-- Where a name does not end, the text goes on. -/
theorem newlineBefore_eq_of_endsPropertyName {breaks : Prop} {t₁ t₂ : Token} (h : AlikeKinds breaks t₁ t₂) :
    (!t₂.newlineBefore && !endsPropertyName t₂) = (!t₁.newlineBefore && !endsPropertyName t₁) := by
  rw [endsPropertyName_eq h]
  cases he : t₁.isEnd with
  | true => simp only [endsPropertyName, he, Bool.true_or, Bool.not_true, Bool.and_false]
  | false => rw [h.newlineBefore_of_isEnd he]

protected theorem At.modifiers (hs : sim.At b k c s₁ s₂) : sim.Yields Eq false k c (modifiers s₁) (modifiers s₂) := by
  have star : ∀ {b : Bool} {t₁ t₂ : State} (isAsync : Bool), sim.At b k c t₁ t₂ →
      sim.Yields Eq false k c ((do return ⟨isAsync, ← eat .star, none⟩ : Recognizer Modifiers) t₁)
        ((do return ⟨isAsync, ← eat .star, none⟩ : Recognizer Modifiers) t₂) := fun isAsync ht =>
    ht.eat (fun _ _ hu => .ok ⟨rfl, hu.mono (by omega)⟩) fun _ => .ok ⟨rfl, ht.weaken⟩
  refine .bind_token ?_
  refine .ite (hs.tokens.isWord _) (fun h => ?_) fun _ => ?_
  · refine hs.peekWord h fun u₁ u₂ hu => ?_
    refine .when (sim.At false k c) (newlineBefore_eq_of_endsPropertyName hu) inferInstance (fun _ => ?_)
      (fun _ => hs.weaken) fun t₁ t₂ ht => ?_
    · exact (hs.pass (Token.isEnd_of_isWord h)).mono fun _ _ _ _ h => h.2.mono (by omega)
    · rw [newlineBefore_eq_of_endsPropertyName hu]
      exact star _ ht
  have haccessor : (s₂.token.isWord "get" || s₂.token.isWord "set") =
      (s₁.token.isWord "get" || s₁.token.isWord "set") := by
    rw [hs.tokens.isWord, hs.tokens.isWord]
  refine .ite haccessor (fun h => ?_) fun _ => star false hs
  · obtain ⟨w, hw⟩ : ∃ w, s₁.token.isWord w = true :=
      (Bool.or_eq_true _ _ ▸ h).elim (fun h => ⟨_, h⟩) fun h => ⟨_, h⟩
    refine hs.peekWord hw fun u₁ u₂ hu => ?_
    refine .ite (endsPropertyName_eq hu) (fun _ => star false hs) fun _ => ?_
    refine (hs.pass (Token.isEnd_of_isWord hw)).bind fun _ _ t₁ t₂ _ ht => .ok ⟨?_, ht.mono (by omega)⟩
    rw [hs.tokens.isWord]

protected theorem Derives.propertyName (hd : sim.Derives k nested₁ nested₂) (allowPrivate : Bool)
    (hs : sim.At b k c s₁ s₂) :
    sim.Yields sim.Keys false k (c + 1) (propertyName nested₁ allowPrivate s₁)
      (propertyName nested₂ allowPrivate s₂) := by
  have name : ∀ {key₁ key₂ : PropertyKey}, s₁.token.isEnd = false → sim.Keys key₁ key₂ →
      sim.Yields sim.Keys false k (c + 1) ((do advanceWith .division; return key₁ : Recognizer PropertyKey) s₁)
        ((do advanceWith .division; return key₂ : Recognizer PropertyKey) s₂) := fun he hkey =>
    (hs.advanceWith he (by decide)).bind fun _ _ _ _ _ h => .ok ⟨hkey, h.weaken⟩
  refine .bind_token ?_
  have hstart := hs.tokens.start
  rw [hs.tokens.kind, hs.tokens.lexeme]
  cases hk : s₁.token.kind with
  | identifier n escaped => exact name (Token.isEnd_of_kind hk nofun) ⟨.some (.of_kind hs.tokens hk), rfl, rfl⟩
  | keyword w => exact name (Token.isEnd_of_kind hk nofun) ⟨.none, rfl, rfl⟩
  | string l => exact name (Token.isEnd_of_kind hk nofun) ⟨.none, rfl, rfl⟩
  | bigInt => exact name (Token.isEnd_of_kind hk nofun) ⟨.none, rfl, rfl⟩
  | number legacyOctal =>
    refine hs.sameContext ?_
    exact .ite rfl (fun _ => hs.failFirst hstart rfl) fun _ => name (Token.isEnd_of_kind hk nofun) ⟨.none, rfl, rfl⟩
  | privateName n =>
    exact .ite rfl (fun _ => name (Token.isEnd_of_kind hk nofun) ⟨.none, rfl, rfl⟩) fun _ => hs.unexpected
  | punctuator p =>
    cases p with
    | openBracket =>
      refine (hs.pass (Token.isEnd_of_kind hk nofun)).bind fun _ _ t₁ t₂ _ ht => ?_
      refine (hd.assignment true ht (by omega)).discard.bind fun _ _ u₁ u₂ _ hu => ?_
      exact (hu.expectWith (by decide)).bind fun _ _ v₁ v₂ _ h => .ok ⟨⟨.none, rfl, rfl⟩, h.weaken.mono (by omega)⟩
    | _ => exact hs.unexpected
  | _ => exact hs.unexpected

/-! ## Binding patterns -/

/-- Only an identifier can be bound. -/
theorem bindingIdentifier_error (lexical : Bool) {s : State} (h : identifier? s.token = none) :
    ∃ f, bindingIdentifier lexical s = .error f s := by
  let e : GrammarError := if s.token.isEnd then .unexpectedEnd else .expectedIdentifier s.token.describe
  refine ⟨.grammatical e s.token.start, bind_eq_error.mpr (.inr ⟨s.token, s, rfl, ?_⟩)⟩
  rw [h]
  rfl

protected theorem At.bindingIdentifier {lexical : Bool} (hs : sim.At b k c s₁ s₂) :
    sim.Yields Eq false k (c + 1) (bindingIdentifier lexical s₁) (bindingIdentifier lexical s₂) := by
  refine .bind_token ?_
  obtain ⟨h₁, h₂⟩ | ⟨i₁, i₂, hi, h₁, h₂, ht⟩ := hs.identifier?_cases
  · rw [h₁, h₂]
    exact hs.expectedIdentifier
  · rw [h₁, h₂]
    exact hs.checkBinding hi (hs.pass (Token.isEnd_of_endsOperand ht))

/-- After a rest element the closing punctuator comes next. -/
protected theorem At.requireLast {close : Punctuator} {e : GrammarError} (hs : sim.At b k c s₁ s₂)
    (he : e.isFixed = true) :
    sim.Outcome (fun _ _ t₁ t₂ => sim.At b k c t₁ t₂ ∧ t₁.token.isPunctuator close = true)
      (requireLast close e s₁) (requireLast close e s₂) :=
  .bind_token (.ite (hs.tokens.isPunctuator _) (fun h => .ok ⟨hs, h⟩) fun _ => hs.fail hs.tokens.start he)

namespace Derives

variable (hd : sim.Derives k nested₁ nested₂) {lexical : Bool}

include hd

protected theorem bindingElement (hs : sim.At b k c s₁ s₂) (hc : 1 ≤ c) :
    sim.Yields Eq false k (c + 1) (bindingElement nested₁ lexical s₁) (bindingElement nested₂ lexical s₂) := by
  refine .bind_token ((hd.bindingTarget lexical hs (by omega)).bind fun _ _ t₁ t₂ _ ht => ?_)
  refine ht.eat (fun u₁ u₂ hu => ?_) fun _ => .ok ⟨hs.tokens.isIdentifier.symm, ht⟩
  exact (hd.assignment true hu (by omega)).discard.bind fun _ _ _ _ _ h => .ok ⟨rfl, h.weaken.mono (by omega)⟩

protected theorem arrayBinding (hs : sim.At b k c s₁ s₂) (he : s₁.token.isEnd = false) :
    sim.Yields Eq false k (c + 1) (arrayBinding nested₁ lexical s₁) (arrayBinding nested₂ lexical s₂) := by
  refine (hs.pass he).bind fun _ _ t₁ t₂ _ ht => ?_
  refine Outcome.seq (fun _ _ u₁ u₂ => sim.At false k c u₁ u₂ ∧ u₁.token.isPunctuator .closeBracket = true) ?_
    fun _ _ u₁ u₂ hu => hu.1.pass (Token.isEnd_of_isPunctuator hu.2)
  refine ht.loop Eq rfl fun c' _ _ u₁ u₂ hc _ hu => ?_
  refine .bind_isAt (.ite (hu.tokens.isPunctuator _) (fun h => .ok ⟨hu.mono (by omega), h⟩) fun _ => ?_)
  refine hu.eat (fun v₁ v₂ hv => .ok ⟨rfl, hv⟩) fun _ => hu.eat (fun v₁ v₂ hv => ?_) fun _ => ?_
  · refine (hd.bindingTarget lexical hv (by omega)).bind fun _ _ w₁ w₂ _ hw => ?_
    exact (hw.requireLast rfl).bind fun _ _ x₁ x₂ hx => .ok ⟨hx.1.mono (by omega), hx.2⟩
  · refine (hd.bindingElement hu (by omega)).discard.bind fun _ _ v₁ v₂ _ hv => ?_
    exact hv.separator fun _ _ hw => ⟨rfl, hw⟩

protected theorem propertyBinding (hs : sim.At b k c s₁ s₂) :
    sim.Yields Eq false k (c + 1) (propertyBinding nested₁ lexical s₁) (propertyBinding nested₂ lexical s₂) := by
  refine (hd.propertyName false hs).bindMoving (fun key => ?_) fun key₁ key₂ t₁ t₂ hkey ht => ?_
  · refine .bind inferInstance fun _ => ?_
    split
    · infer_instance
    · split <;> infer_instance
  refine ht.eat (fun u₁ u₂ hu => (hd.bindingElement hu (by omega)).discard.lower (by omega))
    fun _ => ?_
  have hid := hkey.identifier?
  cases h₁ : key₁.identifier? <;> cases h₂ : key₂.identifier? <;> rw [h₁, h₂] at hid <;> cases hid
  · exact ht.unexpected
  · rename_i i₁ i₂ hi
    refine ht.checkBinding hi (ht.eat (fun u₁ u₂ hu => ?_) fun _ => .ok ⟨rfl, ht⟩)
    exact (hd.assignment true hu (by omega)).discard.mono fun _ _ _ _ h => ⟨h.1, h.2.weaken.mono (by omega)⟩

protected theorem objectBinding (hs : sim.At b k c s₁ s₂) (he : s₁.token.isEnd = false) :
    sim.Yields Eq false k (c + 1) (objectBinding nested₁ lexical s₁) (objectBinding nested₂ lexical s₂) := by
  refine (hs.pass he).bind fun _ _ t₁ t₂ _ ht => ?_
  refine Outcome.seq (fun _ _ u₁ u₂ => sim.At false k c u₁ u₂ ∧ u₁.token.isPunctuator .closeBrace = true) ?_
    fun _ _ u₁ u₂ hu => hu.1.pass (Token.isEnd_of_isPunctuator hu.2)
  refine ht.loop Eq rfl fun c' _ _ u₁ u₂ hc _ hu => ?_
  refine .bind_isAt (.ite (hu.tokens.isPunctuator _) (fun h => .ok ⟨hu.mono (by omega), h⟩) fun _ => ?_)
  refine hu.eat (fun v₁ v₂ hv => ?_) fun _ => ?_
  · refine hv.bindingIdentifier.bind fun _ _ w₁ w₂ _ hw => ?_
    exact (hw.requireLast rfl).bind fun _ _ x₁ x₂ hx => .ok ⟨hx.1.mono (by omega), hx.2⟩
  · refine (hd.propertyBinding hu).bind fun _ _ v₁ v₂ _ hv => ?_
    exact hv.separator fun _ _ hw => ⟨rfl, hw⟩

protected theorem expandBindingTarget (hs : sim.At b k c s₁ s₂) :
    sim.Yields Eq false k (c + 1) (expandBindingTarget nested₁ lexical s₁)
      (expandBindingTarget nested₂ lexical s₂) := by
  refine .bind_isAt (.ite (hs.tokens.isPunctuator _) (fun h => ?_) fun _ => ?_)
  · exact hd.arrayBinding hs (Token.isEnd_of_isPunctuator h)
  refine .bind_isAt (.ite (hs.tokens.isPunctuator _) (fun h => ?_) fun _ => hs.bindingIdentifier)
  exact hd.objectBinding hs (Token.isEnd_of_isPunctuator h)

end Derives

end EcmaCheck.Grammar.Simulation
