import EcmaCheck.Grammar.Module
import EcmaCheck.Proofs.Lockstep.Statement

/-!
# Imports and exports in lockstep

The declarations of modules. Whether an exported name is foreign is put off until `from` is seen, so that the faults
correspond as the lists do.
-/

namespace EcmaCheck.Grammar.Simulation

set_option synthInstance.maxSize 20000

variable {sim : Simulation} {b : Bool} {k c : Nat} {s₁ s₂ : State} {nested₁ nested₂ : Derivation}
  [∀ p, Moves (nested₁ p)]

namespace At

protected theorem moduleSpecifier (hs : sim.At b k c s₁ s₂) :
    sim.Yields Eq false k (c + 1) (moduleSpecifier s₁) (moduleSpecifier s₂) :=
  .bind_token (.ite hs.tokens.isString (fun h => hs.pass (Token.isEnd_of_isString h)) fun _ => hs.unexpected)

protected theorem exportName (hs : sim.At b k c s₁ s₂) :
    sim.Yields Eq false k (c + 1) (exportName s₁) (exportName s₂) := by
  refine .bind_token ?_
  rw [hs.tokens.kind]
  cases hk : s₁.token.kind with
  | string | identifier | keyword =>
    exact (hs.advanceWith (Token.isEnd_of_kind hk nofun) (by decide)).mono fun _ _ _ _ h => ⟨h.1, h.2.weaken⟩
  | _ => exact hs.unexpected

protected theorem importAttributes (hs : sim.At b k c s₁ s₂) :
    sim.Yields Eq false k c (importAttributes s₁) (importAttributes s₂) := by
  refine .bind_token (.ite ?_ (fun h => ?_) fun _ => .ok ⟨rfl, hs.weaken⟩)
  · rw [hs.tokens.isKeyword, hs.tokens.onSameLine_eq (hs.tokens.isWord _) Token.isEnd_of_isWord]
  have he : s₁.token.isEnd = false := by
    rcases Bool.or_eq_true _ _ ▸ h with h | h
    · exact Token.isEnd_of_isKeyword h
    · exact Token.isEnd_of_isWord (Bool.and_eq_true _ _ ▸ h).1
  refine (hs.pass he).bind fun _ _ t₁ t₂ _ ht => ht.expect.bind fun _ _ u₁ u₂ _ hu => ?_
  refine (hu.itemsUntil rfl fun c' _ _ v₁ v₂ _ _ hv _ => ?_).bind fun _ _ v₁ v₂ h => ?_
  · refine hv.exportName.bind fun _ _ w₁ w₂ _ hw => hw.expect.bind fun _ _ x₁ x₂ _ hx => ?_
    exact hx.moduleSpecifier.lower (by omega)
  · exact (h.2.1.pass (Token.isEnd_of_isPunctuator h.2.2)).lower (by omega)

protected theorem fromClause (hs : sim.At b k c s₁ s₂) :
    sim.Yields Eq false k (c + 1) (fromClause s₁) (fromClause s₂) := by
  refine hs.expectWord.bind fun _ _ t₁ t₂ _ ht => ht.moduleSpecifier.bind fun _ _ u₁ u₂ _ hu => ?_
  refine hu.importAttributes.bind fun _ _ v₁ v₂ _ hv => ?_
  exact hv.consumeSemicolon.lower (by omega)

/-! ## Imports -/

protected theorem importSpecifier (hs : sim.At b k c s₁ s₂) :
    sim.Yields Eq false k (c + 1) (importSpecifier s₁) (importSpecifier s₂) := by
  have named : s₁.token.isName = true →
      (s₁.token.goalAfter = .division ∨ sim.Opens s₁ (bindingIdentifier true s₁)) →
      sim.Yields Eq false k (c + 1)
        ((do
          if (← peek).isWord "as" then
            advanceWith .division
            advance
          bindingIdentifier true : Recognizer Unit) s₁)
        ((do
          if (← peek).isWord "as" then
            advanceWith .division
            advance
          bindingIdentifier true : Recognizer Unit) s₂) := by
    intro hname hopens
    have he := Token.isEnd_of_isName hname
    have hregExp : s₁.token.goalAfter = .division ∨ ∀ t : Token, t.kind = .regExp → sim.Opens s₁ ((do
        if t.isWord "as" then
          advanceWith .division
          advance
        bindingIdentifier true : Recognizer Unit) s₁) := by
      refine hopens.imp_right fun h t ht => ?_
      simp only [Token.isWord, ht]
      exact h
    refine hs.peek hname hregExp fun u₁ u₂ hu hn => .ite (hu.isWord _) (fun h => ?_) fun _ => hs.bindingIdentifier
    refine (hs.advanceOn (hn (Token.isEnd_of_isWord h)) he (by decide)).bind fun _ _ t₁ t₂ ht => ?_
    refine (ht.1.pass ht.2).bind fun _ _ v₁ v₂ _ hv => ?_
    exact hv.bindingIdentifier.lower (by omega)
  refine .bind_token ?_
  rw [hs.tokens.kind]
  cases hk : s₁.token.kind with
  | string =>
    refine (hs.pass (Token.isEnd_of_kind hk (by rintro ⟨⟩))).bind fun _ _ t₁ t₂ _ ht => ?_
    refine ht.expectWord.bind fun _ _ u₁ u₂ _ hu => ?_
    exact hu.bindingIdentifier.lower (by omega)
  | identifier =>
    have hi : s₁.token.isIdentifier = true := by simp only [Token.isIdentifier, hk]
    exact named (Token.isName_of_isIdentifier hi)
      (.inl (Token.goalAfter_of_endsOperand (Token.endsOperand_of_isIdentifier hi)))
  | keyword =>
    obtain ⟨f, hf⟩ := bindingIdentifier_error true (s := s₁) (by simp only [identifier?, hk])
    exact named (by simp only [Token.isName, hk]) (.inr (.of_error hf))
  | _ => exact hs.unexpected

protected theorem namedImports (hs : sim.At b k c s₁ s₂) :
    sim.Yields Eq false k (c + 1) (namedImports s₁) (namedImports s₂) := by
  refine hs.eat (fun t₁ t₂ ht => ?_) fun _ => ?_
  · refine ht.expectWord.bind fun _ _ u₁ u₂ _ hu => ?_
    exact hu.bindingIdentifier.lower (by omega)
  · refine .bind_isAt (.ite (hs.tokens.isPunctuator _) (fun h => ?_) fun _ => hs.unexpected)
    refine (hs.pass (Token.isEnd_of_isPunctuator h)).bind fun _ _ t₁ t₂ _ ht => ?_
    refine (ht.itemsUntil rfl fun c' _ _ u₁ u₂ _ _ hu _ => hu.importSpecifier).bind fun _ _ u₁ u₂ h => ?_
    exact (h.2.1.pass (Token.isEnd_of_isPunctuator h.2.2)).lower (by omega)

protected theorem importDeclaration (hs : sim.At b k c s₁ s₂) (he : s₁.token.isEnd = false) :
    sim.Yields Eq false k (c + 1) (importDeclaration s₁) (importDeclaration s₂) := by
  have imports : ∀ {b' : Bool} {c' : Nat} {t₁ t₂ : State} (more₁ more₂ : Bool), sim.At b' k c' t₁ t₂ → c ≤ c' →
      more₂ = more₁ →
      sim.Yields Eq false k (c + 1)
        ((do
          if more₁ then namedImports
          fromClause : Recognizer Unit) t₁)
        ((do
          if more₂ then namedImports
          fromClause : Recognizer Unit) t₂) := by
    intro b' c' t₁ t₂ more₁ more₂ ht hc hmore
    refine .when (sim.At false k c') hmore inferInstance (fun _ => ?_) (fun _ => ht.weaken) fun u₁ u₂ hu => ?_
    · exact ht.namedImports.mono fun _ _ _ _ h => h.2.mono (by omega)
    · exact hu.fromClause.lower (by omega)
  refine (hs.pass he).bind fun _ _ t₁ t₂ _ ht => .bind_token ?_
  refine .ite ht.tokens.isString (fun h => ?_) fun _ => ?_
  · refine (ht.pass (Token.isEnd_of_isString h)).bind fun _ _ u₁ u₂ _ hu => ?_
    refine hu.importAttributes.bind fun _ _ v₁ v₂ _ hv => ?_
    exact hv.consumeSemicolon.lower (by omega)
  refine .ite ht.tokens.isIdentifier (fun _ => ?_) fun _ => ?_
  · refine ht.bindingIdentifier.bind fun _ _ u₁ u₂ _ hu => hu.eatAny.bind fun _ _ v₁ v₂ hm hv => ?_
    exact imports _ _ hv (by omega) hm.symm
  · exact imports true true ht (by omega) rfl

/-! ## Exports -/

protected theorem exportClause (hs : sim.At b k c s₁ s₂) (he : s₁.token.isEnd = false) :
    sim.Yields (Option.Rel sim.fault) false k (c + 1) (exportClause s₁) (exportClause s₂) := by
  refine (hs.pass he).bind fun _ _ t₁ t₂ _ ht => ?_
  refine Outcome.seq (fun f₁ f₂ u₁ u₂ => Option.Rel sim.fault f₁ f₂ ∧ sim.At false k (c + 1) u₁ u₂ ∧
      u₁.token.isPunctuator .closeBrace = true)
    (ht.itemsUntil .none fun c' f₁ f₂ u₁ u₂ _ hf hu _ => .bind_token ?_) fun f₁ f₂ u₁ u₂ h => ?_
  · have hforeign : Option.Rel sim.fault
        (if u₁.token.isIdentifier then f₁ else f₁.or (some (unexpectedFault u₁.token)))
        (if u₂.token.isIdentifier then f₂ else f₂.or (some (unexpectedFault u₂.token))) := by
      rw [hu.tokens.isIdentifier]
      split
      · exact hf
      · exact rel_or hf (.some (fault_unexpected hu.tokens))
    refine hu.exportName.bind fun _ _ v₁ v₂ _ hv => ?_
    refine .bind_isAtWord (.ite (hv.tokens.isWord _) (fun h => ?_) fun _ => ?_)
    · refine (hv.pass (Token.isEnd_of_isWord h)).bind fun _ _ w₁ w₂ _ hw => ?_
      exact hw.exportName.bind fun _ _ x₁ x₂ _ hx => .ok ⟨hforeign, hx.mono (by omega)⟩
    · exact .ok ⟨hforeign, hv⟩
  · exact (h.2.1.pass (Token.isEnd_of_isPunctuator h.2.2)).bind fun _ _ v₁ v₂ _ hv => .ok ⟨h.1, hv.mono (by omega)⟩

protected theorem exportAll (hs : sim.At b k c s₁ s₂) :
    sim.Yields Eq false k (c + 1) (exportAll s₁) (exportAll s₂) := by
  refine .bind_isAtWord (.ite (hs.tokens.isWord _) (fun h => ?_) fun _ => hs.fromClause)
  refine (hs.pass (Token.isEnd_of_isWord h)).bind fun _ _ t₁ t₂ _ ht => ?_
  refine ht.exportName.bind fun _ _ u₁ u₂ _ hu => ?_
  exact hu.fromClause.lower (by omega)

protected theorem exportNames (hs : sim.At b k c s₁ s₂) (he : s₁.token.isEnd = false) :
    sim.Yields Eq false k (c + 1) (exportNames s₁) (exportNames s₂) := by
  refine (hs.exportClause he).bindMoving (fun foreign? => .bind inferInstance fun isFrom => ?_)
    fun f₁ f₂ t₁ t₂ hf ht => ?_
  · dsimp only
    repeat' first | infer_instance | split
  refine .bind_isAtWord (.ite (ht.tokens.isWord _) (fun _ => ?_) fun _ => ?_)
  · exact ht.fromClause.lower (by omega)
  · cases hf with
    | some h => exact ht.throwFirst h
    | none => exact ht.consumeSemicolon

end At

namespace Derives

variable (hd : sim.Derives k nested₁ nested₂)

include hd

protected theorem exportDefault (hs : sim.At b k c s₁ s₂) (he : s₁.token.isEnd = false) :
    sim.Yields Eq false k (c + 1) (exportDefault nested₁ s₁) (exportDefault nested₂ s₂) := by
  refine (hs.pass he).bind fun _ _ t₁ t₂ _ ht => ?_
  refine .bind_isAtKeyword (.ite (ht.tokens.isKeyword _) (fun h => ?_) fun _ => ?_)
  · exact (hd.function ht (Token.isEnd_of_isKeyword h)).discard.lower (by omega)
  refine ht.isAtAsyncFunction (fun he hn => ?_) ?_
  · refine (ht.passOn hn he).bind fun _ _ u₁ u₂ hu => ?_
    exact (hd.function hu.1 hu.2).discard.lower (by omega)
  refine .bind_isAtKeyword (.ite (ht.tokens.isKeyword _) (fun h => ?_) fun _ => ?_)
  · exact (hd.classDefinition ht (Token.isEnd_of_isKeyword h)).discard.lower (by omega)
  · refine (hd.assignment true ht (by omega)).discard.bind fun _ _ u₁ u₂ _ hu => ?_
    exact hu.consumeSemicolon.lower (by omega)

protected theorem exportDeclaration (hs : sim.At b k c s₁ s₂) (he : s₁.token.isEnd = false) :
    sim.Yields Eq false k (c + 1) (exportDeclaration nested₁ s₁) (exportDeclaration nested₂ s₂) := by
  refine (hs.pass he).bind fun _ _ t₁ t₂ _ ht => ht.eat (fun u₁ u₂ hu => ?_) fun _ => ?_
  · exact hu.exportAll.lower (by omega)
  have weaken : ∀ {x₁ x₂ : Recognizer Unit}, sim.Yields Eq false k (c + 1 + 1) (x₁ t₁) (x₂ t₂) →
      sim.Yields Eq false k (c + 1) (x₁ t₁) (x₂ t₂) := fun h =>
    h.lower (by omega)
  refine .bind_isAt (.ite (ht.tokens.isPunctuator _) (fun h => ?_) fun _ => ?_)
  · exact weaken (ht.exportNames (Token.isEnd_of_isPunctuator h))
  refine .bind_isAtKeyword (.ite (ht.tokens.isKeyword _) (fun h => ?_) fun _ => ?_)
  · exact weaken (hd.exportDefault ht (Token.isEnd_of_isKeyword h))
  refine .bind_isAtKeyword (.ite (ht.tokens.isKeyword _) (fun h => ?_) fun _ => ?_)
  · exact weaken (hd.declarationStatement ht (Token.isEnd_of_isKeyword h))
  refine .bind_isAtKeyword (.ite (ht.tokens.isKeyword _) (fun h => ?_) fun _ => ?_)
  · exact weaken (hd.declarationStatement ht (Token.isEnd_of_isKeyword h))
  refine .bind_isAtWord (.ite (ht.tokens.isWord _) (fun h => ?_) fun _ => ?_)
  · exact weaken (hd.declarationStatement ht (Token.isEnd_of_isWord h))
  refine .bind_isAtKeyword (.ite (ht.tokens.isKeyword _) (fun h => ?_) fun _ => ?_)
  · exact weaken (hd.functionDeclaration ht (Token.isEnd_of_isKeyword h))
  refine ht.isAtAsyncFunction (fun he hn => ?_) ?_
  · refine (ht.passOn hn he).bind fun _ _ u₁ u₂ hu => ?_
    exact (hd.functionDeclaration hu.1 hu.2).lower (by omega)
  refine .bind_isAtKeyword (.ite (ht.tokens.isKeyword _) (fun h => ?_) fun _ => ht.unexpected)
  exact weaken (hd.classDefinition ht (Token.isEnd_of_isKeyword h)).discard

end Derives

end EcmaCheck.Grammar.Simulation
