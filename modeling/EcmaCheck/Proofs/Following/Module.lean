import EcmaCheck.Grammar.Module
import EcmaCheck.Proofs.Following.Statement
import EcmaCheck.Proofs.Lockstep.Binding

/-!
# Imports and exports that follow others

The declarations of modules. Whether an exported name is foreign is the same in both, so that they need the same `from`.
-/

namespace EcmaCheck.Grammar.Following

set_option synthInstance.maxSize 20000

variable {F : Following} {b : Bool} {s₁ s₂ : State} {nested₁ nested₂ : Derivation}

namespace At

protected theorem moduleSpecifier (hs : F.At b s₁ s₂) :
    F.Yields Eq true (moduleSpecifier s₁) (moduleSpecifier s₂) := by
  refine .bind_token (.ite hs.heads.isString (fun h => ?_) fun _ => .of_fails)
  obtain ⟨_, hkind⟩ := kind_of_isString h
  exact hs.pass (hs.heads.kind (isDivision_of_kind hkind ⟨nofun, nofun⟩))

protected theorem exportName (hs : F.At true s₁ s₂) : F.Yields Eq true (exportName s₁) (exportName s₂) := by
  refine .bind_token ?_
  rw [hs.kind]
  cases s₁.token.kind with
  | string | identifier | keyword => exact hs.advanceWith hs.kind (by decide)
  | _ => exact .of_fails

end At

protected theorem After.importAttributes (hs : F.After true s₁ s₂) :
    F.Yields Eq true (importAttributes s₁) (importAttributes s₂) := by
  refine .bind_token (hs.branch (fun hs => ?_) (fun h => ?_) (fun _ hs => ?_) fun _ => .ok ⟨rfl, hs⟩)
  · rw [hs.tokens.isKeyword, hs.tokens.isWord, hs.tokens.newlineBefore]
  · rw [h.isKeyword, h.isWord, Bool.false_and, Bool.or_false]
  refine (hs.pass hs.kind).bindTaking fun _ _ t₁ t₂ _ ht => ht.expect.bindTaking fun _ _ u₁ u₂ _ hu => ?_
  refine (hu.itemsUntil _ rfl fun _ _ v₁ v₂ _ hv => ?_).bindTaking fun _ _ v₁ v₂ h => h.2.1.pass h.2.1.kind
  refine hv.exportName.bindGentle fun _ _ w₁ w₂ _ hw => hw.expect.bindGentle fun _ _ x₁ x₂ _ hx => ?_
  exact hx.moduleSpecifier.passes

namespace At

protected theorem fromClause (hs : F.At b s₁ s₂) : F.Yields Eq false (fromClause s₁) (fromClause s₂) := by
  refine hs.expectWord.bindTaking fun _ _ t₁ t₂ _ ht => ht.moduleSpecifier.bind fun _ _ u₁ u₂ _ hu => ?_
  exact hu.importAttributes.bind fun _ _ v₁ v₂ _ hv => hv.consumeSemicolon

/-! ## Imports -/

protected theorem importSpecifier (hs : F.At true s₁ s₂) :
    F.Yields Eq true (importSpecifier s₁) (importSpecifier s₂) := by
  have named (hname : s₁.token.isName = true)
      (hread : s₁.token.goalAfter = .division ∨ ∀ u t, bindingIdentifier true s₁ ≠ .ok u t) :
      F.Yields Eq true
        ((do
          if (← peek).isWord "as" then
            advanceWith .division
            advance
          bindingIdentifier true : Recognizer Unit) s₁)
        ((do
          if (← peek).isWord "as" then
            advanceWith .division
            advance
          bindingIdentifier true : Recognizer Unit) s₂) := by
    refine hs.peek hname (hread.imp_right fun h t ht hkind a u hrun => ?_) (fun t₁ t₂ ht => ?_)
      fun t₁ t₂ hcloses hstuck => ?_
    · refine h a u ?_
      simpa only [Token.isWord, hkind, Bool.false_eq_true, if_false] using hrun
    · refine .ite (ht.isWord _) (fun _ => ?_) fun _ => hs.bindingIdentifier
      refine (hs.advanceWith hs.kind (by decide)).bindTaking fun _ _ u₁ u₂ _ hu => ?_
      exact (hu.pass hu.kind).bindTaking fun _ _ v₁ v₂ _ hv => hv.bindingIdentifier
    · rw [hcloses.isWord]
      cases t₁.isWord "as" with
      | false => exact hs.bindingIdentifier
      | true => exact .of_stuckNext (do advanceWith .division; advance; bindingIdentifier true) hstuck
  refine .bind_token ?_
  rw [hs.kind]
  cases hk : s₁.token.kind with
  | string =>
    refine (hs.pass hs.kind).bindTaking fun _ _ t₁ t₂ _ ht => ht.expectWord.bindTaking fun _ _ u₁ u₂ _ hu => ?_
    exact hu.bindingIdentifier
  | identifier =>
    have hi : s₁.token.isIdentifier = true := by simp only [Token.isIdentifier, hk]
    exact named (Token.isName_of_isIdentifier hi)
      (.inl (Token.goalAfter_of_endsOperand (Token.endsOperand_of_isIdentifier hi)))
  | keyword =>
    obtain ⟨f, hf⟩ := Simulation.bindingIdentifier_error true (s := s₁) (by simp only [identifier?, hk])
    refine named (by simp only [Token.isName, hk]) (.inr fun u t hrun => ?_)
    cases hf.symm.trans hrun
  | _ => exact .of_fails

protected theorem namedImports (hs : F.At true s₁ s₂) :
    F.Yields Eq true (namedImports s₁) (namedImports s₂) := by
  refine hs.after.eatTaking (fun t₁ t₂ ht => ?_) ?_
  · exact ht.expectWord.bindTaking fun _ _ u₁ u₂ _ hu => hu.bindingIdentifier
  · refine .bind_isAt (.ite (hs.tokens.isPunctuator _) (fun h => ?_) fun _ => .of_fails)
    refine (hs.passPunctuator h).bindTaking fun _ _ t₁ t₂ _ ht => ?_
    refine (ht.itemsUntil _ rfl fun _ _ u₁ u₂ _ hu => hu.importSpecifier.passes).bindTaking fun _ _ u₁ u₂ h => ?_
    exact h.2.1.pass h.2.1.kind

protected theorem importDeclaration (hs : F.At b s₁ s₂) (hk : s₂.token.kind = s₁.token.kind) :
    F.Yields Eq false (importDeclaration s₁) (importDeclaration s₂) := by
  have imports {t₁ t₂ : State} (more : Bool) (ht : F.At true t₁ t₂) :
      F.Yields Eq false
        ((do
          if more then namedImports
          fromClause : Recognizer Unit) t₁)
        ((do
          if more then namedImports
          fromClause : Recognizer Unit) t₂) := by
    refine .ite rfl (fun _ => ?_) fun _ => ht.fromClause
    exact ht.namedImports.bindTaking fun _ _ u₁ u₂ _ hu => hu.fromClause
  refine (hs.pass hk).bindTaking fun _ _ t₁ t₂ _ ht => .bind_token ?_
  refine .ite ht.tokens.isString (fun _ => ?_) fun _ => ?_
  · refine (ht.pass ht.kind).bind fun _ _ u₁ u₂ _ hu => ?_
    exact hu.importAttributes.bind fun _ _ v₁ v₂ _ hv => hv.consumeSemicolon
  refine .ite ht.tokens.isIdentifier (fun _ => ?_) fun _ => ?_
  · refine ht.bindingIdentifier.bindTaking fun _ _ u₁ u₂ _ hu => ?_
    refine hu.eatAny.bindTaking fun more₁ more₂ v₁ v₂ hmore hv => ?_
    subst hmore
    exact imports more₁ hv
  · exact imports true ht

/-! ## Exports -/

protected theorem exportClause (hs : F.At b s₁ s₂) (h : s₁.token.isPunctuator .openBrace = true) :
    F.Yields (fun f₁ f₂ => f₂.isSome = f₁.isSome) true (exportClause s₁) (exportClause s₂) := by
  refine (hs.passPunctuator h).bindTaking fun _ _ t₁ t₂ _ ht => ?_
  refine Outcome.bindTaking (ht.itemsUntil (fun f₁ f₂ => f₂.isSome = f₁.isSome) rfl fun f₁ f₂ u₁ u₂ hf hu =>
    .bind_token ?_)
    fun f₁ f₂ u₁ u₂ h => ?_
  · have hforeign :
        (if u₂.token.isIdentifier then f₂ else f₂.or (some (unexpectedFault u₂.token))).isSome =
          (if u₁.token.isIdentifier then f₁ else f₁.or (some (unexpectedFault u₁.token))).isSome := by
      rw [hu.tokens.isIdentifier]
      cases u₁.token.isIdentifier with
      | true => exact hf
      | false => cases f₁ <;> cases f₂ <;> rfl
    refine hu.exportName.bindGentle fun _ _ v₁ v₂ _ hv =>
      .bind_isAtWord (.ite (hv.tokens.isWord _) (fun h => ?_) fun _ => ?_)
    · refine (hv.passWord h).bindGentle fun _ _ w₁ w₂ _ hw => ?_
      exact hw.exportName.bindGentle fun _ _ x₁ x₂ _ hx => .ok ⟨hforeign, hx⟩
    · exact .ok ⟨hforeign, hv⟩
  · exact (h.2.1.pass h.2.1.kind).bind fun _ _ v₁ v₂ _ hv => .ok ⟨h.1, hv⟩

protected theorem exportAll (hs : F.At true s₁ s₂) : F.Yields Eq false (exportAll s₁) (exportAll s₂) := by
  refine .bind_isAtWord (.ite (hs.tokens.isWord _) (fun h => ?_) fun _ => hs.fromClause)
  refine (hs.passWord h).bindTaking fun _ _ t₁ t₂ _ ht => ht.exportName.bindTaking fun _ _ u₁ u₂ _ hu => hu.fromClause

protected theorem exportNames (hs : F.At b s₁ s₂) (h : s₁.token.isPunctuator .openBrace = true) :
    F.Yields Eq false (exportNames s₁) (exportNames s₂) := by
  refine (hs.exportClause h).bindMoving (fun foreign? => .bind inferInstance fun isFrom => ?_)
    fun f₁ f₂ t₁ t₂ hf ht => ?_
  · dsimp only
    repeat' first | infer_instance | split
  refine .bind_isAtWord
    (ht.branch (fun ht => ht.tokens.isWord _) (fun h => h.isWord _) (fun _ ht => ht.fromClause) fun _ => ?_)
  cases f₁ <;> cases f₂ <;> cases hf
  · exact ht.consumeSemicolon
  · exact .of_fails

end At

namespace Derives

variable (hd : F.Derives nested₁ nested₂) [∀ p, Moves (nested₁ p)] [∀ p, Takes (nested₁ p)]

include hd

protected theorem exportDefault (hs : F.At b s₁ s₂) (hk : s₂.token.kind = s₁.token.kind) :
    F.Yields Eq false (exportDefault nested₁ s₁) (exportDefault nested₂ s₂) := by
  refine (hs.pass hk).bindTaking fun _ _ t₁ t₂ _ ht => .bind_isAtKeyword ?_
  refine .ite (ht.tokens.isKeyword _) (fun _ => (hd.function ht ht.kind).discard.weaken) fun _ => ?_
  refine ht.isAtAsyncFunction (fun _ => ?_) ?_
  · exact (ht.pass ht.kind).bindTaking fun _ _ u₁ u₂ _ hu => (hd.function hu hu.kind).discard.weaken
  refine .bind_isAtKeyword
    (.ite (ht.tokens.isKeyword _) (fun _ => (hd.classDefinition ht ht.kind).discard.weaken) fun _ => ?_)
  exact (hd.assignment ht).discard.bind fun _ _ u₁ u₂ _ hu => hu.consumeSemicolon

protected theorem exportDeclaration (hs : F.At b s₁ s₂) (hk : s₂.token.kind = s₁.token.kind) :
    F.Yields Eq false (exportDeclaration nested₁ s₁) (exportDeclaration nested₂ s₂) := by
  refine (hs.pass hk).bindTaking fun _ _ t₁ t₂ _ ht => ht.after.eatTaking (fun u₁ u₂ hu => hu.exportAll) ?_
  refine .bind_isAt (.ite (ht.tokens.isPunctuator _) (fun h => ht.exportNames h) fun _ => ?_)
  refine .bind_isAtKeyword (.ite (ht.tokens.isKeyword _) (fun _ => hd.exportDefault ht ht.kind) fun _ => ?_)
  refine .bind_isAtKeyword (.ite (ht.tokens.isKeyword _) (fun _ => hd.declarationStatement ht ht.kind) fun _ => ?_)
  refine .bind_isAtKeyword (.ite (ht.tokens.isKeyword _) (fun _ => hd.declarationStatement ht ht.kind) fun _ => ?_)
  refine .bind_isAtWord (.ite (ht.tokens.isWord _) (fun _ => hd.declarationStatement ht ht.kind) fun _ => ?_)
  refine .bind_isAtKeyword
    (.ite (ht.tokens.isKeyword _) (fun _ => (hd.functionDeclaration ht ht.kind).weaken) fun _ => ?_)
  refine ht.isAtAsyncFunction (fun _ => ?_) ?_
  · exact (ht.pass ht.kind).bindTaking fun _ _ u₁ u₂ _ hu => (hd.functionDeclaration hu hu.kind).weaken
  refine .bind_isAtKeyword (.ite (ht.tokens.isKeyword _) (fun _ => ?_) fun _ => .of_fails)
  exact (hd.classDefinition ht ht.kind).discard.weaken

end Derives

end EcmaCheck.Grammar.Following
