import EcmaCheck.Grammar.Statement
import EcmaCheck.Proofs.Lockstep.Operator

/-!
# Statements in lockstep

Declarations, control statements, jumps and labels. After `throw` the second text may show a line break where the first
has ended: then both fail, each with its own fault (`Simulation.fault_of_throw`).
-/

namespace EcmaCheck.Grammar.Simulation

set_option synthInstance.maxSize 20000

variable {sim : Simulation} {α : Type} {b : Bool} {k c : Nat} {s₁ s₂ : State} {nested₁ nested₂ : Derivation}
  [∀ p, Moves (nested₁ p)]
  {post : α → α → State → State → Prop}

/-! ## Declarations -/

/-- Lists of corresponding declarations. -/
structure DeclarationLists (sim : Simulation) (ds₁ ds₂ : Declarations) : Prop where
  count : ds₂.count = ds₁.count
  hasInitializer : ds₂.hasInitializer = ds₁.hasInitializer
  firstIsPattern : ds₂.firstIsPattern = ds₁.firstIsPattern
  missing? : Option.Rel sim.fault ds₁.missing? ds₂.missing?

/-- The same declarations are refused as the head of a loop. -/
theorem loopHeadError?_eq {ds₁ ds₂ : Declarations} (hds : sim.DeclarationLists ds₁ ds₂) (kind : DeclarationKind)
    (strict : Bool) (l : ForLoop) : loopHeadError? kind strict ds₂ l = loopHeadError? kind strict ds₁ l := by
  simp only [loopHeadError?, hds.count, hds.hasInitializer, hds.firstIsPattern]

/-! ## Labels -/

theorem labels_of_advanceWith {goal : LexicalGoal} {s t : State} {u : Unit} (h : advanceWith goal s = .ok u t) :
    t.labels = s.labels := by
  unfold advanceWith State.receive at h
  split at h <;> cases h
  rfl

theorem labels_of_expectWith {p : Punctuator} {goal : LexicalGoal} {s t : State} {u : Unit}
    (h : expectWith p goal s = .ok u t) : t.labels = s.labels := by
  by_cases hp : s.token.isPunctuator p = true
  · exact labels_of_advanceWith ((congrFun (if_pos hp) s).symm.trans h)
  · cases (congrFun (if_neg hp) s).symm.trans h

omit [∀ p, Moves (nested₁ p)] in
/-- Where the labels attached to a loop are around, they are marked in both. -/
theorem At.bind_markLabels {n : Nat} {f₁ f₂ : Unit → Recognizer α} (hs : sim.At b k c s₁ s₂)
    (hn : n ≤ s₁.labels.length)
    (h : sim.Outcome post (f₁ () { s₁ with labels := markIteration n s₁.labels })
      (f₂ () { s₂ with labels := markIteration n s₂.labels })) :
    sim.Outcome post ((markLabels n >>= f₁) s₁) ((markLabels n >>= f₂) s₂) := by
  have hmarks {s : State} {f : Unit → Recognizer α} (hn : n ≤ s.labels.length) :
      (markLabels n >>= f) s = f () { s with labels := markIteration n s.labels } := by
    change EStateM.bind (markLabels n) f s = _
    unfold EStateM.bind
    rw [markLabels_of_le hn]
  rwa [hmarks hn, hmarks (hs.labels ▸ hn)]

namespace Derives

variable (hd : sim.Derives k nested₁ nested₂)

include hd

protected theorem declaration {kind : DeclarationKind} {inFor : Bool} {ds₁ ds₂ : Declarations}
    (hs : sim.At b k c s₁ s₂) (hds : sim.DeclarationLists ds₁ ds₂) (hc : 1 ≤ c) :
    sim.Yields sim.DeclarationLists false k (c + 1) (declaration nested₁ kind inFor ds₁ s₁)
      (declaration nested₂ kind inFor ds₂ s₂) := by
  refine .bind_token ((hd.bindingTarget _ hs (by omega)).bindMoving (fun _ => .bind inferInstance fun hasValue => ?_)
    fun _ _ t₁ t₂ _ ht => ?_)
  · dsimp only
    split
    · infer_instance
    · split <;> infer_instance
  obtain ⟨count₁, initializer₁, pattern₁, missing₁⟩ := ds₁
  obtain ⟨count₂, initializer₂, pattern₂, missing₂⟩ := ds₂
  obtain ⟨rfl, rfl, rfl, hmissing⟩ := hds
  rw [hs.tokens.isIdentifier]
  refine ht.eat (fun u₁ u₂ hu => ?_) fun _ => ?_
  · refine (hd.assignment _ hu (by omega)).discard.bind fun _ _ v₁ v₂ _ hv => ?_
    exact .ok ⟨⟨rfl, rfl, rfl, hmissing⟩, hv.weaken.mono (by omega)⟩
  · cases hmissing with
    | some h => exact .ok ⟨⟨rfl, rfl, rfl, .some h⟩, ht⟩
    | none =>
      cases hmissing : missingInitializer? kind !s₁.token.isIdentifier with
      | none => exact .ok ⟨⟨rfl, rfl, rfl, .none⟩, ht⟩
      | some e =>
        refine .bind_token ?_
        have hfault := sim.fault_of_place (isFixed_of_missingInitializer? hmissing) ht.tokens.start
        exact .ite rfl (fun _ => .ok ⟨⟨rfl, rfl, rfl, .some hfault⟩, ht⟩) fun _ => ht.throw hfault

protected theorem declarations {kind : DeclarationKind} {inFor : Bool} (hs : sim.At b k c s₁ s₂)
    (hc : 1 ≤ c) :
    sim.Yields sim.DeclarationLists false k (c + 1) (declarations nested₁ kind inFor s₁)
      (declarations nested₂ kind inFor s₂) := by
  refine hs.weaken.loop sim.DeclarationLists ⟨rfl, rfl, rfl, .none⟩ fun c' ds₁ ds₂ t₁ t₂ hc' hds ht => ?_
  refine (hd.declaration ht hds (by omega)).bind fun ds₁ ds₂ u₁ u₂ hds hu => ?_
  exact hu.eat (fun v₁ v₂ hv => .ok ⟨hds, hv.mono (by omega)⟩) fun _ => .ok ⟨hds, hu.mono (by omega)⟩

protected theorem declarationStatement {kind : DeclarationKind} (hs : sim.At b k c s₁ s₂)
    (he : s₁.token.isEnd = false) :
    sim.Yields Eq false k (c + 1) (declarationStatement nested₁ kind s₁) (declarationStatement nested₂ kind s₂) := by
  refine (hs.pass he).bind fun _ _ t₁ t₂ _ ht => ?_
  refine (hd.declarations ht (by omega)).discard.bind fun _ _ u₁ u₂ _ hu => ?_
  exact hu.consumeSemicolon.lower (by omega)

end Derives

protected theorem At.isAtLetDeclaration {f₁ f₂ : Bool → Recognizer α} (hs : sim.At b k c s₁ s₂)
    (ht : s₁.token.isEnd = false → sim.Outcome post (f₁ true s₁) (f₂ true s₂))
    (hf : sim.Outcome post (f₁ false s₁) (f₂ false s₂)) [hmoves : ∀ a, Moves (f₁ a)] :
    sim.Outcome post ((isAtLetDeclaration >>= f₁) s₁) ((isAtLetDeclaration >>= f₂) s₂) := by
  have h : sim.Outcome (fun r₁ r₂ t₁ t₂ => r₁ = r₂ ∧ (r₁ = true → s₁.token.isEnd = false) ∧ t₁ = s₁ ∧ t₂ = s₂)
      (isAtLetDeclaration s₁) (isAtLetDeclaration s₂) := by
    refine .bind_isAtWord (.ite (hs.tokens.isWord _) (fun h => ?_) fun _ => .ok ⟨rfl, nofun, rfl, rfl⟩)
    refine hs.peekWord h fun u₁ u₂ hu => .bind_context (.ok ⟨?_, fun _ => Token.isEnd_of_isWord h, rfl, rfl⟩)
    rw [hu.isIdentifier, hu.isPunctuator, hu.isPunctuator, hs.context]
  refine h.bind (fun r₁ r₂ t₁ t₂ h => ?_)
  obtain ⟨rfl, h, rfl, rfl⟩ := h
  cases r₁ with
  | true => exact ht (h rfl)
  | false => exact hf

/-! ## Blocks, conditions and bodies -/

namespace Derives

variable (hd : sim.Derives k nested₁ nested₂)

include hd

protected theorem block (hs : sim.At b k c s₁ s₂) (hc : 1 ≤ c) :
    sim.Yields Eq false k (c + 1) (block nested₁ s₁) (block nested₂ s₂) := by
  refine hs.expectBlock.bind fun _ _ t₁ t₂ _ ht => ?_
  refine (hd.statementList false ht (by omega)).bind fun _ _ u₁ u₂ _ hu => ?_
  exact (hu.expectWith (by decide)).lower (by omega)

protected theorem condition (hs : sim.At b k c s₁ s₂) :
    sim.Yields Eq false k (c + 1) (condition nested₁ s₁) (condition nested₂ s₂) := by
  refine hs.expect.bind fun _ _ t₁ t₂ _ ht => ?_
  refine (hd.expression true ht (by omega)).discard.bind fun _ _ u₁ u₂ _ hu => ?_
  exact (hu.expectWith (by decide)).lower (by omega)

protected theorem branch (hs : sim.At b k c s₁ s₂) (hc : 2 ≤ c) :
    sim.Yields Eq false k (c + 1) (branch nested₁ s₁) (branch nested₂ s₂) := by
  refine hs.sameContext (.bind_isAtKeyword ?_)
  rw [hs.tokens.isKeyword]
  refine .ite rfl (fun h => ?_) fun _ => hd.statement hs (by omega)
  have hfunction := (Bool.and_eq_true _ _ ▸ h).1
  refine hs.peek (Token.isName_of_isKeyword hfunction) (.inr fun t ht => ?_) fun u₁ u₂ hu _ =>
    .ite (hu.isPunctuator _) (fun _ => hd.statement hs (by omega)) fun _ => ?_
  · rw [Token.isPunctuator_of_kind ht nofun]
    exact hd.opensFunction
  · exact hd.production .functionBodyStatement hs (Nat.le_trans (by decide) hc) fun _ =>
      Token.isEnd_of_isKeyword hfunction

protected theorem ifStatement (hs : sim.At b k c s₁ s₂) (he : s₁.token.isEnd = false) :
    sim.Yields Eq false k (c + 1) (ifStatement nested₁ s₁) (ifStatement nested₂ s₂) := by
  refine (hs.pass he).bind fun _ _ t₁ t₂ _ ht => (hd.condition ht).bind fun _ _ u₁ u₂ _ hu => ?_
  refine (hd.branch hu (by omega)).bind fun _ _ v₁ v₂ _ hv => .bind_isAtKeyword ?_
  refine .ite (hv.tokens.isKeyword _) (fun h => ?_) fun _ => .ok ⟨rfl, hv.mono (by omega)⟩
  refine (hv.pass (Token.isEnd_of_isKeyword h)).bind fun _ _ w₁ w₂ _ hw => ?_
  exact (hd.branch hw (by omega)).lower (by omega)

omit [∀ p, Moves (nested₁ p)] in
protected theorem loopBody (hs : sim.At b k c s₁ s₂) (hc : 2 ≤ c) :
    sim.Yields Eq false k (c + 1) (loopBody nested₁ s₁) (loopBody nested₂ s₂) := by
  refine hs.sameContext (.bind_modify ?_)
  have hinner := hs.withContext fun x => { x with inIteration := true, inBreakable := true }
  refine (hd.statement hinner (by omega)).bind fun _ _ t₁ t₂ _ h => ?_
  exact .ok ⟨rfl, h.withContext fun x =>
    { x with inIteration := s₁.context.inIteration, inBreakable := s₁.context.inBreakable }⟩

/-! ## Loops -/

protected theorem whileStatement (hs : sim.At b k c s₁ s₂) (he : s₁.token.isEnd = false) :
    sim.Yields Eq false k (c + 1) (whileStatement nested₁ s₁) (whileStatement nested₂ s₂) := by
  refine (hs.pass he).bind fun _ _ t₁ t₂ _ ht => (hd.condition ht).bind fun _ _ u₁ u₂ _ hu => ?_
  exact (hd.loopBody hu (by omega)).lower (by omega)

protected theorem doStatement (hs : sim.At b k c s₁ s₂) (he : s₁.token.isEnd = false) (hc : 1 ≤ c) :
    sim.Yields Eq false k (c + 1) (doStatement nested₁ s₁) (doStatement nested₂ s₂) := by
  refine (hs.pass he).bind fun _ _ t₁ t₂ _ ht => (hd.loopBody ht (by omega)).bind fun _ _ u₁ u₂ _ hu => ?_
  refine .bind_isAtKeyword (.ite (hu.tokens.isKeyword _) (fun h => ?_) fun _ => hu.unexpectedFirst)
  refine (hu.pass (Token.isEnd_of_isKeyword h)).bind fun _ _ v₁ v₂ _ hv => ?_
  refine (hd.condition hv).bind fun _ _ w₁ w₂ _ hw => .bind_isAt ?_
  refine .ite (hw.tokens.isPunctuator _) (fun h => ?_) fun _ => hw.omitSemicolon.lower (by omega)
  exact (hw.advanceWith (Token.isEnd_of_isPunctuator h) (by decide)).lower (by omega)

protected theorem forClauses (hs : sim.At b k c s₁ s₂) (hc : 1 ≤ c) :
    sim.Yields Eq false k (c + 1) (forClauses nested₁ s₁) (forClauses nested₂ s₂) := by
  refine .bind_isAt (.whenNot (sim.At false k c) (hs.tokens.isPunctuator _) (fun _ => hs.weaken) (fun _ => ?_)
    fun t₁ t₂ ht => ht.expect.bind fun _ _ u₁ u₂ _ hu => .bind_isAt ?_)
  · exact (hd.expression true hs (by omega)).discard.mono fun _ _ _ _ h => h.2.weaken.mono (by omega)
  refine .whenNot (sim.At false k (c + 1)) (hu.tokens.isPunctuator _) (fun _ => hu.weaken) (fun _ => ?_)
    fun v₁ v₂ hv => (hv.expectWith (by decide)).bind fun _ _ w₁ w₂ _ hw => ?_
  · exact (hd.expression true hu (by omega)).discard.mono fun _ _ _ _ h => h.2.weaken.mono (by omega)
  · exact (hd.loopBody hw (by omega)).lower (by omega)

protected theorem forEach {kind : ForLoop} {isAwait : Bool} (hs : sim.At b k c s₁ s₂) (he : s₁.token.isEnd = false) :
    sim.Yields Eq false k (c + 1) (forEach nested₁ kind isAwait s₁) (forEach nested₂ kind isAwait s₂) := by
  refine .ite rfl (fun _ => hs.unexpectedFirst) fun _ => (hs.pass he).bindMoving (fun _ => ?_) fun _ _ t₁ t₂ _ ht => ?_
  · cases kind <;> infer_instance
  have body : ∀ {u₁ u₂ : State}, sim.At true k (c + 1) u₁ u₂ →
      sim.Yields Eq false k (c + 1) ((do expectWith .closeParen .regExp; loopBody nested₁ : Recognizer Unit) u₁)
        ((do expectWith .closeParen .regExp; loopBody nested₂ : Recognizer Unit) u₂) := fun hu =>
    (hu.expectWith (by decide)).bind fun _ _ v₁ v₂ _ h => (hd.loopBody h (by omega)).lower (by omega)
  cases kind with
  | forOf => exact (hd.assignment true ht (by omega)).discard.bind fun _ _ u₁ u₂ _ h => body (h.mono (by omega))
  | forIn => exact (hd.expression true ht (by omega)).discard.bind fun _ _ u₁ u₂ _ h => body (h.mono (by omega))

end Derives

protected theorem At.forLoop? {f₁ f₂ : Option ForLoop → Recognizer α} (hs : sim.At b k c s₁ s₂)
    (hsome : ∀ l, s₁.token.isEnd = false → sim.Outcome post (f₁ (some l) s₁) (f₂ (some l) s₂))
    (hnone : sim.Outcome post (f₁ none s₁) (f₂ none s₂)) :
    sim.Outcome post ((forLoop? >>= f₁) s₁) ((forLoop? >>= f₂) s₂) := by
  change sim.Outcome post
    (f₁ (if s₁.token.isWord "of" then some .forOf else if s₁.token.isKeyword .«in» then some .forIn else none) s₁)
    (f₂ (if s₂.token.isWord "of" then some .forOf else if s₂.token.isKeyword .«in» then some .forIn else none) s₂)
  rw [hs.tokens.isWord, hs.tokens.isKeyword]
  cases hof : s₁.token.isWord "of" with
  | true => exact hsome .forOf (Token.isEnd_of_isWord hof)
  | false =>
    cases hin : s₁.token.isKeyword .«in» with
    | true => exact hsome .forIn (Token.isEnd_of_isKeyword hin)
    | false => exact hnone

namespace Derives

variable (hd : sim.Derives k nested₁ nested₂)

include hd

protected theorem forDeclaration {kind : DeclarationKind} {isAwait : Bool} (hs : sim.At b k c s₁ s₂)
    (he : s₁.token.isEnd = false) :
    sim.Yields Eq false k (c + 1) (forDeclaration nested₁ kind isAwait s₁)
      (forDeclaration nested₂ kind isAwait s₂) := by
  have hstart := hs.tokens.start
  refine .bind_token ((hs.pass he).bindMoving (fun _ => .bind inferInstance fun ds => .bind inferInstance fun l => ?_)
    fun _ _ t₁ t₂ _ ht => ?_)
  · dsimp only
    repeat' first | infer_instance | split
  refine (hd.declarations ht (by omega)).bindMoving (fun ds => .bind inferInstance fun l => ?_)
    fun ds₁ ds₂ u₁ u₂ hds hu => ?_
  · dsimp only
    repeat' first | infer_instance | split
  refine hu.forLoop? (fun l he => hu.sameContext ?_) ?_
  · rw [loopHeadError?_eq hds]
    refine hu.failIf rfl (fun he => sim.fault_of_place (isFixed_of_loopHeadError? he) hstart) ?_
    exact (hd.forEach hu he).lower (by omega)
  · obtain ⟨count₁, initializer₁, pattern₁, missing₁⟩ := ds₁
    obtain ⟨count₂, initializer₂, pattern₂, missing₂⟩ := ds₂
    obtain ⟨rfl, rfl, rfl, hmissing⟩ := hds
    cases hmissing with
    | some h => exact hu.throwFirst h
    | none =>
      refine .ite rfl (fun _ => hu.unexpectedFirst) fun _ => hu.expect.bind fun _ _ v₁ v₂ _ hv => ?_
      exact (hd.forClauses hv (by omega)).lower (by omega)

protected theorem forExpression {isAwait : Bool} (hs : sim.At b k c s₁ s₂) (hc : 1 ≤ c) :
    sim.Yields Eq false k (c + 1) (forExpression nested₁ isAwait s₁) (forExpression nested₂ isAwait s₂) := by
  have hfirst := hs.tokens
  refine .bind_token ((hd.expressionOrPattern false hs (by omega)).bindMoving (fun e => .bind inferInstance fun l => ?_)
    fun e₁ e₂ t₁ t₂ he ht => ?_)
  · dsimp only
    split <;> infer_instance
  refine ht.forLoop? (fun l hend => ?_) ?_
  · rw [hfirst.isWord, hfirst.isWord, he.shape]
    refine .ite rfl (fun _ => ht.failFirst hfirst.start rfl) fun _ => ?_
    refine .ite rfl (fun _ => ht.failFirst hfirst.start rfl) fun _ => ?_
    refine .ite rfl (fun _ => ?_) fun _ => ht.failFirst he.start rfl
    exact (hd.forEach ht hend).lower (by omega)
  · refine ht.rejectShorthand he (.ite rfl (fun _ => ht.unexpectedFirst) fun _ => ?_)
    refine ht.expect.bind fun _ _ u₁ u₂ _ hu => ?_
    exact (hd.forClauses hu (by omega)).lower (by omega)

omit hd in
theorem forAwait (hs : sim.At b k c s₁ s₂) : sim.Yields Eq false k c (forAwait s₁) (forAwait s₂) := by
  refine .bind_isAtWord (.ite (hs.tokens.isWord _) (fun h => hs.sameContext ?_) fun _ => .ok ⟨rfl, hs.weaken⟩)
  refine .ite rfl (fun _ => ?_) fun _ => hs.unexpectedFirst
  exact (hs.pass (Token.isEnd_of_isWord h)).bind fun _ _ t₁ t₂ _ h => .ok ⟨rfl, h.mono (by omega)⟩

protected theorem forStatement (hs : sim.At b k c s₁ s₂) (he : s₁.token.isEnd = false) :
    sim.Yields Eq false k (c + 1) (forStatement nested₁ s₁) (forStatement nested₂ s₂) := by
  refine (hs.pass he).bind fun _ _ t₁ t₂ _ ht => (forAwait ht).bind fun w₁ w₂ u₁ u₂ hw hu => ?_
  subst hw
  refine hu.expect.bind fun _ _ v₁ v₂ _ hv => ?_
  refine .bind_isAt (.ite (hv.tokens.isPunctuator _) (fun h => ?_) fun _ => ?_)
  · refine .ite rfl (fun _ => hv.unexpectedFirst) fun _ => ?_
    refine (hv.pass (Token.isEnd_of_isPunctuator h)).bind fun _ _ w₁ w₂ _ hw => ?_
    exact (hd.forClauses hw (by omega)).lower (by omega)
  refine .bind_isAtKeyword (.ite (hv.tokens.isKeyword _) (fun h => ?_) fun _ => ?_)
  · exact (hd.forDeclaration hv (Token.isEnd_of_isKeyword h)).lower (by omega)
  refine .bind_isAtKeyword (.ite (hv.tokens.isKeyword _) (fun h => ?_) fun _ => ?_)
  · exact (hd.forDeclaration hv (Token.isEnd_of_isKeyword h)).lower (by omega)
  exact hv.isAtLetDeclaration (fun he => (hd.forDeclaration hv he).lower (by omega))
    ((hd.forExpression hv (by omega)).lower (by omega))

end Derives

/-! ## Jumps -/

namespace At

/-- Where a line break is seen only by the second, no label follows in the first either. -/
protected theorem jumpLabel? {f₁ f₂ : Option Identifier → Recognizer α} (hs : sim.At b k c s₁ s₂)
    (hsome : ∀ i₁ i₂, sim.Identifiers i₁ i₂ → s₁.token.isEnd = false →
      sim.Outcome post (f₁ (some i₁) s₁) (f₂ (some i₂) s₂))
    (hnone : sim.Outcome post (f₁ none s₁) (f₂ none s₂)) :
    sim.Outcome post ((jumpLabel? >>= f₁) s₁) ((jumpLabel? >>= f₂) s₂) := by
  change sim.Outcome post (f₁ (if s₁.token.newlineBefore then none else identifier? s₁.token) s₁)
    (f₂ (if s₂.token.newlineBefore then none else identifier? s₂.token) s₂)
  obtain ⟨h₁, h₂⟩ | ⟨i₁, i₂, hi, h₁, h₂, ht⟩ := hs.identifier?_cases
  · rw [h₁, h₂, ite_self, ite_self]
    exact hnone
  · have he := Token.isEnd_of_endsOperand ht
    rw [h₁, h₂, hs.tokens.newlineBefore_of_isEnd he]
    cases s₁.token.newlineBefore with
    | true => exact hnone
    | false => exact hsome i₁ i₂ hi he

protected theorem continueStatement (hs : sim.At b k c s₁ s₂) (he : s₁.token.isEnd = false) :
    sim.Yields Eq false k (c + 1) (continueStatement s₁) (continueStatement s₂) := by
  have hstart := hs.tokens.start
  refine .bind_token ((hs.pass he).bindMoving (fun _ => .bind inferInstance fun label? => ?_) fun _ _ t₁ t₂ _ ht => ?_)
  · dsimp only
    split <;> infer_instance
  refine ht.jumpLabel? (fun i₁ i₂ hi he => .bind_get ?_) (ht.sameContext ?_)
  · rw [ht.labels, hi.name]
    refine ht.failIf rfl (fun he => hi.fault fun ht => quotes_of_continueError? ht he)
      ((ht.pass he).bind fun _ _ u₁ u₂ _ hu => ?_)
    exact hu.consumeSemicolon.lower (by omega)
  · exact .ite rfl (fun _ => ht.consumeSemicolon) fun _ => ht.failFirst hstart rfl

protected theorem breakStatement (hs : sim.At b k c s₁ s₂) (he : s₁.token.isEnd = false) :
    sim.Yields Eq false k (c + 1) (breakStatement s₁) (breakStatement s₂) := by
  have hstart := hs.tokens.start
  refine .bind_token ((hs.pass he).bindMoving (fun _ => .bind inferInstance fun label? => ?_) fun _ _ t₁ t₂ _ ht => ?_)
  · dsimp only
    split <;> infer_instance
  refine ht.jumpLabel? (fun i₁ i₂ hi he => .bind_get ?_) (ht.sameContext ?_)
  · rw [ht.labels, hi.name]
    refine .ite rfl (fun _ => (ht.pass he).bind fun _ _ u₁ u₂ _ hu => ?_) fun _ =>
      ht.throwFirst (hi.fault .undefinedLabel)
    exact hu.consumeSemicolon.lower (by omega)
  · exact .ite rfl (fun _ => ht.consumeSemicolon) fun _ => ht.failFirst hstart rfl

end At

namespace Derives

variable (hd : sim.Derives k nested₁ nested₂)

include hd

protected theorem returnStatement (hs : sim.At b k c s₁ s₂) (he : s₁.token.isEnd = false) :
    sim.Yields Eq false k (c + 1) (returnStatement nested₁ s₁) (returnStatement nested₂ s₂) := by
  refine hs.sameContext ?_
  refine .ite rfl (fun _ => (hs.pass he).bind fun _ _ t₁ t₂ _ ht => .bind_token ?_)
    fun _ => .bind_token (hs.failFirst hs.tokens.start rfl)
  refine .whenNot (sim.At false k (c + 1)) ?_ (fun _ => ht) (fun _ => ?_) fun u₁ u₂ hu => hu.consumeSemicolon
  · rw [ht.tokens.isPunctuator, ht.tokens.isPunctuator, ht.tokens.isEnd]
    rcases ht.tokens.newlineBefore with h | h
    · rw [h]
    · rw [h.2.1, Bool.or_true, Bool.or_true]
  · exact (hd.expression true ht (by omega)).discard.mono fun _ _ _ _ h => h.2.weaken.mono (by omega)

protected theorem throwStatement (hs : sim.At b k c s₁ s₂) (he : s₁.token.isEnd = false) :
    sim.Yields Eq false k (c + 1) (throwStatement nested₁ s₁) (throwStatement nested₂ s₂) := by
  refine (hs.pass he).bind fun _ _ t₁ t₂ _ ht => .bind_token ?_
  by_cases hline : t₂.token.newlineBefore = t₁.token.newlineBefore
  · refine .ite hline (fun _ => ht.failFirst ht.tokens.start rfl) fun _ => ?_
    refine (hd.expression true ht (by omega)).discard.bind fun _ _ u₁ u₂ _ hu => ?_
    exact hu.consumeSemicolon.lower (by omega)
  · obtain ⟨hbreaks, hend, hfirst⟩ := ht.tokens.newlineBefore.resolve_left hline
    have hsecond : t₂.token.newlineBefore = true := by
      rw [hfirst] at hline
      exact eq_true_of_ne_false hline
    obtain ⟨f, u, hf, hp, h⟩ := hd.expression_at_end true ht hend (by omega)
    rw [if_pos hsecond, if_neg (by rw [hfirst]; exact Bool.false_ne_true)]
    refine Outcome.errors (bind_eq_error.mpr (.inl (bind_eq_error.mpr (.inl hf)))) rfl fun hfinish => ?_
    obtain ⟨g, hfault, hhistory⟩ := h hfinish
    exact ⟨sim.fault_of_throw hbreaks ht.tokens.start hp hfault, hhistory⟩

/-! ## Other statements -/

protected theorem withStatement (hs : sim.At b k c s₁ s₂) (he : s₁.token.isEnd = false) :
    sim.Yields Eq false k (c + 1) (withStatement nested₁ s₁) (withStatement nested₂ s₂) := by
  refine hs.sameContext ?_
  refine .ite rfl (fun _ => .bind_token (hs.failFirst hs.tokens.start rfl)) fun _ => ?_
  refine (hs.pass he).bind fun _ _ t₁ t₂ _ ht => (hd.condition ht).bind fun _ _ u₁ u₂ _ hu => ?_
  exact (hd.statement hu (by omega)).lower (by omega)

/-- The statements of a clause, after its head. -/
theorem clauseStatements {hasDefault : Bool} (hs : sim.At b k c s₁ s₂) (hc : 2 ≤ c) :
    sim.Yields Eq false k (c + 1)
      ((do
        expect .colon
        loop () fun _ => do
          let t ← token
          if t.isPunctuator .closeBrace || t.isKeyword .case || t.isKeyword .default || t.isEnd then return .done ()
          nested₁ (.statementListItem false)
          return .again ()
        return hasDefault : Recognizer Bool) s₁)
      ((do
        expect .colon
        loop () fun _ => do
          let t ← token
          if t.isPunctuator .closeBrace || t.isKeyword .case || t.isKeyword .default || t.isEnd then return .done ()
          nested₂ (.statementListItem false)
          return .again ()
        return hasDefault : Recognizer Bool) s₂) := by
  refine hs.expect.bind fun _ _ t₁ t₂ _ ht => ?_
  refine Outcome.seq (fun _ _ => sim.At false k (c + 1)) (ht.weaken.loop Eq rfl fun c' _ _ u₁ u₂ hc' _ hu => ?_)
    fun _ _ u₁ u₂ hu => .ok ⟨rfl, hu⟩
  refine .bind_token (.ite ?_ (fun _ => .ok (hu.mono hc')) fun _ => ?_)
  · rw [hu.tokens.isPunctuator, hu.tokens.isKeyword, hu.tokens.isKeyword, hu.tokens.isEnd]
  · have hitem := hd.production (.statementListItem false) hu (Nat.le_trans (Nat.succ_le_succ hc) hc') nofun
    exact hitem.bind fun _ _ v₁ v₂ _ h => .ok ⟨rfl, h⟩

protected theorem caseClause {hasDefault : Bool} (hs : sim.At b k c s₁ s₂) (hc : 1 ≤ c) :
    sim.Yields Eq false k (c + 1) (caseClause nested₁ hasDefault s₁) (caseClause nested₂ hasDefault s₂) := by
  refine .bind_token ?_
  have hfirst := hs.tokens
  simp only [hfirst.isKeyword]
  refine .ite rfl (fun h => ?_) fun _ => ?_
  · refine (hs.pass (Token.isEnd_of_isKeyword h)).bind fun _ _ t₁ t₂ _ ht => ?_
    refine (hd.expression true ht (by omega)).discard.bind fun _ _ u₁ u₂ _ hu => ?_
    exact (hd.clauseStatements hu (by omega)).lower (by omega)
  refine .ite rfl (fun h => ?_) fun _ => hs.unexpectedFirst
  · refine .ite rfl (fun _ => hs.failFirst hfirst.start rfl) fun _ => ?_
    refine (hs.pass (Token.isEnd_of_isKeyword h)).bind fun _ _ t₁ t₂ _ ht => ?_
    exact (hd.clauseStatements ht (by omega)).lower (by omega)

protected theorem caseClauses (hs : sim.At b k c s₁ s₂) (hc : 1 ≤ c) :
    sim.Yields Eq false k c (caseClauses nested₁ s₁) (caseClauses nested₂ s₂) := by
  refine hs.weaken.loop Eq rfl fun c' d₁ d₂ t₁ t₂ hc' hd' ht => ?_
  subst hd'
  refine .bind_isAt (.ite (ht.tokens.isPunctuator _) (fun _ => .ok ⟨rfl, ht.mono hc'⟩) fun _ => ?_)
  exact (hd.caseClause ht (Nat.le_trans hc hc')).bind fun _ _ _ _ hdefault h => .ok ⟨hdefault, h⟩

protected theorem switchStatement (hs : sim.At b k c s₁ s₂) (he : s₁.token.isEnd = false) :
    sim.Yields Eq false k (c + 1) (switchStatement nested₁ s₁) (switchStatement nested₂ s₂) := by
  refine (hs.pass he).bind fun _ _ t₁ t₂ _ ht => ht.expect.bind fun _ _ u₁ u₂ _ hu => ?_
  refine (hd.expression true hu (by omega)).discard.bind fun _ _ v₁ v₂ _ hv => ?_
  refine hv.expect.bind fun _ _ w₁ w₂ _ hw => ?_
  refine hw.expect.bind fun _ _ x₁ x₂ _ hx => hx.sameContext (.bind_modify ?_)
  have hinner := hx.withContext fun x => { x with inBreakable := true }
  refine (hd.caseClauses hinner (by omega)).bind fun _ _ y₁ y₂ _ h => .bind_modify ?_
  have houter := h.withContext fun x => { x with inBreakable := x₁.context.inBreakable }
  exact (houter.expectWith (by decide)).lower (by omega)

protected theorem catchClause (hs : sim.At b k c s₁ s₂) :
    sim.Yields Eq false k c (catchClause nested₁ s₁) (catchClause nested₂ s₂) := by
  refine .bind_isAtKeyword (.ite (hs.tokens.isKeyword _) (fun h => ?_) fun _ => .ok ⟨rfl, hs.weaken⟩)
  refine (hs.pass (Token.isEnd_of_isKeyword h)).bind fun _ _ t₁ t₂ _ ht => ht.eat (fun u₁ u₂ hu => ?_) fun _ => ?_
  · refine (hd.bindingTarget false hu (by omega)).bind fun _ _ v₁ v₂ _ hv => ?_
    refine hv.expect.bind fun _ _ w₁ w₂ _ hw => ?_
    exact (hd.block hw (by omega)).bind fun _ _ x₁ x₂ _ h => .ok ⟨rfl, h.mono (by omega)⟩
  · exact (hd.block ht (by omega)).bind fun _ _ u₁ u₂ _ h => .ok ⟨rfl, h.mono (by omega)⟩

protected theorem finallyClause (hs : sim.At b k c s₁ s₂) :
    sim.Yields Eq false k c (finallyClause nested₁ s₁) (finallyClause nested₂ s₂) := by
  refine .bind_isAtKeyword (.ite (hs.tokens.isKeyword _) (fun h => ?_) fun _ => .ok ⟨rfl, hs.weaken⟩)
  refine (hs.pass (Token.isEnd_of_isKeyword h)).bind fun _ _ t₁ t₂ _ ht => ?_
  exact (hd.block ht (by omega)).bind fun _ _ u₁ u₂ _ h => .ok ⟨rfl, h.mono (by omega)⟩

protected theorem tryStatement (hs : sim.At b k c s₁ s₂) (he : s₁.token.isEnd = false) :
    sim.Yields Eq false k (c + 1) (tryStatement nested₁ s₁) (tryStatement nested₂ s₂) := by
  refine (hs.pass he).bind fun _ _ t₁ t₂ _ ht => (hd.block ht (by omega)).bind fun _ _ u₁ u₂ _ hu => ?_
  refine (hd.catchClause hu).bind fun r₁ r₂ v₁ v₂ hr hv => ?_
  refine (hd.finallyClause hv).bind fun q₁ q₂ w₁ w₂ hq hw => ?_
  subst hr hq
  exact .ite rfl (fun _ => .ok ⟨rfl, hw.mono (by omega)⟩) fun _ => .bind_token (hw.fail hw.tokens.start rfl)

/-! ## Labels -/

protected theorem labelledStatement {attached : Nat} {i₁ i₂ : Identifier} (hs : sim.At b k c s₁ s₂)
    (hi : sim.Identifiers i₁ i₂) (he : s₁.token.isEnd = false) (hn : attached ≤ s₁.labels.length) :
    sim.Yields Eq false k (c + 1) (labelledStatement nested₁ attached i₁ s₁)
      (labelledStatement nested₂ attached i₂ s₂) := by
  refine hs.checkReference hi (.bind_get ?_)
  rw [hs.labels, hi.name]
  refine .ite rfl (fun _ => hs.throwFirst (hi.fault .repeatedLabel)) fun _ => .bind_modify ?_
  have hlabelled : sim.At b k c { s₁ with labels := ⟨i₁.name, false⟩ :: s₁.labels }
      { s₂ with labels := ⟨i₁.name, false⟩ :: s₁.labels } :=
    { hs with labels := rfl, attached := Nat.le_succ_of_le hs.attached }
  refine ((hlabelled.pass he).and_left fun _ _ => labels_of_advanceWith).bind fun _ _ t₁ t₂ h => ?_
  obtain ⟨⟨_, ht⟩, htlabels⟩ := h
  refine ((ht.expectWith (by decide)).and_left fun _ _ => labels_of_expectWith).bind fun _ _ u₁ u₂ h => ?_
  obtain ⟨⟨_, hu⟩, hulabels⟩ := h
  refine .bind_isAtKeyword (hu.sameContext ?_)
  rw [hu.tokens.isKeyword]
  have leave : ∀ {v₁ v₂ : State}, sim.At false k (c + 2) v₁ v₂ →
      sim.At false k (c + 1) { v₁ with attachedLabels := 0, labels := v₁.labels.tail }
        { v₂ with attachedLabels := 0, labels := v₂.labels.tail } := fun hv =>
    { hv.mono (Nat.add_le_add_left (by decide) c) with
      labels := by rw [hv.labels]
      attachedLabels := rfl
      attached := Nat.zero_le _ }
  refine .ite rfl (fun h => ?_) fun _ => .bind_modify ?_
  · have he := Token.isEnd_of_isKeyword (Bool.and_eq_true _ _ ▸ h).1
    refine (hd.production .functionBodyStatement hu (Nat.le_add_left 1 (c + 1)) fun _ => he).bind
      fun _ _ v₁ v₂ _ h => ?_
    exact .ok ⟨rfl, leave (h.mono (by omega))⟩
  · have hattached : sim.At false k (c + 2) { u₁ with attachedLabels := attached + 1 }
        { u₂ with attachedLabels := attached + 1 } :=
      { hu.weaken with
        attachedLabels := rfl
        attached := by rw [hulabels, htlabels]; exact Nat.succ_le_succ hn }
    exact (hd.statement hattached (by omega)).bind fun _ _ v₁ v₂ _ h => .ok ⟨rfl, leave (h.mono (by omega))⟩

protected theorem identifierStatement {attached : Nat} {i₁ i₂ : Identifier} (hs : sim.At b k c s₁ s₂)
    (hi : sim.Identifiers i₁ i₂) (ht : s₁.token.isIdentifier = true) (hn : attached ≤ s₁.labels.length) (hc : 1 ≤ c) :
    sim.Yields Eq false k (c + 1) (identifierStatement nested₁ attached i₁ s₁)
      (identifierStatement nested₂ attached i₂ s₂) := by
  have hstart := hs.tokens.start
  refine .bind_token (hs.peekIdentifier ht fun u₁ u₂ hu => ?_)
  refine .ite (hu.isPunctuator _) (fun _ => ?_) fun _ => ?_
  · exact hd.labelledStatement hs hi (Token.isEnd_of_isIdentifier ht) hn
  have hlet : (s₂.token.isWord "let" && u₂.isPunctuator .openBracket) =
      (s₁.token.isWord "let" && u₁.isPunctuator .openBracket) := by
    rw [hs.tokens.isWord, hu.isPunctuator]
  have hasync : (s₂.token.isWord "async" && u₂.isKeyword .function && !u₂.newlineBefore) =
      (s₁.token.isWord "async" && u₁.isKeyword .function && !u₁.newlineBefore) := by
    rw [hs.tokens.isWord, Bool.and_assoc, Bool.and_assoc, hu.onSameLine_eq (hu.isKeyword _) Token.isEnd_of_isKeyword]
  refine .ite hlet (fun _ => ?_) fun _ => ?_
  · exact hs.failFirst hstart rfl
  refine .ite hasync (fun _ => ?_) fun _ => ?_
  · exact hs.failFirst hstart rfl
  · exact (hd.expression true hs (by omega)).discard.bind fun _ _ _ _ _ h => h.consumeSemicolon

protected theorem expandStatement (hs : sim.At b k c s₁ s₂) (hc : 1 ≤ c) :
    sim.Yields Eq false k (c + 1) (expandStatement nested₁ s₁) (expandStatement nested₂ s₂) := by
  refine .bind_get (.bind_modify (.bind_token ?_))
  rw [hs.attachedLabels]
  have hfresh : sim.At b k c { s₁ with attachedLabels := 0 } { s₂ with attachedLabels := 0 } :=
    { hs with attachedLabels := rfl, attached := Nat.zero_le _ }
  have hmarked : sim.At b k c
      { s₁ with attachedLabels := 0, labels := markIteration s₁.attachedLabels s₁.labels }
      { s₂ with attachedLabels := 0, labels := markIteration s₁.attachedLabels s₂.labels } :=
    { hs with attachedLabels := rfl, attached := Nat.zero_le _, labels := by rw [hs.labels] }
  have expressionStatement :=
    (hd.expression true hfresh (by omega)).discard.bind fun _ _ t₁ t₂ _ h => h.consumeSemicolon
  have hstart := hs.tokens.start
  rw [hs.tokens.kind]
  cases hk : s₁.token.kind with
  | identifier =>
    have hi : s₁.token.isIdentifier = true := by simp only [Token.isIdentifier, hk]
    exact hd.identifierStatement hfresh (.of_kind hs.tokens hk) hi hs.attached hc
  | keyword w =>
    have he : s₁.token.isEnd = false := Token.isEnd_of_kind hk (by rintro ⟨⟩)
    cases w with
    | var => exact hd.declarationStatement hfresh he
    | «if» => exact hd.ifStatement hfresh he
    | «for» => exact hfresh.bind_markLabels hs.attached (hd.forStatement hmarked he)
    | «while» => exact hfresh.bind_markLabels hs.attached (hd.whileStatement hmarked he)
    | «do» => exact hfresh.bind_markLabels hs.attached (hd.doStatement hmarked he hc)
    | «continue» => exact hfresh.continueStatement he
    | «break» => exact hfresh.breakStatement he
    | «return» => exact hd.returnStatement hfresh he
    | «with» => exact hd.withStatement hfresh he
    | switch => exact hd.switchStatement hfresh he
    | throw => exact hd.throwStatement hfresh he
    | «try» => exact hd.tryStatement hfresh he
    | debugger => exact (hfresh.pass he).bind fun _ _ t₁ t₂ _ h => h.consumeSemicolon
    | function => exact hfresh.sameContext (hfresh.fail hstart rfl)
    | «class» | const => exact hfresh.fail hstart rfl
    | _ => exact expressionStatement
  | punctuator p =>
    have he : s₁.token.isEnd = false := Token.isEnd_of_kind hk (by rintro ⟨⟩)
    cases p with
    | openBrace => exact hd.block hfresh hc
    | semicolon => exact hfresh.advanceWith he (by decide)
    | _ => exact expressionStatement
  | _ => exact expressionStatement

end Derives

end EcmaCheck.Grammar.Simulation
