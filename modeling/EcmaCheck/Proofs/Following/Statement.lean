import EcmaCheck.Proofs.Following.Operator

/-!
# Statements that follow others

Declarations, control statements, jumps and labels. Where strict code takes `let` for a declaration or a function for no
statement, it depends on how what is nested begins (`Openings`) that sloppy code does not take another way.
-/

namespace EcmaCheck.Grammar

set_option synthInstance.maxSize 20000

/-! ## Declarations -/

/-- Lists of as many declarations, which lack initializers alike. -/
structure SameDeclarations (ds₁ ds₂ : Declarations) : Prop where
  count : ds₂.count = ds₁.count
  hasInitializer : ds₂.hasInitializer = ds₁.hasInitializer
  firstIsPattern : ds₂.firstIsPattern = ds₁.firstIsPattern
  missing? : ds₂.missing?.isSome = ds₁.missing?.isSome

/-- What is right as the head of a loop is right in laxer code. -/
theorem SameDeclarations.loopHeadError? {ds₁ ds₂ : Declarations} (hds : SameDeclarations ds₁ ds₂)
    {strict₁ strict₂ : Bool} (hstrict : strict₂ = true → strict₁ = true) {kind : DeclarationKind} {l : ForLoop}
    (h : loopHeadError? kind strict₁ ds₁ l = none) : loopHeadError? kind strict₂ ds₂ l = none := by
  simp only [Grammar.loopHeadError?, hds.count, hds.hasInitializer, hds.firstIsPattern] at h ⊢
  cases strict₂ with
  | true =>
    rw [hstrict rfl] at h
    exact h
  | false =>
    cases strict₁ with
    | false => exact h
    | true =>
      split at h
      · cases h
      · rename_i hcount
        rw [if_neg hcount]
        split at h
        · cases h
        · rename_i hinitializer
          rw [if_neg]
          intro hsloppy
          refine hinitializer ?_
          simp only [Bool.not_true, Bool.and_false, Bool.false_and, Bool.not_false, Bool.and_true] at hsloppy ⊢
          exact (Bool.and_eq_true _ _ ▸ hsloppy).1

/-- Declarations begin with a target. -/
theorem beginsTarget_of_declarations {nested : Derivation} (hb : Openings nested) [∀ p, Moves (nested p)]
    {kind : DeclarationKind} {inFor : Bool} {s t : State} {ds : Declarations}
    (h : declarations nested kind inFor s = .ok ds t) : beginsTarget s.token = true := by
  obtain ⟨_, _, hturn, _⟩ := exists_turn_of_loop h fun _ => inferInstance
  obtain ⟨_, _, hdeclaration, _⟩ := bind_eq_ok.mp hturn
  obtain ⟨_, _, htoken, hdeclaration⟩ := bind_eq_ok.mp hdeclaration
  cases htoken
  obtain ⟨_, _, htarget, _⟩ := bind_eq_ok.mp hdeclaration
  exact hb.bindingTarget htarget

/-- The token that is looked at is the one that is taken next. -/
theorem token_of_advance {s t : State} {u : Unit} {next : Token} (h : advance s = .ok u t)
    (hnext : (s.scanner.next s.token.goalAfter).1 = .ok next) : t.token = next := by
  obtain ⟨_, _, htoken, h⟩ := bind_eq_ok.mp h
  cases htoken
  unfold advanceWith State.receive at h
  rcases hreceived : s.scanner.next s.token.goalAfter with ⟨f | t, scanner⟩
  · rw [hreceived] at h
    cases h
  · rw [hreceived] at h hnext
    cases h
    cases hnext
    rfl

/-- Whether a declaration with `let` comes next is decided by the token behind the word. -/
theorem isAtLetDeclaration_bind {α : Type} (f : Bool → Recognizer α) (s : State) :
    (isAtLetDeclaration >>= f) s =
      (if s.token.isWord "let" = true then peek >>= fun next => f (beginsTarget next || s.context.strict) else f false)
        s := by
  change ((if s.token.isWord "let" = true then _ else _ : Recognizer Bool) >>= f) s = _
  by_cases h : s.token.isWord "let" = true
  · rw [if_pos h, if_pos h, bind_assoc]
    rcases hnext : (s.scanner.next s.token.goalAfter).1 with f | t
    · rw [peek_bind_of_error hnext, peek_bind_of_error hnext]
    · rw [peek_bind_of_ok hnext, peek_bind_of_ok hnext]
      rfl
  · rw [if_neg h, if_neg h]
    rfl

/-- Whether an asynchronous function comes next is decided by the token behind the word. -/
theorem isAtAsyncFunction_bind {α : Type} (f : Bool → Recognizer α) (s : State) :
    (isAtAsyncFunction >>= f) s =
      (if s.token.isWord "async" = true then peek >>= fun next => f (next.isKeyword .function && !next.newlineBefore)
        else f false) s := by
  change ((if s.token.isWord "async" = true then _ else _ : Recognizer Bool) >>= f) s = _
  by_cases h : s.token.isWord "async" = true
  · rw [if_pos h, if_pos h, bind_assoc]
    rfl
  · rw [if_neg h, if_neg h]
    rfl

namespace Following

variable {F : Following} {α : Type} {b : Bool} {s₁ s₂ : State} {nested₁ nested₂ : Derivation}
  {post : α → α → State → State → Prop} {given : α → Input → Prop}
  [∀ p, Moves (nested₁ p)] [∀ p, Takes (nested₁ p)]

namespace Derives

variable (hd : F.Derives nested₁ nested₂)

include hd

protected theorem declaration {kind : DeclarationKind} {inFor : Bool} {ds₁ ds₂ : Declarations} (hs : F.At b s₁ s₂)
    (hds : SameDeclarations ds₁ ds₂) :
    F.Outcome (F.ending !inFor) (fun ds₁ ds₂ t₁ t₂ => SameDeclarations ds₁ ds₂ ∧ F.After true t₁ t₂)
      (declaration nested₁ kind inFor ds₁ s₁) (declaration nested₂ kind inFor ds₂ s₂) := by
  refine .bind_token ((hd.bindingTarget _ hs).bindMoving (fun _ => .bind inferInstance fun hasValue => ?_)
    fun _ _ t₁ t₂ _ ht => ?_)
  · dsimp only
    split
    · infer_instance
    · split <;> infer_instance
  rw [hs.heads.isIdentifier]
  have hcount : (if ds₂.count = 0 then !s₁.token.isIdentifier else ds₂.firstIsPattern) =
      (if ds₁.count = 0 then !s₁.token.isIdentifier else ds₁.firstIsPattern) := by
    rw [hds.count, hds.firstIsPattern]
  refine ht.eatTaking (fun u₁ u₂ hu => ?_) ?_
  · refine (hd.assignmentOf _ hu).discardEnding.bindEnding fun _ _ v₁ v₂ hv => .ok ⟨⟨?_, rfl, hcount, hds.missing?⟩, hv⟩
    exact congrArg (· + 1) hds.count
  · have hmissing := hds.missing?
    obtain ⟨count₁, initializer₁, pattern₁, missing₁⟩ := ds₁
    obtain ⟨count₂, initializer₂, pattern₂, missing₂⟩ := ds₂
    obtain ⟨rfl, rfl, rfl, -⟩ := hds
    cases missing₁ <;> cases missing₂ <;> cases hmissing
    · cases missingInitializer? kind !s₁.token.isIdentifier with
      | none => exact .ok ⟨⟨rfl, rfl, rfl, rfl⟩, ht⟩
      | some e => exact .bind_token (.ite rfl (fun _ => .ok ⟨⟨rfl, rfl, rfl, rfl⟩, ht⟩) fun _ => .of_fails)
    · exact .ok ⟨⟨rfl, rfl, rfl, rfl⟩, ht⟩

protected theorem declarations {kind : DeclarationKind} {inFor : Bool} (hs : F.At b s₁ s₂) :
    F.Outcome (F.ending !inFor) (fun ds₁ ds₂ t₁ t₂ => SameDeclarations ds₁ ds₂ ∧ F.After true t₁ t₂)
      (declarations nested₁ kind inFor s₁) (declarations nested₂ kind inFor s₂) := by
  refine hs.after.weaken.loopEnding SameDeclarations ⟨rfl, rfl, rfl, rfl⟩ fun ds₁ ds₂ t₁ t₂ hds ht =>
    ht.live fun ht => ?_
  refine (hd.declaration ht hds).bindEnding fun ds₁ ds₂ u₁ u₂ h => ?_
  exact h.2.eat (fun v₁ v₂ hv => .ok ⟨h.1, hv.weaken⟩) (.ok h)

protected theorem declarationStatement {kind : DeclarationKind} (hs : F.At b s₁ s₂)
    (hk : s₂.token.kind = s₁.token.kind) :
    F.Yields Eq false (declarationStatement nested₁ kind s₁) (declarationStatement nested₂ kind s₂) := by
  refine (hs.pass hk).bindTaking fun _ _ t₁ t₂ _ ht => ?_
  have hlist : F.Outcome (F.ending true) (fun ds₁ ds₂ u₁ u₂ => SameDeclarations ds₁ ds₂ ∧ F.After true u₁ u₂)
      (declarations nested₁ kind false t₁) (declarations nested₂ kind false t₂) := hd.declarations ht
  exact Outcome.bind (hlist.discardEnding.given_mono fun _ _ _ _ => nofun) fun _ _ u₁ u₂ hu => hu.consumeSemicolon

end Derives

/-! ## Words that may begin declarations -/

omit [∀ p, Moves (nested₁ p)] [∀ p, Takes (nested₁ p)]

/-- Where strict code takes `let` for a declaration whatever follows, the first finds a target there. -/
protected theorem At.isAtLetDeclaration {f₁ f₂ : Bool → Recognizer α} (hs : F.At b s₁ s₂)
    (ht : s₁.token.isWord "let" = true → F.Outcome given post (f₁ true s₁) (f₂ true s₂))
    (hf : F.Outcome given post (f₁ false s₁) (f₂ false s₂))
    (hnext : ∀ a t next, f₁ true s₁ = .ok a t → (s₁.scanner.next s₁.token.goalAfter).1 = .ok next →
      beginsTarget next = true)
    [hmoves : ∀ a, Moves (f₁ a)] [TakesTwo (f₁ true)] :
    F.Outcome given post ((isAtLetDeclaration >>= f₁) s₁) ((isAtLetDeclaration >>= f₂) s₂) := by
  rw [isAtLetDeclaration_bind, isAtLetDeclaration_bind]
  refine .ite (hs.heads.isWord _) (fun hword => ?_) fun _ => hf
  have hstrict := hs.context.strict
  have hmoving (a : Token) : Moves (f₁ (beginsTarget a || s₁.context.strict)) := hmoves _
  refine hs.peekNext (Token.isName_of_isWord hword) (.inl (Token.goalAfter_of_isWord hword))
    (fun t₁ t₂ hread htokens => ?_)
    fun t₁ t₂ hcloses hstuck => ?_
  · have hsame : beginsTarget t₂ = beginsTarget t₁ := by
      simp only [beginsTarget, htokens.isIdentifier, htokens.isPunctuator]
    rw [hsame]
    cases hbegins : beginsTarget t₁ with
    | true => exact ht hword
    | false =>
      cases h₁ : s₁.context.strict with
      | true =>
        intro a u hrun
        cases hbegins.symm.trans (hnext a u t₁ hrun hread)
      | false =>
        rw [Bool.eq_false_iff.mpr fun h₂ => Bool.false_ne_true (h₁.symm.trans (hstrict h₂))]
        exact hf
  · have hbegins : beginsTarget t₂ = false := by
      simp only [beginsTarget, hcloses.isIdentifier, hcloses.isPunctuator .openBracket,
        hcloses.isPunctuator .openBrace, Bool.or_self]
    rw [hbegins, Bool.false_or]
    cases h₁ : beginsTarget t₁ || s₁.context.strict with
    | true => exact .of_stuckNext _ hstuck
    | false =>
      rw [Bool.eq_false_iff.mpr fun h₂ => Bool.false_ne_true ((Bool.or_eq_false_iff.mp h₁).2.symm.trans (hstrict h₂))]
      exact hf

/-- A function that `async` begins takes that word and the next one. -/
protected theorem At.isAtAsyncFunction {f₁ f₂ : Bool → Recognizer α} (hs : F.At b s₁ s₂)
    (ht : s₁.token.isWord "async" = true → F.Outcome given post (f₁ true s₁) (f₂ true s₂))
    (hf : F.Outcome given post (f₁ false s₁) (f₂ false s₂)) [hmoves : ∀ a, Moves (f₁ a)] [TakesTwo (f₁ true)] :
    F.Outcome given post ((isAtAsyncFunction >>= f₁) s₁) ((isAtAsyncFunction >>= f₂) s₂) := by
  rw [isAtAsyncFunction_bind, isAtAsyncFunction_bind]
  refine .ite (hs.heads.isWord _) (fun hword => ?_) fun _ => hf
  refine hs.peekWord hword (fun t₁ t₂ htokens => ?_) fun t₁ t₂ hcloses hstuck => ?_
  · rw [htokens.isKeyword, htokens.newlineBefore]
    cases t₁.isKeyword .function && !t₁.newlineBefore with
    | true => exact ht hword
    | false => exact hf
  · rw [hcloses.isKeyword, Bool.false_and]
    cases t₁.isKeyword .function && !t₁.newlineBefore with
    | true => exact .of_stuckNext _ hstuck
    | false => exact hf

/-! ## Blocks, conditions and bodies -/

/-- A step that is not taken under a condition, before a token is taken. -/
theorem At.whenNot {c₁ c₂ : Bool} {x₁ x₂ : Recognizer Unit} {f₁ f₂ : Unit → Recognizer α} (hs : F.At b s₁ s₂)
    (hc : c₂ = c₁) (hx : c₁ = false → F.Passes Eq b (x₁ s₁) (x₂ s₂))
    (hf : ∀ t₁ t₂, F.At b t₁ t₂ → F.Outcome given post (f₁ () t₁) (f₂ () t₂)) [∀ a, Takes (f₁ a)] :
    F.Outcome given post ((if c₁ = true then f₁ () else x₁ >>= f₁) s₁) ((if c₂ = true then f₂ () else x₂ >>= f₂) s₂) :=
  .ite hc (fun _ => hf s₁ s₂ hs) fun h => (hx h).bindTaking fun _ _ t₁ t₂ ht => hf t₁ t₂ ht.2

variable [∀ p, Moves (nested₁ p)] [∀ p, Takes (nested₁ p)]

namespace Derives

variable (hd : F.Derives nested₁ nested₂)

include hd

protected theorem block (hs : F.At b s₁ s₂) : F.Yields Eq true (block nested₁ s₁) (block nested₂ s₂) := by
  refine hs.expect.bindTaking fun _ _ t₁ t₂ _ ht => (hd.statementList false ht).bindTaking fun _ _ u₁ u₂ hu => ?_
  exact hu.2.expectWith

protected theorem condition (hs : F.At b s₁ s₂) : F.Yields Eq true (condition nested₁ s₁) (condition nested₂ s₂) := by
  refine hs.expect.bindTaking fun _ _ t₁ t₂ _ ht => ?_
  exact (hd.expression ht).discard.bindTaking fun _ _ u₁ u₂ _ hu => hu.expectWith

omit [∀ p, Takes (nested₁ p)] in
/-- Strict code has no function as the body of an `if`, which would begin like a statement there. -/
protected theorem branch (hs : F.At b s₁ s₂) : F.Yields Eq false (branch nested₁ s₁) (branch nested₂ s₂) := by
  have hb := hd.begins
  have htakesTwo := hb.function_takesTwo
  refine .bind_context (.bind_isAtKeyword ?_)
  rw [hs.heads.isKeyword]
  cases hfunction : s₁.token.isKeyword .function with
  | false => exact hd.statement hs
  | true =>
    have hno {r₂ : EStateM.Result Fault State Unit} : F.Yields Eq false (statement nested₁ s₁) r₂ := fun _ _ hrun =>
      absurd ((hb.statement hrun).symm.trans hfunction) Bool.false_ne_true
    cases h₁ : s₁.context.strict with
    | true => exact hno
    | false =>
      rw [Bool.eq_false_iff.mpr fun h₂ => Bool.false_ne_true (h₁.symm.trans (hs.context.strict h₂))]
      have hname := Token.isName_of_isKeyword hfunction
      refine hs.peek hname (.inr fun t ht hkind a u hrun => ?_) (fun t₁ t₂ htokens => ?_) fun t₁ t₂ hcloses hstuck => ?_
      · rw [Token.isPunctuator_of_kind hkind nofun] at hrun
        exact hb.function_next hrun ht hkind
      · refine .ite (htokens.isPunctuator _) (fun _ => hno) fun _ => ?_
        exact hd.production .functionBodyStatement hs fun _ => hs.heads.kind (isDivision_of_isKeyword hfunction)
      · cases t₁.isPunctuator .star with
        | true => exact hno
        | false => exact .of_stuckNext (nested₁ .functionBodyStatement) hstuck

protected theorem ifStatement (hs : F.At b s₁ s₂) (hk : s₂.token.kind = s₁.token.kind) :
    F.Yields Eq false (ifStatement nested₁ s₁) (ifStatement nested₂ s₂) := by
  refine (hs.pass hk).bindTaking fun _ _ t₁ t₂ _ ht => (hd.condition ht).bindTaking fun _ _ u₁ u₂ _ hu => ?_
  refine (hd.branch hu).bind fun _ _ v₁ v₂ _ hv => .bind_isAtKeyword ?_
  refine hv.branch (fun hv => hv.heads.isKeyword _) (fun h => h.isKeyword _) (fun h hv => ?_) fun _ => .ok ⟨rfl, hv⟩
  exact (hv.passKeyword h).bindTaking fun _ _ w₁ w₂ _ hw => hd.branch hw

omit [∀ p, Moves (nested₁ p)] [∀ p, Takes (nested₁ p)] in
protected theorem loopBody (hs : F.At b s₁ s₂) : F.Yields Eq false (loopBody nested₁ s₁) (loopBody nested₂ s₂) := by
  refine .bind_context (.bind_modify ?_)
  have hinner : Context.RelaxesTo { s₁.context with inIteration := true, inBreakable := true }
      { s₂.context with inIteration := true, inBreakable := true } :=
    { hs.context with inIteration := rfl, inBreakable := rfl }
  refine (hd.statement (hs.withContext hinner)).bind fun _ _ t₁ t₂ _ ht => .ok ⟨rfl, ht.withContext ?_⟩
  exact { ht.context with inIteration := hs.context.inIteration, inBreakable := hs.context.inBreakable }

/-! ## Loops -/

protected theorem whileStatement (hs : F.At b s₁ s₂) (hk : s₂.token.kind = s₁.token.kind) :
    F.Yields Eq false (whileStatement nested₁ s₁) (whileStatement nested₂ s₂) := by
  refine (hs.pass hk).bindTaking fun _ _ t₁ t₂ _ ht => (hd.condition ht).bindTaking fun _ _ u₁ u₂ _ hu => ?_
  exact hd.loopBody hu

protected theorem doStatement (hs : F.At b s₁ s₂) (hk : s₂.token.kind = s₁.token.kind) :
    F.Yields Eq false (doStatement nested₁ s₁) (doStatement nested₂ s₂) := by
  refine (hs.pass hk).bindTaking fun _ _ t₁ t₂ _ ht => (hd.loopBody ht).bindTaking fun _ _ u₁ u₂ _ hu => ?_
  refine .bind_isAtKeyword (.require (fun h => (hu.heads.isKeyword _).trans h) fun h => ?_)
  refine (hu.passKeyword h).bindTaking fun _ _ v₁ v₂ _ hv => ?_
  exact (hd.condition hv).bind fun _ _ w₁ w₂ _ hw => hw.endLoop

protected theorem forClauses (hs : F.At true s₁ s₂) :
    F.Yields Eq false (forClauses nested₁ s₁) (forClauses nested₂ s₂) := by
  refine .bind_isAt
    (hs.whenNot (hs.tokens.isPunctuator _) (fun _ => (hd.expression hs).discard.passes) fun t₁ t₂ ht => ?_)
  refine ht.expect.bindTaking fun _ _ u₁ u₂ _ hu => .bind_isAt ?_
  refine hu.whenNot (hu.tokens.isPunctuator _) (fun _ => (hd.expression hu).discard.passes) fun v₁ v₂ hv => ?_
  exact hv.expectWith.bindTaking fun _ _ w₁ w₂ _ hw => hd.loopBody hw

protected theorem forEach {kind : ForLoop} {isAwait : Bool} (hs : F.At b s₁ s₂)
    (hk : s₂.token.kind = s₁.token.kind) :
    F.Yields Eq false (forEach nested₁ kind isAwait s₁) (forEach nested₂ kind isAwait s₂) := by
  refine .guard id fun _ => (hs.pass hk).bindBefore (fun _ => ?_) fun _ _ t₁ t₂ _ ht => ?_
  · cases kind <;> infer_instance
  cases kind with
  | forOf =>
    refine (hd.assignment ht).discard.bindTaking fun _ _ u₁ u₂ _ hu => ?_
    exact hu.expectWith.bindTaking fun _ _ v₁ v₂ _ hv => hd.loopBody hv
  | forIn =>
    refine (hd.expression ht).discard.bindTaking fun _ _ u₁ u₂ _ hu => ?_
    exact hu.expectWith.bindTaking fun _ _ v₁ v₂ _ hv => hd.loopBody hv

end Derives

omit [∀ p, Moves (nested₁ p)] [∀ p, Takes (nested₁ p)] in
protected theorem At.forLoop? {f₁ f₂ : Option ForLoop → Recognizer α} (hs : F.At true s₁ s₂)
    (hsome : ∀ l, F.Outcome given post (f₁ (some l) s₁) (f₂ (some l) s₂))
    (hnone : F.Outcome given post (f₁ none s₁) (f₂ none s₂)) :
    F.Outcome given post ((forLoop? >>= f₁) s₁) ((forLoop? >>= f₂) s₂) := by
  change F.Outcome given post
    (f₁ (if s₁.token.isWord "of" then some .forOf else if s₁.token.isKeyword .«in» then some .forIn else none) s₁)
    (f₂ (if s₂.token.isWord "of" then some .forOf else if s₂.token.isKeyword .«in» then some .forIn else none) s₂)
  rw [hs.tokens.isWord, hs.tokens.isKeyword]
  cases s₁.token.isWord "of" with
  | true => exact hsome .forOf
  | false =>
    cases s₁.token.isKeyword .«in» with
    | true => exact hsome .forIn
    | false => exact hnone

omit [∀ p, Moves (nested₁ p)] [∀ p, Takes (nested₁ p)] in
protected theorem At.forAwait (hs : F.At true s₁ s₂) : F.Yields Eq true (forAwait s₁) (forAwait s₂) := by
  refine .bind_isAtWord (.ite (hs.heads.isWord _) (fun h => .bind_context ?_) fun _ => .ok ⟨rfl, hs.after⟩)
  refine .require (fun h => hs.context.awaitOperator.trans h) fun _ => ?_
  exact (hs.passWord h).bind fun _ _ t₁ t₂ _ ht => .ok ⟨rfl, ht⟩

namespace Derives

variable (hd : F.Derives nested₁ nested₂)

include hd

protected theorem forDeclaration {kind : DeclarationKind} {isAwait : Bool} (hs : F.At b s₁ s₂)
    (hk : s₂.token.kind = s₁.token.kind) :
    F.Yields Eq false (forDeclaration nested₁ kind isAwait s₁) (forDeclaration nested₂ kind isAwait s₂) := by
  refine .bind_token ((hs.pass hk).bindBefore (fun _ => .behind inferInstance fun ds => ?_) fun _ _ t₁ t₂ _ ht => ?_)
  · refine .behind inferInstance fun l => ?_
    dsimp only
    repeat' first | infer_instance | split
  have hlist : F.Passes SameDeclarations true (declarations nested₁ kind true t₁) (declarations nested₂ kind true t₂) :=
    Outcome.at_of_continuing ((hd.declarations ht).given_mono fun _ _ _ h _ => h)
  refine hlist.bindBefore (fun ds => .behind inferInstance fun l => ?_) fun ds₁ ds₂ u₁ u₂ h =>
    h.2.forLoop? (fun l => .bind_context ?_) ?_
  · dsimp only
    repeat' first | infer_instance | split
  · exact .failIf (h.1.loopHeadError? h.2.context.strict) (hd.forEach h.2 h.2.kind)
  · have hmissing := h.1.missing?
    cases h₁ : ds₁.missing? with
    | some f => exact .of_fails
    | none =>
      rw [h₁] at hmissing
      rw [Option.isNone_iff_eq_none.mp (Option.isSome_eq_false_iff.mp hmissing)]
      exact .guard id fun _ => h.2.expect.bindTaking fun _ _ v₁ v₂ _ hv => hd.forClauses hv

protected theorem forExpression {isAwait : Bool} (hs : F.At b s₁ s₂) :
    F.Yields Eq false (forExpression nested₁ isAwait s₁) (forExpression nested₂ isAwait s₂) := by
  have hhead : F.Passes Summary.WidensTo true (expressionOrPattern nested₁ false s₁)
      (expressionOrPattern nested₂ false s₂) :=
    Outcome.at_of_continuing ((hd.expressionOrPatternOf false hs).given_mono fun _ _ _ h _ => h)
  refine .bind_token (hhead.bindBefore (fun e => .behind inferInstance fun l => ?_) fun e₁ e₂ t₁ t₂ he => ?_)
  · dsimp only
    repeat' first | infer_instance | split
  have hshape := he.1.shape
  refine he.2.forLoop? (fun l => ?_) (.rejectShorthand he.1 (.guard id fun _ => ?_))
  · rw [hs.heads.isWord, hs.heads.isWord, hshape.isIdentifier]
    refine .guard id fun _ => ?_
    refine .guard id fun _ => ?_
    refine .require hshape.isAssignmentTarget fun _ => ?_
    exact hd.forEach he.2 he.2.kind
  · exact he.2.expect.bindTaking fun _ _ u₁ u₂ _ hu => hd.forClauses hu

protected theorem forStatement (hs : F.At b s₁ s₂) (hk : s₂.token.kind = s₁.token.kind) :
    F.Yields Eq false (forStatement nested₁ s₁) (forStatement nested₂ s₂) := by
  refine (hs.pass hk).bindTaking fun _ _ t₁ t₂ _ ht => ht.forAwait.bindTaking fun w₁ w₂ u₁ u₂ hw hu => ?_
  subst hw
  refine hu.expect.bindTaking fun _ _ v₁ v₂ _ hv => .bind_isAt ?_
  refine .ite (hv.tokens.isPunctuator _) (fun h => ?_) fun _ => ?_
  · exact .guard id fun _ => (hv.passPunctuator h).bindTaking fun _ _ x₁ x₂ _ hx => hd.forClauses hx
  refine .bind_isAtKeyword (.ite (hv.tokens.isKeyword _) (fun _ => hd.forDeclaration hv hv.kind) fun _ => ?_)
  refine .bind_isAtKeyword (.ite (hv.tokens.isKeyword _) (fun _ => hd.forDeclaration hv hv.kind) fun _ => ?_)
  refine hv.isAtLetDeclaration (fun _ => hd.forDeclaration hv hv.kind) (hd.forExpression hv)
    fun a t next hrun hnext => ?_
  obtain ⟨_, _, htoken, hrun⟩ := bind_eq_ok.mp hrun
  cases htoken
  obtain ⟨_, u, hpassed, hrun⟩ := bind_eq_ok.mp hrun
  obtain ⟨ds, w, hlist, _⟩ := bind_eq_ok.mp hrun
  exact token_of_advance hpassed hnext ▸ beginsTarget_of_declarations hd.begins hlist

end Derives

/-! ## Jumps -/

omit [∀ p, Moves (nested₁ p)] [∀ p, Takes (nested₁ p)]

/-- Where the first has halted, no label follows in the second, and in the first none may. -/
protected theorem After.jumpLabel? {f₁ f₂ : Option Identifier → Recognizer α} (hs : F.After true s₁ s₂)
    (hsome : ∀ i₁ i₂, SameName i₁ i₂ → F.At true s₁ s₂ → F.Outcome given post (f₁ (some i₁) s₁) (f₂ (some i₂) s₂))
    (hnone : F.Outcome given post (f₁ none s₁) (f₂ none s₂)) [htakes : ∀ i, Takes (f₁ (some i))] :
    F.Outcome given post ((jumpLabel? >>= f₁) s₁) ((jumpLabel? >>= f₂) s₂) := by
  change F.Outcome given post (f₁ (if s₁.token.newlineBefore then none else identifier? s₁.token) s₁)
    (f₂ (if s₂.token.newlineBefore then none else identifier? s₂.token) s₂)
  rcases hs.input with hinput | hhalted
  · have hat : F.At true s₁ s₂ := { hs with input := hinput }
    rw [hat.tokens.newlineBefore]
    cases s₁.token.newlineBefore with
    | true => exact hnone
    | false =>
      obtain ⟨h₁, h₂⟩ | ⟨i₁, i₂, hi, h₁, h₂, -⟩ := hat.identifier?_cases
      · rw [h₁, h₂]
        exact hnone
      · rw [h₁, h₂]
        exact hsome i₁ i₂ hi hat
  · have hcloses : ClosesStatement s₂.token := F.closes_of_halted hhalted
    rw [hcloses.identifier?, ite_self]
    cases if s₁.token.newlineBefore then none else identifier? s₁.token with
    | none => exact hnone
    | some i => exact .of_halted hhalted

protected theorem At.continueStatement (hs : F.At b s₁ s₂) (hk : s₂.token.kind = s₁.token.kind) :
    F.Yields Eq false (continueStatement s₁) (continueStatement s₂) := by
  refine .bind_token ((hs.pass hk).bindMoving (fun _ => .bind inferInstance fun label? => ?_) fun _ _ t₁ t₂ _ ht => ?_)
  · dsimp only
    split <;> infer_instance
  refine ht.jumpLabel? (fun i₁ i₂ hi hat => .bind_get ?_) (.bind_context ?_)
  · rw [ht.labels, hi.name]
    exact .failIf id ((hat.pass hat.kind).bind fun _ _ u₁ u₂ _ hu => hu.consumeSemicolon)
  · exact .require (fun h => ht.context.inIteration.trans h) fun _ => ht.consumeSemicolon

protected theorem At.breakStatement (hs : F.At b s₁ s₂) (hk : s₂.token.kind = s₁.token.kind) :
    F.Yields Eq false (breakStatement s₁) (breakStatement s₂) := by
  refine .bind_token ((hs.pass hk).bindMoving (fun _ => .bind inferInstance fun label? => ?_) fun _ _ t₁ t₂ _ ht => ?_)
  · dsimp only
    split <;> infer_instance
  refine ht.jumpLabel? (fun i₁ i₂ hi hat => .bind_get ?_) (.bind_context ?_)
  · rw [ht.labels, hi.name]
    exact .require id fun _ => (hat.pass hat.kind).bind fun _ _ u₁ u₂ _ hu => hu.consumeSemicolon
  · exact .require (fun h => ht.context.inBreakable.trans h) fun _ => ht.consumeSemicolon

variable [∀ p, Moves (nested₁ p)] [∀ p, Takes (nested₁ p)]

namespace Derives

variable (hd : F.Derives nested₁ nested₂)

include hd

protected theorem returnStatement (hs : F.At b s₁ s₂) (hk : s₂.token.kind = s₁.token.kind) :
    F.Yields Eq false (returnStatement nested₁ s₁) (returnStatement nested₂ s₂) := by
  refine .bind_context (.require hs.context.inFunction fun _ => (hs.pass hk).bind fun _ _ t₁ t₂ _ ht => .bind_token ?_)
  rcases ht.input with hinput | hhalted
  · have hat : F.At true t₁ t₂ := { ht with input := hinput }
    refine .ite ?_ (fun _ => ht.consumeSemicolon) fun _ => ?_
    · rw [hat.tokens.newlineBefore, hat.tokens.isPunctuator, hat.tokens.isPunctuator, hat.tokens.isEnd]
    · exact (hd.expression hat).discard.bind fun _ _ u₁ u₂ _ hu => hu.consumeSemicolon
  · have hcloses : ClosesStatement t₂.token := F.closes_of_halted hhalted
    have hends : (t₂.token.newlineBefore || t₂.token.isPunctuator .semicolon || t₂.token.isPunctuator .closeBrace ||
        t₂.token.isEnd) = true := by
      rcases hcloses with h | h <;>
        simp only [Token.isPunctuator, h, decide_true, Bool.or_true, Bool.true_or]
    rw [if_pos hends]
    split
    · exact ht.consumeSemicolon
    · exact .of_halted hhalted

protected theorem throwStatement (hs : F.At b s₁ s₂) (hk : s₂.token.kind = s₁.token.kind) :
    F.Yields Eq false (throwStatement nested₁ s₁) (throwStatement nested₂ s₂) := by
  refine (hs.pass hk).bindTaking fun _ _ t₁ t₂ _ ht => .bind_token (.guard (fun h => ?_) fun _ => ?_)
  · exact ht.tokens.newlineBefore.symm.trans h
  · exact (hd.expression ht).discard.bind fun _ _ u₁ u₂ _ hu => hu.consumeSemicolon

/-! ## Other statements -/

protected theorem withStatement (hs : F.At b s₁ s₂) (hk : s₂.token.kind = s₁.token.kind) :
    F.Yields Eq false (withStatement nested₁ s₁) (withStatement nested₂ s₂) := by
  refine .bind_context (.guard hs.context.strict fun _ => (hs.pass hk).bindTaking fun _ _ t₁ t₂ _ ht => ?_)
  exact (hd.condition ht).bindTaking fun _ _ u₁ u₂ _ hu => hd.statement hu

/-- The statements of a clause, after its head. -/
theorem clauseStatements {hasDefault : Bool} (hs : F.At b s₁ s₂) :
    F.Passes Eq false
      ((do
        expect .colon
        loop () fun _ => do
          let t ← token
          if t.isPunctuator .closeBrace || t.isKeyword .case || t.isKeyword .default || t.isEnd then return .done ()
          nested₁ (.statementListItem false)
          return .again ()
        return hasDefault : Recognizer Bool) s₁)
      ((do
        expect .colon
        loop () fun _ => do
          let t ← token
          if t.isPunctuator .closeBrace || t.isKeyword .case || t.isKeyword .default || t.isEnd then return .done ()
          nested₂ (.statementListItem false)
          return .again ()
        return hasDefault : Recognizer Bool) s₂) := by
  refine hs.expect.bindGentle fun _ _ t₁ t₂ _ ht => ?_
  refine Outcome.bindGentle (P := fun _ _ => F.At false) (ht.weaken.loop Eq rfl fun _ _ u₁ u₂ _ hu => ?_)
    fun _ _ u₁ u₂ hu => .ok ⟨rfl, hu⟩
  refine .bind_token (.ite ?_ (fun _ => .ok hu) fun _ => ?_)
  · rw [hu.heads.isPunctuator .closeBrace, hu.heads.isKeyword, hu.heads.isKeyword, hu.heads.isEnd]
  · exact (hd.item false hu).bindGentle fun _ _ v₁ v₂ _ hv => .ok ⟨rfl, hv⟩

protected theorem caseClause {hasDefault : Bool} (hs : F.At b s₁ s₂) :
    F.Passes Eq false (caseClause nested₁ hasDefault s₁) (caseClause nested₂ hasDefault s₂) := by
  refine .bind_token ?_
  simp only [hs.heads.isKeyword]
  refine .ite rfl (fun h => ?_) fun _ => ?_
  · refine (hs.passKeyword h).bindGentle fun _ _ t₁ t₂ _ ht => ?_
    exact (hd.expression ht).discard.bindGentle fun _ _ u₁ u₂ _ hu => hd.clauseStatements hu
  refine .ite rfl (fun h => ?_) fun _ => .of_fails
  · exact .guard id fun _ => (hs.passKeyword h).bindGentle fun _ _ t₁ t₂ _ ht => hd.clauseStatements ht

protected theorem caseClauses (hs : F.At b s₁ s₂) :
    F.Outcome F.continuing (fun _ _ => F.At false) (caseClauses nested₁ s₁) (caseClauses nested₂ s₂) := by
  refine hs.weaken.loop Eq rfl fun d₁ d₂ t₁ t₂ h ht => ?_
  subst h
  refine .bind_isAt (.ite (ht.heads.isPunctuator _) (fun _ => .ok ht) fun _ => ?_)
  exact (hd.caseClause ht).bindGentle fun _ _ u₁ u₂ hu => .ok hu

protected theorem switchStatement (hs : F.At b s₁ s₂) (hk : s₂.token.kind = s₁.token.kind) :
    F.Yields Eq false (switchStatement nested₁ s₁) (switchStatement nested₂ s₂) := by
  refine (hs.pass hk).bindTaking fun _ _ t₁ t₂ _ ht => ht.expect.bindTaking fun _ _ u₁ u₂ _ hu => ?_
  refine (hd.expression hu).discard.bindTaking fun _ _ v₁ v₂ _ hv => hv.expect.bindTaking fun _ _ w₁ w₂ _ hw => ?_
  refine hw.expect.bindTaking fun _ _ x₁ x₂ _ hx => .bind_context (.bind_modify ?_)
  have hinner : Context.RelaxesTo { x₁.context with inBreakable := true } { x₂.context with inBreakable := true } :=
    { hx.context with inBreakable := rfl }
  refine (hd.caseClauses (hx.withContext hinner)).bindTaking fun _ _ y₁ y₂ hy => .bind_modify ?_
  have houter : Context.RelaxesTo { y₁.context with inBreakable := x₁.context.inBreakable }
      { y₂.context with inBreakable := x₂.context.inBreakable } :=
    { hy.context with inBreakable := hx.context.inBreakable }
  exact (hy.withContext houter).expectWith.weaken

protected theorem catchClause (hs : F.After true s₁ s₂) :
    F.Yields Eq true (catchClause nested₁ s₁) (catchClause nested₂ s₂) := by
  refine .bind_isAtKeyword (hs.branch (fun hs => hs.tokens.isKeyword _) (fun h => h.isKeyword _) (fun h hs => ?_)
    fun _ => .ok ⟨rfl, hs⟩)
  refine (hs.passKeyword h).bindTaking fun _ _ t₁ t₂ _ ht => ht.after.eatTaking (fun u₁ u₂ hu => ?_) ?_
  · refine (hd.bindingTarget false hu).bindTaking fun _ _ v₁ v₂ _ hv => hv.expect.bindTaking fun _ _ w₁ w₂ _ hw => ?_
    exact (hd.block hw).bind fun _ _ x₁ x₂ _ hx => .ok ⟨rfl, hx⟩
  · exact (hd.block ht).bind fun _ _ u₁ u₂ _ hu => .ok ⟨rfl, hu⟩

protected theorem finallyClause (hs : F.After true s₁ s₂) :
    F.Yields Eq true (finallyClause nested₁ s₁) (finallyClause nested₂ s₂) := by
  refine .bind_isAtKeyword (hs.branch (fun hs => hs.tokens.isKeyword _) (fun h => h.isKeyword _) (fun h hs => ?_)
    fun _ => .ok ⟨rfl, hs⟩)
  refine (hs.passKeyword h).bindTaking fun _ _ t₁ t₂ _ ht => ?_
  exact (hd.block ht).bind fun _ _ u₁ u₂ _ hu => .ok ⟨rfl, hu⟩

protected theorem tryStatement (hs : F.At b s₁ s₂) (hk : s₂.token.kind = s₁.token.kind) :
    F.Yields Eq false (tryStatement nested₁ s₁) (tryStatement nested₂ s₂) := by
  refine (hs.pass hk).bindTaking fun _ _ t₁ t₂ _ ht => (hd.block ht).bind fun _ _ u₁ u₂ _ hu => ?_
  refine (hd.catchClause hu).bind fun c₁ c₂ v₁ v₂ hc hv => (hd.finallyClause hv).bind fun f₁ f₂ w₁ w₂ hf hw => ?_
  subst hc hf
  exact .require id fun _ => .ok ⟨rfl, hw.weaken⟩

end Derives

/-! ## Labels -/

omit [∀ p, Moves (nested₁ p)] [∀ p, Takes (nested₁ p)] in
/-- The same labels are marked in both. -/
theorem At.bind_markLabels {n : Nat} {f₁ f₂ : Unit → Recognizer α} (hs : F.At b s₁ s₂)
    (h : F.Outcome given post (f₁ () { s₁ with labels := markIteration n s₁.labels })
      (f₂ () { s₂ with labels := markIteration n s₂.labels })) :
    F.Outcome given post ((markLabels n >>= f₁) s₁) ((markLabels n >>= f₂) s₂) := by
  have hmarks {s : State} {f : Unit → Recognizer α} (hn : n ≤ s.labels.length) :
      (markLabels n >>= f) s = f () { s with labels := markIteration n s.labels } := by
    change EStateM.bind (markLabels n) f s = _
    unfold EStateM.bind
    rw [markLabels_of_le hn]
  by_cases hn : n ≤ s₁.labels.length
  · rwa [hmarks hn, hmarks (hs.labels ▸ hn)]
  · intro a t hrun
    obtain ⟨_, _, hmark, _⟩ := bind_eq_ok.mp hrun
    cases (congrFun (if_pos (Nat.lt_of_not_le hn)) s₁).symm.trans hmark

namespace Derives

variable (hd : F.Derives nested₁ nested₂)

include hd

protected theorem labelledStatement {attached : Nat} {i₁ i₂ : Identifier} (hs : F.At b s₁ s₂) (hi : SameName i₁ i₂)
    (hk : s₂.token.kind = s₁.token.kind) :
    F.Yields Eq false (labelledStatement nested₁ attached i₁ s₁) (labelledStatement nested₂ attached i₂ s₂) := by
  refine hs.toAround.checkReference hi (.bind_get ?_)
  rw [hs.labels, hi.name]
  refine .guard id fun _ => .bind_modify ?_
  have hlabelled : F.At b { s₁ with labels := ⟨i₁.name, false⟩ :: s₁.labels }
      { s₂ with labels := ⟨i₁.name, false⟩ :: s₁.labels } :=
    hs.of_sameReading { hs with labels := rfl } ⟨rfl, rfl, rfl, rfl⟩ ⟨rfl, rfl, rfl, rfl⟩
  refine (hlabelled.pass hk).bindTaking fun _ _ t₁ t₂ _ ht => ht.expectWith.bindTaking fun _ _ u₁ u₂ _ hu => ?_
  refine .bind_isAtKeyword (.bind_context ?_)
  have leave {v₁ v₂ : State} (hv : F.After false v₁ v₂) :
      F.After false { v₁ with attachedLabels := 0, labels := v₁.labels.tail }
        { v₂ with attachedLabels := 0, labels := v₂.labels.tail } :=
    hv.of_sameReading { hv with labels := by rw [hv.labels], attachedLabels := rfl } ⟨rfl, rfl, rfl, rfl⟩
      ⟨rfl, rfl, rfl, rfl⟩
  have attach : F.At true { u₁ with attachedLabels := attached + 1 } { u₂ with attachedLabels := attached + 1 } :=
    hu.of_sameReading { hu with attachedLabels := rfl } ⟨rfl, rfl, rfl, rfl⟩ ⟨rfl, rfl, rfl, rfl⟩
  rw [hu.tokens.isKeyword]
  cases hfunction : u₁.token.isKeyword .function with
  | false => exact .bind_modify ((hd.statement attach).bind fun _ _ v₁ v₂ _ hv => .ok ⟨rfl, leave hv⟩)
  | true =>
    cases h₁ : u₁.context.strict with
    | true =>
      -- in strict code the statement would have to begin with `function`
      intro a t hrun
      obtain ⟨_, _, hmodify, hrun⟩ := bind_eq_ok.mp hrun
      cases hmodify
      obtain ⟨_, _, hstatement, _⟩ := bind_eq_ok.mp hrun
      cases (hd.begins.statement hstatement).symm.trans hfunction
    | false =>
      rw [Bool.eq_false_iff.mpr fun h₂ => Bool.false_ne_true (h₁.symm.trans (hu.context.strict h₂))]
      exact Outcome.bind (hd.production .functionBodyStatement hu fun _ => hu.kind) fun _ _ v₁ v₂ h =>
        .ok ⟨rfl, leave h.2⟩

protected theorem identifierStatement {attached : Nat} {i₁ i₂ : Identifier} (hs : F.At b s₁ s₂) (hi : SameName i₁ i₂)
    (hidentifier : s₁.token.isIdentifier = true) :
    F.Yields Eq false (identifierStatement nested₁ attached i₁ s₁) (identifierStatement nested₂ attached i₂ s₂) := by
  have hexpression := (hd.expression hs).discard.bind fun _ _ t₁ t₂ _ ht => ht.consumeSemicolon
  refine .bind_token (hs.peekIdentifier hidentifier (fun t₁ t₂ ht => ?_) fun t₁ t₂ hcloses hstuck => ?_)
  · refine .ite (ht.isPunctuator _) (fun _ => ?_) fun _ => ?_
    · exact hd.labelledStatement hs hi (hs.heads.kind (isDivision_of_isIdentifier hidentifier))
    refine .guard (fun h => ?_) fun _ => ?_
    · rwa [hs.heads.isWord, ht.isPunctuator] at h
    refine .guard (fun h => ?_) fun _ => ?_
    · rwa [hs.heads.isWord, ht.isKeyword, ht.newlineBefore] at h
    exact hexpression
  · rw [hcloses.isPunctuator .colon]
    cases t₁.isPunctuator .colon with
    | true => exact .of_stuckNext (labelledStatement nested₁ attached i₁) hstuck
    | false =>
      refine .ite rfl nofun fun _ => ?_
      refine .guard (fun h => ?_) fun _ => ?_
      · rw [hcloses.isPunctuator _, Bool.and_false] at h
        cases h
      refine .guard (fun h => ?_) fun _ => ?_
      · rw [hcloses.isKeyword, Bool.and_false, Bool.false_and] at h
        cases h
      exact hexpression

/-- A division with which a statement begins may be a regular expression already in the second, but neither is a
statement of its own kind. -/
protected theorem expandStatement (hs : F.At b s₁ s₂) :
    F.Yields Eq false (expandStatement nested₁ s₁) (expandStatement nested₂ s₂) := by
  refine .bind_get (.bind_modify (.bind_token ?_))
  rw [hs.attachedLabels]
  have hfresh : F.At b { s₁ with attachedLabels := 0 } { s₂ with attachedLabels := 0 } :=
    hs.of_sameReading { hs with attachedLabels := rfl } ⟨rfl, rfl, rfl, rfl⟩ ⟨rfl, rfl, rfl, rfl⟩
  have hmarked : F.At b { s₁ with attachedLabels := 0, labels := markIteration s₁.attachedLabels s₁.labels }
      { s₂ with attachedLabels := 0, labels := markIteration s₁.attachedLabels s₂.labels } :=
    hs.of_sameReading { hs with attachedLabels := rfl, labels := by rw [hs.labels] } ⟨rfl, rfl, rfl, rfl⟩
      ⟨rfl, rfl, rfl, rfl⟩
  have hexpression := (hd.expression hfresh).discard.bind fun _ _ t₁ t₂ _ ht => ht.consumeSemicolon
  cases hdivision : isDivision s₁.token with
  | true =>
    rcases kind_of_isDivision hdivision with h₁ | h₁ <;> rcases hs.heads with htwins | ⟨-, h₂⟩
    all_goals first
      | rw [h₁, h₂]; exact hexpression
      | rw [htwins.kind, h₁]; exact hexpression
  | false =>
    have hk := hs.heads.kind hdivision
    rw [hk]
    cases hkind : s₁.token.kind with
    | identifier => exact hd.identifierStatement hfresh ⟨rfl, rfl⟩ (by simp only [Token.isIdentifier, hkind])
    | keyword w =>
      cases w with
      | var => exact hd.declarationStatement hfresh hk
      | «if» => exact hd.ifStatement hfresh hk
      | «for» => exact hfresh.bind_markLabels (hd.forStatement hmarked hk)
      | «while» => exact hfresh.bind_markLabels (hd.whileStatement hmarked hk)
      | «do» => exact hfresh.bind_markLabels (hd.doStatement hmarked hk)
      | «continue» => exact hfresh.continueStatement hk
      | «break» => exact hfresh.breakStatement hk
      | «return» => exact hd.returnStatement hfresh hk
      | «with» => exact hd.withStatement hfresh hk
      | switch => exact hd.switchStatement hfresh hk
      | throw => exact hd.throwStatement hfresh hk
      | «try» => exact hd.tryStatement hfresh hk
      | debugger => exact (hfresh.pass hk).bind fun _ _ t₁ t₂ _ ht => ht.consumeSemicolon
      | function | «class» | const => exact .of_fails
      | _ => exact hexpression
    | punctuator p =>
      cases p with
      | openBrace => exact (hd.block hfresh).weaken
      | semicolon => exact (hfresh.advanceWith hk (by decide)).weaken
      | _ => exact hexpression
    | _ => exact hexpression

end Derives

end Following

end EcmaCheck.Grammar
