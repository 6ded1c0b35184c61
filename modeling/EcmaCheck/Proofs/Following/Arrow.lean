import EcmaCheck.Proofs.Following.Class

/-!
# Members, templates and arrow functions that follow others

What stands in parentheses before an arrow is seen can be in the second all that it can be in the first
(`ParenthesizedList.WidensTo`).
-/

namespace EcmaCheck.Grammar

set_option synthInstance.maxSize 20000

namespace Following

variable {F : Following} {α : Type} {b : Bool} {s₁ s₂ : State} {nested₁ nested₂ : Derivation}
  {post : α → α → State → State → Prop} {given : α → Input → Prop}

/-! ## Arguments and members -/

/-- Private names are permitted in both or in neither. -/
protected theorem Around.requirePrivateScope {f₁ f₂ : Unit → Recognizer α} (hs : Around s₁ s₂)
    (hf : F.Outcome given post (f₁ () s₁) (f₂ () s₂)) :
    F.Outcome given post ((requirePrivateScope >>= f₁) s₁) ((requirePrivateScope >>= f₂) s₂) := by
  unfold requirePrivateScope
  rw [bind_assoc, bind_assoc]
  refine .bind_get ?_
  rw [hs.classDepth]
  split
  · exact .error
  · exact hf

protected theorem At.memberName (hs : F.At true s₁ s₂) : F.Yields Eq true (memberName s₁) (memberName s₂) := by
  refine .bind_token ?_
  rw [hs.kind]
  cases s₁.token.kind with
  | identifier | keyword => exact hs.advanceWith hs.kind (by decide)
  | privateName => exact Around.requirePrivateScope hs.toAround (hs.advanceWith hs.kind (by decide))
  | _ => exact .of_fails

variable [∀ p, Moves (nested₁ p)] [∀ p, Takes (nested₁ p)]

namespace Derives

variable (hd : F.Derives nested₁ nested₂)

include hd

protected theorem arguments (hs : F.At b s₁ s₂) : F.Yields Eq true (arguments nested₁ s₁) (arguments nested₂ s₂) := by
  refine hs.expect.bindTaking fun _ _ t₁ t₂ _ ht => ?_
  refine (ht.itemsUntil _ rfl fun _ _ u₁ u₂ _ hu => ?_).bindTaking fun _ _ u₁ u₂ h => h.2.1.passPunctuator h.2.2
  exact hu.eatAny.discard.bindGentle fun _ _ v₁ v₂ _ hv => (hd.assignment hv).discard.passes

protected theorem computedMember (hs : F.At b s₁ s₂) :
    F.Yields Eq true (computedMember nested₁ s₁) (computedMember nested₂ s₂) := by
  refine hs.expect.bindTaking fun _ _ t₁ t₂ _ ht => ?_
  exact (hd.expression ht).discard.bindTaking fun _ _ u₁ u₂ _ hu => hu.expect

/-! ## Templates -/

omit hd [∀ p, Moves (nested₁ p)] [∀ p, Takes (nested₁ p)] in
/-- The brace that closes a substitution is read again and not consumed. -/
theorem rests_of_rescanTemplate {β : Type} {s t : State} {r r' : β} (h : (do
    unless ← isAt .closeBrace do unexpected
    rescan .templateTail
    return r : Recognizer β) s = .ok r' t) : s.input.Rests t.input ∧ r' = r := by
  change (if s.token.isPunctuator .closeBrace = true then (rescan .templateTail >>= fun _ => return r)
    else unexpected >>= fun _ => rescan .templateTail >>= fun _ => return r) s = .ok r' t at h
  cases hclose : s.token.isPunctuator .closeBrace with
  | false =>
    rw [hclose] at h
    cases h
  | true =>
    rw [hclose] at h
    obtain ⟨_, _, hrescan, hrun⟩ := bind_eq_ok.mp h
    cases hrun
    exact ⟨.rescan (.template hclose) (input_of_rescan hrescan) (.refl _), rfl⟩

omit hd [∀ p, Moves (nested₁ p)] [∀ p, Takes (nested₁ p)] in
theorem malformedEscape?_eq_none {t₁ t₂ : Token} (hk : t₂.kind = t₁.kind) (h : t₁.malformedEscape? = none) :
    t₂.malformedEscape? = none := by
  unfold Token.malformedEscape? at h ⊢
  rw [hk]
  split at h
  · cases h
  · rfl

protected theorem template {tagged : Bool} (hs : F.At b s₁ s₂) :
    F.Yields Eq true (template nested₁ tagged s₁) (template nested₂ tagged s₂) := by
  refine .bind_get (.repeatTurns (fun _ _ => F.At false) F.continuing (fun _ _ _ _ _ _ h => h.noteTurn)
    (fun n found _ t c u hrun hu _ => ⟨u.input, (show Takes _ from ?_).takes hrun, hu⟩)
    (fun _ _ t₁ t₂ ht => .bind_token ?_) (fun _ => .bind inferInstance fun span => ?_) _ _ hs.weaken)
  · refine .behind inferInstance fun _ => .repeatTurns (fun _ => .behind inferInstance fun span => ?_)
      (fun _ => .bind inferInstance fun span => ?_) n _
    all_goals
      dsimp only
      split
      · split <;> infer_instance
      · infer_instance
  · rcases ht.heads with htwins | ⟨hdivision, -⟩
    case regExp => rcases kind_of_isDivision hdivision with hk | hk <;> rw [hk] <;> exact .of_fails
    have hescape := malformedEscape?_eq_none htwins.kind
    rw [htwins.kind]
    cases t₁.token.kind with
    | template part n =>
      have span : F.Outcome (givenTurn F.continuing always)
          (AfterTurn (fun _ _ => F.At false) fun _ _ u₁ u₂ => () = () ∧ F.After true u₁ u₂)
          ((do
            advance
            if part.isLast then return .done ()
            discard (expression nested₁ true)
            unless ← isAt .closeBrace do unexpected
            rescan .templateTail
            return .again () : Recognizer (Turn Unit Unit)) t₁)
          ((do
            advance
            if part.isLast then return .done ()
            discard (expression nested₂ true)
            unless ← isAt .closeBrace do unexpected
            rescan .templateTail
            return .again () : Recognizer (Turn Unit Unit)) t₂) := by
        refine (ht.pass htwins.kind).bind fun _ _ u₁ u₂ _ hu => .ite rfl (fun h => .ok ⟨rfl, hu⟩) fun _ => ?_
        refine hu.live fun hu => Outcome.bindWith (hd.expression hu).discard.passes (fun _ _ _ _ _ hrun => ?_)
          (fun _ _ r w _ hrun hw hr => ?_) fun _ _ v₁ v₂ hv => ?_
        · exact (rests_of_rescanTemplate hrun).1.leads
        · obtain ⟨hrests, rfl⟩ := rests_of_rescanTemplate hrun
          obtain ⟨j, htakes, hfinishes⟩ := hr
          exact ⟨j, hrests.takes htakes, hfinishes⟩
        · refine .bind_isAt (.ite (hv.2.tokens.isPunctuator _) (fun h => ?_) fun _ => .of_fails)
          exact (hv.2.rescanTemplate h).ofAlways.bind fun _ _ w₁ w₂ hw => .ok hw.weaken
      generalize t₁.token.malformedEscape? = m₁ at hescape ⊢
      generalize t₂.token.malformedEscape? = m₂ at hescape ⊢
      cases tagged with
      | true => cases m₁ <;> cases m₂ <;> exact span
      | false =>
        cases m₁ with
        | some p => exact .of_fails
        | none =>
          cases hescape rfl
          exact span
    | _ => exact .of_fails
  · dsimp only
    split
    · split <;> infer_instance
    · infer_instance

/-! ## Arrow functions -/

protected theorem arrowBody {p q : Position} {isAsync simple : Bool} (hs : F.At b s₁ s₂)
    (harrow : s₁.token.isPunctuator .arrow = true) :
    F.Yields Summary.WidensTo true (arrowBody nested₁ p isAsync simple s₁) (arrowBody nested₂ q isAsync simple s₂) := by
  refine (hs.passPunctuator harrow).bindTaking fun _ _ t₁ t₂ _ ht => .bind_context ?_
  refine (ht.inFunctionContext (ht.context.ofArrow isAsync) fun u₁ u₂ hu => ?_).bind
    fun _ _ u₁ u₂ (_ : () = ()) hu => .ok ⟨.of_shape, hu⟩
  refine .bind_isAt (.ite (hu.tokens.isPunctuator _) (fun _ => hd.functionBody hu) fun _ => ?_)
  exact (hd.assignment hu).discard

end Derives

omit [∀ p, Moves (nested₁ p)] [∀ p, Takes (nested₁ p)] in
/-- An arrow on the same line, which both see or neither. -/
protected theorem After.isAtArrow {f₁ f₂ : Bool → Recognizer α} (hs : F.After true s₁ s₂)
    (ht : F.At true s₁ s₂ → s₁.token.isPunctuator .arrow = true → F.Outcome given post (f₁ true s₁) (f₂ true s₂))
    (hf : F.Outcome given post (f₁ false s₁) (f₂ false s₂)) [htakes : Takes (f₁ true)] :
    F.Outcome given post ((isAtArrow >>= f₁) s₁) ((isAtArrow >>= f₂) s₂) := by
  change F.Outcome given post (f₁ (s₁.token.isPunctuator .arrow && !s₁.token.newlineBefore) s₁)
    (f₂ (s₂.token.isPunctuator .arrow && !s₂.token.newlineBefore) s₂)
  cases h : s₁.token.isPunctuator .arrow && !s₁.token.newlineBefore with
  | true =>
    refine hs.live fun hs => ?_
    rw [hs.tokens.isPunctuator, hs.tokens.newlineBefore, h]
    exact ht hs (Bool.and_eq_true _ _ ▸ h).1
  | false =>
    have h₂ : (s₂.token.isPunctuator .arrow && !s₂.token.newlineBefore) = false := by
      rcases hs.input with hinput | hhalted
      · have htokens : SameTokens F.stop s₁.token s₂.token := F.sameTokens_of_input hinput
        rw [htokens.isPunctuator, htokens.newlineBefore, h]
      · have hcloses : ClosesStatement s₂.token := F.closes_of_halted hhalted
        rw [hcloses.isPunctuator _, Bool.false_and]
    rw [h₂]
    exact hf

end Following

/-- The second list can be all that the first can be. -/
structure ParenthesizedList.WidensTo (l₁ l₂ : ParenthesizedList) : Prop where
  count : l₂.count = l₁.count
  last? : Option.Rel Summary.WidensTo l₁.last? l₂.last?
  allBinding : l₁.allBinding = true → l₂.allBinding = true
  allIdentifiers : l₂.allIdentifiers = l₁.allIdentifiers
  shorthand? : l₂.shorthand?.isSome = l₁.shorthand?.isSome
  arrowOnly? : l₂.arrowOnly?.isSome = l₁.arrowOnly?.isSome

namespace ParenthesizedList.WidensTo

variable {l₁ l₂ : ParenthesizedList} (hl : l₁.WidensTo l₂)

protected theorem refl (l : ParenthesizedList) (hlast : l.last? = none) : l.WidensTo l :=
  ⟨rfl, hlast ▸ .none, id, rfl, rfl, rfl⟩

include hl

theorem push {e₁ e₂ : Summary} (he : e₁.WidensTo e₂) : (l₁.push e₁).WidensTo (l₂.push e₂) where
  count := congrArg (· + 1) hl.count
  last? := .some he
  allBinding h := by
    simp only [ParenthesizedList.push, Bool.and_eq_true] at h ⊢
    exact ⟨hl.allBinding h.1, he.shape.isBindingElement h.2⟩
  allIdentifiers := by simp only [ParenthesizedList.push, hl.allIdentifiers, he.shape.isIdentifier]
  shorthand? := by simp only [ParenthesizedList.push, Option.isSome_or, hl.shorthand?, he.shorthand?]
  arrowOnly? := hl.arrowOnly?

theorem pushRest {e₁ e₂ : Summary} {last : Bool} (he : e₁.WidensTo e₂) :
    (l₁.pushRest e₁ last).WidensTo (l₂.pushRest e₂ last) where
  count := congrArg (· + 1) hl.count
  last? := hl.last?
  allBinding h := by
    simp only [ParenthesizedList.pushRest, Bool.and_eq_true] at h ⊢
    exact ⟨⟨hl.allBinding h.1.1, he.shape.isBindingTarget h.1.2⟩, h.2⟩
  allIdentifiers := rfl
  shorthand? := by simp only [ParenthesizedList.pushRest, Option.isSome_or, hl.shorthand?, he.shorthand?]
  arrowOnly? := hl.arrowOnly?

theorem onlyBeforeArrow (t₁ t₂ : Token) : (l₁.onlyBeforeArrow t₁).WidensTo (l₂.onlyBeforeArrow t₂) :=
  { hl with
    arrowOnly? := by
      simp only [ParenthesizedList.onlyBeforeArrow, Option.isSome_or, Option.isSome_some, Bool.or_true] }

theorem shape : l₁.shape.WidensTo l₂.shape := by
  have hlast := hl.last?
  unfold ParenthesizedList.shape
  rw [hl.count]
  generalize l₁.last? = i₁ at hlast ⊢
  generalize l₂.last? = i₂ at hlast ⊢
  cases hlast with
  | none => exact .refl _
  | some h =>
    cases l₁.count with
    | zero => exact .refl _
    | succ n =>
      cases n with
      | zero => exact h.shape.inParentheses
      | succ => exact .refl _

end ParenthesizedList.WidensTo

namespace Following

variable {F : Following} {α : Type} {b : Bool} {s₁ s₂ : State} {nested₁ nested₂ : Derivation}
  {post : α → α → State → State → Prop} {given : α → Input → Prop}

theorem Outcome.rejectShorthandIn {l₁ l₂ : ParenthesizedList} {f₁ f₂ : Unit → Recognizer α} (hl : l₁.WidensTo l₂)
    (hf : F.Outcome given post (f₁ () s₁) (f₂ () s₂)) :
    F.Outcome given post ((l₁.rejectShorthand >>= f₁) s₁) ((l₂.rejectShorthand >>= f₂) s₂) := by
  have h := hl.shorthand?
  unfold ParenthesizedList.rejectShorthand
  generalize l₁.shorthand? = p₁ at h ⊢
  generalize l₂.shorthand? = p₂ at h ⊢
  cases p₁ with
  | some p => exact .error
  | none =>
    cases p₂ with
    | some => cases h
    | none => exact hf

variable [∀ p, Moves (nested₁ p)] [∀ p, Takes (nested₁ p)]

namespace Derives

variable (hd : F.Derives nested₁ nested₂)

include hd

omit [∀ p, Moves (nested₁ p)] in
protected theorem parenthesizedItem {call : Bool} {l₁ l₂ : ParenthesizedList} (hs : F.At true s₁ s₂)
    (hl : l₁.WidensTo l₂) :
    F.Outcome F.continuing (AfterTurn (fun l₁ l₂ t₁ t₂ => l₁.WidensTo l₂ ∧ F.At true t₁ t₂)
        fun l₁ l₂ t₁ t₂ => l₁.WidensTo l₂ ∧ F.At true t₁ t₂ ∧ t₁.token.isPunctuator .closeParen = true)
      (parenthesizedItem nested₁ call l₁ s₁) (parenthesizedItem nested₂ call l₂ s₂) := by
  refine .bind_token (.ite (hs.tokens.isPunctuator _) (fun h => ?_) fun _ => ?_)
  · have hl' := hl.onlyBeforeArrow s₁.token s₂.token
    refine (hs.passPunctuator h).bindTaking fun _ _ t₁ t₂ _ ht => ?_
    refine (hd.assignmentOrPattern ht).bindGentle fun e₁ e₂ u₁ u₂ he hu => .bind_token ?_
    refine .ite (hu.tokens.isPunctuator _) (fun h => .ok ⟨hl'.pushRest he, hu, h⟩) fun _ => ?_
    refine .require id fun _ => ?_
    exact hu.expect.bindGentle fun _ _ v₁ v₂ _ hv => .ok ⟨hl'.pushRest he, hv⟩
  · refine (hd.assignmentOrPattern hs).bindGentle fun e₁ e₂ t₁ t₂ he ht => ?_
    have hl' := hl.push he
    refine .bind_isAt (.ite (ht.tokens.isPunctuator _) (fun h => .ok ⟨hl', ht, h⟩) fun _ => ?_)
    refine ht.expect.bindGentle fun _ _ u₁ u₂ _ hu => .bind_token (.ok ⟨?_, hu⟩)
    rw [hu.tokens.isPunctuator]
    split
    · exact hl'.onlyBeforeArrow _ _
    · exact hl'

protected theorem parenthesizedList {call : Bool} (hs : F.At b s₁ s₂) :
    F.Yields ParenthesizedList.WidensTo true (parenthesizedList nested₁ call s₁)
      (parenthesizedList nested₂ call s₂) := by
  refine hs.expect.bindBefore (fun _ => .behind inferInstance fun first => ?_) fun _ _ t₁ t₂ _ ht => .bind_token ?_
  · dsimp only
    infer_instance
  refine Outcome.bindTaking (P := fun l₁ l₂ u₁ u₂ => l₁.WidensTo l₂ ∧ F.At true u₁ u₂ ∧
      u₁.token.isPunctuator .closeParen = true) (ht.loop ParenthesizedList.WidensTo ?_ fun l₁ l₂ u₁ u₂ hl hu => ?_)
    fun l₁ l₂ u₁ u₂ h => (h.2.1.passPunctuator h.2.2).bind fun _ _ v₁ v₂ _ hv => .ok ⟨h.1, hv⟩
  · have hempty := ParenthesizedList.WidensTo.refl {} rfl
    rw [ht.tokens.isPunctuator]
    split
    · exact hempty.onlyBeforeArrow _ _
    · exact hempty
  · refine .bind_isAt (.ite (hu.tokens.isPunctuator _) (fun h => .ok ⟨hl, hu, h⟩) fun _ => ?_)
    exact hd.parenthesizedItem hu hl

protected theorem parenthesized (hs : F.At b s₁ s₂) :
    F.Yields Summary.WidensTo true (parenthesized nested₁ s₁) (parenthesized nested₂ s₂) := by
  refine .bind_token ((hd.parenthesizedList hs).bindMoving (fun list => .bind inferInstance fun isArrow => ?_)
    fun l₁ l₂ t₁ t₂ hl ht => ?_)
  · dsimp only
    split
    · infer_instance
    · split <;> infer_instance
  refine ht.isAtArrow (fun ht harrow => ?_) ?_
  · refine .ite rfl (fun _ => .require hl.allBinding fun _ => ?_) fun h => by cases h
    rw [hl.allIdentifiers]
    exact hd.arrowBody ht harrow
  · have hfault := hl.arrowOnly?
    generalize l₁.arrowOnly? = f₁ at hfault ⊢
    generalize l₂.arrowOnly? = f₂ at hfault ⊢
    cases f₁ with
    | some => exact .error
    | none =>
      cases f₂ with
      | some => cases hfault
      | none => exact .rejectShorthandIn hl (.ok ⟨⟨hl.shape, rfl⟩, ht⟩)

protected theorem asyncCallOrArrow {p q : Position} {newlineBeforeParen : Bool} (hs : F.At b s₁ s₂) :
    F.Yields Summary.WidensTo true (asyncCallOrArrow nested₁ p newlineBeforeParen s₁)
      (asyncCallOrArrow nested₂ q newlineBeforeParen s₂) := by
  refine (hd.parenthesizedList hs).bind fun l₁ l₂ t₁ t₂ hl ht => ht.isAtArrow (fun ht harrow => ?_) ?_
  · refine .ite rfl (fun _ => ?_) nofun
    refine .guard id fun _ => ?_
    refine .require hl.allBinding fun _ => ?_
    rw [hl.allIdentifiers]
    exact hd.arrowBody ht harrow
  · exact .rejectShorthandIn hl (.ok ⟨.other _ _, ht⟩)

protected theorem asyncArrow {p q : Position} (hs : F.At b s₁ s₂) :
    F.Yields Summary.WidensTo true (asyncArrow nested₁ p s₁) (asyncArrow nested₂ q s₂) := by
  refine .bind_token ?_
  obtain ⟨h₁, h₂⟩ | ⟨i₁, i₂, hi, h₁, h₂, hk⟩ := hs.identifier?_cases
  · rw [h₁, h₂]
    exact .of_fails
  · rw [h₁, h₂]
    simp only [hi.name]
    refine .branch Iff.rfl (fun _ => .of_fails) fun _ => hs.checkBinding hi ?_
    refine (hs.pass hk).bind fun _ _ t₁ t₂ _ ht => ht.isAtArrow (fun ht harrow => ?_) .of_fails
    exact hd.arrowBody ht harrow

protected theorem plainIdentifier {i₁ i₂ : Identifier} (hs : F.At b s₁ s₂) (hi : SameName i₁ i₂)
    (hk : s₂.token.kind = s₁.token.kind) :
    F.Yields Summary.WidensTo true (plainIdentifier nested₁ i₁ s₁) (plainIdentifier nested₂ i₂ s₂) := by
  refine hs.checkReference hi ((hs.pass hk).bind fun _ _ t₁ t₂ _ ht => .bind_context ?_)
  have hforbids : t₂.context.forbidsAssigning i₁.name = true → t₁.context.forbidsAssigning i₁.name = true :=
    ht.context.forbidsAssigning
  rw [hi.name]
  refine ht.isAtArrow (fun ht harrow => ?_) (.ok ⟨⟨?_, rfl⟩, ht⟩)
  · refine .ite rfl (fun _ => ?_) nofun
    exact .guard hforbids fun _ => hd.arrowBody ht harrow
  · dsimp only
    cases h₂ : t₂.context.forbidsAssigning i₁.name with
    | true =>
      rw [hforbids h₂]
      exact .refl _
    | false =>
      cases t₁.context.forbidsAssigning i₁.name with
      | true => exact .identifier
      | false => exact .refl _

protected theorem identifierExpression {i₁ i₂ : Identifier} (hs : F.At b s₁ s₂) (hi : SameName i₁ i₂)
    (hk : s₂.token.kind = s₁.token.kind) :
    F.Yields Summary.WidensTo true (identifierExpression nested₁ i₁ s₁) (identifierExpression nested₂ i₂ s₂) := by
  refine .bind_isAtWord (.ite (hs.heads.isWord _) (fun h => ?_) fun _ => hd.plainIdentifier hs hi hk)
  refine hs.peekWord h (fun u₁ u₂ hu => ?_) fun u₁ u₂ hu hstuck => ?_
  · rw [hu.newlineBefore]
    refine .ite (by rw [hu.isKeyword]) (fun _ => ?_) fun _ => ?_
    · exact (hs.passWord h).bindTaking fun _ _ t₁ t₂ _ ht => hd.function ht ht.kind
    refine .ite (by rw [hu.isIdentifier]) (fun _ => ?_) fun _ => ?_
    · exact (hs.passWord h).bindTaking fun _ _ t₁ t₂ _ ht => hd.asyncArrow ht
    refine .ite (hu.isPunctuator _) (fun _ => ?_) fun _ => hd.plainIdentifier hs hi hk
    exact (hs.passWord h).bindTaking fun _ _ t₁ t₂ _ ht => hd.asyncCallOrArrow ht
  · -- the first takes the next token as well, unless the word is an identifier in both
    rw [hu.isKeyword, hu.isIdentifier, hu.isPunctuator _, Bool.and_false]
    cases !u₁.newlineBefore && u₁.isKeyword .function with
    | true => exact .of_stuckNext _ hstuck
    | false =>
      cases !u₁.newlineBefore && u₁.isIdentifier with
      | true => exact .of_stuckNext _ hstuck
      | false =>
        cases u₁.isPunctuator .openParen with
        | true => exact .of_stuckNext _ hstuck
        | false => exact hd.plainIdentifier hs hi hk

end Derives

end Following

end EcmaCheck.Grammar
