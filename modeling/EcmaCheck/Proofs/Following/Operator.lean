import EcmaCheck.Proofs.Following.Operand

/-!
# Operators that follow others

Unary, update and binary operators, conditionals, assignments and `yield`. Where `in` is an operator of lower precedence
than the others around an operand, it is taken behind it in the end, so that what a private name asks for is the same in
both (`Following.below`).
-/

namespace EcmaCheck.Grammar

set_option synthInstance.maxSize 20000

/-! ## What is the same in both -/

section

variable {stop : Position → Position → Prop} {t t₁ t₂ : Token}

theorem Heads.isPlainPrefix (h : Heads stop t₁ t₂) : isPlainPrefix t₂ = isPlainPrefix t₁ := by
  simp only [Grammar.isPlainPrefix, h.isPunctuator .plus, h.isPunctuator .minus, h.isPunctuator .not,
    h.isPunctuator .bitNot, h.isKeyword]

theorem isDivision_of_isPlainPrefix (h : isPlainPrefix t = true) : isDivision t = false := by
  simp only [isPlainPrefix, Bool.or_eq_true] at h
  rcases h with ((((h | h) | h) | h) | h) | h
  all_goals first
    | exact isDivision_of_isPunctuator h
    | exact isDivision_of_isKeyword h

theorem precedence?_eq_of_kind {allowIn : Bool} (h : t₂.kind = t₁.kind) :
    precedence? allowIn t₂ = precedence? allowIn t₁ := by
  simp only [precedence?, h]

theorem assignmentOperator?_eq_of_kind (h : t₂.kind = t₁.kind) : assignmentOperator? t₂ = assignmentOperator? t₁ := by
  simp only [assignmentOperator?, h]

theorem beginsYieldOperand_eq_of_kind (h : t₂.kind = t₁.kind) : beginsYieldOperand t₂ = beginsYieldOperand t₁ := by
  simp only [beginsYieldOperand, h]

namespace ClosesStatement

variable (h : ClosesStatement t)

include h

theorem precedence? (allowIn : Bool) : precedence? allowIn t = none := by
  rcases h with h | h <;> simp only [Grammar.precedence?, h]

theorem assignmentOperator? : assignmentOperator? t = none := by
  rcases h with h | h <;> simp only [Grammar.assignmentOperator?, h] <;> rfl

theorem beginsYieldOperand : beginsYieldOperand t = false := by
  rcases h with h | h <;> simp only [Grammar.beginsYieldOperand, h]

end ClosesStatement

end

/-- The shape of an application is not that of an arrow function. -/
theorem ne_arrow_of_binaryShape? {operator : Token} {left right shape : Shape}
    (h : binaryShape? operator left right = some shape) : shape ≠ .arrow := by
  unfold binaryShape? at h
  split at h
  · split at h <;> cases h
    exact nofun
  · split at h
    · split at h <;> cases h
      exact nofun
    · cases h
      exact nofun

namespace Following

variable {F : Following} {b : Bool} {s₁ s₂ : State} {nested₁ nested₂ : Derivation}
  [∀ p, Moves (nested₁ p)] [∀ p, Takes (nested₁ p)]

instance (e : Summary) (p : Position) : KeepsArrow e (pure (.other p)) :=
  .of_gentle _ _ inferInstance fun _ _ _ h => by cases h; exact nofun

instance (e : Summary) (p : Position) : KeepsArrow e (pure ⟨.unary, p, none⟩) :=
  .of_gentle _ _ inferInstance fun _ _ _ h => by cases h; exact nofun

theorem discard_bind {α β : Type} (x : Recognizer α) (f : Unit → Recognizer β) :
    (discard x >>= f) = x >>= fun _ => f () := by
  change ((x >>= fun _ => pure ()) >>= f) = _
  rw [bind_assoc]
  rfl

namespace Derives

variable (hd : F.Derives nested₁ nested₂)

include hd

/-! ## Unary operators -/

protected theorem update (hs : F.At b s₁ s₂) :
    F.Outcome F.operand (fun e₁ e₂ t₁ t₂ => e₁.WidensTo e₂ ∧ F.After true t₁ t₂) (update nested₁ s₁)
      (update nested₂ s₂) := by
  refine Outcome.notingOperand ((hd.leftHandSide hs).bindOperand fun e₁ e₂ t₁ t₂ he => .bind_token ?_)
  obtain ⟨he, ht⟩ := he
  refine ht.branch (fun ht => ?_) (fun h => ?_) (fun _ ht => ?_) fun _ => .ok ⟨he, ht⟩
  · rw [ht.tokens.isPunctuator, ht.tokens.isPunctuator, ht.tokens.newlineBefore]
  · rw [h.isPunctuator _, h.isPunctuator _, Bool.or_self, Bool.false_and]
  · refine .requireOperand he (.require he.shape.isSimpleTarget fun _ => ?_)
    exact (ht.pass ht.kind).bind fun _ _ _ _ _ hu => .ok ⟨.other _ _, hu⟩

omit [∀ p, Moves (nested₁ p)] in
protected theorem prefixed (hs : F.At b s₁ s₂) (hk : s₂.token.kind = s₁.token.kind) :
    F.Outcome F.operand (fun e₁ e₂ t₁ t₂ => e₁.WidensTo e₂ ∧ F.After true t₁ t₂) (prefixed nested₁ s₁)
      (prefixed nested₂ s₂) := by
  refine (hs.pass hk).bindTaking fun _ _ t₁ t₂ _ ht => ?_
  exact Outcome.bindOperand (hd.production .unary ht nofun) fun e₁ e₂ u₁ u₂ he => .requireOperand he.1 (.ok he)

protected theorem expandUnary (hs : F.At b s₁ s₂) :
    F.Outcome F.operand (fun e₁ e₂ t₁ t₂ => e₁.WidensTo e₂ ∧ F.After true t₁ t₂) (expandUnary nested₁ s₁)
      (expandUnary nested₂ s₂) := by
  have unary : ∀ p q : Position, Summary.WidensTo ⟨.unary, p, none⟩ ⟨.unary, q, none⟩ := fun _ _ => .of_shape
  refine Outcome.notingOperand (.bind_token (.bind_context (.ite ?_ (fun h => ?_) fun _ => ?_)))
  · rw [hs.heads.isPlainPrefix, hs.heads.isWord, hs.context.awaitOperator]
  · have hdivision : isDivision s₁.token = false := by
      rcases Bool.or_eq_true _ _ ▸ h with h | h
      · exact isDivision_of_isPlainPrefix h
      · exact isDivision_of_isWord (Bool.and_eq_true _ _ ▸ h).2
    rw [discard_bind, discard_bind]
    exact (hd.prefixed hs (hs.heads.kind hdivision)).bindOperand fun _ _ _ _ he => .ok ⟨unary _ _, he.2⟩
  refine .ite (hs.heads.isKeyword _) (fun h => ?_) fun _ => ?_
  · refine (hd.prefixed hs (hs.heads.kind (isDivision_of_isKeyword h))).bindOperand fun e₁ e₂ t₁ t₂ he =>
      .bind_context ?_
    refine .guard (fun h => ?_) fun _ => .ok ⟨unary _ _, he.2⟩
    rw [Bool.and_eq_true] at h ⊢
    refine ⟨he.2.context.strict h.1, ?_⟩
    have hname := h.2
    have hshape := he.1.shape
    generalize e₁.shape = shape₁ at hshape ⊢
    generalize e₂.shape = shape₂ at hshape hname
    cases hshape <;> exact hname
  refine .ite ?_ (fun h => ?_) fun _ => hd.update hs
  · rw [hs.heads.isPunctuator .increment, hs.heads.isPunctuator .decrement]
  · refine (hd.prefixed hs ?_).bindOperand fun e₁ e₂ t₁ t₂ he => ?_
    · rw [Bool.or_eq_true] at h
      exact hs.heads.kind (h.elim (isDivision_of_isPunctuator ·) (isDivision_of_isPunctuator ·))
    · exact .require he.1.shape.isSimpleTarget fun _ => .ok ⟨.other _ _, he.2⟩

end Derives

/-! ## Binary operators -/

end Following

section

variable (nested : Derivation) [∀ p, Moves (nested p)] (least : Nat) (allowIn : Bool) (left : Summary)

instance : Moves (binaryTurn nested least allowIn left) := by
  unfold binaryTurn
  refine .bind inferInstance fun operator => ?_
  dsimp only
  repeat' first
    | infer_instance
    | split
    | refine .bind inferInstance fun _ => ?_

end

namespace Following

variable {F : Following} {b : Bool} {s₁ s₂ : State} {nested₁ nested₂ : Derivation}
  [∀ p, Moves (nested₁ p)] [∀ p, Takes (nested₁ p)]

/-- Behind binary operators of at least the given precedence `in` may remain, if it is not one of them. -/
def below (F : Following) (least : Nat) (allowIn : Bool) (e : Summary) (i : Input) : Prop :=
  allowIn = false ∨ 8 < least → F.operand e i

omit [∀ p, Takes (nested₁ p)] in
/-- What remains behind the last turn may be asked for before it. -/
theorem operand_of_turns {least : Nat} {allowIn : Bool} {n : Nat} {e c : Summary} {s t : State}
    (hrun : repeatTurns (binaryTurn nested₁ least allowIn) n e s = .ok c t) (hfinishes : F.Finishes t.input)
    (hbelow : F.below least allowIn c t.input) : F.operand e s.input := by
  intro harrow hin
  have hkind : s.token.kind = .keyword .«in» := kind_of_isKeyword hin
  cases n with
  | zero => cases hrun
  | succ n =>
    obtain ⟨_, _, htoken, hrun⟩ := bind_eq_ok.mp hrun
    cases htoken
    obtain ⟨r, u, hturn, hrest⟩ := bind_eq_ok.mp hrun
    obtain ⟨_, _, htoken, hturn⟩ := bind_eq_ok.mp hturn
    cases htoken
    simp only [precedence?, hkind] at hturn
    cases allowIn with
    | false =>
      cases hturn
      cases hrest
      exact hbelow (.inl rfl) harrow hin
    | true =>
      change (if (decide (8 < least) || decide (e.shape = Shape.arrow)) = true then _ else _ : Recognizer _)
        s = _ at hturn
      by_cases hleast : 8 < least
      · rw [if_pos (by rw [decide_eq_true hleast, Bool.true_or])] at hturn
        cases hturn
        cases hrest
        exact hbelow (.inr hleast) harrow hin
      · rw [if_neg (by rw [decide_eq_false hleast, decide_eq_false harrow]; exact Bool.false_ne_true)] at hturn
        refine ⟨t.input, ((show Takes _ from ?_).takes hturn).trans (Moves.leads ?_ hrest), hfinishes⟩
        · repeat' first
            | infer_instance
            | split
            | refine Takes.bind inferInstance fun _ => ?_
            | refine Takes.behind inferInstance fun _ => ?_
            | refine Moves.bind inferInstance fun _ => ?_
        · split <;> infer_instance

/-- The operator has been applied without another token being taken. -/
theorem again_of_requireOperand {operator : Token} {p : Position} {left : Shape} {right : Summary} {s t : State}
    {r : Turn Summary Summary} (h : (do
      requireOperand right
      match binaryShape? operator left right.shape with
      | some shape => return .again ⟨shape, p, none⟩
      | none => throw (unexpectedFault operator) : Recognizer (Turn Summary Summary)) s = .ok r t) :
    t = s ∧ ∃ e, r = .again e ∧ e.shape ≠ .arrow := by
  obtain ⟨_, u, hoperand, h⟩ := bind_eq_ok.mp h
  cases state_of_requireOperand hoperand
  cases hshape : binaryShape? operator left right.shape with
  | some shape =>
    rw [hshape] at h
    cases h
    exact ⟨rfl, _, rfl, ne_arrow_of_binaryShape? hshape⟩
  | none =>
    rw [hshape] at h
    cases h

namespace Derives

variable (hd : F.Derives nested₁ nested₂)

include hd

protected theorem binaryTurn {least : Nat} {allowIn : Bool} {e₁ e₂ : Summary} (hs : F.After true s₁ s₂)
    (he : e₁.WidensTo e₂) :
    F.Outcome (givenTurn F.operand (F.below least allowIn))
      (AfterTurn (fun e₁ e₂ t₁ t₂ => e₁.WidensTo e₂ ∧ F.After true t₁ t₂)
        fun e₁ e₂ t₁ t₂ => e₁.WidensTo e₂ ∧ F.After true t₁ t₂)
      (binaryTurn nested₁ least allowIn e₁ s₁) (binaryTurn nested₂ least allowIn e₂ s₂) := by
  refine .bind_token ?_
  have hkind (hat : F.At true s₁ s₂) : precedence? allowIn s₂.token = precedence? allowIn s₁.token :=
    precedence?_eq_of_kind hat.kind
  have hcloses (hhalted : F.halted s₁.input s₂.input) : precedence? allowIn s₂.token = none :=
    (F.closes_of_halted hhalted).precedence? allowIn
  have hstops {p : Nat} : (decide (p < least) || decide (e₂.shape = .arrow)) =
      (decide (p < least) || decide (e₁.shape = .arrow)) := by
    rw [decide_eq_decide.mpr he.isArrow]
  cases h₁ : precedence? allowIn s₁.token with
  | none =>
    have h₂ : precedence? allowIn s₂.token = none :=
      hs.input.elim (fun h => (hkind { hs with input := h }).trans h₁) hcloses
    rw [h₂]
    exact .ok ⟨he, hs⟩
  | some precedence =>
    dsimp only
    cases hstop : decide (precedence < least) || decide (e₁.shape = .arrow) with
    | true =>
      rw [if_pos rfl]
      rcases hs.input with hinput | hhalted
      · rw [hkind { hs with input := hinput }, h₁]
        dsimp only
        rw [hstops, hstop, if_pos rfl]
        exact .ok ⟨he, hs⟩
      · rw [hcloses hhalted]
        exact .ok ⟨he, hs⟩
    | false =>
      rw [if_neg Bool.false_ne_true]
      refine hs.live_of_takes (fun r t hrun => (show Takes _ from ?_).takes hrun) fun hs => ?_
      · repeat' first
          | infer_instance
          | split
          | refine Takes.bind inferInstance fun _ => ?_
          | refine Takes.behind inferInstance fun _ => ?_
          | refine Moves.bind inferInstance fun _ => ?_
      rw [hkind hs, h₁]
      dsimp only
      rw [hstops, hstop, if_neg Bool.false_ne_true]
      have hpower := hs.tokens.isPunctuator .power
      generalize s₂.token.isPunctuator .power = isPower at hpower ⊢
      subst hpower
      refine .guard (fun h => ?_) fun _ =>
        .rejectShorthand he ((hs.pass hs.kind).bindBefore (fun _ => ?_) fun _ _ t₁ t₂ _ ht => ?_)
      · rw [Bool.and_eq_true, decide_eq_true_eq] at h ⊢
        exact ⟨h.1, (he.shape.eq_iff (.inr (.inl rfl))).mp h.2⟩
      · refine .bind inferInstance fun right => .bind inferInstance fun _ => ?_
        split <;> infer_instance
      refine Outcome.bindWith (hd.production (.rightOperand _ allowIn) ht nofun) (fun r v c w _ hrun => ?_)
        (fun r v c w _ hrun hw hc _ hin => ?_) fun r₁ r₂ u₁ u₂ hr => .requireOperand hr.1 ?_
      · obtain ⟨rfl, _⟩ := again_of_requireOperand hrun
        exact .done _
      · obtain ⟨rfl, e, rfl, hne⟩ := again_of_requireOperand hrun
        exact hc hne hin
      · rw [binaryShape?_eq hs.kind he.shape hr.1.shape]
        cases binaryShape? s₁.token e₁.shape r₁.shape with
        | some shape => exact .ok ⟨.of_shape, hr.2⟩
        | none => exact .of_fails

protected theorem binary {least : Nat} {allowIn : Bool} (hs : F.At b s₁ s₂) :
    F.Outcome (F.below least allowIn) (fun e₁ e₂ t₁ t₂ => e₁.WidensTo e₂ ∧ F.After true t₁ t₂)
      (binary nested₁ least allowIn s₁) (binary nested₂ least allowIn s₂) := by
  unfold binary
  refine Outcome.noting ?_ fun e i h hno harrow hin => (h hno harrow hin).of_noteEnd
  refine Outcome.bindWith (hd.expandUnary hs) (fun e t c u _ hrun => ?_) (fun e t c u _ hrun hu hc => ?_)
    fun e₁ e₂ t₁ t₂ he => ?_
  · exact Moves.leads inferInstance hrun
  · exact operand_of_turns hrun hu hc
  refine .bind_get (.repeatTurns (fun e₁ e₂ t₁ t₂ => e₁.WidensTo e₂ ∧ F.After true t₁ t₂) F.operand
    (fun _ _ _ _ _ _ h => ⟨h.1, h.2.noteTurn⟩) (fun n found e t c u hrun hu hc harrow hin => ?_)
    (fun e₁ e₂ t₁ t₂ he => hd.binaryTurn he.2 he.1) (fun _ => inferInstance) _ _ he)
  obtain ⟨_, v, hnoted, hrun⟩ := bind_eq_ok.mp hrun
  cases hnoted
  obtain ⟨j, htakes, hfinishes⟩ := operand_of_turns hrun hu hc harrow hin
  exact ⟨j, (Input.Rests.noteTurn found (.refl _)).takes htakes, hfinishes⟩

/-! ## Conditionals and assignments -/

protected theorem conditional {allowIn : Bool} (hs : F.At b s₁ s₂) :
    F.Outcome (F.ending allowIn) (fun e₁ e₂ t₁ t₂ => e₁.WidensTo e₂ ∧ F.After true t₁ t₂)
      (conditional nested₁ allowIn s₁) (conditional nested₂ allowIn s₂) := by
  have htest : F.Outcome (F.ending allowIn) (fun e₁ e₂ t₁ t₂ => e₁.WidensTo e₂ ∧ F.After true t₁ t₂)
      (binary nested₁ 1 allowIn s₁) (binary nested₂ 1 allowIn s₂) :=
    (hd.binary hs).given_mono fun e t _ hending hno _ _ => hending (hno.resolve_right (by decide))
  refine Outcome.notingEnding (htest.bindEnding fun e₁ e₂ t₁ t₂ he => .bind_isAt ?_)
  obtain ⟨he, ht⟩ := he
  refine ht.branch (fun ht => ?_) (fun h => ?_) (fun h ht => .rejectShorthand he ?_) fun _ => .ok ⟨he, ht⟩
  · rw [ht.tokens.isPunctuator, decide_eq_decide.mpr (not_congr he.isArrow)]
  · rw [h.isPunctuator _, Bool.false_and]
  refine (ht.passPunctuator (Bool.and_eq_true _ _ ▸ h).1).bindTaking fun _ _ u₁ u₂ _ hu => ?_
  refine (hd.assignment hu).discard.bindTaking fun _ _ v₁ v₂ _ hv => hv.expect.bindTaking fun _ _ w₁ w₂ _ hw => ?_
  exact (hd.assignmentOf allowIn hw).discardEnding.bindEnding fun _ _ x₁ x₂ hx => .ok ⟨.other _ _, hx⟩

protected theorem yieldExpression {allowIn : Bool} (hs : F.At b s₁ s₂) (hk : s₂.token.kind = s₁.token.kind) :
    F.Outcome (F.ending allowIn) (fun e₁ e₂ t₁ t₂ => e₁.WidensTo e₂ ∧ F.After true t₁ t₂)
      (yieldExpression nested₁ allowIn s₁) (yieldExpression nested₂ allowIn s₂) := by
  refine .bind_token ((hs.pass hk).bindMoving (fun _ => .bind inferInstance fun t => ?_) fun _ _ t₁ t₂ _ ht =>
    .bind_token ?_)
  · dsimp only
    infer_instance
  have hvalue {u₁ u₂ : State} (hu : F.At true u₁ u₂) :
      F.Outcome (F.ending allowIn) (fun e₁ e₂ t₁ t₂ => e₁.WidensTo e₂ ∧ F.After true t₁ t₂)
        ((do discard (assignment nested₁ allowIn); return .other s₁.token.start : Recognizer Summary) u₁)
        ((do discard (assignment nested₂ allowIn); return .other s₂.token.start : Recognizer Summary) u₂) :=
    (hd.assignmentOf allowIn hu).discardEnding.bindEnding fun _ _ v₁ v₂ hv => .ok ⟨.other _ _, hv⟩
  -- where the first has halted, the second has no operand, whether or not a line ends there
  have hnone (h : F.halted t₁.input t₂.input) : (do
      let delegates ← eat .star
      if delegates || beginsYieldOperand (← token) then discard (assignment nested₂ allowIn)
      return .other s₂.token.start : Recognizer Summary) t₂ = .ok (.other s₂.token.start) t₂ := by
    have hcloses : ClosesStatement t₂.token := F.closes_of_halted h
    rw [eat_bind, if_neg (Bool.eq_false_iff.mp (hcloses.isPunctuator _))]
    exact congrFun (if_neg (Bool.eq_false_iff.mp hcloses.beginsYieldOperand)) t₂
  cases hline : t₁.token.newlineBefore with
  | true =>
    rw [if_pos rfl]
    rcases ht.input with hinput | hhalted
    · have htokens : SameTokens F.stop t₁.token t₂.token := F.sameTokens_of_input hinput
      rw [if_pos (htokens.newlineBefore.trans hline)]
      exact .ok ⟨.other _ _, ht⟩
    · split
      · exact .ok ⟨.other _ _, ht⟩
      · rw [hnone hhalted]
        exact .ok ⟨.other _ _, ht⟩
  | false =>
    have hread : (if t₂.token.newlineBefore = true then pure (.other s₂.token.start) else do
        let delegates ← eat .star
        if delegates || beginsYieldOperand (← token) then discard (assignment nested₂ allowIn)
        return .other s₂.token.start : Recognizer Summary) t₂ = (do
        let delegates ← eat .star
        if delegates || beginsYieldOperand (← token) then discard (assignment nested₂ allowIn)
        return .other s₂.token.start : Recognizer Summary) t₂ := by
      rcases ht.input with hinput | hhalted
      · have htokens : SameTokens F.stop t₁.token t₂.token := F.sameTokens_of_input hinput
        rw [htokens.newlineBefore, hline, if_neg Bool.false_ne_true]
      · split
        · exact (hnone hhalted).symm
        · rfl
    rw [if_neg Bool.false_ne_true, hread]
    refine ht.eat (fun u₁ u₂ hu => ?_) (.bind_token ?_)
    · exact .bind_token (.ite rfl (fun _ => hu.live fun hu => hvalue hu) nofun)
    · exact ht.branch (fun ht => beginsYieldOperand_eq_of_kind ht.kind) (fun h => h.beginsYieldOperand)
        (fun _ ht => hvalue ht) fun _ => .ok ⟨.other _ _, ht⟩

protected theorem expandAssignment {allowIn : Bool} (hs : F.At b s₁ s₂) :
    F.Outcome (F.ending allowIn) (fun e₁ e₂ t₁ t₂ => e₁.WidensTo e₂ ∧ F.After true t₁ t₂)
      (expandAssignment nested₁ allowIn s₁) (expandAssignment nested₂ allowIn s₂) := by
  refine .bind_context (.bind_token ?_)
  rw [hs.heads.isWord, hs.context.yieldOperator]
  refine .ite rfl (fun h => ?_) fun _ => Outcome.bindEndingGentle (hd.conditional hs)
    (fun target => .bind inferInstance (fun operator => ?_) fun operator => ?_) fun e₁ e₂ t₁ t₂ he => .bind_token ?_
  · have hword := (Bool.and_eq_true _ _ ▸ h).2
    exact hd.yieldExpression hs (hs.heads.kind (isDivision_of_isWord hword))
  · dsimp only
    repeat' first | infer_instance | split
  · dsimp only
    repeat' first | infer_instance | split
  obtain ⟨he, ht⟩ := he
  cases h₁ : assignmentOperator? t₁.token with
  | none =>
    have h₂ : assignmentOperator? t₂.token = none := by
      rcases ht.input with hinput | hhalted
      · exact (assignmentOperator?_eq_of_kind (F.sameTokens_of_input hinput).kind).trans h₁
      · exact (F.closes_of_halted hhalted).assignmentOperator?
    rw [h₂]
    exact .ok ⟨he, ht⟩
  | some p =>
    have hvalue {r₁ r₂ : Summary} (hr : r₁.WidensTo r₂) (ht : F.At true t₁ t₂) :
        F.Outcome (F.ending allowIn) (fun e₁ e₂ t₁ t₂ => e₁.WidensTo e₂ ∧ F.After true t₁ t₂)
          ((do advance; discard (assignment nested₁ allowIn); return r₁ : Recognizer Summary) t₁)
          ((do advance; discard (assignment nested₂ allowIn); return r₂ : Recognizer Summary) t₂) := by
      refine (ht.pass ht.kind).bindTaking fun _ _ u₁ u₂ _ hu => ?_
      exact (hd.assignmentOf allowIn hu).discardEnding.bindEnding fun _ _ v₁ v₂ hv => .ok ⟨hr, hv⟩
    have hkind (hat : F.At true t₁ t₂) : assignmentOperator? t₂.token = some p :=
      (assignmentOperator?_eq_of_kind hat.kind).trans h₁
    cases p with
    | assign =>
      refine ht.live fun ht => ?_
      rw [hkind ht]
      refine .require he.shape.isAssignmentTarget fun _ => hvalue ⟨?_, rfl⟩ ht
      have hshape := he.shape
      dsimp only
      generalize e₁.shape = shape₁ at hshape ⊢
      generalize e₂.shape = shape₂ at hshape ⊢
      cases hshape with
      | pattern => exact .assignment
      | other binding => cases binding <;> first | exact .refl _ | exact .assignment
      | _ => exact .refl _
    | _ =>
      refine ht.live fun ht => ?_
      rw [hkind ht]
      exact .rejectShorthand he (.require he.shape.isSimpleTarget fun _ => hvalue (.other _ _) ht)

end Derives

end Following

end EcmaCheck.Grammar
