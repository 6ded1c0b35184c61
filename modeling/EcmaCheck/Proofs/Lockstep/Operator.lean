import EcmaCheck.Grammar.Operator
import EcmaCheck.Proofs.Lockstep.Operand

/-!
# Operators in lockstep

Unary and binary operators, conditionals, assignments and `yield`. A `yield` at the end of the text is the one place
where the two take different branches: only the second may see a line break there, but no operand follows in the first
either.
-/

namespace EcmaCheck.Grammar.Simulation

set_option synthInstance.maxSize 20000

variable {sim : Simulation} {b : Bool} {k c : Nat} {s₁ s₂ : State} {nested₁ nested₂ : Derivation}
  [∀ p, Moves (nested₁ p)]

/-! ## Tokens as operators -/

theorem isEnd_of_isUpdate {t : Token} (h : (t.isPunctuator .increment || t.isPunctuator .decrement) = true) :
    t.isEnd = false := by
  rcases Bool.or_eq_true _ _ ▸ h with h | h <;> exact Token.isEnd_of_isPunctuator h

theorem isPlainPrefix_eq {t₁ t₂ : Token} (h : sim.Tokens t₁ t₂) : isPlainPrefix t₂ = isPlainPrefix t₁ := by
  simp only [isPlainPrefix, h.isPunctuator, h.isKeyword]

theorem isEnd_of_isPlainPrefix {t : Token} (h : isPlainPrefix t = true) : t.isEnd = false := by
  simp only [isPlainPrefix, Bool.or_eq_true] at h
  obtain ((((h | h) | h) | h) | h) | h := h
  · exact Token.isEnd_of_isPunctuator h
  · exact Token.isEnd_of_isPunctuator h
  · exact Token.isEnd_of_isPunctuator h
  · exact Token.isEnd_of_isPunctuator h
  · exact Token.isEnd_of_isKeyword h
  · exact Token.isEnd_of_isKeyword h

theorem precedence?_eq {t₁ t₂ : Token} (h : sim.Tokens t₁ t₂) (allowIn : Bool) :
    precedence? allowIn t₂ = precedence? allowIn t₁ := by
  simp only [precedence?, h.kind]

theorem isEnd_of_precedence? {t : Token} {allowIn : Bool} {n : Nat} (h : precedence? allowIn t = some n) :
    t.isEnd = false := by
  unfold precedence? at h
  cases hk : t.kind with
  | endOfInput => rw [hk] at h; cases h
  | _ => exact Token.isEnd_of_kind hk nofun

theorem binaryShape?_eq {t₁ t₂ : Token} (h : sim.Tokens t₁ t₂) (left right : Shape) :
    binaryShape? t₂ left right = binaryShape? t₁ left right := by
  simp only [binaryShape?, h.isPunctuator]

theorem beginsYieldOperand_eq {t₁ t₂ : Token} (h : sim.Tokens t₁ t₂) :
    beginsYieldOperand t₂ = beginsYieldOperand t₁ := by
  simp only [beginsYieldOperand, h.kind]

theorem assignmentOperator?_eq {t₁ t₂ : Token} (h : sim.Tokens t₁ t₂) :
    assignmentOperator? t₂ = assignmentOperator? t₁ := by
  simp only [assignmentOperator?, h.kind]

theorem isEnd_of_assignmentOperator? {t : Token} {p : Punctuator} (h : assignmentOperator? t = some p) :
    t.isEnd = false := by
  unfold assignmentOperator? at h
  cases hk : t.kind with
  | endOfInput => rw [hk] at h; cases h
  | _ => exact Token.isEnd_of_kind hk nofun

/-! ## Where the text has ended -/

theorem bind_of_eq_ok {α β : Type} {first : Recognizer α} {next : α → Recognizer β} {s t : State} {a : α}
    (h : first s = .ok a t) : (first >>= next) s = next a t := by
  change EStateM.bind first next s = _
  rw [EStateM.bind, h]

theorem eat_of_isEnd {s : State} {p : Punctuator} (h : s.token.isEnd = true) : eat p s = .ok false s := by
  unfold eat
  rw [bind_of_eq_ok (show isAt p s = .ok (s.token.isPunctuator p) s from rfl), Token.isPunctuator_of_isEnd h]
  rfl

theorem beginsYieldOperand_of_isEnd {t : Token} (h : t.isEnd = true) : beginsYieldOperand t = false := by
  simp only [beginsYieldOperand, Token.kind_of_isEnd h]

namespace Derives

variable (hd : sim.Derives k nested₁ nested₂)

include hd

/-! ## Unary operators -/

protected theorem update (hs : sim.At b k c s₁ s₂) :
    sim.Yields sim.Summaries true k (c + 1) (update nested₁ s₁) (update nested₂ s₂) := by
  refine Yields.notingOperandEnd ((hd.leftHandSide hs).bind fun e₁ e₂ t₁ t₂ he ht => .bind_token ?_)
  have hupdate : (t₂.token.isPunctuator .increment || t₂.token.isPunctuator .decrement) =
      (t₁.token.isPunctuator .increment || t₁.token.isPunctuator .decrement) := by
    rw [ht.tokens.isPunctuator, ht.tokens.isPunctuator]
  refine .ite (ht.tokens.onSameLine_eq hupdate isEnd_of_isUpdate) (fun h => ht.requireOperand he ?_)
    fun _ => .ok ⟨he, ht⟩
  rw [he.shape]
  refine .ite rfl (fun _ => ?_) fun _ => ht.failFirst he.start rfl
  refine (ht.passOperand ?_).bind fun _ _ u₁ u₂ _ hu => .ok ⟨.other he.start, hu.mono (by omega)⟩
  rcases Bool.or_eq_true _ _ ▸ (Bool.and_eq_true _ _ ▸ h).1 with h | h <;>
    rw [Token.endsOperand_of_isPunctuator h] <;> rfl

protected theorem prefixed (hs : sim.At b k c s₁ s₂) (he : s₁.token.isEnd = false) :
    sim.Yields sim.Summaries true k (c + 1) (prefixed nested₁ s₁) (prefixed nested₂ s₂) := by
  refine (hs.pass he).bind fun _ _ t₁ t₂ _ ht => ?_
  refine (hd.production .unary ht (Nat.le_add_left 1 c) nofun).bind fun e₁ e₂ u₁ u₂ he hu => ?_
  exact hu.requireOperand he (.ok ⟨he, hu.mono (by omega)⟩)

protected theorem expandUnary (hs : sim.At b k c s₁ s₂) :
    sim.Yields sim.Summaries true k (c + 1) (expandUnary nested₁ s₁) (expandUnary nested₂ s₂) := by
  have hstart := hs.tokens.start
  refine Yields.notingOperandEnd (.bind_token (hs.sameContext ?_))
  refine .ite ?_ (fun h => ?_) fun _ => ?_
  · rw [isPlainPrefix_eq hs.tokens, hs.tokens.isWord]
  · have hend : s₁.token.isEnd = false := by
      rcases Bool.or_eq_true _ _ ▸ h with h | h
      · exact isEnd_of_isPlainPrefix h
      · exact Token.isEnd_of_isWord (Bool.and_eq_true _ _ ▸ h).2
    exact (hd.prefixed hs hend).discard.bind fun _ _ t₁ t₂ _ ht => .ok ⟨⟨rfl, hstart, .none⟩, ht⟩
  refine .ite (hs.tokens.isKeyword _) (fun h => ?_) fun _ => ?_
  · refine (hd.prefixed hs (Token.isEnd_of_isKeyword h)).bind fun e₁ e₂ t₁ t₂ he ht => ht.sameContext ?_
    rw [he.shape]
    exact .ite rfl (fun _ => ht.failFirst hstart rfl) fun _ => .ok ⟨⟨rfl, hstart, .none⟩, ht⟩
  refine .ite ?_ (fun h => ?_) fun _ => hd.update hs
  · rw [hs.tokens.isPunctuator, hs.tokens.isPunctuator]
  · refine (hd.prefixed hs (isEnd_of_isUpdate h)).bind fun e₁ e₂ t₁ t₂ he ht => ?_
    rw [he.shape]
    exact .ite rfl (fun _ => .ok ⟨.other hstart, ht⟩) fun _ => ht.failFirst he.start rfl

/-! ## Binary operators -/

omit [∀ p, Moves (nested₁ p)] in
protected theorem rightOperand {precedence : Nat} {allowIn : Bool} (hs : sim.At b k c s₁ s₂)
    (hc : 1 ≤ c) :
    sim.Yields sim.Summaries true k (c + 1) (nested₁ (.rightOperand precedence allowIn) s₁)
      (nested₂ (.rightOperand precedence allowIn) s₂) :=
  hd.production (.rightOperand precedence allowIn) hs hc nofun

protected theorem binary {least : Nat} {allowIn : Bool} (hs : sim.At b k c s₁ s₂) :
    sim.Yields sim.Summaries true k (c + 1) (binary nested₁ least allowIn s₁) (binary nested₂ least allowIn s₂) := by
  refine Yields.notingOperandEnd ((hd.expandUnary hs).bindMoving (fun e => .loop fun left => ?_)
    fun e₁ e₂ t₁ t₂ he ht => ?_)
  · refine .bind inferInstance fun operator => ?_
    dsimp only
    repeat' first
      | infer_instance
      | split
      | refine .bind inferInstance fun _ => ?_
  refine ht.loopMoving sim.Summaries he (fun left => .bind inferInstance fun operator => ?_)
    fun c' l₁ l₂ u₁ u₂ hc hl hu => .bind_token ?_
  · dsimp only
    repeat' first
      | infer_instance
      | split
      | refine .bind inferInstance fun _ => ?_
  have hoperator := hu.tokens
  rw [precedence?_eq hoperator]
  cases hp : precedence? allowIn u₁.token with
  | none => exact .ok ⟨hl, hu.mono hc⟩
  | some precedence =>
    have hpower := hoperator.isPunctuator .power
    generalize u₂.token.isPunctuator .power = isPower at hpower ⊢
    subst hpower
    rw [hl.shape]
    refine .ite rfl (fun _ => .ok ⟨hl, hu.mono hc⟩) fun _ => ?_
    refine .ite rfl (fun _ => hu.failFirst hoperator.start rfl) fun _ => ?_
    refine hu.rejectShorthand hl ((hu.pass (isEnd_of_precedence? hp)).bindMoving
      (fun _ => .bind inferInstance fun right => .bind inferInstance fun _ => ?_) fun _ _ v₁ v₂ _ hv => ?_)
    · split <;> infer_instance
    refine (hd.rightOperand hv (by omega)).bindMoving (fun right => .bind inferInstance fun _ => ?_)
      fun r₁ r₂ w₁ w₂ hr hw => ?_
    · split <;> infer_instance
    refine hw.requireOperand hr ?_
    rw [binaryShape?_eq hoperator, hr.shape]
    cases binaryShape? u₁.token l₁.shape r₁.shape with
    | some shape => exact .ok ⟨⟨rfl, hl.start, .none⟩, hw.mono (by omega)⟩
    | none => exact hw.throw (fault_unexpected hoperator)

/-! ## Conditionals and assignments -/

protected theorem conditional {allowIn : Bool} (hs : sim.At b k c s₁ s₂) :
    sim.Yields sim.Summaries true k (c + 1) (conditional nested₁ allowIn s₁) (conditional nested₂ allowIn s₂) := by
  refine Yields.notingOperandEnd ((hd.binary hs).bind fun e₁ e₂ t₁ t₂ he ht => .bind_isAt ?_)
  rw [he.shape]
  refine .ite ?_ (fun h => ht.rejectShorthand he ?_) fun _ => .ok ⟨he, ht⟩
  · rw [ht.tokens.isPunctuator]
  refine (ht.pass (Token.isEnd_of_isPunctuator (Bool.and_eq_true _ _ ▸ h).1)).bind fun _ _ u₁ u₂ _ hu => ?_
  refine (hd.assignment true hu (by omega)).discard.bind fun _ _ v₁ v₂ _ hv => ?_
  refine hv.expect.bind fun _ _ w₁ w₂ _ hw => ?_
  refine (hd.assignment allowIn hw (by omega)).discard.bind fun _ _ x₁ x₂ _ hx => ?_
  exact .ok ⟨.other he.start, hx.mono (by omega)⟩

protected theorem yieldExpression {allowIn : Bool} (hs : sim.At b k c s₁ s₂) (he : s₁.token.endsOperand = true) :
    sim.Yields sim.Summaries true k (c + 1) (yieldExpression nested₁ allowIn s₁)
      (yieldExpression nested₂ allowIn s₂) := by
  have hstart := hs.tokens.start
  refine .bind_token ((hs.passOperand he).bind fun _ _ t₁ t₂ _ ht => .bind_token ?_)
  by_cases hline : t₂.token.newlineBefore = t₁.token.newlineBefore
  · rw [hline]
    refine .ite rfl (fun _ => .ok ⟨.other hstart, ht⟩) fun _ => ?_
    refine ht.eat (fun u₁ u₂ hu => .bind_token ?_) fun _ => .bind_token ?_
    · refine .ite rfl (fun _ => ?_) nofun
      refine (hd.assignment allowIn hu (by omega)).discard.bind fun _ _ v₁ v₂ _ hv => ?_
      exact .ok ⟨.other hstart, hv.mono (by omega)⟩
    · refine .ite (beginsYieldOperand_eq ht.tokens) (fun _ => ?_) fun _ => .ok ⟨.other hstart, ht⟩
      refine (hd.assignment allowIn ht (by omega)).discard.bind fun _ _ v₁ v₂ _ hv => ?_
      exact .ok ⟨.other hstart, hv.mono (by omega)⟩
  · obtain ⟨_, hend, hfirst⟩ := ht.tokens.newlineBefore.resolve_left hline
    have hsecond : t₂.token.newlineBefore = true := by
      rw [hfirst] at hline
      exact eq_true_of_ne_false hline
    rw [if_pos hsecond, if_neg (by rw [hfirst]; exact Bool.false_ne_true), bind_of_eq_ok (eat_of_isEnd hend)]
    rw [bind_of_eq_ok (show token t₁ = .ok t₁.token t₁ from rfl), beginsYieldOperand_of_isEnd hend]
    exact .ok ⟨.other hstart, ht⟩

protected theorem expandAssignment {allowIn : Bool} (hs : sim.At b k c s₁ s₂) :
    sim.Yields sim.Summaries true k (c + 1) (expandAssignment nested₁ allowIn s₁)
      (expandAssignment nested₂ allowIn s₂) := by
  refine hs.sameContext (.bind_token ?_)
  rw [hs.tokens.isWord]
  refine .ite rfl (fun h => ?_) fun _ => (hd.conditional hs).bindMoving
    (fun target => .bind inferInstance fun operator => ?_) fun e₁ e₂ t₁ t₂ he ht => .bind_token ?_
  · exact hd.yieldExpression hs (Token.endsOperand_of_isWord (Bool.and_eq_true _ _ ▸ h).2)
  · dsimp only
    repeat' first | infer_instance | split
  rw [assignmentOperator?_eq ht.tokens]
  cases hp : assignmentOperator? t₁.token with
  | none => exact .ok ⟨he, ht⟩
  | some p =>
    have hend := isEnd_of_assignmentOperator? hp
    have value : ∀ {r₁ r₂ : Summary}, sim.Summaries r₁ r₂ →
        sim.Yields sim.Summaries true k (c + 1)
          ((do advance; discard (assignment nested₁ allowIn); return r₁ : Recognizer Summary) t₁)
          ((do advance; discard (assignment nested₂ allowIn); return r₂ : Recognizer Summary) t₂) := by
      intro r₁ r₂ hr
      refine (ht.pass hend).bind fun _ _ u₁ u₂ _ hu => ?_
      exact (hd.assignment allowIn hu (by omega)).discard.bind fun _ _ v₁ v₂ _ hv => .ok ⟨hr, hv.mono (by omega)⟩
    cases p with
    | assign =>
      rw [he.shape]
      exact .ite rfl (fun _ => value ⟨rfl, he.start, .none⟩) fun _ => ht.failFirst he.start rfl
    | _ =>
      refine ht.rejectShorthand he ?_
      rw [he.shape]
      exact .ite rfl (fun _ => value (.other he.start)) fun _ => ht.failFirst he.start rfl

end Derives

end EcmaCheck.Grammar.Simulation
