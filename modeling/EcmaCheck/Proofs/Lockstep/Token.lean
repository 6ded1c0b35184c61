import EcmaCheck.Proofs.Lockstep.Simulation

/-!
# Tokens in lockstep

The recognizers that only look at tokens or pass over them, one rule for each: what it asks of the states before it and
what holds of those after it. Passing a token earns credit, and passing the brace of a block twice as much; after the
goal of division an operand has ended (`At.advanceWith`).
-/

namespace EcmaCheck

set_option synthInstance.maxSize 20000

namespace Token

variable {t : Token}

theorem isEnd_of_kind {kind : TokenKind} (h : t.kind = kind) (hk : kind ≠ .endOfInput) : t.isEnd = false := by
  unfold isEnd
  split
  · rename_i he
    exact absurd (h ▸ he) hk
  · rfl

theorem isPunctuator_iff {p : Punctuator} : t.isPunctuator p = true ↔ t.kind = .punctuator p := by
  unfold isPunctuator
  split
  · rename_i hk
    rw [decide_eq_true_iff, hk, TokenKind.punctuator.injEq]
  · rename_i hk
    exact ⟨nofun, fun h => absurd h (hk p)⟩

theorem isEnd_of_isPunctuator {p : Punctuator} (h : t.isPunctuator p = true) : t.isEnd = false :=
  isEnd_of_kind (isPunctuator_iff.mp h) nofun

theorem isEnd_of_isKeyword {w : Keyword} (h : t.isKeyword w = true) : t.isEnd = false := by
  unfold isKeyword at h
  unfold isEnd
  split at h <;> simp_all

theorem isEnd_of_isWord {w : String} (h : t.isWord w = true) : t.isEnd = false := by
  unfold isWord at h
  unfold isEnd
  split at h <;> simp_all

theorem isEnd_of_isIdentifier (h : t.isIdentifier = true) : t.isEnd = false := by
  unfold isIdentifier at h
  unfold isEnd
  split at h <;> simp_all

theorem isEnd_of_isString (h : t.isString = true) : t.isEnd = false := by
  unfold isString at h
  unfold isEnd
  split at h <;> simp_all

theorem isPunctuator_of_kind {kind : TokenKind} {p : Punctuator} (h : t.kind = kind) (hk : kind ≠ .punctuator p) :
    t.isPunctuator p = false :=
  Bool.eq_false_iff.mpr fun hp => hk (h ▸ isPunctuator_iff.mp hp)

theorem isPunctuator_of_isEnd (h : t.isEnd = true) (p : Punctuator) : t.isPunctuator p = false :=
  Bool.eq_false_iff.mpr fun hp => nomatch h.symm.trans (isEnd_of_isPunctuator hp)

theorem isKeyword_of_isEnd (h : t.isEnd = true) (w : Keyword) : t.isKeyword w = false :=
  Bool.eq_false_iff.mpr fun hw => nomatch h.symm.trans (isEnd_of_isKeyword hw)

theorem isWord_of_isEnd (h : t.isEnd = true) (w : String) : t.isWord w = false :=
  Bool.eq_false_iff.mpr fun hw => nomatch h.symm.trans (isEnd_of_isWord hw)

theorem kind_of_isEnd (h : t.isEnd = true) : t.kind = .endOfInput := by
  unfold isEnd at h
  split at h
  · assumption
  · cases h

theorem endsOperand_of_kind {kind : TokenKind} (h : t.kind = kind) :
    t.endsOperand = Token.endsOperand { t with kind := kind } := by
  rw [← h]

theorem isEnd_of_endsOperand (h : t.endsOperand = true) : t.isEnd = false := by
  unfold endsOperand at h
  unfold isEnd
  split at h <;> simp_all

theorem endsOperand_of_isWord {w : String} (h : t.isWord w = true) : t.endsOperand = true := by
  unfold isWord at h
  unfold endsOperand
  split at h <;> simp_all

theorem endsOperand_of_isKeyword {w : Keyword} (h : t.isKeyword w = true) :
    t.endsOperand = (w = .this || w = .super || w = .null || w = .true || w = .false) := by
  unfold isKeyword at h
  unfold endsOperand
  split at h <;> simp_all

theorem endsOperand_of_isPunctuator {p : Punctuator} (h : t.isPunctuator p = true) :
    t.endsOperand =
      (p = .closeParen || p = .closeBracket || p = .closeBrace || p = .increment || p = .decrement) := by
  unfold isPunctuator at h
  unfold endsOperand
  split at h <;> simp_all

theorem isName_of_isWord {w : String} (h : t.isWord w = true) : t.isName = true := by
  unfold isWord at h
  unfold isName
  split at h <;> simp_all

theorem isName_of_isKeyword {w : Keyword} (h : t.isKeyword w = true) : t.isName = true := by
  unfold isKeyword at h
  unfold isName
  split at h <;> simp_all

theorem isName_of_isIdentifier (h : t.isIdentifier = true) : t.isName = true := by
  unfold isIdentifier at h
  unfold isName
  split at h <;> simp_all

theorem endsOperand_of_isIdentifier (h : t.isIdentifier = true) : t.endsOperand = true := by
  unfold isIdentifier at h
  unfold endsOperand
  split at h <;> simp_all

theorem isEnd_of_isName (h : t.isName = true) : t.isEnd = false := by
  unfold isName at h
  unfold isEnd
  split at h <;> simp_all

theorem goalAfter_of_endsOperand (h : t.endsOperand = true) : t.goalAfter = .division := by
  unfold goalAfter
  rw [if_pos h]

theorem goalAfter_of_isWord {w : String} (h : t.isWord w = true) : t.goalAfter = .division :=
  goalAfter_of_endsOperand (endsOperand_of_isWord h)

theorem goalAfter_ne_templateTail (t : Token) : t.goalAfter ≠ .templateTail := by
  unfold goalAfter
  split <;> decide

theorem goalAfter_eq_division (t : Token) : decide (t.goalAfter = .division) = t.endsOperand := by
  unfold goalAfter
  cases t.endsOperand <;> rfl

end Token

namespace Grammar

/-- Only punctuators are read again: a division under the goal of an operand, a closing brace under a template's. -/
theorem Rereads.exists_punctuator {t : Token} {goal : LexicalGoal} (h : Rereads t goal) :
    ∃ p, t.kind = .punctuator p ∧
      (goal = .regExp ∧ (p = .slash ∨ p = .slashAssign) ∨ goal = .templateTail ∧ p = .closeBrace) := by
  cases h with
  | regExp hdivision =>
    rcases (Bool.or_eq_true _ _).mp hdivision with h | h
    · exact ⟨.slash, Token.isPunctuator_iff.mp h, .inl ⟨rfl, .inl rfl⟩⟩
    · exact ⟨.slashAssign, Token.isPunctuator_iff.mp h, .inl ⟨rfl, .inr rfl⟩⟩
  | template hbrace => exact ⟨.closeBrace, Token.isPunctuator_iff.mp hbrace, .inr ⟨rfl, rfl⟩⟩

theorem not_rereads_of_isEnd {t : Token} (h : t.isEnd = true) (goal : LexicalGoal) : ¬ Rereads t goal := by
  intro hgoal
  obtain ⟨p, hp, _⟩ := hgoal.exists_punctuator
  rw [Token.isEnd_of_isPunctuator (Token.isPunctuator_iff.mpr hp)] at h
  cases h

theorem not_rereads_of_isName {t : Token} (h : t.isName = true) (goal : LexicalGoal) : ¬ Rereads t goal := by
  intro hgoal
  obtain ⟨p, hp, _⟩ := hgoal.exists_punctuator
  unfold Token.isName at h
  rw [hp] at h
  cases h

/-- Whether the text goes on after the current token. -/
def State.GoesOn (s : State) : Prop :=
  ∀ {goal : LexicalGoal} {t : Token}, goal ≠ .templateTail → (s.scanner.next goal).1 = .ok t → t.isEnd = false

/-! ## Looking at the next token -/

theorem peek_bind_of_ok {α : Type} {f : Token → Recognizer α} {s : State} {t : Token}
    (h : (s.scanner.next s.token.goalAfter).1 = .ok t) : (peek >>= f) s = f t s := by
  change EStateM.bind peek f s = _
  unfold EStateM.bind peek
  rcases hr : s.scanner.next s.token.goalAfter with ⟨_, _⟩
  rw [hr] at h
  cases h
  rfl

theorem peek_bind_of_error {α : Type} {f : Token → Recognizer α} {s : State} {e : Fault}
    (h : (s.scanner.next s.token.goalAfter).1 = .error e) : (peek >>= f) s = .error e s := by
  change EStateM.bind peek f s = _
  unfold EStateM.bind peek
  rcases hr : s.scanner.next s.token.goalAfter with ⟨_, _⟩
  rw [hr] at h
  cases h
  rfl

/-- What follows a punctuator that may be there. -/
theorem eat_bind {α : Type} (p : Punctuator) (f : Bool → Recognizer α) (s : State) : (eat p >>= f) s =
    (if s.token.isPunctuator p = true then advance >>= fun _ => f true else f false) s := by
  unfold eat
  rw [bind_assoc]
  change ((if s.token.isPunctuator p = true then advance >>= fun _ => pure true else pure false) >>= f) s = _
  split
  · rw [bind_assoc]
    rfl
  · rfl

/-! ## Tokens that correspond -/

namespace AlikeKinds

variable {breaks : Prop} {t₁ t₂ : Token}

theorem isPunctuator (h : AlikeKinds breaks t₁ t₂) (p : Punctuator) :
    t₂.isPunctuator p = t₁.isPunctuator p := by
  simp only [Token.isPunctuator, h.kind]

theorem isKeyword (h : AlikeKinds breaks t₁ t₂) (w : Keyword) : t₂.isKeyword w = t₁.isKeyword w := by
  simp only [Token.isKeyword, h.kind]

theorem isWord (h : AlikeKinds breaks t₁ t₂) (w : String) : t₂.isWord w = t₁.isWord w := by
  simp only [Token.isWord, h.kind]

theorem isIdentifier (h : AlikeKinds breaks t₁ t₂) : t₂.isIdentifier = t₁.isIdentifier := by
  simp only [Token.isIdentifier, h.kind]

theorem isString (h : AlikeKinds breaks t₁ t₂) : t₂.isString = t₁.isString := by
  simp only [Token.isString, h.kind]

theorem isTemplate (h : AlikeKinds breaks t₁ t₂) : t₂.isTemplate = t₁.isTemplate := by
  simp only [Token.isTemplate, h.kind]

theorem isEnd (h : AlikeKinds breaks t₁ t₂) : t₂.isEnd = t₁.isEnd := by
  simp only [Token.isEnd, h.kind]

theorem endsOperand (h : AlikeKinds breaks t₁ t₂) : t₂.endsOperand = t₁.endsOperand := by
  simp only [Token.endsOperand, h.kind]

theorem goalAfter (h : AlikeKinds breaks t₁ t₂) : t₂.goalAfter = t₁.goalAfter := by
  simp only [Token.goalAfter, h.endsOperand]

/-- Line breaks are seen alike wherever the text goes on. -/
theorem newlineBefore_of_isEnd (h : AlikeKinds breaks t₁ t₂) (he : t₁.isEnd = false) :
    t₂.newlineBefore = t₁.newlineBefore := by
  rcases h.newlineBefore with h | h
  · exact h
  · rw [he] at h; cases h.2.1

/-- Where the text goes on, both tokens are on the same line as the one before or none is. -/
theorem sameLine_eq {b₁ b₂ : Bool} (h : AlikeKinds breaks t₁ t₂) (hb : b₂ = b₁)
    (he : b₁ = true → t₁.isEnd = false) : (!t₂.newlineBefore && b₂) = (!t₁.newlineBefore && b₁) := by
  subst hb
  cases b₂ with
  | true => rw [h.newlineBefore_of_isEnd (he rfl)]
  | false => rw [Bool.and_false, Bool.and_false]

theorem onSameLine_eq {b₁ b₂ : Bool} (h : AlikeKinds breaks t₁ t₂) (hb : b₂ = b₁)
    (he : b₁ = true → t₁.isEnd = false) : (b₂ && !t₂.newlineBefore) = (b₁ && !t₁.newlineBefore) := by
  rw [Bool.and_comm, h.sameLine_eq hb he, Bool.and_comm]

end AlikeKinds

theorem AlikeTokens.describe {known : Token → Prop} {place stop : Position → Position → Prop} {breaks : Prop}
    {t₁ t₂ : Token} (h : AlikeTokens known place stop breaks t₁ t₂) : t₂.describe = t₁.describe := by
  simp only [Token.describe, h.isEnd, h.lexeme]

namespace Simulation

variable {sim : Simulation} {α β : Type} {value : α → α → Prop} {b : Bool} {k c : Nat} {s₁ s₂ : State}
  {post : α → α → State → State → Prop}

/-! ## How a recognizer begins -/

namespace Opens

variable {s : State}

theorem of_error {r : EStateM.Result Fault State α} {f : Fault} (h : r = .error f s) : sim.Opens s r := by
  subst h
  exact Or.inl

protected theorem bind {x : Recognizer α} {f : α → Recognizer β} (hx : sim.Opens s (x s))
    (hmoves : ∀ a, Moves (f a)) : sim.Opens s ((x >>= f) s) := by
  intro hreach
  change sim.Reaches (EStateM.bind x f s) at hreach
  unfold EStateM.bind at hreach
  cases hr : x s with
  | ok a t =>
    rw [hr] at hx hreach
    exact hx (Outcome.reaches_of_moves (hmoves a) hreach)
  | error e t =>
    rw [hr] at hx hreach
    exact hx hreach

theorem bind_token {f : Token → Recognizer α} (h : sim.Opens s (f s.token s)) : sim.Opens s ((token >>= f) s) :=
  h

protected theorem advance : sim.Opens s (advance s) := by
  change sim.Reaches (({ s with consumed := s.token :: s.consumed } : State).receive
    (s.scanner.next s.token.goalAfter)) → _
  intro hreach
  refine .inr ?_
  change s.input.consume.MayFinish sim.finish (s.input.consume.receive (s.scanner.next s.token.goalAfter))
  rcases hr : s.scanner.next s.token.goalAfter with ⟨e | t, scanner⟩
  · rw [hr] at hreach
    exact ⟨scanner, hreach⟩
  · rw [hr] at hreach
    exact hreach

end Opens

/-! ## Values -/

/-- Less credit may be claimed. -/
protected theorem Yields.lower {c' : Nat} {r₁ r₂ : EStateM.Result Fault State α} (h : sim.Yields value b k c' r₁ r₂)
    (hc : c ≤ c') : sim.Yields value b k c r₁ r₂ :=
  Outcome.mono h fun _ _ _ _ h => ⟨h.1, h.2.mono hc⟩

protected theorem Yields.discard {x₁ x₂ : Recognizer α} (h : sim.Yields value b k c (x₁ s₁) (x₂ s₂)) :
    sim.Yields Eq b k c ((discard x₁ : Recognizer Unit) s₁) ((discard x₂ : Recognizer Unit) s₂) := by
  change sim.Yields Eq b k c ((x₁ >>= fun _ => pure ()) s₁) ((x₂ >>= fun _ => pure ()) s₂)
  exact h.bind fun _ _ _ _ _ h => .ok ⟨rfl, h⟩

protected theorem Summaries.other {p q : Position} (h : sim.place p q) : sim.Summaries (.other p) (.other q) :=
  ⟨rfl, h, .none⟩

/-! ## Failing -/

namespace At

protected theorem throw {f g : Fault} (hs : sim.At b k c s₁ s₂) (h : sim.fault f g) :
    sim.Outcome post ((throw f : Recognizer α) s₁) ((throw g : Recognizer α) s₂) :=
  .error h hs.history

theorem throwFirst {f g : Fault} {f₁ f₂ : β → Recognizer α} (hs : sim.At b k c s₁ s₂) (h : sim.fault f g) :
    sim.Outcome post ((throw f >>= f₁) s₁) ((throw g >>= f₂) s₂) :=
  .error h hs.history

protected theorem fail {e : GrammarError} {p q : Position} (hs : sim.At b k c s₁ s₂) (h : sim.place p q)
    (he : e.isFixed = true) :
    sim.Outcome post ((fail e p : Recognizer α) s₁) ((fail e q : Recognizer α) s₂) :=
  hs.throw (sim.fault_of_place he h)

theorem failFirst {e : GrammarError} {p q : Position} {f₁ f₂ : β → Recognizer α} (hs : sim.At b k c s₁ s₂)
    (h : sim.place p q) (he : e.isFixed = true) :
    sim.Outcome post ((fail e p >>= f₁) s₁) ((fail e q >>= f₂) s₂) :=
  hs.throwFirst (sim.fault_of_place he h)

end At

theorem fault_unexpected {t₁ t₂ : Token} (h : sim.Tokens t₁ t₂) :
    sim.fault (unexpectedFault t₁) (unexpectedFault t₂) := by
  unfold unexpectedFault
  rw [h.isEnd, h.describe]
  cases t₁.isEnd with
  | true => exact sim.fault_of_place rfl h.start
  | false => exact sim.fault_of_token h .unexpectedToken

theorem fault_expectedIdentifier {t₁ t₂ : Token} (h : sim.Tokens t₁ t₂) :
    sim.fault (.grammatical (if t₁.isEnd then .unexpectedEnd else .expectedIdentifier t₁.describe) t₁.start)
      (.grammatical (if t₂.isEnd then .unexpectedEnd else .expectedIdentifier t₂.describe) t₂.start) := by
  rw [h.isEnd, h.describe]
  cases t₁.isEnd with
  | true => exact sim.fault_of_place rfl h.start
  | false => exact sim.fault_of_token h .expectedIdentifier

namespace At

protected theorem unexpected (hs : sim.At b k c s₁ s₂) :
    sim.Outcome post ((unexpected : Recognizer α) s₁) ((unexpected : Recognizer α) s₂) :=
  .error (fault_unexpected hs.tokens) hs.history

theorem unexpectedFirst {f₁ f₂ : β → Recognizer α} (hs : sim.At b k c s₁ s₂) :
    sim.Outcome post ((unexpected >>= f₁) s₁) ((unexpected >>= f₂) s₂) :=
  .error (fault_unexpected hs.tokens) hs.history

protected theorem expectedIdentifier (hs : sim.At b k c s₁ s₂) :
    sim.Outcome post ((expectedIdentifier : Recognizer α) s₁) ((expectedIdentifier : Recognizer α) s₂) :=
  .bind_token (hs.throw (fault_expectedIdentifier hs.tokens))

theorem expectedIdentifierFirst {f₁ f₂ : β → Recognizer α} (hs : sim.At b k c s₁ s₂) :
    sim.Outcome post ((expectedIdentifier >>= f₁) s₁) ((expectedIdentifier >>= f₂) s₂) :=
  .error (fault_expectedIdentifier hs.tokens) hs.history

/-- A check that finds the same in both leaves the states as they are. -/
theorem check {e₁ e₂ : Option GrammarError} {p q : Position} (hs : sim.At b k c s₁ s₂) (he : e₂ = e₁)
    (h : ∀ {e}, e₁ = some e → sim.fault (.grammatical e p) (.grammatical e q)) :
    sim.Outcome (fun _ _ t₁ t₂ => t₁ = s₁ ∧ t₂ = s₂) (failIf e₁ p s₁) (failIf e₂ q s₂) := by
  subst he
  cases e₂ with
  | some e => exact hs.throw (h rfl)
  | none => exact .ok ⟨rfl, rfl⟩

protected theorem failIf {e₁ e₂ : Option GrammarError} {p q : Position} {f₁ f₂ : Unit → Recognizer α}
    (hs : sim.At b k c s₁ s₂) (he : e₂ = e₁)
    (h : ∀ {e}, e₁ = some e → sim.fault (.grammatical e p) (.grammatical e q))
    (hf : sim.Outcome post (f₁ () s₁) (f₂ () s₂)) :
    sim.Outcome post ((failIf e₁ p >>= f₁) s₁) ((failIf e₂ q >>= f₂) s₂) := by
  subst he
  cases e₂ with
  | some e => exact hs.throwFirst (h rfl)
  | none => exact hf

/-! ## Passing tokens -/

/-- The states after a token has been received are related as their texts are. -/
theorem receive {reads : Input → Input → Prop} {post : Unit → Unit → State → State → Prop}
    {r₁ r₂ : Except Fault Token × Scanner} {t₁ t₂ : State} (hh : ∀ scanner, sim.history { t₁.input with scanner })
    (hr : t₁.input.MayFinish sim.finish (t₁.input.receive r₁) →
      AgreeUpTo sim.cut sim.excuse sim.fault reads (t₁.input.receive r₁) (t₂.input.receive r₂))
    (hp : ∀ scanner₁ scanner₂ token₁ token₂,
      reads { t₁.input with scanner := scanner₁, token := token₁ }
        { t₂.input with scanner := scanner₂, token := token₂ } →
      post () () { t₁ with scanner := scanner₁, token := token₁ } { t₂ with scanner := scanner₂, token := token₂ }) :
    sim.Outcome post (t₁.receive r₁) (t₂.receive r₂) := by
  intro hreach
  obtain ⟨f | a₁, scanner₁⟩ := r₁
  · have hr := hr ⟨scanner₁, hreach⟩
    obtain ⟨_ | a₂, scanner₂⟩ := r₂
    · exact ⟨hr, hh _⟩
    · exact ⟨hr, hh _⟩
  · have hr := hr hreach
    obtain ⟨_ | a₂, scanner₂⟩ := r₂
    · exact hr
    · exact hp scanner₁ scanner₂ a₁ a₂ hr

/-- Passing a token earns what it is worth. -/
theorem advanceWorth {goal : LexicalGoal} (hs : sim.At b k c s₁ s₂) (he : s₁.token.isEnd = false)
    (hg : goal ≠ .templateTail) :
    sim.Yields Eq (goal = .division) k (c + s₁.token.worth) (advanceWith goal s₁) (advanceWith goal s₂) := by
  refine receive (sim.history_of_consume · hs.input he) (sim.advance hs.input he hg) fun _ _ _ _ h =>
    ⟨rfl, { hs with input := h, credit := ?_ }⟩
  have hcredit := hs.credit
  change _ ≤ s₁.token.worth + s₁.input.earned + 3
  omega

protected theorem advanceWith {goal : LexicalGoal} (hs : sim.At b k c s₁ s₂) (he : s₁.token.isEnd = false)
    (hg : goal ≠ .templateTail) :
    sim.Yields Eq (goal = .division) k (c + 1) (advanceWith goal s₁) (advanceWith goal s₂) :=
  (hs.advanceWorth he hg).lower (Nat.add_le_add_left s₁.token.worth_pos c)

protected theorem advance (hs : sim.At b k c s₁ s₂) (he : s₁.token.isEnd = false) :
    sim.Yields Eq s₁.token.endsOperand k (c + 1) (advance s₁) (advance s₂) := by
  refine .bind_token ?_
  rw [hs.tokens.goalAfter, ← Token.goalAfter_eq_division]
  exact hs.advanceWith he (Token.goalAfter_ne_templateTail _)

/-- Passing a token where it does not matter whether an operand ends with it. -/
theorem pass (hs : sim.At b k c s₁ s₂) (he : s₁.token.isEnd = false) :
    sim.Yields Eq false k (c + 1) (advance s₁) (advance s₂) :=
  (hs.advance he).mono fun _ _ _ _ h => ⟨h.1, h.2.weaken⟩

/-- Passing a token that ends an operand. -/
theorem passOperand (hs : sim.At b k c s₁ s₂) (he : s₁.token.endsOperand = true) :
    sim.Yields Eq true k (c + 1) (advance s₁) (advance s₂) := by
  have h := hs.advance (Token.isEnd_of_endsOperand he)
  rwa [he] at h

/-- Passing a token that is not the last. -/
theorem advanceOn {goal : LexicalGoal} (hs : sim.At b k c s₁ s₂) (hn : s₁.GoesOn) (he : s₁.token.isEnd = false)
    (hg : goal ≠ .templateTail) :
    sim.Outcome (fun _ _ t₁ t₂ => sim.At false k (c + 1) t₁ t₂ ∧ t₁.token.isEnd = false)
      (advanceWith goal s₁) (advanceWith goal s₂) := by
  refine Outcome.mono (Outcome.and_left (hs.advanceWith he hg) fun _ t h => ?_) fun _ _ _ _ h => ⟨h.1.2.weaken, h.2⟩
  unfold advanceWith at h
  rcases hr : s₁.scanner.next goal with ⟨_ | u, scanner⟩ <;> rw [hr] at h <;> cases h
  exact hn hg (congrArg Prod.fst hr)

theorem passOn (hs : sim.At b k c s₁ s₂) (hn : s₁.GoesOn) (he : s₁.token.isEnd = false) :
    sim.Outcome (fun _ _ t₁ t₂ => sim.At false k (c + 1) t₁ t₂ ∧ t₁.token.isEnd = false)
      (advance s₁) (advance s₂) := by
  refine .bind_token ?_
  rw [hs.tokens.goalAfter]
  exact hs.advanceOn hn he (Token.goalAfter_ne_templateTail _)

protected theorem expectWith {p : Punctuator} {goal : LexicalGoal} (hs : sim.At b k c s₁ s₂)
    (hg : goal ≠ .templateTail) :
    sim.Yields Eq (goal = .division) k (c + 1) (expectWith p goal s₁) (expectWith p goal s₂) := by
  refine .bind_isAt (.ite (hs.tokens.isPunctuator p) (fun h => ?_) fun _ => hs.unexpected)
  exact hs.advanceWith (Token.isEnd_of_isPunctuator h) hg

protected theorem expect {p : Punctuator} (hs : sim.At b k c s₁ s₂) :
    sim.Yields Eq (p = .closeParen || p = .closeBracket || p = .closeBrace || p = .increment || p = .decrement) k
      (c + 1) (expect p s₁) (expect p s₂) := by
  refine .bind_token (.bind_isAt (.ite (hs.tokens.isPunctuator p) (fun h => ?_) fun _ => hs.unexpected))
  rw [← Token.endsOperand_of_isPunctuator h, ← Token.goalAfter_eq_division, hs.tokens.goalAfter]
  exact hs.advanceWith (Token.isEnd_of_isPunctuator h) (Token.goalAfter_ne_templateTail _)

/-- Passing the brace of a block, which may begin with another one. -/
theorem expectBlock (hs : sim.At b k c s₁ s₂) :
    sim.Yields Eq false k (c + 2) (expect .openBrace s₁) (expect .openBrace s₂) := by
  refine .bind_token (.bind_isAt (.ite (hs.tokens.isPunctuator _) (fun h => ?_) fun _ => hs.unexpected))
  rw [hs.tokens.goalAfter]
  refine (hs.advanceWorth (Token.isEnd_of_isPunctuator h) (Token.goalAfter_ne_templateTail _)).mono
    fun _ _ t₁ t₂ ht => ⟨ht.1, ?_⟩
  have hworth : s₁.token.worth = 2 := if_pos h
  exact (hworth ▸ ht.2).weaken

protected theorem expectWord {w : String} (hs : sim.At b k c s₁ s₂) :
    sim.Yields Eq true k (c + 1) (expectWord w s₁) (expectWord w s₂) := by
  refine .bind_isAtWord (.ite (hs.tokens.isWord w) (fun h => ?_) fun _ => hs.unexpected)
  exact hs.passOperand (Token.endsOperand_of_isWord h)

/-- A punctuator that may be there; if it is not, the states stay as they are. -/
theorem eat_cases (p : Punctuator) (hs : sim.At b k c s₁ s₂) :
    sim.Outcome (fun r₁ r₂ t₁ t₂ => r₁ = true ∧ r₂ = true ∧ sim.At false k (c + 1) t₁ t₂ ∨
      s₁.token.isPunctuator p = false ∧ r₁ = false ∧ r₂ = false ∧ t₁ = s₁ ∧ t₂ = s₂) (eat p s₁) (eat p s₂) := by
  refine .bind_isAt (.ite (hs.tokens.isPunctuator p) (fun h => ?_) fun h => .ok (.inr ⟨h, rfl, rfl, rfl, rfl⟩))
  exact (hs.pass (Token.isEnd_of_isPunctuator h)).bind fun _ _ _ _ _ h => .ok (.inl ⟨rfl, rfl, h⟩)

protected theorem eat {p : Punctuator} {f₁ f₂ : Bool → Recognizer α} (hs : sim.At b k c s₁ s₂)
    (ht : ∀ t₁ t₂, sim.At false k (c + 1) t₁ t₂ → sim.Outcome post (f₁ true t₁) (f₂ true t₂))
    (hf : s₁.token.isPunctuator p = false → sim.Outcome post (f₁ false s₁) (f₂ false s₂))
    [hmoves : Moves (f₁ true)] :
    sim.Outcome post ((eat p >>= f₁) s₁) ((eat p >>= f₂) s₂) := by
  rw [eat_bind, eat_bind]
  refine .ite (hs.tokens.isPunctuator p) (fun h => ?_) hf
  exact (hs.pass (Token.isEnd_of_isPunctuator h)).bind fun _ _ t₁ t₂ _ h => ht t₁ t₂ h

/-- A punctuator that may be there, where it does not matter how much credit it earns. -/
theorem eatAny {p : Punctuator} (hs : sim.At b k c s₁ s₂) : sim.Yields Eq false k c (eat p s₁) (eat p s₂) := by
  refine (hs.eat_cases p).mono fun r₁ r₂ t₁ t₂ hr => ?_
  obtain ⟨rfl, rfl, ht⟩ | ⟨_, rfl, rfl, rfl, rfl⟩ := hr
  · exact ⟨rfl, ht.mono (by omega)⟩
  · exact ⟨rfl, hs.weaken⟩

/-! ## Looking ahead and reading again -/

protected theorem peek {f₁ f₂ : Token → Recognizer α} (hs : sim.At b k c s₁ s₂) (hname : s₁.token.isName = true)
    (hopens : s₁.token.goalAfter = .division ∨ ∀ t, t.kind = .regExp → sim.Opens s₁ (f₁ t s₁))
    (hf : ∀ t₁ t₂, AlikeKinds sim.breaks t₁ t₂ → (t₁.isEnd = false → s₁.GoesOn) →
      sim.Outcome post (f₁ t₁ s₁) (f₂ t₂ s₂))
    [hmoves : ∀ a, Moves (f₁ a)] :
    sim.Outcome post ((peek >>= f₁) s₁) ((peek >>= f₂) s₂) := by
  have hpeek : sim.Reaches ((peek >>= f₁) s₁) → s₁.input.MayPeek sim.finish := fun hreach => {
    fails := fun h => by rwa [peek_bind_of_error h] at hreach
    canFinish := fun h => by
      rw [peek_bind_of_ok h] at hreach
      exact Outcome.reaches_of_moves (hmoves _) hreach
    mayOpen := fun h hdivision hkind => by
      rw [peek_bind_of_ok h] at hreach
      exact hopens.resolve_left hdivision _ hkind hreach }
  intro hreach
  have h := sim.peek hs.input hname (hpeek hreach)
  rcases hn₁ : (s₁.scanner.next s₁.token.goalAfter).1 with f | u₁ <;>
    rcases hn₂ : (s₂.scanner.next s₁.token.goalAfter).1 with g | u₂ <;>
    simp only [State.input, hn₁, hn₂] at h <;> rw [← hs.tokens.goalAfter] at hn₂
  · rw [peek_bind_of_error hn₁, peek_bind_of_error hn₂]
    exact ⟨h, hs.history⟩
  · -- the first was cut off, so that it does not matter how the second goes on
    rw [peek_bind_of_error hn₁]
    cases (peek >>= f₂) s₂ with
    | ok => exact ⟨h, hs.history⟩
    | error => exact ⟨sim.fault_of_cut h, hs.history⟩
  · rw [peek_bind_of_error hn₂]
    cases (peek >>= f₁) s₁ with
    | ok => exact h
    | error => exact ⟨sim.fault_of_excuse h _ _, sim.history_of_excuse h _⟩
  · rw [peek_bind_of_ok hn₁] at hreach ⊢
    rw [peek_bind_of_ok hn₂]
    refine hf u₁ u₂ h (fun hend goal t hg ht => ?_) hreach
    rw [← hend]
    exact sim.isEnd_next_eq hs.input (Token.isEnd_of_isName hname) hg (Token.goalAfter_ne_templateTail _) ht hn₁

/-- Looking past a token that may end an operand. -/
theorem peekOperand {f₁ f₂ : Token → Recognizer α} (hs : sim.At b k c s₁ s₂) (hname : s₁.token.isName = true)
    (he : s₁.token.endsOperand = true)
    (hf : ∀ t₁ t₂, AlikeKinds sim.breaks t₁ t₂ → sim.Outcome post (f₁ t₁ s₁) (f₂ t₂ s₂)) [hmoves : ∀ a, Moves (f₁ a)] :
    sim.Outcome post ((peek >>= f₁) s₁) ((peek >>= f₂) s₂) :=
  hs.peek hname (.inl (Token.goalAfter_of_endsOperand he)) (fun t₁ t₂ ht _ => hf t₁ t₂ ht)

theorem peekIdentifier {f₁ f₂ : Token → Recognizer α} (hs : sim.At b k c s₁ s₂)
    (hi : s₁.token.isIdentifier = true)
    (hf : ∀ t₁ t₂, AlikeKinds sim.breaks t₁ t₂ → sim.Outcome post (f₁ t₁ s₁) (f₂ t₂ s₂)) [hmoves : ∀ a, Moves (f₁ a)] :
    sim.Outcome post ((peek >>= f₁) s₁) ((peek >>= f₂) s₂) :=
  hs.peekOperand (Token.isName_of_isIdentifier hi) (Token.endsOperand_of_isIdentifier hi) hf

theorem peekWord {w : String} {f₁ f₂ : Token → Recognizer α} (hs : sim.At b k c s₁ s₂)
    (hw : s₁.token.isWord w = true) (hf : ∀ t₁ t₂, AlikeKinds sim.breaks t₁ t₂ → sim.Outcome post (f₁ t₁ s₁) (f₂ t₂ s₂))
    [hmoves : ∀ a, Moves (f₁ a)] :
    sim.Outcome post ((peek >>= f₁) s₁) ((peek >>= f₂) s₂) :=
  hs.peekOperand (Token.isName_of_isWord hw) (Token.endsOperand_of_isWord hw) hf

protected theorem isAtAsyncFunction {f₁ f₂ : Bool → Recognizer α} (hs : sim.At b k c s₁ s₂)
    (ht : s₁.token.isEnd = false → s₁.GoesOn → sim.Outcome post (f₁ true s₁) (f₂ true s₂))
    (hf : sim.Outcome post (f₁ false s₁) (f₂ false s₂)) [hmoves : ∀ a, Moves (f₁ a)] :
    sim.Outcome post ((isAtAsyncFunction >>= f₁) s₁) ((isAtAsyncFunction >>= f₂) s₂) := by
  have h : sim.Outcome
      (fun r₁ r₂ t₁ t₂ => r₁ = r₂ ∧ (r₁ = true → s₁.token.isEnd = false ∧ s₁.GoesOn) ∧ t₁ = s₁ ∧ t₂ = s₂)
      (isAtAsyncFunction s₁) (isAtAsyncFunction s₂) := by
    refine .bind_isAtWord (.ite (hs.tokens.isWord _) (fun h => ?_) fun _ => .ok ⟨rfl, nofun, rfl, rfl⟩)
    have he := Token.isEnd_of_isWord h
    refine hs.peek (Token.isName_of_isWord h) (.inl (Token.goalAfter_of_isWord h)) fun u₁ u₂ hu hn =>
      .ok ⟨?_, fun h => ?_, rfl, rfl⟩
    · rw [hu.onSameLine_eq (hu.isKeyword .function) Token.isEnd_of_isKeyword]
    · exact ⟨he, hn (Token.isEnd_of_isKeyword (Bool.and_eq_true _ _ ▸ h).1)⟩
  refine h.bind (fun r₁ r₂ t₁ t₂ h => ?_)
  obtain ⟨rfl, h, rfl, rfl⟩ := h
  cases r₁ with
  | true => exact ht (h rfl).1 (h rfl).2
  | false => exact hf

theorem rescanRegExp (hs : sim.At b k c s₁ s₂) (h : isDivision s₁.token = true) :
    sim.Outcome (fun _ _ t₁ t₂ => sim.At false k c t₁ t₂ ∧ isDivision t₁.token = false)
      (rescan .regExp s₁) (rescan .regExp s₂) :=
  receive (sim.history_of_input · hs.input) (sim.rescanRegExp hs.input h) fun _ _ _ _ h =>
    ⟨{ hs with input := h.1 }, h.2⟩

theorem rescanTemplate (hs : sim.At b k c s₁ s₂) (h : s₁.token.isPunctuator .closeBrace = true) :
    sim.Yields Eq false k c (rescan .templateTail s₁) (rescan .templateTail s₂) :=
  receive (sim.history_of_input · hs.input) (sim.rescanTemplate hs.input h) fun _ _ _ _ h =>
    ⟨rfl, { hs with input := h }⟩

/-! ## The ends of statements and operands -/

protected theorem omitSemicolon (hs : sim.At b k c s₁ s₂) :
    sim.Yields Eq false k c (omitSemicolon s₁) (omitSemicolon s₂) :=
  .ok ⟨rfl, { hs.weaken with input := sim.noteOmission hs.input }⟩

protected theorem consumeSemicolon (hs : sim.At b k c s₁ s₂) :
    sim.Yields Eq false k c (consumeSemicolon s₁) (consumeSemicolon s₂) := by
  refine .bind_token (.ite (hs.tokens.isPunctuator _) (fun h => ?_) fun _ => ?_)
  · exact (hs.advanceWith (Token.isEnd_of_isPunctuator h) (by decide)).lower (by omega)
  refine .ite ?_ (fun _ => hs.omitSemicolon) fun _ => hs.unexpected
  rw [hs.tokens.isPunctuator, hs.tokens.isEnd]
  rcases hs.tokens.newlineBefore with h | h
  · rw [h]
  · rw [h.2.1, Bool.or_true, Bool.or_true]

protected theorem noteOperandStart {f₁ f₂ : Unit → Recognizer α} (hs : sim.At b k c s₁ s₂)
    (h : isDivision s₁.token = false)
    (hf : ∀ t₁ t₂, sim.At b k c t₁ t₂ → t₁.token = s₁.token → sim.Outcome post (f₁ () t₁) (f₂ () t₂)) :
    sim.Outcome post ((noteOperandStart >>= f₁) s₁) ((noteOperandStart >>= f₂) s₂) :=
  hf _ _ { hs with input := sim.noteStart hs.input h } rfl

end At

protected theorem Yields.notingOperandEnd {x₁ x₂ : Recognizer Summary} {value : Summary → Summary → Prop}
    (h : sim.Yields value true k c (x₁ s₁) (x₂ s₂)) :
    sim.Yields value true k c (notingOperandEnd x₁ s₁) (notingOperandEnd x₂ s₂) :=
  h.bind fun _ _ _ _ hv h => .ok ⟨hv, { h with input := sim.noteEnd h.input }⟩

end Simulation

end Grammar

end EcmaCheck
