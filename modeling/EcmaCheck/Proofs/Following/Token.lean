import EcmaCheck.Proofs.Following.Basic
import EcmaCheck.Proofs.Lockstep.Token

/-!
# Following from token to token

The recognizers that only look at tokens or pass over them, one rule for each. What a statement begins with may be read
in two ways (`Heads`), but both are the same to all checks for tokens that are no divisions.
-/

namespace EcmaCheck

/-! ## Punctuators -/

/-- What is true of a punctuator that is known is found by evaluation. -/
class IsTrue (b : Bool) : Prop where
  eq : b = true

instance : IsTrue true := ⟨rfl⟩

namespace Punctuator

/-- Whether the punctuator is no division. -/
@[reducible] def isPlain : Punctuator → Bool
  | slash | slashAssign => false
  | _ => true

/-- Whether the punctuator does not close a statement. -/
@[reducible] def goesOn : Punctuator → Bool
  | semicolon | closeBrace => false
  | _ => true

theorem ne_of_isPlain {p : Punctuator} (h : p.isPlain = true) : p ≠ slash ∧ p ≠ slashAssign := by
  constructor <;> rintro rfl <;> cases h

theorem ne_of_goesOn {p : Punctuator} (h : p.goesOn = true) : p ≠ semicolon ∧ p ≠ closeBrace := by
  constructor <;> rintro rfl <;> cases h

end Punctuator

namespace Grammar

set_option synthInstance.maxSize 20000

variable {stop : Position → Position → Prop} {t t₁ t₂ : Token}

/-! ## Tokens that close statements -/

namespace ClosesStatement

variable (h : ClosesStatement t)

include h

theorem isPunctuator (p : Punctuator) [hp : IsTrue p.goesOn] : t.isPunctuator p = false := by
  have hne := Punctuator.ne_of_goesOn hp.eq
  rcases h with h | h <;> simp only [Token.isPunctuator, h, decide_eq_false_iff_not]
  · exact hne.1.symm
  · exact hne.2.symm

theorem isKeyword (w : Keyword) : t.isKeyword w = false := by
  rcases h with h | h <;> simp only [Token.isKeyword, h]

theorem isWord (w : String) : t.isWord w = false := by
  rcases h with h | h <;> simp only [Token.isWord, h]

theorem isIdentifier : t.isIdentifier = false := by
  rcases h with h | h <;> simp only [Token.isIdentifier, h]

theorem isString : t.isString = false := by
  rcases h with h | h <;> simp only [Token.isString, h]

theorem isTemplate : t.isTemplate = false := by
  rcases h with h | h <;> simp only [Token.isTemplate, h]

theorem identifier? : identifier? t = none := by
  rcases h with h | h <;> simp only [Grammar.identifier?, h]

theorem endsPropertyName : endsPropertyName t = true := by
  rcases h with h | h <;> simp only [Grammar.endsPropertyName, Token.isPunctuator, h, decide_true, Bool.or_true,
    Bool.true_or]

end ClosesStatement

/-! ## Tokens that are written alike -/

namespace Twins

variable (h : Twins stop t₁ t₂)

include h

theorem isPunctuator (p : Punctuator) : t₂.isPunctuator p = t₁.isPunctuator p := by
  simp only [Token.isPunctuator, h.kind]

theorem isKeyword (w : Keyword) : t₂.isKeyword w = t₁.isKeyword w := by
  simp only [Token.isKeyword, h.kind]

theorem isWord (w : String) : t₂.isWord w = t₁.isWord w := by
  simp only [Token.isWord, h.kind]

theorem isIdentifier : t₂.isIdentifier = t₁.isIdentifier := by
  simp only [Token.isIdentifier, h.kind]

theorem isString : t₂.isString = t₁.isString := by
  simp only [Token.isString, h.kind]

theorem isTemplate : t₂.isTemplate = t₁.isTemplate := by
  simp only [Token.isTemplate, h.kind]

theorem isEnd : t₂.isEnd = t₁.isEnd := by
  simp only [Token.isEnd, h.kind]

end Twins

theorem kind_of_isDivision (h : isDivision t = true) :
    t.kind = .punctuator .slash ∨ t.kind = .punctuator .slashAssign := by
  simpa only [isDivision, Bool.or_eq_true, Token.isPunctuator_iff] using h

theorem kind_of_isKeyword {w : Keyword} (h : t.isKeyword w = true) : t.kind = .keyword w := by
  unfold Token.isKeyword at h
  split at h
  · rename_i hk
    rw [hk, of_decide_eq_true h]
  · cases h

theorem kind_of_isString (h : t.isString = true) : ∃ legacy, t.kind = .string legacy := by
  unfold Token.isString at h
  split at h
  · exact ⟨_, ‹_›⟩
  · cases h

namespace Heads

variable (h : Heads stop t₁ t₂)

include h

theorem toTwins (hd : isDivision t₁ = false) : Twins stop t₁ t₂ := by
  cases h with
  | twins h => exact h
  | regExp h₁ => exact absurd (hd.symm.trans h₁) Bool.false_ne_true

theorem kind (hd : isDivision t₁ = false) : t₂.kind = t₁.kind :=
  (h.toTwins hd).kind

theorem isPunctuator (p : Punctuator) [hp : IsTrue p.isPlain] : t₂.isPunctuator p = t₁.isPunctuator p := by
  cases h with
  | twins h => exact h.isPunctuator p
  | regExp h₁ h₂ =>
    have hne := Punctuator.ne_of_isPlain hp.eq
    have hnot : t₁.isPunctuator p = false := by
      rcases kind_of_isDivision h₁ with h₁ | h₁ <;> simp only [Token.isPunctuator, h₁, decide_eq_false_iff_not]
      · exact hne.1.symm
      · exact hne.2.symm
    rw [hnot]
    simp only [Token.isPunctuator, h₂]

theorem isKeyword (w : Keyword) : t₂.isKeyword w = t₁.isKeyword w := by
  cases h with
  | twins h => exact h.isKeyword w
  | regExp h₁ h₂ =>
    rcases kind_of_isDivision h₁ with h₁ | h₁ <;> simp only [Token.isKeyword, h₁, h₂]

theorem isWord (w : String) : t₂.isWord w = t₁.isWord w := by
  cases h with
  | twins h => exact h.isWord w
  | regExp h₁ h₂ =>
    rcases kind_of_isDivision h₁ with h₁ | h₁ <;> simp only [Token.isWord, h₁, h₂]

theorem isIdentifier : t₂.isIdentifier = t₁.isIdentifier := by
  cases h with
  | twins h => exact h.isIdentifier
  | regExp h₁ h₂ =>
    rcases kind_of_isDivision h₁ with h₁ | h₁ <;> simp only [Token.isIdentifier, h₁, h₂]

theorem isString : t₂.isString = t₁.isString := by
  cases h with
  | twins h => exact h.isString
  | regExp h₁ h₂ =>
    rcases kind_of_isDivision h₁ with h₁ | h₁ <;> simp only [Token.isString, h₁, h₂]

theorem isEnd : t₂.isEnd = t₁.isEnd := by
  cases h with
  | twins h => exact h.isEnd
  | regExp h₁ h₂ =>
    rcases kind_of_isDivision h₁ with h₁ | h₁ <;> simp only [Token.isEnd, h₁, h₂]

end Heads

/-! ## What is no division -/

theorem isDivision_of_kind {kind : TokenKind} (h : t.kind = kind)
    (hk : kind ≠ .punctuator .slash ∧ kind ≠ .punctuator .slashAssign) : isDivision t = false := by
  rw [isDivision, Token.isPunctuator_of_kind h hk.1, Token.isPunctuator_of_kind h hk.2]
  rfl

theorem isDivision_of_isPunctuator {p : Punctuator} [hp : IsTrue p.isPlain] (h : t.isPunctuator p = true) :
    isDivision t = false := by
  have hne := Punctuator.ne_of_isPlain hp.eq
  refine isDivision_of_kind (Token.isPunctuator_iff.mp h) ⟨fun h => ?_, fun h => ?_⟩
  · exact hne.1 (TokenKind.punctuator.inj h)
  · exact hne.2 (TokenKind.punctuator.inj h)

theorem isDivision_of_isKeyword {w : Keyword} (h : t.isKeyword w = true) : isDivision t = false := by
  unfold Token.isKeyword at h
  split at h
  · rename_i hk
    exact isDivision_of_kind hk ⟨nofun, nofun⟩
  · cases h

theorem isDivision_of_isString (h : t.isString = true) : isDivision t = false := by
  obtain ⟨_, hkind⟩ := kind_of_isString h
  exact isDivision_of_kind hkind ⟨nofun, nofun⟩

theorem isDivision_of_isName (h : t.isName = true) : isDivision t = false := by
  unfold Token.isName at h
  split at h
  · rename_i hk
    exact isDivision_of_kind hk ⟨nofun, nofun⟩
  · rename_i hk
    exact isDivision_of_kind hk ⟨nofun, nofun⟩
  · cases h

theorem isDivision_of_isWord {w : String} (h : t.isWord w = true) : isDivision t = false :=
  isDivision_of_isName (Token.isName_of_isWord h)

theorem isDivision_of_isIdentifier (h : t.isIdentifier = true) : isDivision t = false :=
  isDivision_of_isName (Token.isName_of_isIdentifier h)

/-! ## Passing tokens -/

theorem goalAfter_eq_of_kind (h : t₂.kind = t₁.kind) : t₂.goalAfter = t₁.goalAfter := by
  unfold Token.goalAfter
  rw [show t₂.endsOperand = t₁.endsOperand by simp only [Token.endsOperand, h]]

theorem exists_of_advanceWith {goal : LexicalGoal} {s t : State} {u : Unit} (h : advanceWith goal s = .ok u t) :
    ∃ scanner token, t = { s with scanner, token, consumed := s.token :: s.consumed } := by
  unfold advanceWith State.receive at h
  split at h <;> cases h
  exact ⟨_, _, rfl⟩

theorem exists_of_rescan {goal : LexicalGoal} {s t : State} {u : Unit} (h : rescan goal s = .ok u t) :
    ∃ scanner token, t = { s with scanner, token } := by
  unfold rescan State.receive at h
  split at h <;> cases h
  exact ⟨_, _, rfl⟩

theorem advanceWith_of_advance {goal : LexicalGoal} {s : State} {j : Input} (h : s.input.advance goal = .ok j) :
    ∃ t, advanceWith goal s = .ok () t ∧ t.input = j := by
  obtain ⟨hnext, hj⟩ := Input.eq_of_receive h
  have hnext : s.scanner.next goal = (.ok j.token, j.scanner) := hnext
  unfold advanceWith
  rw [hnext]
  exact ⟨_, rfl, hj.symm⟩

theorem rescan_of_rescan {goal : LexicalGoal} {s : State} {j : Input} (h : s.input.rescan goal = .ok j) :
    ∃ t, rescan goal s = .ok () t ∧ t.input = j := by
  obtain ⟨hnext, hj⟩ := Input.eq_of_receive h
  have hnext : s.scanner.rescan goal s.token = (.ok j.token, j.scanner) := hnext
  unfold rescan
  rw [hnext]
  exact ⟨_, rfl, hj.symm⟩

namespace Following

variable {F : Following} {α : Type} {b : Bool} {s₁ s₂ : State} {value : α → α → Prop} {given : α → Input → Prop}
  {post : α → α → State → State → Prop}

namespace At

theorem kind (hs : F.At true s₁ s₂) : s₂.token.kind = s₁.token.kind :=
  hs.tokens.kind

/-- Both pass a token of the same kind. -/
protected theorem advanceWith {goal : LexicalGoal} (hs : F.At b s₁ s₂) (hk : s₂.token.kind = s₁.token.kind)
    (hg : goal ≠ .templateTail) : F.Yields Eq true (advanceWith goal s₁) (advanceWith goal s₂) := by
  rintro u t₁ hrun ⟨k, hleads, hfinish⟩ _
  have hfirst := input_of_advanceWith hrun
  obtain ⟨j, hsecond, hinput⟩ := F.advance hs.input hk hg hfirst hleads hfinish
  obtain ⟨t₂, hrun₂, rfl⟩ := advanceWith_of_advance hsecond
  rw [hrun₂]
  obtain ⟨_, _, rfl⟩ := exists_of_advanceWith hrun
  obtain ⟨_, _, rfl⟩ := exists_of_advanceWith hrun₂
  exact ⟨rfl, { hs.toAround with input := hinput }⟩

/-- Passing a token of the same kind. -/
theorem pass (hs : F.At b s₁ s₂) (hk : s₂.token.kind = s₁.token.kind) : F.Yields Eq true (advance s₁) (advance s₂) := by
  refine .bind_token ?_
  rw [goalAfter_eq_of_kind hk]
  exact hs.advanceWith hk (Token.goalAfter_ne_templateTail _)

theorem passPunctuator {p : Punctuator} [IsTrue p.isPlain] (hs : F.At b s₁ s₂)
    (h : s₁.token.isPunctuator p = true) : F.Yields Eq true (advance s₁) (advance s₂) :=
  hs.pass (hs.heads.kind (isDivision_of_isPunctuator h))

theorem passKeyword {w : Keyword} (hs : F.At b s₁ s₂) (h : s₁.token.isKeyword w = true) :
    F.Yields Eq true (advance s₁) (advance s₂) :=
  hs.pass (hs.heads.kind (isDivision_of_isKeyword h))

theorem passWord {w : String} (hs : F.At b s₁ s₂) (h : s₁.token.isWord w = true) :
    F.Yields Eq true (advance s₁) (advance s₂) :=
  hs.pass (hs.heads.kind (isDivision_of_isWord h))

protected theorem expectWith {p : Punctuator} {goal : LexicalGoal} [IsTrue p.isPlain] [hg : Ordinary goal]
    (hs : F.At b s₁ s₂) : F.Yields Eq true (expectWith p goal s₁) (expectWith p goal s₂) := by
  refine .bind_isAt (.ite (hs.heads.isPunctuator p) (fun h => ?_) fun _ => .error)
  exact hs.advanceWith (hs.heads.kind (isDivision_of_isPunctuator h)) hg.ne

protected theorem expect {p : Punctuator} [IsTrue p.isPlain] (hs : F.At b s₁ s₂) :
    F.Yields Eq true (expect p s₁) (expect p s₂) := by
  refine .bind_token (.bind_isAt (.ite (hs.heads.isPunctuator p) (fun h => ?_) fun _ => .error))
  exact hs.passPunctuator h

protected theorem expectWord {w : String} (hs : F.At b s₁ s₂) : F.Yields Eq true (expectWord w s₁) (expectWord w s₂) :=
  .bind_isAtWord (.ite (hs.heads.isWord w) (fun h => hs.passWord h) fun _ => .error)

/-- A punctuator that may be there, and what follows it. -/
protected theorem eat {p : Punctuator} [IsTrue p.isPlain] {f₁ f₂ : Bool → Recognizer α} (hs : F.At b s₁ s₂)
    (ht : ∀ t₁ t₂, F.At true t₁ t₂ → F.Outcome F.continuing post (f₁ true t₁) (f₂ true t₂))
    (hf : s₁.token.isPunctuator p = false → F.Outcome F.continuing post (f₁ false s₁) (f₂ false s₂))
    [hgentle : Gentle (f₁ true)] :
    F.Outcome F.continuing post ((eat p >>= f₁) s₁) ((eat p >>= f₂) s₂) := by
  rw [eat_bind, eat_bind]
  refine .ite (hs.heads.isPunctuator p) (fun h => ?_) hf
  exact (hs.passPunctuator h).bindGentle fun _ _ t₁ t₂ _ h => ht t₁ t₂ h

/-- A punctuator that may be there. -/
theorem eatAny {p : Punctuator} [IsTrue p.isPlain] (hs : F.At b s₁ s₂) : F.Yields Eq b (eat p s₁) (eat p s₂) := by
  refine .bind_isAt (.ite (hs.heads.isPunctuator p) (fun h => ?_) fun _ => .ok ⟨rfl, hs.after⟩)
  refine (hs.passPunctuator h).bind fun _ _ t₁ t₂ _ ht => .ok ⟨rfl, ?_⟩
  cases b with
  | true => exact ht
  | false => exact ht.weaken

end At

/-- A punctuator that may be there, and what follows it, unless the first has halted. -/
protected theorem After.eat {p : Punctuator} [IsTrue p.isPlain] [IsTrue p.goesOn] {f₁ f₂ : Bool → Recognizer α}
    (hs : F.After b s₁ s₂) (ht : ∀ t₁ t₂, F.After true t₁ t₂ → F.Outcome given post (f₁ true t₁) (f₂ true t₂))
    (hf : F.Outcome given post (f₁ false s₁) (f₂ false s₂))
    [hmoves : Moves (f₁ true)] :
    F.Outcome given post ((eat p >>= f₁) s₁) ((eat p >>= f₂) s₂) := by
  rw [eat_bind, eat_bind]
  refine hs.branch (fun h => h.heads.isPunctuator p) (fun h => h.isPunctuator p) (fun h hs => ?_) fun _ => hf
  exact (hs.passPunctuator h).bind fun _ _ t₁ t₂ _ h => ht t₁ t₂ h

/-- The same where what follows takes a token. -/
theorem After.eatTaking {p : Punctuator} [IsTrue p.isPlain] [IsTrue p.goesOn] {f₁ f₂ : Bool → Recognizer α}
    (hs : F.After b s₁ s₂) (ht : ∀ t₁ t₂, F.At true t₁ t₂ → F.Outcome given post (f₁ true t₁) (f₂ true t₂))
    (hf : F.Outcome given post (f₁ false s₁) (f₂ false s₂))
    [htakes : Takes (f₁ true)] :
    F.Outcome given post ((eat p >>= f₁) s₁) ((eat p >>= f₂) s₂) := by
  rw [eat_bind, eat_bind]
  refine hs.branch (fun h => h.heads.isPunctuator p) (fun h => h.isPunctuator p) (fun h hs => ?_) fun _ => hf
  exact (hs.passPunctuator h).bindTaking fun _ _ t₁ t₂ _ h => ht t₁ t₂ h

/-! ## Looking ahead and reading again -/

namespace At

/-- Looking at the token after a name. Where the first would be stuck with it, the second sees a token that closes the
statement. -/
theorem peekNext {f₁ f₂ : Token → Recognizer α} (hs : F.At b s₁ s₂) (hname : s₁.token.isName = true)
    (hread : s₁.token.goalAfter = .division ∨
      ∀ t, (s₁.scanner.next s₁.token.goalAfter).1 = .ok t → t.kind = .regExp → ∀ a u, f₁ t s₁ ≠ .ok a u)
    (hf : ∀ t₁ t₂, (s₁.scanner.next s₁.token.goalAfter).1 = .ok t₁ → SameTokens F.stop t₁ t₂ →
      F.Outcome given post (f₁ t₁ s₁) (f₂ t₂ s₂))
    (hclosed : ∀ t₁ t₂, ClosesStatement t₂ → F.stuckNext s₁.input → F.Outcome given post (f₁ t₁ s₁) (f₂ t₂ s₂))
    [hmoves : ∀ a, Moves (f₁ a)] :
    F.Outcome given post ((peek >>= f₁) s₁) ((peek >>= f₂) s₂) := by
  intro a u hrun hfinishes hgiven
  obtain ⟨k, hleads, hfinish⟩ := hfinishes
  rcases hnext : (s₁.scanner.next s₁.token.goalAfter).1 with f | t₁
  · rw [peek_bind_of_error hnext] at hrun
    cases hrun
  rw [peek_bind_of_ok hnext] at hrun
  have hregExp : s₁.input.token.goalAfter = .division ∨ t₁.kind ≠ .regExp :=
    hread.imp_right fun h hkind => h t₁ hnext hkind a u hrun
  obtain ⟨t₂, hnext₂, htokens⟩ := F.peek hs.input hname hnext hregExp (((hmoves t₁).leads hrun).trans hleads) hfinish
  have hnext₂ : (s₂.scanner.next s₂.token.goalAfter).1 = .ok t₂ := by
    rw [goalAfter_eq_of_kind (hs.heads.kind (isDivision_of_isName hname))]
    exact hnext₂
  rw [peek_bind_of_ok hnext₂]
  rcases htokens with htokens | ⟨hcloses, hstuck⟩
  · exact hf t₁ t₂ hnext htokens hrun ⟨k, hleads, hfinish⟩ hgiven
  · exact hclosed t₁ t₂ hcloses hstuck hrun ⟨k, hleads, hfinish⟩ hgiven

protected theorem peek {f₁ f₂ : Token → Recognizer α} (hs : F.At b s₁ s₂) (hname : s₁.token.isName = true)
    (hread : s₁.token.goalAfter = .division ∨
      ∀ t, (s₁.scanner.next s₁.token.goalAfter).1 = .ok t → t.kind = .regExp → ∀ a u, f₁ t s₁ ≠ .ok a u)
    (hf : ∀ t₁ t₂, SameTokens F.stop t₁ t₂ → F.Outcome given post (f₁ t₁ s₁) (f₂ t₂ s₂))
    (hclosed : ∀ t₁ t₂, ClosesStatement t₂ → F.stuckNext s₁.input → F.Outcome given post (f₁ t₁ s₁) (f₂ t₂ s₂))
    [∀ a, Moves (f₁ a)] :
    F.Outcome given post ((peek >>= f₁) s₁) ((peek >>= f₂) s₂) :=
  hs.peekNext hname hread (fun t₁ t₂ _ => hf t₁ t₂) hclosed

theorem peekWord {w : String} {f₁ f₂ : Token → Recognizer α} (hs : F.At b s₁ s₂) (hw : s₁.token.isWord w = true)
    (hf : ∀ t₁ t₂, SameTokens F.stop t₁ t₂ → F.Outcome given post (f₁ t₁ s₁) (f₂ t₂ s₂))
    (hclosed : ∀ t₁ t₂, ClosesStatement t₂ → F.stuckNext s₁.input → F.Outcome given post (f₁ t₁ s₁) (f₂ t₂ s₂))
    [hmoves : ∀ a, Moves (f₁ a)] :
    F.Outcome given post ((peek >>= f₁) s₁) ((peek >>= f₂) s₂) :=
  hs.peek (Token.isName_of_isWord hw) (.inl (Token.goalAfter_of_isWord hw)) hf hclosed

theorem peekIdentifier {f₁ f₂ : Token → Recognizer α} (hs : F.At b s₁ s₂) (hi : s₁.token.isIdentifier = true)
    (hf : ∀ t₁ t₂, SameTokens F.stop t₁ t₂ → F.Outcome given post (f₁ t₁ s₁) (f₂ t₂ s₂))
    (hclosed : ∀ t₁ t₂, ClosesStatement t₂ → F.stuckNext s₁.input → F.Outcome given post (f₁ t₁ s₁) (f₂ t₂ s₂))
    [hmoves : ∀ a, Moves (f₁ a)] :
    F.Outcome given post ((peek >>= f₁) s₁) ((peek >>= f₂) s₂) :=
  hs.peek (Token.isName_of_isIdentifier hi)
    (.inl (Token.goalAfter_of_endsOperand (Token.endsOperand_of_isIdentifier hi))) hf hclosed

/-- An operand that begins with `/` is a regular expression in both. -/
theorem rereadDivision {body₁ body₂ : Recognizer α} (hs : F.At b s₁ s₂) (hmoves : Moves body₁)
    (hf : ∀ t₁ t₂, F.At b t₁ t₂ → t₂.token.kind = t₁.token.kind → F.Outcome given post (body₁ t₁) (body₂ t₂)) :
    F.Outcome given post
      ((do
        if (← isAt .slash) || (← isAt .slashAssign) then rescan .regExp
        body₁ : Recognizer α) s₁)
      ((do
        if (← isAt .slash) || (← isAt .slashAssign) then rescan .regExp
        body₂ : Recognizer α) s₂) := by
  change F.Outcome given post ((if isDivision s₁.token = true then rescan .regExp >>= fun _ => body₁ else body₁) s₁)
    ((if isDivision s₂.token = true then rescan .regExp >>= fun _ => body₂ else body₂) s₂)
  cases h₁ : isDivision s₁.token with
  | false =>
    have hkind := hs.heads.kind h₁
    have h₂ : isDivision s₂.token = false := by
      simp only [isDivision, Token.isPunctuator, hkind]
      exact h₁
    rw [h₂]
    exact hf _ _ hs hkind
  | true =>
    rintro a u hrun ⟨k, hleads, hfinish⟩ hgiven
    obtain ⟨_, v, hrescan, hbody⟩ := bind_eq_ok.mp hrun
    have hfirst := input_of_rescan hrescan
    obtain ⟨hdivision, hsecond⟩ := F.rescanRegExp hs.input h₁ hfirst ((hmoves.leads hbody).trans hleads) hfinish
    have finish {t₂ : State} (hat : F.At b v t₂) : Follows post a u (body₂ t₂) :=
      hf v t₂ hat (hat.heads.kind hdivision) hbody ⟨k, hleads, hfinish⟩ hgiven
    obtain ⟨_, _, rfl⟩ := exists_of_rescan hrescan
    rcases hsecond with ⟨h₂, j, hsecond, hinput⟩ | ⟨h₂, hinput⟩
    · obtain ⟨t₂, hrun₂, rfl⟩ := rescan_of_rescan hsecond
      rw [if_pos (show isDivision s₂.token = true from h₂)]
      change Follows post a u (EStateM.bind (rescan .regExp) (fun _ => body₂) s₂)
      unfold EStateM.bind
      rw [hrun₂]
      obtain ⟨_, _, rfl⟩ := exists_of_rescan hrun₂
      exact finish { hs.toAround with input := hinput }
    · rw [if_neg (show ¬ isDivision s₂.token = true from Bool.eq_false_iff.mp h₂)]
      exact finish { hs.toAround with input := hinput }

theorem rescanTemplate (hs : F.At b s₁ s₂) (h : s₁.token.isPunctuator .closeBrace = true) :
    F.Outcome always (fun _ _ => F.At b) (rescan .templateTail s₁) (rescan .templateTail s₂) := by
  rintro a t₁ hrun ⟨k, hleads, hfinish⟩ _
  have hfirst := input_of_rescan hrun
  obtain ⟨j, hsecond, hinput⟩ := F.rescanTemplate hs.input h hfirst hleads hfinish
  obtain ⟨t₂, hrun₂, rfl⟩ := rescan_of_rescan hsecond
  rw [hrun₂]
  obtain ⟨_, _, rfl⟩ := exists_of_rescan hrun
  obtain ⟨_, _, rfl⟩ := exists_of_rescan hrun₂
  exact { hs.toAround with input := hinput }

protected theorem noteOperandStart {f₁ f₂ : Unit → Recognizer α} (hs : F.At b s₁ s₂)
    (hf : ∀ t₁ t₂, F.At b t₁ t₂ → t₁.token = s₁.token → t₂.token = s₂.token →
      F.Outcome given post (f₁ () t₁) (f₂ () t₂)) :
    F.Outcome given post ((noteOperandStart >>= f₁) s₁) ((noteOperandStart >>= f₂) s₂) := by
  refine hf _ _ (hs.of_sameReading ?_ ⟨rfl, rfl, rfl, rfl⟩ ⟨rfl, rfl, rfl, rfl⟩) rfl rfl
  exact { hs with }

end At

/-! ## The ends of statements and operands -/

namespace After

/-- A statement that ends without its semicolon in the first does so in the second too, or the second has one. -/
theorem endStatement (hs : F.After true s₁ s₂) {x₂ : Recognizer Unit}
    (hat : F.At true s₁ s₂ → x₂ s₂ = omitSemicolon s₂)
    (hsemicolon : s₂.token.isPunctuator .semicolon = true → x₂ s₂ = advanceWith .regExp s₂)
    (hclosed : ClosesStatement s₂.token → s₂.token.isPunctuator .semicolon = false → x₂ s₂ = omitSemicolon s₂) :
    F.Yields Eq false (omitSemicolon s₁) (x₂ s₂) := by
  rintro _ _ ⟨⟩ ⟨k, hleads, hfinish⟩ _
  rcases hs.input with hinput | hhalted
  · rw [hat { hs with input := hinput }]
    exact ⟨rfl, { hs.toAround with input := .inl (F.noteOmission (F.weaken hinput)) }⟩
  · rcases F.omits hhalted hleads hfinish with ⟨hp, j, hj, hinput⟩ | ⟨hp, hhalted'⟩
    · obtain ⟨t₂, hrun₂, rfl⟩ := advanceWith_of_advance hj
      rw [hsemicolon hp, hrun₂]
      obtain ⟨_, _, rfl⟩ := exists_of_advanceWith hrun₂
      exact ⟨rfl, { hs.toAround with input := .inl hinput }⟩
    · rw [hclosed (F.closes_of_halted hhalted) hp]
      exact ⟨rfl, { hs.toAround with input := .inr hhalted' }⟩

/-- The end of a statement after which anything may follow. -/
theorem endLoop (hs : F.After true s₁ s₂) :
    F.Yields Eq false ((do if ← isAt .semicolon then advanceWith .regExp else omitSemicolon : Recognizer Unit) s₁)
      ((do if ← isAt .semicolon then advanceWith .regExp else omitSemicolon : Recognizer Unit) s₂) := by
  change F.Yields Eq false
    ((if s₁.token.isPunctuator .semicolon = true then advanceWith .regExp else omitSemicolon) s₁)
    ((if s₂.token.isPunctuator .semicolon = true then advanceWith .regExp else omitSemicolon) s₂)
  by_cases h : s₁.token.isPunctuator .semicolon = true
  · rw [if_pos h]
    refine hs.live fun hat => ?_
    rw [if_pos ((hat.tokens.isPunctuator _).trans h)]
    exact (hat.advanceWith hat.kind (by decide)).weaken
  · rw [if_neg h]
    refine hs.endStatement (fun hat => ?_) (fun hp => ?_) fun _ hp => ?_
    · rw [if_neg (hat.tokens.isPunctuator _ ▸ h)]
    · rw [if_pos hp]
    · rw [if_neg (Bool.eq_false_iff.mp hp)]

protected theorem consumeSemicolon (hs : F.After true s₁ s₂) :
    F.Yields Eq false (consumeSemicolon s₁) (consumeSemicolon s₂) := by
  let may (t : Token) : Bool := t.newlineBefore || t.isPunctuator .closeBrace || t.isEnd
  change F.Yields Eq false
    ((if s₁.token.isPunctuator .semicolon = true then advanceWith .regExp
      else if may s₁.token = true then omitSemicolon else unexpected) s₁)
    ((if s₂.token.isPunctuator .semicolon = true then advanceWith .regExp
      else if may s₂.token = true then omitSemicolon else unexpected) s₂)
  by_cases h : s₁.token.isPunctuator .semicolon = true
  · rw [if_pos h]
    refine hs.live fun hat => ?_
    rw [if_pos ((hat.tokens.isPunctuator _).trans h)]
    exact (hat.advanceWith hat.kind (by decide)).weaken
  rw [if_neg h]
  by_cases hmay : may s₁.token = true
  · rw [if_pos hmay]
    refine hs.endStatement (fun hat => ?_) (fun hp => ?_) fun hcloses hp => ?_
    · have hsame : may s₂.token = may s₁.token := by
        simp only [may, hat.tokens.newlineBefore, hat.tokens.isPunctuator, hat.tokens.isEnd]
      rw [if_neg (hat.tokens.isPunctuator _ ▸ h), if_pos (hsame.trans hmay)]
    · rw [if_pos hp]
    · have hbrace : s₂.token.isPunctuator .closeBrace = true := by
        rcases hcloses with hk | hk
        · exact absurd (hp.symm.trans (Token.isPunctuator_iff.mpr hk)) Bool.false_ne_true
        · exact Token.isPunctuator_iff.mpr hk
      rw [if_neg (Bool.eq_false_iff.mp hp),
        if_pos (show may s₂.token = true by simp only [may, hbrace, Bool.or_true, Bool.true_or])]
  · rw [if_neg hmay]
    exact .error

/-- Where an operand has ended is noted wherever the two stand. -/
theorem noteEnd {e₁ e₂ : List (Position × Token)} (hs : F.After b s₁ s₂) :
    F.After b { s₁ with operandEnds := e₁ } { s₂ with operandEnds := e₂ } :=
  hs.of_sameReading { hs with } ⟨rfl, rfl, rfl, rfl⟩ ⟨rfl, rfl, rfl, rfl⟩

end After

end Following

end Grammar

end EcmaCheck
