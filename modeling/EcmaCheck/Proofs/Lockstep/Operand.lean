import EcmaCheck.Grammar.Operand
import EcmaCheck.Proofs.Lockstep.Class

/-!
# Operands in lockstep

Every operand ends as one: after its last token `/` divides. What is put off until an arrow or an assignment is seen, a
list in parentheses (`Simulation.Lists`) or the elements of a literal (`Simulation.Literals`), corresponds as a whole.
-/

namespace EcmaCheck.Grammar.Simulation

set_option synthInstance.maxSize 20000

variable {sim : Simulation} {α : Type} {b : Bool} {k c : Nat} {s₁ s₂ : State} {nested₁ nested₂ : Derivation}
  [∀ p, Moves (nested₁ p)]
  {post : α → α → State → State → Prop}

/-! ## Arguments and members -/

protected theorem Derives.arguments (hd : sim.Derives k nested₁ nested₂) (hs : sim.At b k c s₁ s₂) :
    sim.Yields Eq true k (c + 2) (arguments nested₁ s₁) (arguments nested₂ s₂) := by
  refine hs.expect.bind fun _ _ t₁ t₂ _ ht => ?_
  refine (ht.itemsUntil rfl fun c' _ _ u₁ u₂ hc _ hu _ => ?_).bind fun _ _ u₁ u₂ h => ?_
  · refine hu.eatAny.discard.bind fun _ _ v₁ v₂ _ hv => ?_
    exact (hd.assignment true hv (by omega)).discard.mono fun _ _ _ _ h => ⟨h.1, h.2.weaken⟩
  · exact h.2.1.passOperand (by rw [Token.endsOperand_of_isPunctuator h.2.2]; rfl)

namespace At

protected theorem requirePrivateScope {f₁ f₂ : Unit → Recognizer α} {name : String} (hs : sim.At b k c s₁ s₂)
    (hk : s₁.token.kind = .privateName name) (hf : sim.Outcome post (f₁ () s₁) (f₂ () s₂)) :
    sim.Outcome post ((requirePrivateScope >>= f₁) s₁) ((requirePrivateScope >>= f₂) s₂) := by
  unfold requirePrivateScope
  rw [bind_assoc, bind_assoc]
  refine .bind_get ?_
  rw [hs.classDepth, hs.tokens.lexeme]
  split
  · exact hs.throwFirst (sim.fault_of_token hs.tokens (.undeclaredPrivate hk))
  · exact hf

protected theorem memberName (hs : sim.At b k c s₁ s₂) :
    sim.Yields Eq true k (c + 1) (memberName s₁) (memberName s₂) := by
  refine .bind_token ?_
  rw [hs.tokens.kind]
  cases hk : s₁.token.kind with
  | identifier | keyword => exact hs.advanceWith (Token.isEnd_of_kind hk nofun) (by decide)
  | privateName => exact hs.requirePrivateScope hk (hs.advanceWith (Token.isEnd_of_kind hk nofun) (by decide))
  | _ => exact hs.expectedIdentifier

end At

namespace Derives

variable (hd : sim.Derives k nested₁ nested₂)

include hd

protected theorem computedMember (hs : sim.At b k c s₁ s₂) :
    sim.Yields Eq true k (c + 1) (computedMember nested₁ s₁) (computedMember nested₂ s₂) := by
  refine hs.expect.bind fun _ _ t₁ t₂ _ ht => ?_
  refine (hd.expression true ht (by omega)).discard.bind fun _ _ u₁ u₂ _ hu => ?_
  exact hu.expect.lower (by omega)

/-! ## Templates -/

protected theorem template {tagged : Bool} (hs : sim.At b k c s₁ s₂) :
    sim.Yields Eq true k (c + 1) (template nested₁ tagged s₁) (template nested₂ tagged s₂) := by
  refine hs.weaken.loopMoving Eq rfl (fun _ => .bind inferInstance fun span => ?_)
    fun c' _ _ t₁ t₂ hc _ ht => .bind_token ?_
  · dsimp only
    split
    · split <;> infer_instance
    · infer_instance
  have hescape := ht.tokens.malformedEscape?
  rw [ht.tokens.kind]
  cases hk : t₁.token.kind with
  | template part n =>
    have he : t₁.token.isEnd = false := Token.isEnd_of_kind hk (by rintro ⟨⟩)
    have hend : t₁.token.endsOperand = part.isLast := Token.endsOperand_of_kind hk
    have span : sim.Outcome (AfterTurn (fun _ _ u₁ u₂ => () = () ∧ sim.At false k (c' + 1) u₁ u₂)
        (fun _ _ u₁ u₂ => () = () ∧ sim.At true k (c + 1) u₁ u₂))
        ((do
          advance
          if part.isLast then return .done ()
          discard (expression nested₁ true)
          unless ← isAt .closeBrace do unexpected
          rescan .templateTail
          return .again () : Recognizer (Turn Unit Unit)) t₁)
        ((do
          advance
          if part.isLast then return .done ()
          discard (expression nested₂ true)
          unless ← isAt .closeBrace do unexpected
          rescan .templateTail
          return .again () : Recognizer (Turn Unit Unit)) t₂) := by
      refine (ht.advance he).bind fun _ _ u₁ u₂ _ hu => .ite rfl (fun h => ?_) fun _ => ?_
      · rw [hend, h] at hu
        exact .ok ⟨rfl, hu.mono (by omega)⟩
      · refine (hd.expression true hu (by omega)).discard.bind fun _ _ v₁ v₂ _ hv => ?_
        refine .bind_isAt (.ite (hv.tokens.isPunctuator _) (fun h => ?_) fun _ => hv.unexpectedFirst)
        exact (hv.rescanTemplate h).bind fun _ _ w₁ w₂ _ h => .ok ⟨rfl, h.mono (by omega)⟩
    generalize t₁.token.malformedEscape? = m₁ at hescape ⊢
    generalize t₂.token.malformedEscape? = m₂ at hescape ⊢
    cases tagged with
    | true => cases hescape <;> exact span
    | false =>
      cases hescape with
      | some h => exact ht.throwFirst (sim.fault_of_escape h)
      | none => exact span
  | _ => exact ht.unexpected

/-! ## Arrow functions -/

protected theorem arrowBody {p q : Position} {isAsync simple : Bool} (hs : sim.At b k c s₁ s₂) (hp : sim.place p q)
    (he : s₁.token.isEnd = false) :
    sim.Yields sim.Summaries true k (c + 1) (arrowBody nested₁ p isAsync simple s₁)
      (arrowBody nested₂ q isAsync simple s₂) := by
  refine (hs.pass he).bind fun _ _ t₁ t₂ _ ht => ht.sameContext ?_
  refine Outcome.seq (fun r₁ r₂ u₁ u₂ => r₁ = r₂ ∧ sim.At true k (c + 1) u₁ u₂)
    (ht.inFunctionContext rfl fun u₁ u₂ hu => ?_) fun _ _ u₁ u₂ h => .ok ⟨⟨rfl, hp, .none⟩, h.2⟩
  refine .bind_isAt (.ite (hu.tokens.isPunctuator _) (fun _ => ?_) fun _ => ?_)
  · exact (hd.functionBody hu (by omega)).lower (by omega)
  · exact (hd.assignment true hu (by omega)).discard.lower (by omega)

end Derives

protected theorem At.isAtArrow {f₁ f₂ : Bool → Recognizer α} (hs : sim.At b k c s₁ s₂)
    (ht : s₁.token.isEnd = false → sim.Outcome post (f₁ true s₁) (f₂ true s₂))
    (hf : sim.Outcome post (f₁ false s₁) (f₂ false s₂)) :
    sim.Outcome post ((isAtArrow >>= f₁) s₁) ((isAtArrow >>= f₂) s₂) := by
  change sim.Outcome post (f₁ (s₁.token.isPunctuator .arrow && !s₁.token.newlineBefore) s₁)
    (f₂ (s₂.token.isPunctuator .arrow && !s₂.token.newlineBefore) s₂)
  rw [hs.tokens.onSameLine_eq (hs.tokens.isPunctuator .arrow) Token.isEnd_of_isPunctuator]
  cases h : s₁.token.isPunctuator .arrow && !s₁.token.newlineBefore with
  | true => exact ht (Token.isEnd_of_isPunctuator (Bool.and_eq_true _ _ ▸ h).1)
  | false => exact hf

/-- Lists of corresponding items. -/
structure Lists (sim : Simulation) (l₁ l₂ : ParenthesizedList) : Prop where
  count : l₂.count = l₁.count
  last? : Option.Rel sim.Summaries l₁.last? l₂.last?
  allBinding : l₂.allBinding = l₁.allBinding
  allIdentifiers : l₂.allIdentifiers = l₁.allIdentifiers
  shorthand? : Option.Rel sim.place l₁.shorthand? l₂.shorthand?
  arrowOnly? : Option.Rel sim.fault l₁.arrowOnly? l₂.arrowOnly?

namespace Lists

variable {l₁ l₂ : ParenthesizedList} (hl : sim.Lists l₁ l₂)

include hl

protected theorem push {e₁ e₂ : Summary} (he : sim.Summaries e₁ e₂) : sim.Lists (l₁.push e₁) (l₂.push e₂) where
  count := congrArg (· + 1) hl.count
  last? := .some he
  allBinding := by simp only [ParenthesizedList.push, hl.allBinding, he.shape]
  allIdentifiers := by simp only [ParenthesizedList.push, hl.allIdentifiers, he.shape]
  shorthand? := rel_or hl.shorthand? he.shorthand?
  arrowOnly? := hl.arrowOnly?

protected theorem pushRest {e₁ e₂ : Summary} {last : Bool} (he : sim.Summaries e₁ e₂) :
    sim.Lists (l₁.pushRest e₁ last) (l₂.pushRest e₂ last) where
  count := congrArg (· + 1) hl.count
  last? := hl.last?
  allBinding := by simp only [ParenthesizedList.pushRest, hl.allBinding, he.shape]
  allIdentifiers := rfl
  shorthand? := rel_or hl.shorthand? he.shorthand?
  arrowOnly? := hl.arrowOnly?

protected theorem onlyBeforeArrow {t₁ t₂ : Token} (ht : sim.Tokens t₁ t₂) :
    sim.Lists (l₁.onlyBeforeArrow t₁) (l₂.onlyBeforeArrow t₂) :=
  { hl with arrowOnly? := rel_or hl.arrowOnly? (.some (fault_unexpected ht)) }

protected theorem shape : l₂.shape = l₁.shape := by
  have hlast := hl.last?
  unfold ParenthesizedList.shape
  rw [hl.count]
  generalize l₁.last? = i₁ at hlast ⊢
  generalize l₂.last? = i₂ at hlast ⊢
  cases hlast with
  | none => rfl
  | some h =>
    cases l₁.count with
    | zero => rfl
    | succ n =>
      cases n with
      | zero => exact congrArg Shape.inParentheses h.shape
      | succ => rfl

protected theorem rejectShorthand {f₁ f₂ : Unit → Recognizer α} (hs : sim.At b k c s₁ s₂)
    (hf : sim.Outcome post (f₁ () s₁) (f₂ () s₂)) :
    sim.Outcome post ((l₁.rejectShorthand >>= f₁) s₁) ((l₂.rejectShorthand >>= f₂) s₂) := by
  have h := hl.shorthand?
  unfold ParenthesizedList.rejectShorthand
  generalize l₁.shorthand? = p₁ at h ⊢
  generalize l₂.shorthand? = p₂ at h ⊢
  cases h with
  | some h => exact hs.failFirst h rfl
  | none => exact hf

end Lists

namespace Derives

variable (hd : sim.Derives k nested₁ nested₂)

include hd

protected theorem parenthesizedItem {call : Bool} {l₁ l₂ : ParenthesizedList} {c' : Nat} (hs : sim.At b k c s₁ s₂)
    (hl : sim.Lists l₁ l₂) (hc : 1 ≤ c) (hc' : c' ≤ c) :
    sim.Outcome (AfterTurn (fun l₁ l₂ t₁ t₂ => sim.Lists l₁ l₂ ∧ sim.At false k (c + 1) t₁ t₂)
        fun l₁ l₂ t₁ t₂ => sim.Lists l₁ l₂ ∧ sim.At false k c' t₁ t₂ ∧ t₁.token.isPunctuator .closeParen = true)
      (parenthesizedItem nested₁ call l₁ s₁) (parenthesizedItem nested₂ call l₂ s₂) := by
  refine .bind_token (.ite (hs.tokens.isPunctuator _) (fun h => ?_) fun _ => ?_)
  · have hl' := hl.onlyBeforeArrow hs.tokens
    refine (hs.pass (Token.isEnd_of_isPunctuator h)).bind fun _ _ t₁ t₂ _ ht => ?_
    refine (hd.assignmentOrPattern true ht (by omega)).bind fun e₁ e₂ u₁ u₂ he hu => .bind_token ?_
    refine .ite (hu.tokens.isPunctuator _) (fun h => .ok ⟨hl'.pushRest he, hu.weaken.mono (by omega), h⟩) fun _ => ?_
    refine .ite rfl (fun _ => ?_) fun _ => hu.failFirst hu.tokens.start rfl
    exact hu.expect.bind fun _ _ v₁ v₂ _ hv => .ok ⟨hl'.pushRest he, hv.weaken.mono (by omega)⟩
  · refine (hd.assignmentOrPattern true hs (by omega)).bind fun e₁ e₂ t₁ t₂ he ht => ?_
    have hl' := hl.push he
    refine .bind_isAt (.ite (ht.tokens.isPunctuator _) (fun h => .ok ⟨hl', ht.weaken.mono (by omega), h⟩) fun _ => ?_)
    refine ht.expect.bind fun _ _ u₁ u₂ _ hu => .bind_token (.ok ⟨?_, hu.weaken.mono (by omega)⟩)
    rw [hu.tokens.isPunctuator]
    split
    · exact hl'.onlyBeforeArrow hu.tokens
    · exact hl'

protected theorem parenthesizedList {call : Bool} (hs : sim.At b k c s₁ s₂) :
    sim.Yields sim.Lists true k (c + 2) (parenthesizedList nested₁ call s₁) (parenthesizedList nested₂ call s₂) := by
  refine hs.expect.bind fun _ _ t₁ t₂ _ ht => .bind_token ?_
  refine Outcome.seq (fun l₁ l₂ u₁ u₂ => sim.Lists l₁ l₂ ∧ sim.At false k (c + 1) u₁ u₂ ∧
      u₁.token.isPunctuator .closeParen = true) (ht.weaken.loop sim.Lists ?_ fun c' l₁ l₂ u₁ u₂ hc hl hu => ?_)
    fun l₁ l₂ u₁ u₂ h => ?_
  · have hempty : sim.Lists {} {} := ⟨rfl, .none, rfl, rfl, .none, .none⟩
    rw [ht.tokens.isPunctuator]
    split
    · exact hempty.onlyBeforeArrow ht.tokens
    · exact hempty
  · refine .bind_isAt (.ite (hu.tokens.isPunctuator _) (fun h => .ok ⟨hl, hu.mono hc, h⟩) fun _ => ?_)
    exact hd.parenthesizedItem hu hl (by omega) hc
  · obtain ⟨hl, hu, h⟩ := h
    refine (hu.passOperand ?_).bind fun _ _ v₁ v₂ _ hv => .ok ⟨hl, hv⟩
    rw [Token.endsOperand_of_isPunctuator h]
    rfl

protected theorem parenthesized (hs : sim.At b k c s₁ s₂) :
    sim.Yields sim.Summaries true k (c + 1) (parenthesized nested₁ s₁) (parenthesized nested₂ s₂) := by
  have hstart := hs.tokens.start
  refine .bind_token ((hd.parenthesizedList hs).bindMoving (fun list => .bind inferInstance fun isArrow => ?_)
    fun l₁ l₂ t₁ t₂ hl ht => ?_)
  · dsimp only
    split
    · infer_instance
    · split <;> infer_instance
  refine ht.isAtArrow (fun he => ?_) ?_
  · refine .ite rfl (fun _ => ?_) fun h => by cases h
    refine .ite hl.allBinding (fun _ => ?_) fun _ => ht.failFirst hstart rfl
    rw [hl.allIdentifiers]
    exact (hd.arrowBody ht hstart he).lower (by omega)
  · have hfault := hl.arrowOnly?
    generalize l₁.arrowOnly? = f₁ at hfault ⊢
    generalize l₂.arrowOnly? = f₂ at hfault ⊢
    cases hfault with
    | some h => exact ht.throwFirst h
    | none => exact hl.rejectShorthand ht (.ok ⟨⟨hl.shape, hstart, .none⟩, ht.mono (by omega)⟩)

protected theorem asyncCallOrArrow {p q : Position} {newlineBeforeParen : Bool} (hs : sim.At b k c s₁ s₂)
    (hp : sim.place p q) :
    sim.Yields sim.Summaries true k (c + 1) (asyncCallOrArrow nested₁ p newlineBeforeParen s₁)
      (asyncCallOrArrow nested₂ q newlineBeforeParen s₂) := by
  refine (hd.parenthesizedList hs).bind fun l₁ l₂ t₁ t₂ hl ht => ht.isAtArrow (fun he => ?_) ?_
  · refine .ite rfl (fun _ => ?_) nofun
    refine .ite rfl (fun _ => ht.unexpectedFirst) fun _ => ?_
    refine .ite hl.allBinding (fun _ => ?_) fun _ => ht.failFirst hp rfl
    rw [hl.allIdentifiers]
    exact (hd.arrowBody ht hp he).lower (by omega)
  · exact hl.rejectShorthand ht (.ok ⟨.other hp, ht.mono (by omega)⟩)

protected theorem asyncArrow {p q : Position} (hs : sim.At b k c s₁ s₂) (hp : sim.place p q) :
    sim.Yields sim.Summaries true k (c + 1) (asyncArrow nested₁ p s₁) (asyncArrow nested₂ q s₂) := by
  refine .bind_token ?_
  obtain ⟨h₁, h₂⟩ | ⟨i₁, i₂, hi, h₁, h₂, ht⟩ := hs.identifier?_cases
  · rw [h₁, h₂]
    exact hs.expectedIdentifier
  · rw [h₁, h₂]
    simp only [hi.name]
    refine .branch Iff.rfl (fun _ => hs.failFirst hi.position rfl) fun _ => hs.checkBinding hi ?_
    refine (hs.passOperand ht).bind fun _ _ t₁ t₂ _ ht => ht.isAtArrow (fun he => ?_) ht.unexpectedFirst
    exact (hd.arrowBody ht hp he).lower (by omega)

protected theorem plainIdentifier {i₁ i₂ : Identifier} (hs : sim.At b k c s₁ s₂) (hi : sim.Identifiers i₁ i₂)
    (ht : s₁.token.endsOperand = true) :
    sim.Yields sim.Summaries true k (c + 1) (plainIdentifier nested₁ i₁ s₁) (plainIdentifier nested₂ i₂ s₂) := by
  refine hs.checkReference hi ((hs.passOperand ht).bind fun _ _ t₁ t₂ _ ht => ht.sameContext ?_)
  rw [hi.name]
  refine ht.isAtArrow (fun he => ?_) (.ok ⟨⟨rfl, hi.position, .none⟩, ht⟩)
  refine .ite rfl (fun _ => ?_) nofun
  refine .ite rfl (fun _ => ht.failFirst hi.position rfl) fun _ => ?_
  exact (hd.arrowBody ht hi.position he).lower (by omega)

protected theorem identifierExpression {i₁ i₂ : Identifier} (hs : sim.At b k c s₁ s₂) (hi : sim.Identifiers i₁ i₂)
    (ht : s₁.token.endsOperand = true) :
    sim.Yields sim.Summaries true k (c + 1) (identifierExpression nested₁ i₁ s₁)
      (identifierExpression nested₂ i₂ s₂) := by
  refine .bind_isAtWord (.ite (hs.tokens.isWord _) (fun h => ?_) fun _ => hd.plainIdentifier hs hi ht)
  have he := Token.isEnd_of_isWord h
  refine hs.peek (Token.isName_of_isWord h) (.inl (Token.goalAfter_of_isWord h)) fun t₁ t₂ hnext hn => ?_
  refine .ite (hnext.sameLine_eq (hnext.isKeyword _) Token.isEnd_of_isKeyword) (fun h => ?_) fun _ => ?_
  · have hfunction := Token.isEnd_of_isKeyword (Bool.and_eq_true _ _ ▸ h).2
    refine (hs.passOn (hn hfunction) he).bind fun _ _ u₁ u₂ hu => ?_
    exact (hd.function hu.1 hu.2).lower (by omega)
  refine .ite (hnext.sameLine_eq hnext.isIdentifier Token.isEnd_of_isIdentifier) (fun h => ?_) fun _ => ?_
  · refine (hs.pass he).bind fun _ _ u₁ u₂ _ hu => ?_
    exact (hd.asyncArrow hu hi.position).lower (by omega)
  refine .ite (hnext.isPunctuator _) (fun h => ?_) fun _ => hd.plainIdentifier hs hi ht
  rw [hnext.newlineBefore_of_isEnd (Token.isEnd_of_isPunctuator h)]
  refine (hs.pass he).bind fun _ _ u₁ u₂ _ hu => ?_
  exact (hd.asyncCallOrArrow hu hi.position).lower (by omega)

end Derives

/-! ## Array and object literals -/

/-- Literals of corresponding elements. -/
structure Literals (sim : Simulation) (es₁ es₂ : Elements) : Prop where
  assignable : es₂.assignable = es₁.assignable
  binding : es₂.binding = es₁.binding
  shorthand? : Option.Rel sim.place es₁.shorthand? es₂.shorthand?

namespace Literals

variable {es₁ es₂ : Elements} (hes : sim.Literals es₁ es₂)

include hes

protected theorem push {e₁ e₂ : Summary} {a₁ a₂ b₁ b₂ : Bool} (he : sim.Summaries e₁ e₂) (ha : a₂ = a₁)
    (hb : b₂ = b₁) : sim.Literals (es₁.push e₁ a₁ b₁) (es₂.push e₂ a₂ b₂) where
  assignable := by simp only [Elements.push, hes.assignable, ha]
  binding := by simp only [Elements.push, hes.binding, hb]
  shorthand? := rel_or hes.shorthand? he.shorthand?

protected theorem summary {p q : Position} (h : sim.place p q) : sim.Summaries (es₁.summary p) (es₂.summary q) where
  shape := by simp only [Elements.summary, hes.assignable, hes.binding]
  start := h
  shorthand? := hes.shorthand?

end Literals

namespace Derives

variable (hd : sim.Derives k nested₁ nested₂)

include hd

protected theorem arrayLiteral (hs : sim.At b k c s₁ s₂) (he : s₁.token.isEnd = false) :
    sim.Yields sim.Summaries true k (c + 1) (arrayLiteral nested₁ s₁) (arrayLiteral nested₂ s₂) := by
  have hstart := hs.tokens.start
  refine .bind_token ((hs.pass he).bind fun _ _ t₁ t₂ _ ht => ?_)
  refine Outcome.seq (fun es₁ es₂ u₁ u₂ => sim.Literals es₁ es₂ ∧ sim.At false k c u₁ u₂ ∧
      u₁.token.isPunctuator .closeBracket = true)
    (ht.loop sim.Literals ⟨rfl, rfl, .none⟩ fun c' es₁ es₂ u₁ u₂ hc hes hu => ?_) fun es₁ es₂ u₁ u₂ h => ?_
  · refine .bind_isAt (.ite (hu.tokens.isPunctuator _) (fun h => .ok ⟨hes, hu.mono (by omega), h⟩) fun _ => ?_)
    refine hu.eat (fun v₁ v₂ hv => .ok ⟨hes, hv⟩) fun _ => ?_
    refine hu.eat (fun v₁ v₂ hv => ?_) fun _ => ?_
    · refine (hd.assignmentOrPattern true hv (by omega)).bind fun e₁ e₂ w₁ w₂ he hw => .bind_isAt ?_
      rw [he.shape, hw.tokens.isPunctuator]
      exact hw.separator fun _ _ hx => ⟨hes.push he rfl rfl, hx.mono (by omega)⟩
    · refine (hd.assignmentOrPattern true hu (by omega)).bind fun e₁ e₂ w₁ w₂ he hw => ?_
      rw [he.shape]
      exact hw.separator fun _ _ hx => ⟨hes.push he rfl rfl, hx⟩
  · obtain ⟨hes, hu, h⟩ := h
    refine (hu.passOperand ?_).bind fun _ _ v₁ v₂ _ hv => .ok ⟨hes.summary hstart, hv⟩
    rw [Token.endsOperand_of_isPunctuator h]
    rfl

protected theorem expandObjectMember (hs : sim.At b k c s₁ s₂) :
    sim.Yields sim.Summaries false k (c + 1) (expandObjectMember nested₁ s₁) (expandObjectMember nested₂ s₂) := by
  have hstart := hs.tokens.start
  refine .bind_token (hs.modifiers.bindMoving
    (fun m => .bind inferInstance fun key => .bind inferInstance fun isMethod => ?_) fun m₁ m₂ t₁ t₂ hm ht => ?_)
  · dsimp only
    split
    · infer_instance
    · refine .bind inferInstance fun hasValue => ?_
      split
      · infer_instance
      · split <;> infer_instance
  subst hm
  refine (hd.propertyName false ht).bindMoving (fun key => .bind inferInstance fun isMethod => ?_)
    fun key₁ key₂ u₁ u₂ hkey hu => .bind_isAt ?_
  · dsimp only
    split
    · infer_instance
    · refine .bind inferInstance fun hasValue => ?_
      split
      · infer_instance
      · split <;> infer_instance
  rw [hu.tokens.isPunctuator]
  refine .ite rfl (fun _ => ?_) fun _ => hu.eat (fun v₁ v₂ hv => ?_) fun _ => ?_
  · exact (hd.method hu).bind fun _ _ v₁ v₂ _ hv => .ok ⟨.other hstart, hv.weaken.mono (by omega)⟩
  · refine (hd.assignmentOrPattern true hv (by omega)).bind fun e₁ e₂ w₁ w₂ he hw => ?_
    rw [he.shape]
    exact .ok ⟨⟨rfl, hstart, he.shorthand?⟩, hw.weaken.mono (by omega)⟩
  · have hid := hkey.identifier?
    cases h₁ : key₁.identifier? <;> cases h₂ : key₂.identifier? <;> rw [h₁, h₂] at hid <;> cases hid
    · exact hu.unexpected
    · rename_i i₁ i₂ hi
      refine hu.checkReference hi (hu.sameContext (.bind_token ?_))
      have hmark := hu.tokens.start
      rw [hi.name]
      refine hu.eat (fun v₁ v₂ hv => ?_) fun _ => .ok ⟨⟨rfl, hstart, .none⟩, hu⟩
      refine (hd.assignment true hv (by omega)).discard.bind fun _ _ w₁ w₂ _ hw => ?_
      exact .ok ⟨⟨rfl, hstart, .some hmark⟩, hw.weaken.mono (by omega)⟩

protected theorem objectLiteral (hs : sim.At b k c s₁ s₂) (he : s₁.token.isEnd = false) :
    sim.Yields sim.Summaries true k (c + 1) (objectLiteral nested₁ s₁) (objectLiteral nested₂ s₂) := by
  have hstart := hs.tokens.start
  refine .bind_token ((hs.pass he).bind fun _ _ t₁ t₂ _ ht => ?_)
  have hempty : sim.Literals {} {} := ⟨rfl, rfl, .none⟩
  refine (ht.itemsUntil hempty fun c' es₁ es₂ u₁ u₂ hc hes hu _ => ?_).bind fun es₁ es₂ u₁ u₂ h => ?_
  · refine hu.eat (fun v₁ v₂ hv => ?_) fun _ => ?_
    · refine (hd.assignment true hv (by omega)).bind fun e₁ e₂ w₁ w₂ he hw => .bind_isAt ?_
      rw [he.shape, hw.tokens.isPunctuator]
      exact .ok ⟨hes.push he rfl rfl, hw.weaken.mono (by omega)⟩
    · have hrank : Production.objectMember.rank ≤ c' := by
        simp only [Production.rank]
        omega
      refine (hd.production .objectMember hu hrank fun h => absurd h Bool.false_ne_true).bind
        fun e₁ e₂ w₁ w₂ he hw => ?_
      rw [he.shape]
      cases e₁.shape with
      | pattern binding => exact .ok ⟨hes.push he rfl rfl, hw⟩
      | _ => exact .ok ⟨hes.push he rfl rfl, hw⟩
  · obtain ⟨hes, hu, h⟩ := h
    refine (hu.passOperand ?_).bind fun _ _ v₁ v₂ _ hv => .ok ⟨hes.summary hstart, hv.mono (by omega)⟩
    rw [Token.endsOperand_of_isPunctuator h]
    rfl

end Derives

/-! ## Primary expressions -/

protected theorem At.privateOperand {name : String} (hs : sim.At b k c s₁ s₂) (hk : s₁.token.kind = .privateName name) :
    sim.Yields sim.Summaries true k (c + 1) (privateOperand s₁) (privateOperand s₂) := by
  have hstart := hs.tokens.start
  have he : s₁.token.endsOperand = true := Token.endsOperand_of_kind hk
  refine .bind_token (hs.requirePrivateScope hk ((hs.passOperand he).bind fun _ _ t₁ t₂ _ ht => ?_))
  exact .bind_isAtKeyword (.ite (ht.tokens.isKeyword _) (fun _ => .ok ⟨.other hstart, ht⟩) fun _ => ht.unexpectedFirst)

protected theorem At.tokenLiteral (hs : sim.At b k c s₁ s₂) (he : s₁.token.endsOperand = true) :
    sim.Yields sim.Summaries true k (c + 1) (tokenLiteral s₁) (tokenLiteral s₂) :=
  .bind_token ((hs.passOperand he).bind fun _ _ _ _ _ h => .ok ⟨.other hs.tokens.start, h⟩)

namespace Derives

variable (hd : sim.Derives k nested₁ nested₂)

include hd

protected theorem primary (hs : sim.At b k c s₁ s₂) :
    sim.Yields sim.Summaries true k (c + 1) (primary nested₁ s₁) (primary nested₂ s₂) := by
  refine .bind_isAt (.bind_isAt (.when (fun t₁ t₂ => sim.At false k c t₁ t₂ ∧ isDivision t₁.token = false) ?_
    (fun _ => .bind inferInstance fun _ => .bind inferInstance fun t => ?_)
    (fun h => hs.rescanRegExp h) (fun h => ⟨hs.weaken, h⟩) fun t₁ t₂ ht => ?_))
  · rw [hs.tokens.isPunctuator, hs.tokens.isPunctuator]
  · dsimp only
    split <;> infer_instance
  refine ht.1.noteOperandStart ht.2 fun t₁ t₂ ht _ => .bind_token ?_
  have hstart := ht.tokens.start
  rw [ht.tokens.kind]
  cases hk : t₁.token.kind with
  | identifier name escaped =>
    exact hd.identifierExpression ht (.of_kind ht.tokens hk) (Token.endsOperand_of_kind hk)
  | privateName => exact ht.privateOperand hk
  | number legacyOctal =>
    refine ht.sameContext ?_
    exact .ite rfl (fun _ => ht.failFirst hstart rfl) fun _ => ht.tokenLiteral (Token.endsOperand_of_kind hk)
  | string legacyOctalEscape =>
    refine ht.sameContext ?_
    exact .ite rfl (fun _ => ht.failFirst hstart rfl) fun _ => ht.tokenLiteral (Token.endsOperand_of_kind hk)
  | bigInt | regExp => exact ht.tokenLiteral (Token.endsOperand_of_kind hk)
  | template => exact (hd.template ht).bind fun _ _ u₁ u₂ _ h => .ok ⟨.other hstart, h⟩
  | keyword w =>
    have he : t₁.token.isEnd = false := Token.isEnd_of_kind hk (by rintro ⟨⟩)
    cases w with
    | this | null | true | false => exact ht.tokenLiteral (Token.endsOperand_of_kind hk)
    | function => exact hd.function ht he
    | «class» => exact hd.classDefinition ht he
    | _ => exact ht.unexpected
  | punctuator p =>
    have he : t₁.token.isEnd = false := Token.isEnd_of_kind hk (by rintro ⟨⟩)
    cases p with
    | openParen => exact hd.parenthesized ht
    | openBracket => exact hd.arrayLiteral ht he
    | openBrace => exact hd.objectLiteral ht he
    | _ => exact ht.unexpected
  | endOfInput => exact ht.unexpected

/-! ## What follows an operand -/

protected theorem optionalMember (hs : sim.At b k c s₁ s₂) (he : s₁.token.isEnd = false) :
    sim.Yields Eq true k (c + 1) (optionalMember nested₁ s₁) (optionalMember nested₂ s₂) := by
  refine (hs.pass he).bind fun _ _ t₁ t₂ _ ht => .bind_token ?_
  refine .ite (ht.tokens.isPunctuator _) (fun _ => ?_) fun _ => ?_
  · exact (hd.arguments ht).lower (by omega)
  refine .ite (ht.tokens.isPunctuator _) (fun _ => ?_) fun _ => ?_
  · exact (hd.computedMember ht).lower (by omega)
  refine .ite ht.tokens.isTemplate (fun _ => ht.fail ht.tokens.start rfl) fun _ => ?_
  exact ht.memberName.lower (by omega)

/-- What follows an operand ends as an operand, and where nothing follows the states stay as they are. -/
protected theorem callTailPart {allowCall inChain : Bool} {e₁ e₂ : Summary} (hs : sim.At true k c s₁ s₂)
    (he : sim.Summaries e₁ e₂) :
    sim.Outcome (fun r₁ r₂ t₁ t₂ => r₂ = r₁ ∧ sim.At true k c t₁ t₂ ∧ (r₁.isSome = true → sim.At true k (c + 1) t₁ t₂))
      (callTailPart nested₁ allowCall inChain e₁ s₁) (callTailPart nested₂ allowCall inChain e₂ s₂) := by
  have part : ∀ {r : Option (Shape × Bool)} {t₁ t₂ : State}, sim.At true k (c + 1) t₁ t₂ →
      r = r ∧ sim.At true k c t₁ t₂ ∧ (r.isSome = true → sim.At true k (c + 1) t₁ t₂) :=
    fun ht => ⟨rfl, ht.mono (by omega), fun _ => ht⟩
  refine .bind_token (.ite (hs.tokens.isPunctuator _) (fun h => hs.rejectShorthand he ?_) fun _ => ?_)
  · refine (hs.pass (Token.isEnd_of_isPunctuator h)).bind fun _ _ t₁ t₂ _ ht => ?_
    exact ht.memberName.bind fun _ _ u₁ u₂ _ hu => .ok (part (hu.mono (by omega)))
  refine .ite (hs.tokens.isPunctuator _) (fun h => ?_) fun _ => ?_
  · refine .ite rfl (fun _ => hs.rejectShorthand he ?_) fun _ => hs.failFirst hs.tokens.start rfl
    exact (hd.optionalMember hs (Token.isEnd_of_isPunctuator h)).bind fun _ _ t₁ t₂ _ ht => .ok (part ht)
  refine .ite (hs.tokens.isPunctuator _) (fun _ => hs.rejectShorthand he ?_) fun _ => ?_
  · exact (hd.computedMember hs).bind fun _ _ t₁ t₂ _ ht => .ok (part ht)
  refine .ite ?_ (fun _ => hs.rejectShorthand he ?_) fun _ => ?_
  · rw [hs.tokens.isPunctuator]
  · exact (hd.arguments hs).bind fun _ _ t₁ t₂ _ ht => .ok (part (ht.mono (by omega)))
  refine .ite hs.tokens.isTemplate (fun _ => ?_) fun _ => .ok ⟨rfl, hs, nofun⟩
  refine .ite rfl (fun _ => hs.failFirst hs.tokens.start rfl) fun _ => hs.rejectShorthand he ?_
  exact (hd.template hs).bind fun _ _ t₁ t₂ _ ht => .ok (part ht)

protected theorem callTail {allowCall : Bool} {e₁ e₂ : Summary} (hs : sim.At true k c s₁ s₂)
    (he : sim.Summaries e₁ e₂) :
    sim.Yields sim.Summaries true k c (callTail nested₁ allowCall e₁ s₁) (callTail nested₂ allowCall e₂ s₂) := by
  unfold callTail
  rw [he.shape]
  refine .branch Iff.rfl (fun _ => .ok ⟨he, hs⟩) fun _ => ?_
  refine hs.loopMoving (fun p₁ p₂ => sim.Summaries p₁.1 p₂.1 ∧ p₂.2 = p₁.2) ⟨he, rfl⟩
    (fun p => ?_) fun c' p₁ p₂ t₁ t₂ hc hp ht => ?_
  · obtain ⟨e, inChain⟩ := p
    exact .bind inferInstance fun part => by split <;> infer_instance
  obtain ⟨e₁, chain₁⟩ := p₁
  obtain ⟨e₂, chain₂⟩ := p₂
  obtain ⟨he, rfl⟩ := hp
  refine (hd.callTailPart ht he).bindMoving (fun part => ?_) fun r₁ r₂ u₁ u₂ h => ?_
  · split <;> infer_instance
  obtain ⟨hr, hu, hsome⟩ := h
  subst hr
  cases r₂ with
  | some r => exact .ok ⟨⟨⟨rfl, he.start, .none⟩, rfl⟩, hsome rfl⟩
  | none => exact .ok ⟨he, hu.mono hc⟩

end Derives

/-! ## The keywords that begin operands -/

protected theorem At.newTarget {p q : Position} (hs : sim.At b k c s₁ s₂) (hp : sim.place p q)
    (he : s₁.token.isEnd = false) :
    sim.Yields sim.Summaries true k (c + 1) (newTarget p s₁) (newTarget q s₂) := by
  refine (hs.pass he).bind fun _ _ t₁ t₂ _ ht => .bind_isAtWord ?_
  refine .ite (ht.tokens.isWord _) (fun h => ht.sameContext ?_) fun _ => ht.unexpectedFirst
  refine .ite rfl (fun _ => ?_) fun _ => ht.failFirst hp rfl
  refine (ht.passOperand (Token.endsOperand_of_isWord h)).bind fun _ _ u₁ u₂ _ hu => ?_
  exact .ok ⟨.other hp, hu.mono (by omega)⟩

namespace Derives

variable (hd : sim.Derives k nested₁ nested₂)

include hd

protected theorem superExpression (hs : sim.At b k c s₁ s₂) (he : s₁.token.isEnd = false) :
    sim.Yields sim.Summaries true k (c + 1) (superExpression nested₁ s₁) (superExpression nested₂ s₂) := by
  have hstart := hs.tokens.start
  refine .bind_token ((hs.pass he).bindMoving (fun _ => ?_) fun _ _ t₁ t₂ _ ht => ht.sameContext (.bind_isAt ?_))
  · dsimp only
    repeat' first
      | infer_instance
      | split
      | refine .bind inferInstance fun _ => ?_
  refine .ite (ht.tokens.isPunctuator _) (fun _ => ?_) fun _ => ?_
  · refine .ite rfl (fun _ => ?_) fun _ => ht.failFirst hstart rfl
    exact (hd.arguments ht).bind fun _ _ u₁ u₂ _ hu => .ok ⟨.other hstart, hu.mono (by omega)⟩
  refine .ite rfl (fun _ => ?_) fun _ => ht.failFirst hstart rfl
  refine .bind_isAt (.ite (ht.tokens.isPunctuator _) (fun h => ?_) fun _ => ?_)
  · refine (ht.pass (Token.isEnd_of_isPunctuator h)).bindMoving (fun _ => .bind inferInstance fun t => ?_)
      fun _ _ u₁ u₂ _ hu => .bind_token ?_
    · split <;> infer_instance
    rw [hu.tokens.kind]
    cases u₁.token.kind with
    | privateName => exact hu.unexpectedFirst
    | _ => exact hu.memberName.bind fun _ _ v₁ v₂ _ h => .ok ⟨⟨rfl, hstart, .none⟩, h.mono (by omega)⟩
  · refine .bind_isAt (.ite (ht.tokens.isPunctuator _) (fun _ => ?_) fun _ => ht.failFirst hstart rfl)
    exact (hd.computedMember ht).bind fun _ _ u₁ u₂ _ hu => .ok ⟨⟨rfl, hstart, .none⟩, hu.mono (by omega)⟩

protected theorem constructed (hs : sim.At b k c s₁ s₂) (hc : 1 ≤ c) :
    sim.Yields sim.Summaries true k (c + 1) (constructed nested₁ s₁) (constructed nested₂ s₂) := by
  have hstart := hs.tokens.start
  refine .bind_token ?_
  refine .ite (hs.tokens.isKeyword _) (fun hnew => ?_) fun _ => ?_
  · exact hd.production .newExpression hs hc fun _ => Token.isEnd_of_isKeyword hnew
  refine .ite (hs.tokens.isKeyword _) (fun hsuper => ?_) fun _ => ?_
  · have hends : s₁.token.endsOperand = true := Token.endsOperand_of_isKeyword hsuper
    refine hs.peekOperand (Token.isName_of_isKeyword hsuper) hends fun u₁ u₂ hu => ?_
    refine .ite (hu.isPunctuator _) (fun _ => ?_) fun _ => ?_
    · exact hs.failFirst hstart rfl
    · exact hd.superExpression hs (Token.isEnd_of_isKeyword hsuper)
  refine .ite (hs.tokens.isKeyword _) (fun _ => ?_) fun _ => ?_
  · exact hs.fail hstart rfl
  · exact hd.primary hs

protected theorem newExpression (hs : sim.At b k c s₁ s₂) (he : s₁.token.isEnd = false) :
    sim.Yields sim.Summaries true k (c + 1) (newExpression nested₁ s₁) (newExpression nested₂ s₂) := by
  have hstart := hs.tokens.start
  refine .bind_token ((hs.pass he).bind fun _ _ t₁ t₂ _ ht => .bind_isAt ?_)
  refine .ite (ht.tokens.isPunctuator _) (fun h => ?_) fun _ => ?_
  · exact (ht.newTarget hstart (Token.isEnd_of_isPunctuator h)).lower (by omega)
  refine (hd.constructed ht (by omega)).bind fun e₁ e₂ u₁ u₂ he hu => hu.requireOperand he ?_
  refine (hd.callTail hu he).discard.bind fun _ _ v₁ v₂ _ hv => .bind_isAt ?_
  refine .when (sim.At true k (c + 1)) (hv.tokens.isPunctuator _) inferInstance (fun _ => ?_)
    (fun _ => hv.mono (by omega))
    fun w₁ w₂ hw => .ok ⟨.other hstart, hw⟩
  exact (hd.arguments hv).mono fun _ _ _ _ h => h.2.mono (by omega)

protected theorem importExpression (hs : sim.At b k c s₁ s₂) (he : s₁.token.isEnd = false) :
    sim.Yields sim.Summaries true k (c + 1) (importExpression nested₁ s₁) (importExpression nested₂ s₂) := by
  have hstart := hs.tokens.start
  have close : ∀ {b : Bool} {c' : Nat} {t₁ t₂ : State}, sim.At b k c' t₁ t₂ → c ≤ c' →
      sim.Yields sim.Summaries true k (c + 1)
        ((do expect .closeParen; return .other s₁.token.start : Recognizer Summary) t₁)
        ((do expect .closeParen; return .other s₂.token.start : Recognizer Summary) t₂) := fun ht hc =>
    ht.expect.bind fun _ _ u₁ u₂ _ h => .ok ⟨.other hstart, h.mono (by omega)⟩
  refine .bind_token ((hs.pass he).bind fun _ _ t₁ t₂ _ ht => .bind_isAt ?_)
  refine .ite (ht.tokens.isPunctuator _) (fun h => ?_) fun _ => ?_
  · refine (ht.pass (Token.isEnd_of_isPunctuator h)).bind fun _ _ u₁ u₂ _ hu => .bind_isAtWord ?_
    refine .ite (hu.tokens.isWord _) (fun h => .bind_get ?_) fun _ => hu.unexpectedFirst
    refine .ite hu.isModule (fun _ => ?_) fun _ => hu.failFirst hstart rfl
    refine (hu.passOperand (Token.endsOperand_of_isWord h)).bind fun _ _ v₁ v₂ _ hv => ?_
    exact .ok ⟨.other hstart, hv.mono (by omega)⟩
  · refine ht.expect.bind fun _ _ u₁ u₂ _ hu => ?_
    refine (hd.assignment true hu (by omega)).discard.bind fun _ _ v₁ v₂ _ hv => ?_
    refine hv.eat (fun w₁ w₂ hw => .bind_isAt ?_) fun _ => close hv (by omega)
    refine .ite (hw.tokens.isPunctuator _) (fun _ => close hw (by omega)) fun _ => ?_
    refine (hd.assignment true hw (by omega)).discard.bind fun _ _ x₁ x₂ _ hx => ?_
    exact hx.eatAny.discard.bind fun _ _ y₁ y₂ _ hy => close hy (by omega)

protected theorem leftHandSide (hs : sim.At b k c s₁ s₂) :
    sim.Yields sim.Summaries true k (c + 1) (leftHandSide nested₁ s₁) (leftHandSide nested₂ s₂) := by
  have tail : ∀ {x₁ x₂ : Recognizer Summary}, sim.Yields sim.Summaries true k (c + 1) (x₁ s₁) (x₂ s₂) →
      sim.Yields sim.Summaries true k (c + 1) ((x₁ >>= callTail nested₁ true) s₁)
        ((x₂ >>= callTail nested₂ true) s₂) := fun h =>
    h.bind fun _ _ _ _ hv h => hd.callTail h hv
  refine Yields.notingOperandEnd (.bind_token ?_)
  refine .ite (hs.tokens.isKeyword _) (fun h => tail (hd.newExpression hs (Token.isEnd_of_isKeyword h))) fun _ => ?_
  refine .ite (hs.tokens.isKeyword _) (fun h => tail (hd.superExpression hs (Token.isEnd_of_isKeyword h))) fun _ => ?_
  refine .ite (hs.tokens.isKeyword _) (fun h => tail (hd.importExpression hs (Token.isEnd_of_isKeyword h))) fun _ => ?_
  exact tail (hd.primary hs)

end Derives

end EcmaCheck.Grammar.Simulation
