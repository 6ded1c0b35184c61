import EcmaCheck.Grammar.Program
import EcmaCheck.Proofs.Lockstep.Module

/-!
# Programs in lockstep

Each nested production may be opened with the credit that it asks for (`Derives.expand`), and leaves enough for those
inside (`At.deeper`), so that derivations run in lockstep level by level (`derives_derive`). From a first token that
corresponds, programs then lead to corresponding results (`program_outcome`).
-/

namespace EcmaCheck.Grammar.Simulation

set_option synthInstance.maxSize 20000

variable {sim : Simulation} {b : Bool} {k c : Nat} {s₁ s₂ : State} {nested₁ nested₂ : Derivation}
  [∀ p, Moves (nested₁ p)]

/-! ## Expansions -/

namespace Derives

variable (hd : sim.Derives k nested₁ nested₂)

include hd

/-- An `import` begins an expression if a parenthesis or a dot follows it, and a declaration otherwise. -/
theorem importItem {topLevel : Bool} (hs : sim.At b k c s₁ s₂) (himport : s₁.token.isKeyword .«import» = true)
    (hc : 2 ≤ c) :
    sim.Yields Eq false k (c + 1)
      ((do
        let next ← peek
        if next.isPunctuator .openParen || next.isPunctuator .dot then statement nested₁
        else
          unless s₁.isModule && topLevel do fail .importOutsideModule s₁.token.start
          importDeclaration) s₁)
      ((do
        let next ← peek
        if next.isPunctuator .openParen || next.isPunctuator .dot then statement nested₂
        else
          unless s₂.isModule && topLevel do fail .importOutsideModule s₂.token.start
          importDeclaration) s₂) := by
  rw [hs.isModule]
  refine hs.peek (Token.isName_of_isKeyword himport) (.inr fun t ht => ?_) fun u₁ u₂ hu _ => ?_
  · rw [Token.isPunctuator_of_kind ht nofun, Token.isPunctuator_of_kind ht nofun]
    change sim.Opens s₁ ((if (s₁.isModule && topLevel) = true then importDeclaration
      else fail .importOutsideModule s₁.token.start >>= fun _ => importDeclaration) s₁)
    split
    · exact .bind .advance inferInstance
    · exact .of_error rfl
  have hexpression : (u₂.isPunctuator .openParen || u₂.isPunctuator .dot) =
      (u₁.isPunctuator .openParen || u₁.isPunctuator .dot) := by
    rw [hu.isPunctuator, hu.isPunctuator]
  refine .ite hexpression (fun _ => ?_) fun _ => ?_
  · exact hd.statement hs (by omega)
  refine .ite rfl (fun _ => ?_) fun _ => ?_
  · exact hs.importDeclaration (Token.isEnd_of_isKeyword himport)
  · exact hs.failFirst hs.tokens.start rfl

protected theorem expandStatementListItem {topLevel : Bool} (hs : sim.At b k c s₁ s₂) (hc : 2 ≤ c) :
    sim.Yields Eq false k (c + 1) (expandStatementListItem nested₁ topLevel s₁)
      (expandStatementListItem nested₂ topLevel s₂) := by
  refine .bind_get ?_
  refine .ite (hs.tokens.isKeyword _) (fun hfunction => ?_) fun _ => ?_
  · exact hd.functionDeclaration hs (Token.isEnd_of_isKeyword hfunction)
  refine .ite (hs.tokens.isKeyword _) (fun hclass => ?_) fun _ => ?_
  · exact (hd.classDefinition hs (Token.isEnd_of_isKeyword hclass)).discard
  refine .ite (hs.tokens.isKeyword _) (fun hconst => ?_) fun _ => ?_
  · exact hd.declarationStatement hs (Token.isEnd_of_isKeyword hconst)
  refine hs.isAtLetDeclaration (fun he => ?_) ?_
  · exact hd.declarationStatement hs he
  refine hs.isAtAsyncFunction (fun he hnext => ?_) ?_
  · refine (hs.passOn hnext he).bind fun _ _ t₁ t₂ ht => ?_
    exact (hd.functionDeclaration ht.1 ht.2).lower (by omega)
  refine .ite rfl nofun fun _ => ?_
  refine .ite (hs.tokens.isKeyword _) (fun himport => ?_) fun _ => ?_
  · exact hd.importItem hs himport hc
  refine .ite (hs.tokens.isKeyword _) (fun hexport => ?_) fun _ => ?_
  · rw [hs.isModule]
    refine .ite rfl (fun _ => ?_) fun _ => ?_
    · exact hd.exportDeclaration hs (Token.isEnd_of_isKeyword hexport)
    · exact hs.unexpectedFirst
  · exact hd.statement hs (by omega)

/-- What a nested production consists of runs in lockstep, one level of credit below. -/
protected theorem expand (p : Production) (hs : sim.At b k c s₁ s₂) (hc : p.rank ≤ c + 1)
    (he : p.takesToken = true → s₁.token.isEnd = false) :
    sim.Yields (sim.result p) p.endsOperand k (c + 1) (expand nested₁ p s₁) (expand nested₂ p s₂) := by
  cases p with
  | statementListItem => exact hd.expandStatementListItem hs (Nat.le_of_succ_le_succ hc)
  | statement => exact hd.expandStatement hs (Nat.le_of_succ_le_succ hc)
  | functionBodyStatement => exact hd.functionDeclaration hs (he rfl)
  | assignment => exact hd.expandAssignment hs
  | rightOperand => exact hd.binary hs
  | unary => exact hd.expandUnary hs
  | newExpression => exact hd.newExpression hs (he rfl)
  | heritage => exact hd.leftHandSide hs
  | objectMember => exact hd.expandObjectMember hs
  | classElement => exact hd.expandClassElement hs
  | bindingTarget => exact hd.expandBindingTarget hs

end Derives

/-! ## Nesting levels -/

/-- A level takes one credit. -/
protected theorem At.deeper {α : Type} {value : α → α → Prop} {body₁ body₂ : Recognizer α} {b' : Bool}
    (hs : sim.At b k (c + 1) s₁ s₂)
    (hbody : ∀ t₁ t₂, sim.At b (k + 1) c t₁ t₂ → t₁.token = s₁.token →
      sim.Yields value b' (k + 1) (c + 1) (body₁ t₁) (body₂ t₂)) :
    sim.Yields value b' k (c + 1 + 1) (deeper body₁ s₁) (deeper body₂ s₂) := by
  have hinner : sim.At b (k + 1) c { s₁ with depth := s₁.depth + 1 } { s₂ with depth := s₂.depth + 1 } :=
    { hs with
      depth₁ := congrArg (· + 1) hs.depth₁
      depth₂ := congrArg (· + 1) hs.depth₂
      credit := by
        have hcredit := hs.credit
        change _ ≤ s₁.input.earned + 3
        omega }
  refine .bind_modify ((hbody _ _ hinner rfl).bind fun a₁ a₂ t₁ t₂ hv h => .bind_modify ?_)
  exact .ok ⟨hv, { h with
    depth₁ := congrArg (· - 1) h.depth₁
    depth₂ := congrArg (· - 1) h.depth₂
    credit := by
      have hcredit := h.credit
      change _ ≤ t₁.input.earned + 3
      omega }⟩

/-! ## Where the text has ended -/

/-- The recognizer cannot begin with the current token. -/
def Refuses {α : Type} (x : Recognizer α) (s : State) : Prop :=
  ∃ t, x s = .error (unexpectedFault s.token) t

namespace Refuses

variable {α β : Type} {s : State} {nested : Derivation}

protected theorem bind {x : Recognizer α} {f : α → Recognizer β} (h : Refuses x s) : Refuses (x >>= f) s :=
  h.imp fun _ h => bind_eq_error.mpr (.inl h)

protected theorem ite {p : Prop} [Decidable p] {x y : Recognizer α} (hp : ¬ p) (h : Refuses y s) :
    Refuses (if p then x else y) s := by
  rwa [if_neg hp]

variable (h : s.token.isEnd = true)

include h

/-! No operand begins where the text has ended. -/

protected theorem primary : Refuses (primary nested) s := by
  have hk := Token.kind_of_isEnd h
  obtain ⟨scanner, ⟨kind, start, stop, lexeme, newlineBefore⟩, _⟩ := s
  subst hk
  exact ⟨_, rfl⟩

protected theorem leftHandSide : Refuses (leftHandSide nested) s := by
  have hkeyword (w : Keyword) : ¬ s.token.isKeyword w = true := by
    rw [Token.isKeyword_of_isEnd h]
    exact Bool.false_ne_true
  exact .bind (.ite (hkeyword .new) (.ite (hkeyword .super) (.ite (hkeyword .«import») (.bind (.primary h)))))

protected theorem update : Refuses (update nested) s :=
  .bind (.bind (.leftHandSide h))

protected theorem expandUnary : Refuses (expandUnary nested) s := by
  have hprefix : ¬ (isPlainPrefix s.token || s.context.awaitOperator && s.token.isWord "await") = true := by
    simp only [isPlainPrefix, Token.isPunctuator_of_isEnd h, Token.isKeyword_of_isEnd h, Token.isWord_of_isEnd h,
      Bool.or_false, Bool.and_false]
    exact Bool.false_ne_true
  have hdelete : ¬ s.token.isKeyword .delete = true := by
    rw [Token.isKeyword_of_isEnd h]
    exact Bool.false_ne_true
  have hupdate : ¬ (s.token.isPunctuator .increment || s.token.isPunctuator .decrement) = true := by
    rw [Token.isPunctuator_of_isEnd h, Token.isPunctuator_of_isEnd h]
    exact Bool.false_ne_true
  exact .bind (.ite hprefix (.ite hdelete (.ite hupdate (.update h))))

protected theorem binary {least : Nat} {allowIn : Bool} : Refuses (binary nested least allowIn) s :=
  .bind (.bind (.expandUnary h))

protected theorem conditional {allowIn : Bool} : Refuses (conditional nested allowIn) s :=
  .bind (.bind (.binary h))

protected theorem expandAssignment {allowIn : Bool} : Refuses (expandAssignment nested allowIn) s := by
  have hyield : ¬ (s.context.yieldOperator && s.token.isWord "yield") = true := by
    rw [Token.isWord_of_isEnd h, Bool.and_false]
    exact Bool.false_ne_true
  exact .ite hyield (.bind (.conditional h))

end Refuses

/-- Where the text has ended, no level helps an expression to begin. -/
theorem deeper_atEnd {nested : Derivation} {s : State} (allowIn : Bool) (h : s.token.isEnd = true) :
    ∃ f t, deeper (expand nested (.assignment allowIn)) s = .error f t ∧ f.position = s.token.start := by
  have hinner : State.token { s with depth := s.depth + 1 } = s.token := rfl
  obtain ⟨t, ht⟩ : Refuses (expandAssignment nested allowIn) { s with depth := s.depth + 1 } :=
    Refuses.expandAssignment (hinner ▸ h)
  exact ⟨_, t, bind_eq_error.mpr (.inr ⟨_, _, rfl, bind_eq_error.mpr (.inl ht)⟩), rfl⟩

/-- A function declaration on a level of its own begins with its word. -/
theorem opens_deeper {nested : Derivation} [∀ p, Moves (nested p)] {s : State} :
    sim.Opens s (deeper (expand nested .functionBodyStatement) s) := by
  have hinner : sim.Opens { s with depth := s.depth + 1 }
      (functionDeclaration nested false { s with depth := s.depth + 1 }) := Derives.opens_functionDeclaration
  exact hinner.bind inferInstance

/-- One level more. -/
protected theorem Derives.deeper (hd : sim.Derives (k + 1) nested₁ nested₂) :
    sim.Derives k (fun p => deeper (expand nested₁ p)) (fun p => deeper (expand nested₂ p)) where
  production p {b c s₁ s₂} hs hc he := by
    cases c with
    | zero => cases p <;> cases hc
    | succ c => exact hs.deeper fun t₁ t₂ ht htoken => hd.expand p ht hc fun h => htoken ▸ he h
  atEnd allowIn _ h := deeper_atEnd allowIn h
  opensFunction := opens_deeper

/-- Derivations run in lockstep as deep as the first goes, if they do so where it ends. -/
theorem derives_derive {limit gap : Nat} (hzero : sim.Derives limit (derive 0) (derive gap)) {levels : Nat}
    (hk : k + levels = limit) : sim.Derives k (derive levels) (derive (levels + gap)) := by
  induction levels generalizing k with
  | zero => 
    subst hk
    rw [Nat.zero_add]
    exact hzero
  | succ levels ih =>
    have hinner := ih (k := k + 1) (by omega)
    rw [Nat.succ_add]
    exact hinner.deeper

/-! ## Programs -/

/-- From a first token that corresponds, programs lead to corresponding results. -/
theorem program_outcome (hd : sim.Derives 0 nested₁ nested₂)
    (hstart : sim.Outcome (fun _ _ => sim.At false 0 3) (start s₁) (start s₂)) :
    sim.Outcome (fun _ _ => sim.At false 0 3) (program nested₁ s₁) (program nested₂ s₂) := by
  refine hstart.bind fun _ _ t₁ t₂ ht => (hd.directives ht (by omega)).discard.bind fun _ _ u₁ u₂ _ hu => ?_
  refine (hd.statementList true hu (by omega)).bind fun _ _ v₁ v₂ _ hv => .bind_token ?_
  exact .ite hv.tokens.isEnd (fun _ => .ok hv) fun _ => hv.unexpected

end EcmaCheck.Grammar.Simulation
