import EcmaCheck.Grammar.Program
import EcmaCheck.Proofs.Following.Module

/-!
# Derivations that follow others

How the productions of derivations begin (`begins_derive`), and that a derivation follows one that may not go deeper
(`Following.derives_derive`), whatever the texts are.
-/

namespace EcmaCheck.Grammar

set_option synthInstance.maxSize 20000

/-! ## How productions begin -/

/-- From the state the recognizer takes two tokens. -/
def TakesTwoFrom {α : Type} (x : Recognizer α) (s : State) : Prop :=
  ∀ ⦃a t⦄, x s = .ok a t → s.input.TakesTwo t.input

namespace TakesTwoFrom

variable {α β : Type} {s : State} {nested : Derivation} [∀ p, Moves (nested p)]

omit [∀ p, Moves (nested p)] in
protected theorem bind {x : Recognizer α} {f : α → Recognizer β} (h : TakesTwoFrom x s) (hmoves : ∀ a, Moves (f a)) :
    TakesTwoFrom (x >>= f) s := by
  intro b t hrun
  obtain ⟨a, u, hfirst, hnext⟩ := bind_eq_ok.mp hrun
  exact (h hfirst).trans ((hmoves a).leads hnext)

omit [∀ p, Moves (nested p)] in
protected theorem ite {p : Prop} [Decidable p] {x y : Recognizer α} (hp : ¬ p) (h : TakesTwoFrom y s) :
    TakesTwoFrom (if p then x else y) s := by
  rwa [if_neg hp]

omit [∀ p, Moves (nested p)] in
protected theorem discard {x : Recognizer α} (h : TakesTwoFrom x s) : TakesTwoFrom (discard x) s := by
  change TakesTwoFrom (x >>= fun _ => pure ()) s
  exact .bind h fun _ => inferInstance

/-- An expression takes two tokens if its first assignment expression does. -/
protected theorem expression {allowIn : Bool} (h : TakesTwoFrom (nested (.assignment allowIn)) s) :
    TakesTwoFrom (expression nested allowIn) s :=
  .bind (.bind (.bind (.bind h fun _ => inferInstance) fun _ => inferInstance) fun _ => inferInstance)
    fun _ => inferInstance

variable (h : s.token.isKeyword .«import» = true)

include h

/-! An operand that begins with `import` goes on behind the keyword. -/

protected theorem leftHandSide : TakesTwoFrom (leftHandSide nested) s := by
  have hk := kind_of_isKeyword h
  have hkeyword {w : Keyword} (hw : w ≠ .«import») : ¬ s.token.isKeyword w = true := by
    simp only [Token.isKeyword, hk, decide_eq_true_eq]
    exact hw.symm
  refine .bind (.ite (hkeyword (by decide)) (.ite (hkeyword (by decide)) ?_)) fun _ => inferInstance
  rw [if_pos h]
  exact .bind (fun _ _ => TakesTwo.takesTwo) fun _ => inferInstance

protected theorem update : TakesTwoFrom (update nested) s :=
  .bind (.bind (.leftHandSide h) fun _ => inferInstance) fun _ => inferInstance

protected theorem expandUnary : TakesTwoFrom (expandUnary nested) s := by
  have hk := kind_of_isKeyword h
  refine .bind (.ite ?_ (.ite ?_ (.ite ?_ (.update h)))) fun _ => inferInstance
  · simp only [isPlainPrefix, Token.isPunctuator, Token.isKeyword, Token.isWord, hk, Bool.and_false, Bool.or_self]
    decide
  · simp only [Token.isKeyword, hk]
    decide
  · simp only [Token.isPunctuator, hk]
    decide

protected theorem binary {least : Nat} {allowIn : Bool} : TakesTwoFrom (binary nested least allowIn) s := by
  unfold binary
  exact .bind (.bind (.expandUnary h) fun _ => inferInstance) fun _ => inferInstance

protected theorem conditional {allowIn : Bool} : TakesTwoFrom (conditional nested allowIn) s :=
  .bind (.bind (.binary h) fun _ => inferInstance) fun _ => inferInstance

protected theorem expandAssignment {allowIn : Bool} : TakesTwoFrom (expandAssignment nested allowIn) s := by
  have hk := kind_of_isKeyword h
  refine .ite ?_ (.bind (.conditional h) fun _ => ?_)
  · simp only [Token.isWord, hk, Bool.and_false]
    decide
  · refine .bind inferInstance fun t => ?_
    dsimp only
    repeat' first | infer_instance | split

end TakesTwoFrom

/-! ## How derivations begin -/

/-- A result of a nested production is one of what it consists of, from where the texts stand alike. -/
theorem exists_of_deeper {α : Type} {body : Recognizer α} {s t : State} {a : α} (h : deeper body s = .ok a t) :
    ∃ s' t', body s' = .ok a t' ∧ s'.input = s.input ∧ t'.input = t.input := by
  obtain ⟨_, _, hopen, h⟩ := bind_eq_ok.mp h
  cases hopen
  obtain ⟨_, u, hbody, h⟩ := bind_eq_ok.mp h
  cases h
  exact ⟨_, u, hbody, rfl, rfl⟩

/-- It takes two tokens if what it consists of does. -/
theorem TakesTwoFrom.deeper {α : Type} {body : Recognizer α} {s : State}
    (h : ∀ s' : State, s'.input = s.input → TakesTwoFrom body s') : TakesTwoFrom (deeper body) s := by
  intro a t hrun
  obtain ⟨s', t', hbody, hs, ht⟩ := exists_of_deeper hrun
  exact ht ▸ hs ▸ h s' hs hbody

instance {α : Type} (body : Recognizer α) [h : TakesTwo body] : TakesTwo (deeper body) :=
  ⟨fun hrun => TakesTwoFrom.deeper (fun _ _ _ _ => h.takesTwo) hrun⟩

section

variable {nested : Derivation}

theorem beginsTarget_of_expand {lexical : Bool} {s t : State} {u : Unit}
    (h : expandBindingTarget nested lexical s = .ok u t) : beginsTarget s.token = true := by
  unfold beginsTarget
  by_cases hbracket : s.token.isPunctuator .openBracket = true
  · rw [hbracket, Bool.or_true, Bool.true_or]
  by_cases hbrace : s.token.isPunctuator .openBrace = true
  · rw [hbrace, Bool.or_true]
  have h := (congrFun (if_neg hbracket) s).symm.trans h
  have h := (congrFun (if_neg hbrace) s).symm.trans h
  cases hidentifier : s.token.isIdentifier with
  | true => rfl
  | false =>
    obtain ⟨f, hf⟩ := Simulation.bindingIdentifier_error lexical (Following.identifier?_eq_none_iff.mpr hidentifier)
    cases hf.symm.trans h

theorem not_function_of_expandStatement {s t : State} {u : Unit} (h : expandStatement nested s = .ok u t) :
    s.token.isKeyword .function = false := by
  cases hfunction : s.token.isKeyword .function with
  | false => rfl
  | true =>
    have hk := kind_of_isKeyword hfunction
    obtain ⟨scanner, ⟨kind, start, stop, lexeme, newlineBefore⟩, _⟩ := s
    subst hk
    cases h

/-- A statement that begins with `import` is an expression. -/
theorem expandStatement_of_import {s : State} (h : s.token.isKeyword .«import» = true) :
    expandStatement nested s = (do discard (expression nested true); consumeSemicolon)
      { s with attachedLabels := 0 } := by
  have hk := kind_of_isKeyword h
  obtain ⟨scanner, ⟨kind, start, stop, lexeme, newlineBefore⟩, _⟩ := s
  subst hk
  rfl

/-- The name of a function is no regular expression. -/
theorem next_ne_regExp_of_function {isAsync : Bool} {s t : State} {u : Unit} {next : Token}
    (h : functionDeclaration nested isAsync s = .ok u t) (hnext : (s.scanner.next s.token.goalAfter).1 = .ok next) :
    next.kind ≠ .regExp := by
  intro hkind
  obtain ⟨_, _, h, _⟩ := bind_eq_ok.mp h
  obtain ⟨_, _, htoken, h⟩ := bind_eq_ok.mp h
  cases htoken
  obtain ⟨_, v, hpassed, h⟩ := bind_eq_ok.mp h
  have hk : v.token.kind = .regExp := token_of_advance hpassed hnext ▸ hkind
  have hstar : ¬ v.token.isPunctuator .star = true := by
    simp only [Token.isPunctuator, hk]
    exact Bool.false_ne_true
  rw [eat_bind, if_neg hstar] at h
  obtain ⟨_, _, hget, h⟩ := bind_eq_ok.mp h
  cases hget
  obtain ⟨scanner, ⟨kind, start, stop, lexeme, newlineBefore⟩, _⟩ := v
  subst hk
  cases h

/-- What is imported does not begin with a regular expression. -/
theorem next_ne_regExp_of_import {s t : State} {u : Unit} {next : Token} (h : importDeclaration s = .ok u t)
    (hnext : (s.scanner.next s.token.goalAfter).1 = .ok next) : next.kind ≠ .regExp := by
  intro hkind
  obtain ⟨_, v, hpassed, h⟩ := bind_eq_ok.mp h
  have hk : v.token.kind = .regExp := token_of_advance hpassed hnext ▸ hkind
  obtain ⟨scanner, ⟨kind, start, stop, lexeme, newlineBefore⟩, _⟩ := v
  subst hk
  cases h

end

theorem takesTwoFrom_derive (levels : Nat) {allowIn : Bool} {s : State} (h : s.token.isKeyword .«import» = true) :
    TakesTwoFrom (derive levels (.assignment allowIn)) s := by
  cases levels with
  | zero => exact fun _ _ => nofun
  | succ levels =>
    refine .deeper fun s' hs => ?_
    change TakesTwoFrom (expandAssignment (derive levels) allowIn) s'
    exact .expandAssignment (congrArg (·.token.isKeyword .«import») hs ▸ h)

theorem begins_derive (levels : Nat) : Openings (derive levels) := by
  cases levels with
  | zero => exact ⟨nofun, nofun, nofun, ⟨nofun⟩, nofun⟩
  | succ levels =>
    refine ⟨fun {_ s _ _} h => ?_, fun {s _ _} h => ?_, fun {s _ _} h himport => ?_, ?_, fun {s _ _ _} h hnext => ?_⟩
    · obtain ⟨s', t', hbody, hs, -⟩ := exists_of_deeper h
      have htoken : s'.token = s.token := congrArg Input.token hs
      exact htoken ▸ beginsTarget_of_expand hbody
    · obtain ⟨s', t', hbody, hs, -⟩ := exists_of_deeper h
      have htoken : s'.token = s.token := congrArg Input.token hs
      exact htoken ▸ not_function_of_expandStatement hbody
    · have hstatement : TakesTwoFrom (deeper (expandStatement (derive levels))) s := by
        refine .deeper fun s' hs a t' hbody => ?_
        have htoken : s'.token = s.token := congrArg Input.token hs
        rw [← htoken] at himport
        rw [expandStatement_of_import himport] at hbody
        have hexpression : TakesTwoFrom (expression (derive levels) true) { s' with attachedLabels := 0 } :=
          .expression (takesTwoFrom_derive levels himport)
        exact TakesTwoFrom.bind hexpression.discard (fun _ => inferInstance) hbody
      exact hstatement h
    · exact inferInstanceAs (TakesTwo (deeper (functionDeclaration (derive levels) false)))
    · obtain ⟨s', t', hbody, hs, -⟩ := exists_of_deeper h
      have htoken : s'.token = s.token := congrArg Input.token hs
      have hscanner : s'.scanner = s.scanner := congrArg Input.scanner hs
      rw [← htoken, ← hscanner] at hnext
      exact next_ne_regExp_of_function hbody hnext

namespace Following

variable {F : Following} {b : Bool} {s₁ s₂ : State} {nested₁ nested₂ : Derivation}

/-! ## Expansions -/

namespace Derives

variable (hd : F.Derives nested₁ nested₂) [∀ p, Moves (nested₁ p)] [∀ p, Takes (nested₁ p)]

include hd

omit [∀ p, Takes (nested₁ p)] in
/-- An `import` begins an expression if a parenthesis or a dot follows it, and a declaration otherwise. -/
theorem importItem {topLevel₁ topLevel₂ : Bool} (hs : F.At b s₁ s₂)
    (himport : s₁.token.isKeyword .«import» = true) (htop : (s₁.isModule && topLevel₁) = (s₁.isModule && topLevel₂)) :
    F.Yields Eq false
      ((do
        let next ← peek
        if next.isPunctuator .openParen || next.isPunctuator .dot then statement nested₁
        else
          unless s₁.isModule && topLevel₁ do fail .importOutsideModule s₁.token.start
          importDeclaration) s₁)
      ((do
        let next ← peek
        if next.isPunctuator .openParen || next.isPunctuator .dot then statement nested₂
        else
          unless s₂.isModule && topLevel₂ do fail .importOutsideModule s₂.token.start
          importDeclaration) s₂) := by
  rw [hs.isModule]
  have hpasses : s₂.token.kind = s₁.token.kind := hs.heads.kind (isDivision_of_isKeyword himport)
  have hdeclaration : F.Yields Eq false
      ((do
        unless s₁.isModule && topLevel₁ do fail .importOutsideModule s₁.token.start
        importDeclaration : Recognizer Unit) s₁)
      ((do
        unless s₁.isModule && topLevel₂ do fail .importOutsideModule s₂.token.start
        importDeclaration : Recognizer Unit) s₂) :=
    .ite htop.symm (fun _ => hs.importDeclaration hpasses) fun _ => .of_fails
  refine hs.peek (Token.isName_of_isKeyword himport) (.inr fun t ht hkind a u hrun => ?_) (fun t₁ t₂ ht => ?_)
    fun t₁ t₂ hcloses hstuck => ?_
  · rw [Token.isPunctuator_of_kind hkind nofun, Token.isPunctuator_of_kind hkind nofun] at hrun
    change (if (s₁.isModule && topLevel₁) = true then _ else _ : Recognizer Unit) s₁ = _ at hrun
    split at hrun
    · exact next_ne_regExp_of_import hrun ht hkind
    · cases hrun
  · have hexpression : (t₂.isPunctuator .openParen || t₂.isPunctuator .dot) =
        (t₁.isPunctuator .openParen || t₁.isPunctuator .dot) := by
      rw [ht.isPunctuator, ht.isPunctuator]
    exact .ite hexpression (fun _ => hd.statement hs) fun _ => hdeclaration
  · rw [hcloses.isPunctuator .openParen, hcloses.isPunctuator .dot]
    cases t₁.isPunctuator .openParen || t₁.isPunctuator .dot with
    | true =>
      rintro a u hrun ⟨k, hleads, hfinish⟩ _
      exact absurd hfinish (F.not_finish_next hstuck (hd.begins.import_takesTwo hrun himport) hleads)
    | false => exact hdeclaration

/-- Imports and exports stand only at the top level of modules, so that the same statements stand at the top level of a
script and inside. -/
protected theorem expandStatementListItem {topLevel₁ topLevel₂ : Bool} (hs : F.At b s₁ s₂)
    (htop : (s₁.isModule && topLevel₁) = (s₁.isModule && topLevel₂)) :
    F.Yields Eq false (expandStatementListItem nested₁ topLevel₁ s₁)
      (expandStatementListItem nested₂ topLevel₂ s₂) := by
  have hpasses {w : Keyword} (h : s₁.token.isKeyword w = true) : s₂.token.kind = s₁.token.kind :=
    hs.heads.kind (isDivision_of_isKeyword h)
  refine .bind_get ?_
  refine .ite (hs.heads.isKeyword _) (fun h => (hd.functionDeclaration hs (hpasses h)).weaken) fun _ => ?_
  refine .ite (hs.heads.isKeyword _) (fun h => (hd.classDefinition hs (hpasses h)).discard.weaken) fun _ => ?_
  refine .ite (hs.heads.isKeyword _) (fun h => hd.declarationStatement hs (hpasses h)) fun _ => ?_
  refine hs.isAtLetDeclaration (fun h => ?_) (hs.isAtAsyncFunction (fun h => ?_) ?_) fun a t next hrun hnext => ?_
  · exact hd.declarationStatement hs (hs.heads.kind (isDivision_of_isWord h))
  · exact (hs.passWord h).bindTaking fun _ _ t₁ t₂ _ ht => (hd.functionDeclaration ht ht.kind).weaken
  · refine .ite rfl nofun fun _ => ?_
    refine .ite (hs.heads.isKeyword _) (fun himport => hd.importItem hs himport htop) fun _ => ?_
    refine .ite (hs.heads.isKeyword _) (fun h => ?_) fun _ => hd.statement hs
    rw [hs.isModule]
    refine .ite htop.symm (fun _ => ?_) fun _ => .of_fails
    exact hd.exportDeclaration hs (hpasses h)
  · obtain ⟨_, u, hpassed, hrun⟩ := bind_eq_ok.mp hrun
    obtain ⟨_, v, hlist, _⟩ := bind_eq_ok.mp hrun
    obtain ⟨ds, w, hlist, _⟩ := bind_eq_ok.mp hlist
    exact token_of_advance hpassed hnext ▸ beginsTarget_of_declarations hd.begins hlist

/-- What a nested production consists of follows. -/
protected theorem expand (p : Production) (hs : F.At b s₁ s₂)
    (hk : p.takesAny = true → s₂.token.kind = s₁.token.kind) :
    F.Outcome (F.behind p) (fun a₁ a₂ t₁ t₂ => p.Widens a₁ a₂ ∧ F.After (!p.isStatement) t₁ t₂) (expand nested₁ p s₁)
      (expand nested₂ p s₂) := by
  cases p with
  | statementListItem => exact hd.expandStatementListItem hs rfl
  | statement => exact hd.expandStatement hs
  | functionBodyStatement => exact (hd.functionDeclaration hs (hk rfl)).weaken
  | assignment => exact hd.expandAssignment hs
  | rightOperand => exact (hd.binary hs).given_mono fun _ _ _ hoperand _ => hoperand
  | unary => exact hd.expandUnary hs
  | newExpression => exact hd.newExpression hs (hk rfl)
  | heritage => exact hd.leftHandSide hs
  | objectMember => exact hd.expandObjectMember hs
  | classElement => exact hd.expandClassElement hs
  | bindingTarget => exact hd.expandBindingTarget hs

end Derives

/-! ## Nesting levels -/

/-- One nesting level more changes nothing that is read. -/
protected theorem At.deeper {α : Type} {given : α → Input → Prop} {value : α → α → Prop} {body₁ body₂ : Recognizer α}
    {b' : Bool} (hs : F.At b s₁ s₂)
    (hbody : ∀ t₁ t₂, F.At b t₁ t₂ → t₁.input = s₁.input → t₂.input = s₂.input → t₁.isModule = s₁.isModule →
      F.Outcome given (fun a₁ a₂ u₁ u₂ => value a₁ a₂ ∧ F.After b' u₁ u₂) (body₁ t₁) (body₂ t₂)) :
    F.Outcome given (fun a₁ a₂ u₁ u₂ => value a₁ a₂ ∧ F.After b' u₁ u₂) (deeper body₁ s₁) (deeper body₂ s₂) := by
  have hinner : F.At b { s₁ with depth := s₁.depth + 1 } { s₂ with depth := s₂.depth + 1 } :=
    hs.of_sameReading { hs with } ⟨rfl, rfl, rfl, rfl⟩ ⟨rfl, rfl, rfl, rfl⟩
  refine .bind_modify
    ((hbody _ _ hinner rfl rfl rfl).bindWith (fun a t c u _ hrun => ?_) (fun a t c u _ hrun _ hgiven => ?_)
    fun a₁ a₂ t₁ t₂ h => .bind_modify (.ok ⟨h.1, ?_⟩))
  · exact Moves.leads inferInstance hrun
  · cases hrun
    exact hgiven
  · exact h.2.of_sameReading { h.2 with } ⟨rfl, rfl, rfl, rfl⟩ ⟨rfl, rfl, rfl, rfl⟩

/-- One level more. -/
protected theorem Derives.deeper (hd : F.Derives nested₁ nested₂) [∀ p, Moves (nested₁ p)] [∀ p, Takes (nested₁ p)]
    (hb : Openings fun p => deeper (expand nested₁ p)) :
    F.Derives (fun p => deeper (expand nested₁ p)) (fun p => deeper (expand nested₂ p)) where
  begins := hb
  production p _ _ _ hs hk := hs.deeper fun t₁ t₂ ht h₁ h₂ _ => hd.expand p ht fun h => by
    rw [show t₁.token = _ from congrArg Input.token h₁, show t₂.token = _ from congrArg Input.token h₂]
    exact hk h
  innerItem hs hmodule := hs.deeper fun t₁ t₂ ht _ _ h => hd.expandStatementListItem ht (by rw [h, hmodule]; rfl)

/-- A derivation follows one that may not go deeper. -/
theorem derives_derive {levels₁ levels₂ : Nat} (h : levels₁ ≤ levels₂) :
    F.Derives (derive levels₁) (derive levels₂) := by
  induction levels₁ generalizing levels₂ with
  | zero => exact ⟨begins_derive 0, fun _ _ _ _ _ _ => .error, fun _ _ => .error⟩
  | succ levels₁ ih =>
    cases levels₂ with
    | zero => cases h
    | succ levels₂ => exact (ih (Nat.le_of_succ_le_succ h)).deeper (begins_derive (levels₁ + 1))

end Following

end EcmaCheck.Grammar
