import EcmaCheck.Proofs.Printed.Arrow
import EcmaCheck.Proofs.Printed.Binding
import EcmaCheck.Proofs.Printed.Opening
import EcmaCheck.Proofs.Verdict

/-!
# Literals in programs

A literal of elements or properties, as it is declared, a parameter, assigned to or an expression. What declares it
accepts it just if it is a binding pattern, whichever way it is recognized (`bindings_agree`); what assigns to it just
if it is an assignment pattern, and what evaluates it just if nothing in it waits for a pattern to turn up in vain
(`cover_accepted_iff`).
-/

namespace EcmaCheck

open Punctuator (piece)

/-- The word between a target and what it runs over. -/
def nameOf : Variable :=
  .plain ['o', 'f'] (by decide +kernel) (by decide)

/-! ## Programs of one statement -/

/-- The statement as a program, behind a directive if the code is strict. -/
def codePieces (strict : Bool) (statement : List Piece) : List Piece :=
  (if strict then [.lexeme (.literal Grammar.useStrict), piece .semicolon, .space] else []) ++ statement

/-- The outcome of the statement as a script. -/
def checkCode (strict : Bool) (limit : Nat) (statement : List Piece) : Outcome :=
  checkBuffer ⟨.script, limit⟩ (Utf8.encode (printed (codePieces strict statement)))

/-- A script is refused if it is neither accepted nor too deep. -/
theorem checkCode_invalid {strict : Bool} {limit : Nat} {statement : List Piece}
    (hdeep : ∀ r, checkCode strict limit statement ≠ .tooDeep r) (hok : checkCode strict limit statement ≠ .ok) :
    ∃ r, checkCode strict limit statement = .invalid r := by
  have hverdict : (checkCode strict limit statement).IsVerdict :=
    Outcome.isVerdict_of_fault? fun f h => (bufferFault_in h).1
  cases houtcome : checkCode strict limit statement with
  | ok => exact absurd houtcome hok
  | invalid r => exact ⟨r, rfl⟩
  | tooDeep r => exact absurd houtcome (hdeep r)
  | internalError detail =>
    rw [houtcome] at hverdict
    exact hverdict.elim

namespace Grammar

variable {strict : Bool} {s : State} {v : Prop} {l : Lexeme} {ls ms : List Lexeme} {levels : Nat}

namespace State.Opens

theorem free (hs : s.Opens strict ls) : s.context.Free strict := by
  rw [hs.context]
  exact Context.ofScript_free strict

theorem deepened (hs : s.Opens strict ls) : s.deepened.Opens strict ls :=
  ⟨hs.context, hs.labels, hs.attachedLabels, hs.isModule, hs.faces.of_eq rfl rfl⟩

theorem detached_eq (hs : s.Opens strict ls) : s.detached = s :=
  Grammar.detached_eq hs.attachedLabels

end State.Opens

/-- A token that begins an item of a list and no directive. -/
structure BeginsItem (l : Lexeme) : Prop where
  end_ne : l.kind ≠ .endOfInput
  close_ne : l.kind ≠ .punctuator .closeBrace
  string_ne : ∀ legacy, l.kind ≠ .string legacy

theorem BeginsItem.keyword (k : Keyword) : BeginsItem (.word k.word) where
  end_ne h := TokenKind.noConfusion ((Keyword.kind_word k).symm.trans h)
  close_ne h := TokenKind.noConfusion ((Keyword.kind_word k).symm.trans h)
  string_ne _ h := TokenKind.noConfusion ((Keyword.kind_word k).symm.trans h)

theorem BeginsItem.openParen : BeginsItem (.punctuator .openParen) where
  end_ne := nofun
  close_ne := nofun
  string_ne := nofun

/-- A program of one statement is accepted just if the statement is valid, unless it nests too deep. -/
theorem code_accepted_iff {limit : Nat} {statement : List Piece} (hsound : Sound statement = true)
    (hl : lexemes statement = l :: ms) (hbegins : BeginsItem l)
    (hitem : ∀ s : State, s.Opens strict (l :: ms) →
      Decided s v [] (fun _ => True) (derive limit (.statementListItem true) s))
    (hdeep : ∀ r, checkCode strict limit statement ≠ .tooDeep r) : checkCode strict limit statement = .ok ↔ v := by
  have hstring {t : State} (ht : t.Faces (l :: ms)) : t.token.isString = false :=
    isString_of_kind fun legacy h => hbegins.string_ne legacy (ht.kind.symm.trans h)
  have hcode : Sound (codePieces strict statement) = true := by cases strict <;> exact hsound
  refine checkBuffer_printed hcode hdeep fun s hs => ?_
  have hdirectives : Concluded True (fun _ t => t.Opens strict (l :: ms)) (directives (derive limit) s) := by
    cases strict with
    | false =>
      have hs : s.Opens false (lexemes statement) := hs
      rw [hl] at hs
      exact directives_sloppy hs (hstring hs.faces)
    | true =>
      have hs : s.Opens false (.literal useStrict :: .punctuator .semicolon :: lexemes statement) := hs
      rw [hl] at hs
      exact directives_useStrict hs fun t => hstring
  refine program_concluded hdirectives fun t ht => ?_
  exact statementList_single ht.faces ⟨hbegins.end_ne, hbegins.close_ne⟩ trivial (hitem t ht)

/-- An item that is a statement. -/
theorem statementItem_decided (hs : s.Opens strict (l :: ms)) (hbegins : l.kind.beginsStatement = true)
    (h : ∀ (n : Nat) (t : State), t.Opens strict (l :: ms) →
      Decided t v ls (fun _ => True) (expandStatement (derive n) t)) :
    Decided s v ls (fun _ => True) (derive levels (.statementListItem true) s) := by
  refine derive_decided (p := .statementListItem true) fun n _ => ?_
  refine listItem_decided hs.deepened.faces hbegins (derive_decided (p := .statement) fun m _ => ?_)
  exact h m _ hs.deepened.deepened

/-- An item in parentheses with a semicolon. -/
theorem parenthesizedItem_decided {R : Summary → Prop} (hs : s.Opens strict (.punctuator .openParen :: ms))
    (h : ∀ (n : Nat) (t : State), t.Opens strict (.punctuator .openParen :: ms) →
      Decided t v (.punctuator .semicolon :: ls) R (parenthesized (derive n) t))
    (hpending : ∀ e, R e → e.shorthand? = none) :
    Decided s v ls (fun _ => True) (derive levels (.statementListItem true) s) := by
  refine statementItem_decided hs rfl fun n t ht => ?_
  rw [expandStatement_expression ht.faces (.inl rfl), ht.detached_eq]
  have hnot (k : Keyword) : t.token.isKeyword k = false := isKeyword_of_kind ht.faces.kind k
  have hexpression : Decided t v (.punctuator .semicolon :: ls) R (derive n (.assignment true) t) := by
    refine assignment_of_primary ht.free.toPlain.quiet (by rw [ht.faces.kind]; rfl) rfl nofun (hnot _) (hnot _) (hnot _)
      fun m _ => ?_
    rw [primary_openParen ht.deepened.faces.kind]
    have hnoted : t.deepened.noted.Opens strict (.punctuator .openParen :: ms) :=
      ht.deepened.of_reaches ⟨agrees_noted _, faces_noted ht.deepened.faces⟩
    exact .of_agrees (agrees_noted _) (h m _ hnoted)
  exact (expressionStatement_decided hexpression (w := True) fun e he => iff_of_true (hpending e he) trivial).iff
    (iff_of_eq (and_true v))

end Grammar

/-! ## Declarations and parameters -/

namespace Cover

/-- The literal as the target of a declaration. -/
def declarationPieces (c : Cover) : List Piece :=
  Keyword.var.word.piece :: .space :: (c.pieces ++
    [.space, piece .assign, .space, .lexeme (.literal Grammar.zero), piece .semicolon])

/-- The literal as the parameter of an arrow function. -/
def arrowPieces (c : Cover) : List Piece :=
  piece .openParen :: (c.pieces ++
    [piece .closeParen, .space, piece .arrow, .space, .lexeme (.literal Grammar.zero), piece .semicolon])

/-- The literal as the parameter of a function. -/
def functionPieces (c : Cover) : List Piece :=
  Keyword.function.word.piece :: .space :: nameF.piece :: piece .openParen :: (c.pieces ++
    [piece .closeParen, .space, piece .openBrace, piece .closeBrace])

/-- The literal as what is caught. -/
def catchPieces (c : Cover) : List Piece :=
  Keyword.try.word.piece :: .space :: piece .openBrace :: piece .closeBrace :: .space :: Keyword.catch.word.piece ::
    .space :: piece .openParen :: (c.pieces ++ [piece .closeParen, .space, piece .openBrace, piece .closeBrace])

end Cover

namespace Grammar

variable {strict : Bool} {s : State} {ls : List Lexeme} {levels : Nat} {c : Cover}

theorem expandStatement_var {nested : Derivation} (h : s.token.kind = .keyword .var) :
    expandStatement nested s = declarationStatement nested .variable s.detached := by
  unfold expandStatement
  rw [get_bind, modify_bind, token_bind, h]
  rfl

/-- A declaration of a literal is valid if the literal is a binding pattern. -/
theorem declaration_decided (hc : c.isLiteral = true)
    (hs : s.Opens strict (.word Keyword.var.word :: (lexemes c.pieces ++
      .punctuator .assign :: .literal zero :: .punctuator .semicolon :: ls))) :
    Decided s ((c.isTarget .binding strict && c.isPermitted strict) = true) ls (fun _ => True)
      (derive levels (.statementListItem true) s) := by
  have hkind : (Lexeme.word Keyword.var.word).kind = .keyword .var := Keyword.kind_word .var
  refine statementItem_decided hs (by rw [hkind]; rfl) fun n t ht => ?_
  rw [expandStatement_var (ht.faces.kind.trans hkind), ht.detached_eq]
  unfold declarationStatement
  refine .advance (.refl ht.faces) fun u hu => ?_
  have hlist : Decided u ((c.isTarget .binding strict && c.isPermitted strict) = true) (.punctuator .semicolon :: ls)
      (fun _ => True) (declarations (derive n) .variable false u) := by
    refine .loop (.finish ?_)
    have hdeclaration : Decided u ((c.isTarget .binding strict && c.isPermitted strict) = true)
        (.punctuator .semicolon :: ls) (fun _ => True) (declaration (derive n) .variable false {} u) := by
      unfold declaration
      rw [token_bind]
      refine Decided.andThen (.refl u) (literal_bound hc (hu.context ▸ ht.free) hu.faces) fun _ w _ hw _ => ?_
      refine .eat hw fun w hw => ?_
      have hplain : w.context.Plain := hw.context ▸ hu.context ▸ ht.free.toPlain
      refine Decided.andThen hw.toAgrees (.discard (.refl w) (value_decided (p := .semicolon) hplain ⟨rfl, by decide⟩
        hw.faces)) fun _ x _ hx _ => ⟨trivial, hx, trivial⟩
    refine Decided.andThen (.refl u) hdeclaration fun ds w _ hw _ => ?_
    rw [bind_of_ok (eat_of_not (isPunctuator_of_kind hw.kind .comma)), if_neg Bool.false_ne_true]
    exact ⟨trivial, hw, _, rfl, trivial⟩
  exact Decided.andThen hu.toAgrees (.discard (.refl u) hlist) fun _ w _ hw _ =>
    .of_agrees hw.toAgrees (consumeSemicolon_decided hw.faces)

/-! ### Arrow functions -/

/-- The literal as an assignment expression. -/
theorem literal_assignment (hc : c.isLiteral = true) {allowIn : Bool} {l : Lexeme} (hfree : s.context.Free strict)
    (hstop : l.kind.stops = true) (hassign : l.kind ≠ .punctuator .assign)
    (hs : s.Faces (lexemes c.pieces ++ l :: ls)) :
    Decided s (c.isRead strict = true) (l :: ls) (Summary.Is (c.shape strict) !c.isCovered)
      (derive levels (.assignment allowIn) s) := by
  refine derive_decided (p := .assignment allowIn) fun n _ => ?_
  have hQ : EndsOperand fun e t => s.deepened.Reaches t (l :: ls) ∧ Summary.Is (c.shape strict) (!c.isCovered) e :=
    endsOperand_reaches s.deepened _ hstop
  have hfaces : s.deepened.Faces (lexemes c.pieces ++ l :: ls) := hs.of_eq rfl rfl
  refine expandAssignment_of_conditional hQ ?_ hfree.toPlain.quiet.deepened fun e t ht => ht.1.kind ▸ hassign
  exact conditional_of_leftHandSide hQ (operand_of_primary hfaces hstop (literal_decided hc hfree hfaces))
    (begins_of_kind (begins_cover hfaces)) hfree.toPlain.quiet.deepened allowIn

/-- The literal is read, and is a binding pattern. -/
theorem bindable_iff : c.isRead strict = true ∧ c.isTarget .binding strict = true ↔
    (c.isTarget .binding strict && c.isPermitted strict) = true := by
  rw [Bool.and_eq_true, and_comm]
  refine and_congr_right fun htarget => ?_
  have hassignment := c.isTarget_assignment htarget
  rw [c.isRead_eq (.inr hassignment), c.defaultsValid_of_isTarget hassignment, Bool.and_true]

/-- An arrow function with a literal as its parameter is valid if the literal is a binding pattern. -/
theorem arrow_decided (hc : c.isLiteral = true)
    (hs : s.Opens strict (.punctuator .openParen :: (lexemes c.pieces ++ .punctuator .closeParen ::
      .punctuator .arrow :: .literal zero :: .punctuator .semicolon :: ls))) :
    Decided s ((c.isTarget .binding strict && c.isPermitted strict) = true) ls (fun _ => True)
      (derive levels (.statementListItem true) s) := by
  refine parenthesizedItem_decided (R := Summary.Is .arrow false) hs (fun n t ht => ?_) fun e he => he.none_iff.mpr rfl
  obtain ⟨first, rest, hfirst, hbegins⟩ := c.first
  have hitem (u : State) (hu : t.Reaches u (lexemes c.pieces ++ .punctuator .closeParen :: .punctuator .arrow ::
      .literal zero :: .punctuator .semicolon :: ls)) :
      Decided u (c.isRead strict = true) (.punctuator .closeParen :: .punctuator .arrow :: .literal zero ::
        .punctuator .semicolon :: ls) (Summary.Is (c.shape strict) !c.isCovered) (derive n (.assignment true) u) :=
    literal_assignment hc (hu.context ▸ ht.free) rfl nofun hu.faces
  have hfaces := ht.faces
  rw [hfirst] at hfaces hitem
  refine (parenthesizedArrow_decided hfaces (not_punctuator_of_beginsCover hbegins rfl)
    (not_punctuator_of_beginsCover hbegins rfl) hitem fun u _ _ _ hu =>
      arrowBody_number rfl (by decide) hu.faces).iff ?_
  rw [show (c.shape strict).isBindingElement = _ from c.isBindingElement_elementShape false]
  exact bindable_iff

/-! ### Functions -/

/-- Braces with no statements in them. -/
theorem noStatements_decided {nested : Derivation} {topLevel : Bool} (hs : s.Faces (.punctuator .closeBrace :: ls)) :
    Decided s True (.punctuator .closeBrace :: ls) (fun _ => True) (statementList nested topLevel s) := by
  have hclose : (s.token.isEnd || s.token.isPunctuator .closeBrace) = true := endsList_of_faces hs rfl
  rw [statementList_eq]
  refine .loop (.done (b := ()) (u := s) ?_ ⟨trivial, .refl hs, trivial⟩)
  unfold statementTurn
  rw [token_bind, hclose, if_pos rfl]
  rfl

/-- A parameter that is a literal. -/
theorem parameters_literal (hc : c.isLiteral = true) {n : Nat} (hfree : s.context.Free strict)
    (hs : s.Faces (.punctuator .openParen :: (lexemes c.pieces ++ .punctuator .closeParen :: ls))) :
    Decided s ((c.isTarget .binding strict && c.isPermitted strict) = true) ls (fun _ => True)
      (parameters (derive n) s) := by
  rw [parameters_eq]
  refine .expect (.refl hs) fun t ht => ?_
  refine Decided.andThen (R := fun _ => True) ht.toAgrees (.loop fun turns => (Decided.again (w := True)
    (k := .punctuator .closeParen :: ls) (R := fun _ => True) (.refl t) ?_ (fun ps u m _ hu _ => ?_) turns).iff
    (iff_of_eq (and_true _))) fun _ u _ (hu : s.Reaches u (.punctuator .closeParen :: ls)) _ =>
      .expect hu fun u hu => ⟨trivial, hu, trivial⟩
  · have hfaces : t.Faces (lexemes (c.elementPieces false) ++ .punctuator .closeParen :: ls) := by
      rw [lexemes_element]
      exact ht.faces
    have hnot {q : Punctuator} := element_not_punctuator (q := q) hfaces
    unfold parameterTurn bindingElement
    rw [isAt_bind, hnot rfl, if_neg Bool.false_ne_true, bind_of_ok (eat_of_not (hnot rfl)), if_neg Bool.false_ne_true,
      bind_assoc, token_bind, bind_assoc]
    refine Decided.andThen (.refl t) (literal_bound hc (ht.context ▸ hfree) ht.faces) fun _ u _ hu _ => ?_
    rw [bind_assoc, bind_of_ok (eat_of_not (isPunctuator_of_kind hu.kind .assign)), if_neg Bool.false_ne_true,
      pure_bind, isAt_bind, isPunctuator_of_kind hu.kind, if_pos (by rfl)]
    exact ⟨trivial, hu, _, rfl, trivial⟩
  · refine .done (b := ps) (u := u) ?_ ⟨trivial, hu, trivial⟩ m
    unfold parameterTurn
    rw [isAt_bind, isPunctuator_of_kind hu.kind, if_pos (by rfl)]
    rfl

/-- A function with a literal as its parameter is valid if the literal is a binding pattern. -/
theorem functionItem_decided (hc : c.isLiteral = true)
    (hs : s.Opens strict (.word Keyword.function.word :: .word nameF.toWord :: .punctuator .openParen ::
      (lexemes c.pieces ++ .punctuator .closeParen :: .punctuator .openBrace :: .punctuator .closeBrace :: ls))) :
    Decided s ((c.isTarget .binding strict && c.isPermitted strict) = true) ls (fun _ => True)
      (derive levels (.statementListItem true) s) := by
  refine derive_decided (p := .statementListItem true) fun n _ => ?_
  have hs := hs.deepened
  have hkind : s.deepened.token.kind = .keyword .function := hs.faces.kind.trans (Keyword.kind_word .function)
  have hkeyword : s.deepened.token.isKeyword .function = true := isKeyword_of_kind hkind .function
  change Decided _ _ _ _ (expandStatementListItem (derive n) true s.deepened)
  unfold expandStatementListItem
  rw [get_bind, if_pos hkeyword]
  have hfree : s.deepened.context.Free strict := hs.free
  have hname : s.deepened.context.forbids true nameF.name = false := by
    refine (hfree.forbids_binding nameF).mpr ?_
    cases strict <;> decide
  have hfaces : s.deepened.Faces (.word Keyword.function.word :: ((if false then [.punctuator .star] else []) ++
      .word nameF.toWord :: _)) := hs.faces
  refine (functionDeclaration_decided hfaces fun t ht => ?_).iff (and_iff_right hname)
  rw [hfree.strict_eq, hs.isModule]
  refine inFunctionContext_decided ?_
  have hfaces := faces_inside ht.faces (.ofFunction strict false false false)
  refine (parametersAndBody_decided (parameters_literal hc (Context.ofFunction_free strict) hfaces)
    (Context.ofFunction_free strict).toPlain fun ps w hw => ?_).iff (iff_of_eq (and_true _))
  have hbody : w.Faces (.punctuator .openBrace :: ([] ++ .punctuator .closeBrace :: ls)) := hw.faces
  refine functionBody_decided (by decide) hbody (fun x (hx : x.Faces (.punctuator .closeBrace :: ls)) => ?_)
    (fun x hx => noStatements_decided hx.faces) _
  exact isString_of_kind (by rw [hx.kind]; nofun)

/-! ### Catch clauses -/

theorem emptyBlock_decided {nested : Derivation}
    (hs : s.Faces (.punctuator .openBrace :: .punctuator .closeBrace :: ls)) :
    Decided s True ls (fun _ => True) (block nested s) := by
  have hs : s.Faces (.punctuator .openBrace :: ([] ++ .punctuator .closeBrace :: ls)) := hs
  exact block_decided hs fun t ht => noStatements_decided ht.faces

/-- A catch clause with a literal is valid if the literal is a binding pattern. -/
theorem catchItem_decided (hc : c.isLiteral = true)
    (hs : s.Opens strict (.word Keyword.try.word :: .punctuator .openBrace :: .punctuator .closeBrace ::
      .word Keyword.catch.word :: .punctuator .openParen :: (lexemes c.pieces ++ [.punctuator .closeParen,
        .punctuator .openBrace, .punctuator .closeBrace]))) :
    Decided s ((c.isTarget .binding strict && c.isPermitted strict) = true) [] (fun _ => True)
      (derive levels (.statementListItem true) s) := by
  have hkind : (Lexeme.word Keyword.try.word).kind = .keyword .try := Keyword.kind_word .try
  refine statementItem_decided hs (by rw [hkind]; rfl) fun n t ht => ?_
  rw [expandStatement_try (ht.faces.kind.trans hkind), ht.detached_eq]
  unfold tryStatement
  refine .advance (.refl ht.faces) fun u hu => ?_
  refine .call hu.toAgrees (emptyBlock_decided hu.faces) fun _ u hu _ => ?_
  have hcatch : Decided u ((c.isTarget .binding strict && c.isPermitted strict) = true) [] (· = true)
      (catchClause (derive n) u) := by
    have hat : u.token.isKeyword .catch = true := isKeyword_of_kind (hu.kind.trans (Keyword.kind_word .catch)) .catch
    unfold catchClause
    rw [isAtKeyword_bind, hat, if_pos rfl]
    refine .advance (.refl hu.faces) fun w hw => ?_
    refine .eat hw fun w hw => ?_
    refine Decided.andThen hw.toAgrees (literal_bound hc (hw.context ▸ hu.context ▸ ht.free) hw.faces)
      fun _ x _ hx _ => ?_
    refine .expect hx fun x hx => ?_
    exact .call hx.toAgrees (emptyBlock_decided hx.faces) fun _ y hy _ => ⟨trivial, hy, rfl⟩
  refine Decided.andThen hu.toAgrees hcatch fun caught w _ hw hcaught => ?_
  have hfinally : finallyClause (derive n) w = .ok false w := by
    have hend : w.token.kind = .endOfInput := hw.faces
    have hnot : w.token.isKeyword .finally = false := isKeyword_of_kind hend .finally
    unfold finallyClause
    rw [isAtKeyword_bind, hnot, if_neg Bool.false_ne_true]
    rfl
  subst hcaught
  rw [bind_of_ok hfinally, if_pos (by rfl)]
  exact ⟨trivial, hw, trivial⟩

end Grammar

/-! ## Assignments and expressions -/

namespace Cover

/-- The literal with a number assigned to it. -/
def assignmentPieces (c : Cover) : List Piece :=
  piece .openParen :: (c.pieces ++
    [.space, piece .assign, .space, .lexeme (.literal Grammar.zero), piece .closeParen, piece .semicolon])

/-- The literal as the target of a loop. -/
def loopPieces (c : Cover) : List Piece :=
  Keyword.for.word.piece :: .space :: piece .openParen :: (c.pieces ++
    [.space, nameOf.piece, .space, nameX.piece, piece .closeParen, piece .semicolon])

/-- The literal as an expression. -/
def expressionPieces (c : Cover) : List Piece :=
  piece .openParen :: (c.pieces ++ [piece .closeParen, piece .semicolon])

end Cover

namespace Grammar

variable {strict : Bool} {s : State} {ls : List Lexeme} {levels : Nat} {c : Cover}

/-- The literal is read, and is an assignment pattern. -/
theorem assignable_iff : c.isRead strict = true ∧ c.isTarget .assignment strict = true ↔
    (c.isTarget .assignment strict && c.isPermitted strict) = true := by
  rw [Bool.and_eq_true, and_comm]
  refine and_congr_right fun htarget => ?_
  rw [c.isRead_eq (.inr htarget), c.defaultsValid_of_isTarget htarget, Bool.and_true]

/-- The literal is read, and nothing in it waits for a pattern. -/
theorem evaluable_iff : c.isRead strict = true ∧ c.isCovered = true ↔
    (c.defaultsValid strict && c.isCovered && c.isPermitted strict) = true := by
  rw [and_comm]
  by_cases hcovered : c.isCovered = true
  · rw [c.isRead_eq (.inl hcovered), hcovered, Bool.and_true, Bool.and_comm]
    exact and_iff_right rfl
  · rw [Bool.not_eq_true] at hcovered
    rw [hcovered, Bool.and_false, Bool.false_and]
    exact iff_of_false (fun h => Bool.false_ne_true h.1) Bool.false_ne_true

/-- What begins with a literal, in parentheses before a semicolon. -/
theorem literalItem_decided {v w : Prop} {R : Summary → Prop} {ms : List Lexeme}
    (hs : s.Opens strict (.punctuator .openParen :: (lexemes c.pieces ++ ms)))
    (hitem : ∀ (n : Nat) (t : State), t.Opens strict (lexemes c.pieces ++ ms) →
      Decided t v (.punctuator .closeParen :: .punctuator .semicolon :: ls) R (derive n (.assignment true) t))
    (hpending : ∀ e, R e → (e.shorthand? = none ↔ w)) :
    Decided s (v ∧ w) ls (fun _ => True) (derive levels (.statementListItem true) s) := by
  obtain ⟨first, rest, hfirst, hbegins⟩ := c.first
  rw [hfirst] at hs hitem
  refine parenthesizedItem_decided (R := fun e => ∃ item, R item ∧ e.shape = item.shape.inParentheses ∧
    e.shorthand? = none) hs (fun n t ht => ?_) fun e he => he.elim fun _ he => he.2.2
  exact parenthesized_decided ht.faces (not_punctuator_of_beginsCover hbegins rfl)
    (not_punctuator_of_beginsCover hbegins rfl) nofun (fun u hu => hitem n u (ht.of_reaches hu)) hpending

/-- An expression that is a literal is valid if nothing in it waits for a pattern. -/
theorem expressionItem_decided (hc : c.isLiteral = true)
    (hs : s.Opens strict (.punctuator .openParen :: (lexemes c.pieces ++ .punctuator .closeParen ::
      .punctuator .semicolon :: ls))) :
    Decided s ((c.defaultsValid strict && c.isCovered && c.isPermitted strict) = true) ls (fun _ => True)
      (derive levels (.statementListItem true) s) := by
  refine (literalItem_decided (w := c.isCovered = true) hs (fun n t ht =>
    literal_assignment hc ht.free rfl nofun ht.faces) fun e he => ?_).iff evaluable_iff
  rw [he.none_iff, Bool.not_eq_false']

/-- An assignment to a literal is valid if the literal is an assignment pattern. -/
theorem assignmentItem_decided
    (hs : s.Opens strict (.punctuator .openParen :: (lexemes c.pieces ++ .punctuator .assign :: .literal zero ::
      .punctuator .closeParen :: .punctuator .semicolon :: ls))) :
    Decided s ((c.isTarget .assignment strict && c.isPermitted strict) = true) ls (fun _ => True)
      (derive levels (.statementListItem true) s) := by
  refine (literalItem_decided (w := True) hs (fun n t ht => derive_decided (p := .assignment true) fun m _ =>
    (cover_decided c).assign ht.deepened.free ht.deepened.faces fun u hu => ?_) fun e he =>
      iff_of_true (he.none_iff.mpr rfl) trivial).iff ((iff_of_eq (and_true _)).trans assignable_iff)
  exact value_decided (p := .closeParen) (hu.context ▸ ht.free.toPlain) ⟨rfl, by decide⟩ hu.faces

/-! ### Loops -/

/-- A literal begins with what opens it. -/
theorem literal_first (hc : c.isLiteral = true) {ms : List Lexeme} (hs : s.Faces (lexemes c.pieces ++ ms)) :
    s.token.kind = .punctuator .openBracket ∨ s.token.kind = .punctuator .openBrace := by
  cases c with
  | reference r => cases hc
  | number n => cases hc
  | array slots => exact .inl (State.Faces.kind (l := .punctuator .openBracket) hs)
  | object members => exact .inr (State.Faces.kind (l := .punctuator .openBrace) hs)

theorem name_assignment {x : Variable} {levels : Nat} (hfree : s.context.Free strict)
    (hs : s.Faces (.word x.toWord :: .punctuator .closeParen :: ls)) :
    Decided s (x.isPermitted strict = true) (.punctuator .closeParen :: ls) (fun _ => True)
      (assignment (derive levels) true s) := by
  have hname : Decided s (x.isPermitted strict = true) (.punctuator .closeParen :: ls)
      (Summary.Is (.identifier (x.isAssignable strict)) false) (derive levels (.assignment true) s) :=
    assignment_of_leftHandSide hfree.toPlain.quiet (by rw [hs.kind.trans x.kind_eq]; rfl) rfl nofun fun n _ =>
      name_decided hfree (hs.of_eq rfl rfl) rfl
  exact ((assignment_decided hname (w := True) fun e he => iff_of_true (he.none_iff.mpr rfl) trivial).imp
    fun _ _ _ => trivial).iff (iff_of_eq (and_true _))

/-- What a loop runs over, with an empty body. -/
theorem forEach_decided (hfree : s.context.Free strict) (hattached : s.attachedLabels = 0)
    (hs : s.Faces (.word nameOf.toWord :: .word nameX.toWord :: .punctuator .closeParen ::
      .punctuator .semicolon :: ls)) :
    Decided s True ls (fun _ => True) (forEach (derive levels) .forOf false s) := by
  unfold forEach
  rw [Bool.false_and, if_neg Bool.false_ne_true]
  refine .advance (.refl hs) fun t ht => ?_
  have hpermitted : nameX.isPermitted strict = true := by cases strict <;> decide
  have hvalue : Decided t True (.punctuator .closeParen :: .punctuator .semicolon :: ls) (fun _ => True)
      (assignment (derive levels) true t) :=
    (name_assignment (ht.context ▸ hfree) ht.faces).iff (iff_of_true hpermitted trivial)
  refine .call ht.toAgrees (.discard (.refl t) hvalue) fun _ u hu _ => ?_
  refine .expectWith hu (by decide) fun u hu => ?_
  refine .of_agrees hu.toAgrees (loopBody_decided (derive_decided (p := .statement) fun n _ => ?_))
  have hfaces : u.looping.deepened.Faces (.punctuator .semicolon :: ls) := hu.faces.of_eq rfl rfl
  change Decided _ _ _ _ (expandStatement (derive n) u.looping.deepened)
  have hdetached : u.looping.deepened.attachedLabels = 0 := hu.attachedLabels.trans hattached
  rw [expandStatement_empty hfaces.kind, Grammar.detached_eq hdetached]
  exact .lastAdvance (.refl hfaces) (by decide)

theorem marked_eq (hs : s.Opens strict ls) : s.marked = s := by
  unfold State.marked
  rw [hs.detached_eq, hs.attachedLabels, hs.labels]
  exact congrArg (fun labels => { s with labels }) hs.labels.symm

/-- A loop over values that are assigned to a literal, from the literal on. -/
theorem forExpression_decided (hc : c.isLiteral = true) (hfree : s.context.Free strict)
    (hattached : s.attachedLabels = 0)
    (hs : s.Faces (lexemes c.pieces ++ .word nameOf.toWord :: .word nameX.toWord :: .punctuator .closeParen ::
      .punctuator .semicolon :: ls)) :
    Decided s ((c.isTarget .assignment strict && c.isPermitted strict) = true) ls (fun _ => True)
      (forExpression (derive levels) false s) := by
  have hidentifier : s.token.isIdentifier = false := by
    obtain hkind | hkind := literal_first hc hs <;>
    · unfold Token.isIdentifier
      rw [hkind]
  have hword (w : String) : s.token.isWord w = false := isWord_of_kind hidentifier w
  have hkind : (Lexeme.word nameOf.toWord).kind = .identifier "of" false := nameOf.kind_eq
  have hhead : Decided s (c.isRead strict = true) (.word nameOf.toWord :: .word nameX.toWord ::
      .punctuator .closeParen :: .punctuator .semicolon :: ls) (Summary.Is (c.shape strict) !c.isCovered)
      (expressionOrPattern (derive levels) false s) :=
    expressionOrPattern_decided
      (literal_assignment hc hfree (by rw [hkind]; rfl) (by rw [hkind]; nofun) hs) (by rw [hkind]; nofun)
  unfold forExpression
  rw [token_bind]
  refine (Decided.bind (.refl s) hhead fun head t _ ht hhead => ?_).iff assignable_iff
  have hloop : forLoop? t = .ok (some .forOf) t := by
    have hof : t.token.isWord "of" = true := by
      unfold Token.isWord
      rw [ht.kind.trans hkind]
      rfl
    unfold forLoop?
    rw [token_bind, hof, if_pos rfl]
    rfl
  rw [bind_of_ok hloop]
  dsimp only
  rw [hword, hword, Bool.and_false, if_neg Bool.false_ne_true, Bool.false_and, Bool.false_and,
    if_neg Bool.false_ne_true, hhead.shape_eq, c.isAssignmentTarget_shape]
  cases c.isTarget .assignment strict with
  | false =>
    rw [if_neg Bool.false_ne_true]
    exact .refuse Bool.false_ne_true
  | true =>
    rw [if_pos rfl]
    have heach : Decided t True ls (fun _ => True) (forEach (derive levels) .forOf false t) :=
      forEach_decided (ht.context ▸ hfree) (ht.attachedLabels.trans hattached) ht.faces
    exact (Decided.of_agrees ht.toAgrees heach).iff (iff_of_true trivial rfl)

/-- A loop over values that are assigned to a literal is valid if the literal is an assignment pattern. -/
theorem loopItem_decided (hc : c.isLiteral = true)
    (hs : s.Opens strict (.word Keyword.for.word :: .punctuator .openParen :: (lexemes c.pieces ++
      .word nameOf.toWord :: .word nameX.toWord :: .punctuator .closeParen :: .punctuator .semicolon :: ls))) :
    Decided s ((c.isTarget .assignment strict && c.isPermitted strict) = true) ls (fun _ => True)
      (derive levels (.statementListItem true) s) := by
  have hfor : (Lexeme.word Keyword.for.word).kind = .keyword .for := Keyword.kind_word .for
  refine statementItem_decided hs (by rw [hfor]; rfl) fun n t ht => ?_
  rw [expandStatement_for (ht.faces.kind.trans hfor)]
  refine .markLabels ?_
  rw [marked_eq ht]
  refine Decided.advance (.refl ht.faces) fun u hu => ?_
  rw [bind_of_ok (forAwait_openParen hu.faces)]
  refine .expect hu fun u hu => ?_
  have hfirst := literal_first hc hu.faces
  have hpunctuator (p : Punctuator) (hp : p ≠ .openBracket ∧ p ≠ .openBrace) : u.token.isPunctuator p = false := by
    obtain hkind | hkind := hfirst
    · exact (isPunctuator_of_kind hkind p).trans (decide_eq_false fun h => hp.1 (TokenKind.punctuator.inj h).symm)
    · exact (isPunctuator_of_kind hkind p).trans (decide_eq_false fun h => hp.2 (TokenKind.punctuator.inj h).symm)
  have hkeyword (k : Keyword) : u.token.isKeyword k = false := by
    obtain hkind | hkind := hfirst <;> exact isKeyword_of_kind hkind k
  have hlet : u.token.isWord "let" = false := by
    obtain hkind | hkind := hfirst <;>
    · unfold Token.isWord
      rw [hkind]
  rw [isAt_bind, hpunctuator .semicolon (by decide), if_neg Bool.false_ne_true, isAtKeyword_bind, hkeyword,
    if_neg Bool.false_ne_true, isAtKeyword_bind, hkeyword, if_neg Bool.false_ne_true,
    bind_of_ok (isAtLetDeclaration_of_not hlet), if_neg Bool.false_ne_true]
  exact .of_agrees hu.toAgrees
    (forExpression_decided hc (hu.context ▸ ht.free) (hu.attachedLabels.trans ht.attachedLabels) hu.faces)

end Grammar

/-! ## The programs -/

/-- The lexemes of a statement with a literal in it. -/
theorem lexemes_around (before after : List Piece) (c : Cover) :
    lexemes (before ++ (c.pieces ++ after)) = lexemes before ++ (lexemes c.pieces ++ lexemes after) := by
  rw [lexemes_append, lexemes_append]

theorem sound_opened (c : Cover) {q : Piece} {rest : List Piece} (hq : q.isEnding = true)
    (h : Sound (q :: rest) = true) : Sound (piece .openParen :: (c.pieces ++ q :: rest)) = true :=
  (sound_whole rfl _).trans (sound_cover c q rest hq h)

/-- The statements that bind the names in the literal, each in its own way. -/
def Cover.bindings (c : Cover) : List (List Piece) :=
  [c.declarationPieces, c.arrowPieces, c.functionPieces, c.catchPieces]

/-- A statement that binds the names in a literal is accepted just if the literal is a binding pattern. -/
theorem binding_accepted_iff {strict : Bool} {c : Cover} {limit : Nat} {statement : List Piece}
    (hc : c.isLiteral = true) (hstatement : statement ∈ c.bindings)
    (hdeep : ∀ r, checkCode strict limit statement ≠ .tooDeep r) :
    checkCode strict limit statement = .ok ↔ (c.isTarget .binding strict && c.isPermitted strict) = true := by
  have hcases : statement = c.declarationPieces ∨ statement = c.arrowPieces ∨ statement = c.functionPieces ∨
      statement = c.catchPieces := by
    simpa [Cover.bindings] using hstatement
  obtain rfl | rfl | rfl | rfl := hcases
  · exact Grammar.code_accepted_iff (sound_cover c _ _ rfl rfl) (lexemes_around [_, _] _ c) (.keyword .var)
      (fun s hs => Grammar.declaration_decided hc hs) hdeep
  · exact Grammar.code_accepted_iff (sound_opened c rfl rfl) (lexemes_around [_] _ c) .openParen
      (fun s hs => Grammar.arrow_decided hc hs) hdeep
  · exact Grammar.code_accepted_iff (sound_opened c rfl rfl) (lexemes_around [_, _, _, _] _ c) (.keyword .function)
      (fun s hs => Grammar.functionItem_decided hc hs) hdeep
  · exact Grammar.code_accepted_iff (sound_opened c rfl rfl) (lexemes_around [_, _, _, _, _, _, _, _] _ c)
      (.keyword .try) (fun s hs => Grammar.catchItem_decided hc hs) hdeep

/-- Whatever binds the names in a literal accepts it, or all that binds them refuses it: declarations and catch clauses
read the pattern itself, arrow functions read an expression that may turn out to be a pattern. -/
theorem bindings_agree (strict : Bool) (c : Cover) (hc : c.isLiteral = true) (limit : Nat)
    (hdeep : ∀ statement ∈ c.bindings, ∀ r, checkCode strict limit statement ≠ .tooDeep r) :
    (∀ statement ∈ c.bindings, checkCode strict limit statement = .ok) ∨
    (∀ statement ∈ c.bindings, ∃ r, checkCode strict limit statement = .invalid r) := by
  by_cases hpattern : (c.isTarget .binding strict && c.isPermitted strict) = true
  · exact .inl fun statement h => (binding_accepted_iff hc h (hdeep statement h)).mpr hpattern
  · refine .inr fun statement h => checkCode_invalid (hdeep statement h) fun hok => ?_
    exact hpattern ((binding_accepted_iff hc h (hdeep statement h)).mp hok)

/-- An element that is a name, and one with a default that takes a property with a default apart. -/
def Cover.sample : Cover :=
  .array (.more false (.reference (.name nameA)) false
    (.last false (.object (.last (.shorthand nameX true))) true))

example : String.ofList (printed Cover.sample.declarationPieces) = "var [a, \x7bx = 1\x7d = 1] = 0;" := by
  decide +kernel

theorem bindings_agree_sample :
    Cover.sample.isLiteral = true ∧
    (∀ statement ∈ Cover.sample.bindings, ∀ r, checkCode true 64 statement ≠ .tooDeep r) ∧
    ∀ statement ∈ Cover.sample.bindings, checkCode true 64 statement = .ok := by
  have hok : ∀ statement ∈ Cover.sample.bindings, checkCode true 64 statement = .ok := by
    decide +kernel
  have hdeep : ∀ statement ∈ Cover.sample.bindings, ∀ r, checkCode true 64 statement ≠ .tooDeep r := by
    intro statement h
    rw [hok statement h]
    nofun
  refine ⟨rfl, hdeep, (bindings_agree true Cover.sample rfl 64 hdeep).resolve_right fun h => ?_⟩
  obtain ⟨r, hr⟩ := h _ (.head _)
  exact Outcome.noConfusion ((hok _ (.head _)).symm.trans hr)

/-- A literal is assigned to, as an expression or by a loop, just if it is an assignment pattern, and is an expression
just if all that has a default can be assigned to and all initializers of shorthand properties lie in that. In any case
the names and the numbers in it have to be permitted in strict code, if the code is strict, and each computed key in it
has to be an expression by itself: what the key waits for does not turn up with the pattern around it. -/
theorem cover_accepted_iff (strict : Bool) (c : Cover) (hc : c.isLiteral = true) (limit : Nat) :
    ((∀ r, checkCode strict limit c.assignmentPieces ≠ .tooDeep r) →
      (checkCode strict limit c.assignmentPieces = .ok ↔
        (c.isTarget .assignment strict && c.isPermitted strict) = true)) ∧
    ((∀ r, checkCode strict limit c.loopPieces ≠ .tooDeep r) →
      (checkCode strict limit c.loopPieces = .ok ↔
        (c.isTarget .assignment strict && c.isPermitted strict) = true)) ∧
    ((∀ r, checkCode strict limit c.expressionPieces ≠ .tooDeep r) →
      (checkCode strict limit c.expressionPieces = .ok ↔
        (c.defaultsValid strict && c.isCovered && c.isPermitted strict) = true)) := by
  refine ⟨fun hdeep => ?_, fun hdeep => ?_, fun hdeep => ?_⟩
  · exact Grammar.code_accepted_iff (sound_opened c rfl rfl) (lexemes_around [_] _ c) .openParen
      (fun s hs => Grammar.assignmentItem_decided hs) hdeep
  · exact Grammar.code_accepted_iff (sound_opened c rfl rfl) (lexemes_around [_, _, _] _ c) (.keyword .for)
      (fun s hs => Grammar.loopItem_decided hc hs) hdeep
  · exact Grammar.code_accepted_iff (sound_opened c rfl rfl) (lexemes_around [_] _ c) .openParen
      (fun s hs => Grammar.expressionItem_decided hc hs) hdeep

theorem cover_accepted_iff_sample :
    Cover.sample.isLiteral = true ∧
    (∀ r, checkCode true 64 Cover.sample.assignmentPieces ≠ .tooDeep r) ∧
    (∀ r, checkCode true 64 Cover.sample.loopPieces ≠ .tooDeep r) ∧
    (∀ r, checkCode true 64 Cover.sample.expressionPieces ≠ .tooDeep r) ∧
    checkCode true 64 Cover.sample.assignmentPieces = .ok ∧
    checkCode true 64 Cover.sample.loopPieces = .ok ∧
    checkCode true 64 Cover.sample.expressionPieces = .ok := by
  have hassignment : ∀ r, checkCode true 64 Cover.sample.assignmentPieces ≠ .tooDeep r := by
    rw [show checkCode true 64 Cover.sample.assignmentPieces = .ok by decide +kernel]
    nofun
  have hloop : ∀ r, checkCode true 64 Cover.sample.loopPieces ≠ .tooDeep r := by
    rw [show checkCode true 64 Cover.sample.loopPieces = .ok by decide +kernel]
    nofun
  have hexpression : ∀ r, checkCode true 64 Cover.sample.expressionPieces ≠ .tooDeep r := by
    rw [show checkCode true 64 Cover.sample.expressionPieces = .ok by decide +kernel]
    nofun
  obtain ⟨hassigned, hlooped, hread⟩ := cover_accepted_iff true Cover.sample rfl 64
  exact ⟨rfl, hassignment, hloop, hexpression, (hassigned hassignment).mpr (by decide +kernel),
    (hlooped hloop).mpr (by decide +kernel), (hread hexpression).mpr (by decide +kernel)⟩

/-- A name that strict code reserves. -/
def Cover.reserved : Cover :=
  .array (.last false (.reference (.name (.plain "yield".toList (by decide +kernel) (by decide)))) false)

/-- A number that strict code does not have. -/
def Cover.octal : Cover :=
  .array (.last false (.number ⟨['0', '1', '0'], by decide, by rfl⟩) false)

/-- A computed key with an initializer that no pattern takes. -/
def Cover.keyedByInitializer : Cover :=
  .object (.last (.keyed (.computed (.object (.last (.shorthand nameA true)))) (.reference (.name nameX)) false))

example : String.ofList (printed Cover.keyedByInitializer.assignmentPieces) = "(\x7b[\x7ba = 1\x7d]: x\x7d = 0);" := by
  decide +kernel

/-- That the targets are those of a pattern and the initializers are covered is not enough. -/
theorem cover_not_permitted_refused :
    (Cover.reserved.isLiteral = true ∧ Cover.reserved.isTarget .assignment true = true ∧
      checkCode true 64 Cover.reserved.assignmentPieces =
        .invalid ⟨.grammatical, 1, 17, 16, "Unexpected strict mode reserved word"⟩) ∧
    (Cover.octal.isLiteral = true ∧ (Cover.octal.defaultsValid true && Cover.octal.isCovered) = true ∧
      checkCode true 64 Cover.octal.expressionPieces =
        .invalid ⟨.grammatical, 1, 17, 16, "Octal literals are not allowed in strict mode."⟩) ∧
    (Cover.keyedByInitializer.isLiteral = true ∧ Cover.keyedByInitializer.isTarget .assignment false = true ∧
      checkCode false 64 Cover.keyedByInitializer.assignmentPieces =
        .invalid ⟨.grammatical, 1, 7, 6, "Invalid shorthand property initializer"⟩) := by
  decide +kernel

end EcmaCheck
