import EcmaCheck.Proofs.Printed.Arrow
import EcmaCheck.Proofs.Printed.Jump
import EcmaCheck.Proofs.Printed.Opening
import EcmaCheck.Proofs.FunctionDirective

/-!
# Functions as bare statements

A chain of labels and of `if`, `while`, `for` and `with` headers takes a statement, and a generator or an asynchronous
function is none. Whatever is printed behind the first words of it, a script that is such a chain with such a function
is not accepted, unless the function is a generator directly behind a label (`bareFunction_refused`).
-/

namespace EcmaCheck

open Lexical Scanner

/-! ## Chains of headers -/

/-- What a statement can stand behind. -/
inductive Header where
  | label (name : Variable)
  | ifThen
  | ifElse
  | «while»
  | «for»
  | «with»

open Punctuator (piece)

namespace Header

/-- The header as it is printed. -/
def pieces : Header → List Piece
  | label name => [name.piece, piece .colon]
  | ifThen => Keyword.if.word.piece :: .space :: conditionPieces
  | ifElse =>
    Keyword.if.word.piece :: .space :: (conditionPieces ++ [.space, piece .semicolon, .space, Keyword.else.word.piece])
  | «while» => Keyword.while.word.piece :: .space :: conditionPieces
  | «for» =>
    [Keyword.for.word.piece, .space, piece .openParen, piece .semicolon, piece .semicolon, piece .closeParen]
  | «with» => Keyword.with.word.piece :: .space :: conditionPieces

/-- Whether the header is a label. -/
def isLabel : Header → Bool
  | label _ => true
  | _ => false

end Header

/-- The headers as they are printed, with a space after each. -/
def chainPieces (hs : List Header) : List Piece :=
  hs.flatMap fun h => h.pieces ++ [.space]

/-- The functions that are no statements. -/
inductive BareFunction where
  | generator
  | async

namespace BareFunction

/-- The word that the function begins with. -/
def word : BareFunction → Word
  | generator => Keyword.function.word
  | async => nameAsync.toWord

/-- What follows that word. -/
def second : BareFunction → Lexeme
  | generator => .punctuator .star
  | async => .word Keyword.function.word

/-- How the function begins. -/
def pieces (f : BareFunction) : List Piece :=
  match f with
  | generator => [f.word.piece, .lexeme f.second]
  | async => [f.word.piece, .space, .lexeme f.second]

/-- Whether a chain of headers takes the function: a label takes a generator. -/
def follows (hs : List Header) : BareFunction → Bool
  | generator => hs.getLast?.any Header.isLabel
  | async => false

end BareFunction

/-- A function behind a chain of headers, with the text that it goes on with. -/
def bareFunctionText (hs : List Header) (f : BareFunction) (rest : List Char) : List Char :=
  printed (chainPieces hs ++ f.pieces) ++ ' ' :: rest

namespace Grammar

variable {α β : Type} {s t : State} {l next : Lexeme} {ls : List Lexeme} {behind : Scanner} {nested : Derivation}
  {levels : Nat}

/-! ## Passing headers -/

/-- If the recognition gives a result, the state stands before the lexemes, in the surroundings it began in. -/
abbrev Passing (s : State) (ls : List Lexeme) (behind : Scanner) (r : EStateM.Result Fault State α) : Prop :=
  Ends (fun _ => True) (fun _ t => s.Comes t ls behind) r

theorem State.Comes.trans {u : State} {ms : List Lexeme} (h : s.Comes t ls behind) (h' : t.Comes u ms behind) :
    s.Comes u ms behind :=
  ⟨h.toAgrees.trans h'.toAgrees, h'.before⟩

theorem expectWith_comes {p : Punctuator} (goal : LexicalGoal) (hs : s.Before (.punctuator p :: next :: ls) behind)
    (hgoal : goal ≠ .templateTail) : ∃ t, expectWith p goal s = .ok () t ∧ s.Comes t (next :: ls) behind := by
  obtain ⟨t, ht, hcomes⟩ := advanceWith_comes hs hgoal
  exact ⟨t, (congrFun (if_pos (Token.isPunctuator_iff.mpr hs.1)) s).trans ht, hcomes⟩

theorem primary_decimal (h : s.token.kind = .number false) : primary nested s = tokenLiteral s.noted := by
  have hslash := isPunctuator_of_kind h .slash
  have hassign := isPunctuator_of_kind h .slashAssign
  unfold primary
  rw [isAt_bind, isAt_bind, hslash, hassign, if_neg (by simp)]
  dsimp only
  rw [noteOperandStart_bind, token_bind, token_noted, h]
  dsimp only
  rw [context_bind, Bool.false_and, if_neg Bool.false_ne_true]

/-- Zero before a closing parenthesis. -/
theorem zero_passing (hplain : s.context.Plain)
    (hs : s.Before (.literal zero :: .punctuator .closeParen :: ls) behind) :
    Passing s (.punctuator .closeParen :: ls) behind
      ((Functor.discard (expression (derive levels) true) : Recognizer Unit) s) := by
  let Q (s : State) (e : Summary) (t : State) : Prop :=
    s.Comes t (.punctuator .closeParen :: ls) behind ∧ e.Is .other false
  have hkind : s.token.kind = .number false := hs.1
  have hQ (s : State) : EndsOperand (Q s) :=
    ⟨fun e t ht => ht.1.before.1 ▸ rfl, fun e t ht =>
      ⟨⟨⟨ht.1.surroundings, ht.1.isModule⟩, ht.1.before.of_eq rfl rfl⟩, ht.2⟩⟩
  have hne {p : Punctuator} (hp : p ≠ .closeParen) (s : State) (e : Summary) (t : State) (ht : Q s e t) :
      t.token.kind ≠ .punctuator p := by
    rw [ht.1.before.1]
    exact fun h => hp (TokenKind.punctuator.inj h).symm
  have hderive : Ends (fun _ => True) (Q s) (derive levels (.assignment true) s) := by
    refine derive_ends (p := .assignment true) (fun _ _ _ => trivial) fun n _ => ?_
    have hprimary : Ends (fun _ => True) (Q s.deepened) (primary (derive n) s.deepened) := by
      have hnoted : s.deepened.noted.Before (.literal zero :: .punctuator .closeParen :: ls) behind := hs.of_eq rfl rfl
      obtain ⟨t, hadvance, ht⟩ := advance_comes hnoted
      have hnumber : s.deepened.token.kind = .number false := hkind
      have hrun : primary (derive n) s.deepened = .ok (.other s.token.start) t :=
        (primary_decimal hnumber).trans (tokenLiteral_eq_ok hadvance)
      rw [hrun]
      exact ⟨⟨.trans (agrees_noted _) ht.toAgrees, ht.before⟩, rfl, rfl⟩
    have hnot (k : Keyword) : s.deepened.token.isKeyword k = false := isKeyword_of_kind hkind k
    have hbegins : Begins s.deepened.token := begins_of_kind (congrArg TokenKind.beginsOperand hkind)
    have hleft := leftHandSide_ends (fun _ => trivial) (hQ _).endsBefore hprimary (hnot _) (hnot _) (hnot _)
    have hconditional := conditional_ends (fun _ => trivial) (hQ _) hleft hbegins hplain.quiet.deepened true
    refine (expandAssignment_ends (hQ _) hconditional hplain.quiet.deepened (hne (by decide) _)).imp fun e t ht => ?_
    exact ⟨⟨agrees_surfaced ht.1.toAgrees, ht.1.before.of_eq rfl rfl⟩, ht.2⟩
  refine Ends.bind (f := fun _ => pure ()) (P := fun _ t => s.Comes t (.punctuator .closeParen :: ls) behind) ?_
    fun _ t ht => ht
  refine (expressionOrPattern_ends (hQ s).ended hderive (hne (by decide) s)).bind fun e t ht => ?_
  unfold rejectShorthand
  rw [ht.2.none_iff.mpr rfl]
  exact ht.1

theorem condition_passing (hplain : s.context.Plain)
    (hs : s.Before (.punctuator .openParen :: .literal zero :: .punctuator .closeParen :: next :: ls) behind) :
    Passing s (next :: ls) behind (condition (derive levels) s) := by
  obtain ⟨t, hopen, ht⟩ := expect_comes hs
  unfold condition
  rw [bind_of_ok hopen]
  refine (zero_passing (ht.context ▸ hplain) ht.before).bind fun _ u hu => ?_
  obtain ⟨w, hclose, hw⟩ := expectWith_comes .regExp hu.before (by decide)
  rw [hclose]
  exact ht.trans (hu.trans hw)

/-! ## Refusing what follows -/

/-- Wherever a statement begins before the lexemes in sloppy code of a script, it is none. -/
def NoStatement (ls : List Lexeme) (behind : Scanner) : Prop :=
  ∀ (levels : Nat) (s : State), s.context.Free false → s.Before ls behind → Refused (derive levels .statement s)

theorem loopBody_refused (h : Refused (nested .statement s.looping)) : Refused (loopBody nested s) := by
  have hrun : loopBody nested s = (nested .statement >>= fun _ =>
      modify (fun t => { t with context :=
        { t.context with inIteration := s.context.inIteration, inBreakable := s.context.inBreakable } }) >>=
        fun _ => pure ()) s.looping := rfl
  rw [hrun]
  exact h.bind

theorem markLabels_refused {x : Unit → Recognizer Unit} (h : Refused (x () s.marked)) :
    Refused ((markLabels s.attachedLabels >>= x) s.detached) := by
  by_cases hn : s.attachedLabels ≤ s.labels.length
  · rw [bind_of_ok (markLabels_of_le (s := s.detached) hn)]
    exact h
  · have hfault : markLabels s.attachedLabels s.detached = .error (.labelsMissing s.token.start) s.detached :=
      congrFun (if_pos (Nat.lt_of_not_le hn)) s.detached
    rw [bind_of_error hfault]
    trivial

theorem Context.Free.looping {c : Context} (h : c.Free false) :
    Context.Free { c with inIteration := true, inBreakable := true } false :=
  { h with }

/-- A loop whose body is no statement. -/
theorem NoStatement.loopBody (h : NoStatement ls behind) (hfree : s.context.Free false) (hs : s.Before ls behind) :
    Refused (Grammar.loopBody (derive levels) s) := by
  refine loopBody_refused (h levels s.looping hfree.looping ?_)
  cases ls with
  | nil => exact hs.elim
  | cons l ls => exact hs.of_eq rfl rfl

theorem whileStatement_refused (hfree : s.context.Free false) (h : NoStatement (next :: ls) behind)
    (hs : s.Before (.word Keyword.while.word :: .punctuator .openParen :: .literal zero :: .punctuator .closeParen ::
      next :: ls) behind) : Refused (whileStatement (derive levels) s) := by
  obtain ⟨t, hadvance, ht⟩ := advance_comes hs
  unfold whileStatement
  rw [bind_of_ok hadvance]
  refine Ends.bind (condition_passing (ht.context ▸ hfree.toPlain) ht.before) fun _ u hu => ?_
  exact h.loopBody ((ht.trans hu).context ▸ hfree) hu.before

theorem expandStatement_with (h : s.token.kind = .keyword .with) :
    expandStatement nested s = withStatement nested s.detached := by
  unfold expandStatement
  rw [get_bind, modify_bind, token_bind, h]
  rfl

theorem withStatement_refused (hfree : s.context.Free false) (h : NoStatement (next :: ls) behind)
    (hs : s.Before (.word Keyword.with.word :: .punctuator .openParen :: .literal zero :: .punctuator .closeParen ::
      next :: ls) behind) : Refused (withStatement (derive levels) s) := by
  obtain ⟨t, hadvance, ht⟩ := advance_comes hs
  unfold withStatement
  rw [context_bind, hfree.strict_eq, if_neg Bool.false_ne_true]
  dsimp only
  rw [bind_of_ok hadvance]
  refine Ends.bind (condition_passing (ht.context ▸ hfree.toPlain) ht.before) fun _ u hu => ?_
  exact h levels u ((ht.trans hu).context ▸ hfree) hu.before

theorem forAwait_of_openParen (h : s.token.kind = .punctuator .openParen) : forAwait s = .ok false s := by
  have hword : s.token.isWord "await" = false := by
    unfold Token.isWord
    rw [h]
  unfold forAwait
  rw [isAtWord_bind, hword, if_neg Bool.false_ne_true]
  rfl

theorem forStatement_refused (hfree : s.context.Free false) (h : NoStatement (next :: ls) behind)
    (hs : s.Before (.word Keyword.for.word :: .punctuator .openParen :: .punctuator .semicolon ::
      .punctuator .semicolon ::
      .punctuator .closeParen :: next :: ls) behind) : Refused (forStatement (derive levels) s) := by
  obtain ⟨t, hadvance, ht⟩ := advance_comes hs
  obtain ⟨u, hopen, hu⟩ := expect_comes ht.before
  obtain ⟨v, hfirst, hv⟩ := advance_comes hu.before
  obtain ⟨w, hsecond, hw⟩ := expect_comes hv.before
  obtain ⟨x, hclose, hx⟩ := expectWith_comes .regExp hw.before (by decide)
  have hcontext : x.context = s.context := ((((ht.trans hu).trans hv).trans hw).trans hx).context
  unfold forStatement
  rw [bind_of_ok hadvance, bind_of_ok (forAwait_of_openParen ht.before.1), bind_of_ok hopen, isAt_bind,
    Token.isPunctuator_iff.mpr hu.before.1, if_pos rfl, if_neg Bool.false_ne_true]
  dsimp only
  rw [bind_of_ok hfirst]
  unfold forClauses
  rw [isAt_bind, Token.isPunctuator_iff.mpr hv.before.1, if_pos rfl]
  dsimp only
  rw [bind_of_ok hsecond, isAt_bind, Token.isPunctuator_iff.mpr hw.before.1, if_pos rfl, bind_of_ok hclose]
  exact h.loopBody (hcontext ▸ hfree) hx.before

/-! ### Branches -/

/-- What begins the lexemes is no plain function declaration: no `function`, or one with a star behind it. -/
def NoFunction (ls : List Lexeme) (behind : Scanner) : Prop :=
  ∀ s : State, s.Before ls behind →
    s.token.isKeyword .function = false ∨ ∃ token, peek s = .ok token s ∧ token.isPunctuator .star = true

theorem branch_refused (hfree : s.context.Free false) (hfunction : NoFunction ls behind) (h : NoStatement ls behind)
    (hs : s.Before ls behind) : Refused (branch (derive levels) s) := by
  have hstatement := h levels s hfree hs
  unfold branch
  rw [context_bind, isAtKeyword_bind, hfree.strict_eq]
  rcases hfunction s hs with hnot | ⟨token, hpeek, hstar⟩
  · rwa [hnot, Bool.false_and, if_neg Bool.false_ne_true]
  · split
    · rwa [bind_of_ok hpeek, if_pos hstar]
    · exact hstatement

theorem ifStatement_refused (hfree : s.context.Free false) (hfunction : NoFunction (next :: ls) behind)
    (h : NoStatement (next :: ls) behind)
    (hs : s.Before (.word Keyword.if.word :: .punctuator .openParen :: .literal zero :: .punctuator .closeParen ::
      next :: ls) behind) : Refused (ifStatement (derive levels) s) := by
  obtain ⟨t, hadvance, ht⟩ := advance_comes hs
  unfold ifStatement
  rw [bind_of_ok hadvance]
  refine Ends.bind (condition_passing (ht.context ▸ hfree.toPlain) ht.before) fun _ u hu => ?_
  exact (branch_refused ((ht.trans hu).context ▸ hfree) hfunction h hu.before).bind

/-- An empty statement before the lexemes. -/
theorem empty_passing (hs : s.Before (.punctuator .semicolon :: next :: ls) behind) :
    Ends (fun _ => True) (fun _ t => t.context = s.context ∧ t.Before (next :: ls) behind)
      (derive levels .statement s) := by
  refine derive_ends (p := .statement) (fun _ _ _ => trivial) fun n _ => ?_
  have hdetached : s.deepened.detached.Before (.punctuator .semicolon :: next :: ls) behind := hs.of_eq rfl rfl
  obtain ⟨t, hadvance, ht⟩ := advanceWith_comes hdetached (show LexicalGoal.regExp ≠ .templateTail by decide)
  have hrun : expand (derive n) .statement s.deepened = .ok () t :=
    (expandStatement_empty (s := s.deepened) hs.1).trans hadvance
  rw [hrun]
  exact ⟨ht.context, ht.before.of_eq rfl rfl⟩

theorem branch_empty (hs : s.Before (.punctuator .semicolon :: next :: ls) behind) :
    Ends (fun _ => True) (fun _ t => t.context = s.context ∧ t.Before (next :: ls) behind)
      (branch (derive levels) s) := by
  have hnot : s.token.isKeyword .function = false := isKeyword_of_kind hs.1 .function
  unfold branch
  rw [context_bind, isAtKeyword_bind, hnot, Bool.false_and, if_neg Bool.false_ne_true]
  exact empty_passing hs

theorem ifElse_refused (hfree : s.context.Free false) (hfunction : NoFunction (next :: ls) behind)
    (h : NoStatement (next :: ls) behind)
    (hs : s.Before (.word Keyword.if.word :: .punctuator .openParen :: .literal zero :: .punctuator .closeParen ::
      .punctuator .semicolon :: .word Keyword.else.word :: next :: ls) behind) :
    Refused (ifStatement (derive levels) s) := by
  obtain ⟨t, hadvance, ht⟩ := advance_comes hs
  unfold ifStatement
  rw [bind_of_ok hadvance]
  refine Ends.bind (condition_passing (ht.context ▸ hfree.toPlain) ht.before) fun _ u hu => ?_
  refine Ends.bind (branch_empty hu.before) fun _ v hv => ?_
  obtain ⟨hcontext, hv⟩ := hv
  have helse : v.token.isKeyword .else = true :=
    (isKeyword_of_kind (hv.1.trans (Keyword.kind_word .else)) .else).trans (decide_eq_true rfl)
  obtain ⟨w, hadvance', hw⟩ := advance_comes hv
  rw [isAtKeyword_bind, helse, if_pos rfl, bind_of_ok hadvance']
  have hcontext' : w.context = s.context := (hw.context.trans hcontext).trans (ht.trans hu).context
  exact branch_refused (hcontext' ▸ hfree) hfunction h hw.before

/-! ### Labels -/

theorem peek_of_before (hs : s.Before (l :: next :: ls) behind) :
    ∃ token, peek s = .ok token s ∧ token.kind = next.kind := by
  obtain ⟨_, _, _ | ⟨hkind, _, hnext, _⟩⟩ := hs
  refine ⟨_, ?_, hkind⟩
  unfold peek
  rw [hnext _ (goalAfter_ne_templateTail s.token)]

theorem expandStatement_of_label {x : Variable} (hs : s.Before (.word x.toWord :: .punctuator .colon :: ls) behind) :
    expandStatement nested s =
      labelledStatement nested s.attachedLabels ⟨x.name, x.value.escaped, s.token.start⟩ s.detached := by
  have hdetached : s.detached.Before (.word x.toWord :: .punctuator .colon :: ls) behind := hs.of_eq rfl rfl
  obtain ⟨next, hpeek, hnext⟩ := peek_of_before hdetached
  have hcolon : next.isPunctuator .colon = true := isPunctuator_of_kind hnext .colon
  unfold expandStatement
  rw [get_bind, modify_bind, token_bind, hs.1.trans x.kind_eq]
  dsimp only
  unfold identifierStatement
  rw [token_bind]
  change (peek >>= _) s.detached = _
  rw [bind_of_ok hpeek, hcolon, if_pos rfl]

theorem labelledStatement_refused {x : Variable} {place : Position} {attached : Nat} (hfree : s.context.Free false)
    (hfunction : next.kind ≠ .keyword .function) (h : NoStatement (next :: ls) behind)
    (hs : s.Before (.word x.toWord :: .punctuator .colon :: next :: ls) behind) :
    Refused (labelledStatement (derive levels) attached ⟨x.name, x.value.escaped, place⟩ s) := by
  unfold labelledStatement
  refine Ends.bind (failIf_ends (.inr fun _ => trivial)) fun _ t ht => ?_
  obtain ⟨_, rfl⟩ := ht
  rw [get_bind]
  dsimp only
  split
  · trivial
  · rw [modify_bind]
    have hlabelled : State.Before { t with labels := ⟨x.name, false⟩ :: t.labels }
        (.word x.toWord :: .punctuator .colon :: next :: ls) behind := hs.of_eq rfl rfl
    obtain ⟨u, hadvance, hu⟩ := advance_comes hlabelled
    obtain ⟨v, hcolon, hv⟩ := expectWith_comes .regExp hu.before (by decide)
    have hcontext : v.context = t.context := (hu.trans hv).context
    have hnot : v.token.isKeyword .function = false :=
      (isKeyword_of_kind hv.before.1 .function).trans (decide_eq_false hfunction)
    rw [bind_of_ok hadvance, bind_of_ok hcolon, isAtKeyword_bind, hnot, context_bind, Bool.false_and,
      if_neg Bool.false_ne_true, modify_bind]
    exact (h levels { v with attachedLabels := attached + 1 } (hcontext ▸ hfree) (hv.before.of_eq rfl rfl)).bind

/-! ### The function -/

/-- Behind its first word the function goes on. -/
def Continues (f : BareFunction) (behind : Scanner) : Prop :=
  ∃ after, ReadsOff [f.second] behind after

theorem kind_async : BareFunction.async.word.kind = .identifier "async" false := by
  decide +kernel

theorem peek_of_continues {f : BareFunction} (hf : Continues f behind) (hs : s.Before [.word f.word] behind) :
    ∃ token, peek s = .ok token s ∧ token.kind = f.second.kind ∧ token.newlineBefore = false := by
  obtain ⟨after, _ | ⟨hkind, _, hnext, _, hline⟩⟩ := hf
  obtain ⟨_, _, _ | _⟩ := hs
  refine ⟨_, ?_, hkind, hline⟩
  unfold peek
  rw [hnext _ (goalAfter_ne_templateTail s.token)]

theorem asyncFunction_refused {i : Identifier} {attached : Nat} (hs : s.Before [.word BareFunction.async.word] behind)
    (hf : Continues .async behind) : Refused (identifierStatement nested attached i s) := by
  obtain ⟨token, hpeek, hsecond, hline⟩ := peek_of_continues hf hs
  have hfunction : token.kind = .keyword .function := hsecond.trans (Keyword.kind_word .function)
  have hcolon : token.isPunctuator .colon = false := isPunctuator_of_kind hfunction .colon
  have hbracket : token.isPunctuator .openBracket = false := isPunctuator_of_kind hfunction .openBracket
  have hat : token.isKeyword .function = true := (isKeyword_of_kind hfunction .function).trans (decide_eq_true rfl)
  have hword : s.token.isWord "async" = true := by
    unfold Token.isWord
    rw [hs.1.trans kind_async]
    rfl
  unfold identifierStatement
  rw [token_bind, bind_of_ok hpeek, hcolon, if_neg Bool.false_ne_true, hbracket, Bool.and_false,
    if_neg Bool.false_ne_true, hword, hat, hline]
  trivial

theorem bareFunction_noStatement {f : BareFunction} (hf : Continues f behind) :
    NoStatement [.word f.word] behind := by
  intro levels s _ hs
  refine derive_refused (p := .statement) fun n => ?_
  change Refused (expandStatement (derive n) s.deepened)
  have hkind : s.deepened.token.kind = f.word.kind := hs.1
  unfold expandStatement
  rw [get_bind, modify_bind, token_bind, hkind]
  cases f with
  | generator =>
    rw [show BareFunction.generator.word.kind = _ from Keyword.kind_word .function]
    trivial
  | async =>
    rw [kind_async]
    exact asyncFunction_refused (hs.of_eq rfl rfl) hf

theorem noFunction_of_kind (h : l.kind ≠ .keyword .function) : NoFunction (l :: ls) behind :=
  fun _ hs => .inl ((isKeyword_of_kind hs.1 .function).trans (decide_eq_false h))

theorem bareFunction_noFunction {f : BareFunction} (hf : Continues f behind) :
    NoFunction [.word f.word] behind := by
  cases f with
  | generator =>
    intro s hs
    obtain ⟨token, hpeek, hstar, _⟩ := peek_of_continues hf hs
    exact .inr ⟨token, hpeek, (isPunctuator_of_kind hstar .star).trans (decide_eq_true rfl)⟩
  | async =>
    refine noFunction_of_kind fun h => ?_
    cases kind_async.symm.trans h

/-! ### Chains -/

/-- What a header begins with that is no label. -/
theorem header_begins (h : Header) : (∃ k rest, lexemes h.pieces = .word k.word :: rest ∧
    k ∈ [Keyword.if, .while, .for, .with]) ∨ ∃ x, h = .label x := by
  cases h with
  | label x => exact .inr ⟨x, rfl⟩
  | ifThen | ifElse | «while» | «for» | «with» => exact .inl ⟨_, _, rfl, by decide⟩

theorem header_first (h : Header) :
    ∃ first rest, lexemes h.pieces = first :: rest ∧ first.kind ≠ .keyword .function := by
  rcases header_begins h with ⟨k, rest, hk, hmem⟩ | ⟨x, rfl⟩
  · refine ⟨_, rest, hk, fun hkind => ?_⟩
    cases (Keyword.kind_word k).symm.trans hkind
    exact absurd hmem (by decide)
  · exact ⟨_, _, rfl, variable_ne x nofun⟩

/-- The lexemes of a chain with the first word of a function behind it. -/
def chainLexemes (hs : List Header) (f : BareFunction) : List Lexeme :=
  lexemes (chainPieces hs ++ [f.word.piece])

theorem chainLexemes_cons (h : Header) (hs : List Header) (f : BareFunction) :
    chainLexemes (h :: hs) f = lexemes h.pieces ++ chainLexemes hs f := by
  unfold chainLexemes chainPieces
  rw [List.flatMap_cons, List.append_assoc, List.append_assoc, lexemes_append]
  rfl

/-- Only a generator by itself begins with `function`. -/
theorem chainLexemes_first (hs : List Header) (f : BareFunction) : ∃ next ls, chainLexemes hs f = next :: ls ∧
    (next.kind = .keyword .function → hs = [] ∧ f = .generator) := by
  cases hs with
  | nil =>
    refine ⟨.word f.word, [], rfl, fun hkind => ?_⟩
    cases f with
    | generator => exact ⟨rfl, rfl⟩
    | async => cases kind_async.symm.trans hkind
  | cons h hs =>
    obtain ⟨first, rest, hfirst, hkind⟩ := header_first h
    rw [chainLexemes_cons, hfirst]
    exact ⟨first, _, rfl, fun h => absurd h hkind⟩

theorem chain_noFunction {f : BareFunction} (hs : List Header) (hf : Continues f behind) :
    NoFunction (chainLexemes hs f) behind := by
  cases hs with
  | nil => exact bareFunction_noFunction hf
  | cons h hs =>
    obtain ⟨first, rest, hfirst, hkind⟩ := header_first h
    rw [chainLexemes_cons, hfirst]
    exact noFunction_of_kind hkind

/-- What is no statement is none behind a header. Behind a label it must not begin with `function`, star or not. -/
theorem header_refused {h : Header} (hfree : s.context.Free false) (hstatement : NoStatement (next :: ls) behind)
    (hfunction : NoFunction (next :: ls) behind) (hlabel : h.isLabel = true → next.kind ≠ .keyword .function)
    (hs : s.Before (lexemes h.pieces ++ next :: ls) behind) : Refused (expandStatement (derive levels) s) := by
  have hdetached : s.detached.context.Free false := hfree
  have hmarked : s.marked.context.Free false := hfree
  cases h with
  | label x =>
    have hs : s.Before (.word x.toWord :: .punctuator .colon :: next :: ls) behind := hs
    rw [expandStatement_of_label hs]
    exact labelledStatement_refused hdetached (hlabel rfl) hstatement (hs.of_eq rfl rfl)
  | ifThen =>
    rw [expandStatement_if (hs.1.trans (Keyword.kind_word .if))]
    exact ifStatement_refused hdetached hfunction hstatement (hs.of_eq rfl rfl)
  | ifElse =>
    rw [expandStatement_if (hs.1.trans (Keyword.kind_word .if))]
    exact ifElse_refused hdetached hfunction hstatement (hs.of_eq rfl rfl)
  | «while» =>
    rw [expandStatement_while (hs.1.trans (Keyword.kind_word .while))]
    exact markLabels_refused (whileStatement_refused hmarked hstatement (hs.of_eq rfl rfl))
  | «for» =>
    rw [expandStatement_for (hs.1.trans (Keyword.kind_word .for))]
    exact markLabels_refused (forStatement_refused hmarked hstatement (hs.of_eq rfl rfl))
  | «with» =>
    rw [expandStatement_with (hs.1.trans (Keyword.kind_word .with))]
    exact withStatement_refused hdetached hstatement (hs.of_eq rfl rfl)

theorem header_noStatement {h : Header} (hstatement : NoStatement (next :: ls) behind)
    (hfunction : NoFunction (next :: ls) behind) (hlabel : h.isLabel = true → next.kind ≠ .keyword .function) :
    NoStatement (lexemes h.pieces ++ next :: ls) behind := by
  intro levels s hfree hs
  refine derive_refused (p := .statement) fun n => ?_
  refine header_refused (s := s.deepened) hfree hstatement hfunction hlabel ?_
  cases h <;> exact hs.of_eq rfl rfl

theorem chain_noStatement {f : BareFunction} (hs : List Header) (hfollows : f.follows hs = false)
    (hf : Continues f behind) : NoStatement (chainLexemes hs f) behind := by
  induction hs with
  | nil => exact bareFunction_noStatement hf
  | cons h hs ih =>
    have hrest : f.follows hs = false := by
      cases f with
      | generator =>
        cases hs with
        | nil => rfl
        | cons => exact hfollows
      | async => rfl
    obtain ⟨next, ls, hnext, hlabel⟩ := chainLexemes_first hs f
    have hstatement := ih hrest
    have hfunction := chain_noFunction hs hf
    rw [hnext] at hstatement hfunction
    rw [chainLexemes_cons, hnext]
    refine header_noStatement hstatement hfunction fun hlabelled hkind => ?_
    obtain ⟨rfl, rfl⟩ := hlabel hkind
    exact absurd (hfollows.symm.trans hlabelled) Bool.false_ne_true

/-! ### Programs -/

/-- A chain begins like a statement that is no declaration. -/
theorem chainItem_eq {h : Header} {topLevel : Bool} (hstrict : s.context.strict = false)
    (hs : s.Before (lexemes h.pieces ++ ls) behind) :
    expandStatementListItem nested topLevel s = nested .statement s := by
  rcases header_begins h with ⟨k, rest, hk, hmem⟩ | ⟨x, rfl⟩
  · rw [hk] at hs
    have hkind : s.token.kind = .keyword k := hs.1.trans (Keyword.kind_word k)
    have hall : ∀ k ∈ [Keyword.if, .while, .for, .with], (TokenKind.keyword k).beginsStatement = true := by decide
    obtain ⟨hbegins, hidentifier⟩ := beginsStatement_of_kind (hkind ▸ hall k hmem)
    exact expandStatementListItem_eq hbegins (isAtLetDeclaration_of_not (isWord_of_kind hidentifier _))
      (isAtAsyncFunction_of_not (isWord_of_kind hidentifier _))
  · have hs : s.Before (.word x.toWord :: .punctuator .colon :: ls) behind := hs
    have hkind : s.token.kind = .identifier x.name x.value.escaped := hs.1.trans x.kind_eq
    obtain ⟨next, hpeek, hnext⟩ := peek_of_before hs
    have hnot (k : Keyword) : s.token.isKeyword k = false := isKeyword_of_kind hkind k
    exact expandStatementListItem_eq ⟨hnot _, hnot _, hnot _, hnot _, hnot _⟩
      (isAtLetDeclaration_of_next hpeek hnext fun _ => ⟨by decide, by decide, hstrict⟩)
      (isAtAsyncFunction_of_next hpeek hnext)

/-- A chain is no directive, and does not end a list of statements. -/
theorem chain_opens {h : Header} (hs : s.Before (lexemes h.pieces ++ ls) behind) :
    s.token.isString = false ∧ (s.token.isEnd || s.token.isPunctuator .closeBrace) = false := by
  suffices hkind : (∀ legacy, s.token.kind ≠ .string legacy) ∧ s.token.kind ≠ .endOfInput ∧
      s.token.kind ≠ .punctuator .closeBrace from ⟨isString_of_kind hkind.1, endsList_eq_false hkind.2⟩
  rcases header_begins h with ⟨k, rest, hk, _⟩ | ⟨x, rfl⟩
  · rw [hk] at hs
    rw [hs.1.trans (Keyword.kind_word k)]
    exact ⟨fun _ => nofun, nofun, nofun⟩
  · rw [hs.1.trans x.kind_eq]
    exact ⟨fun _ => nofun, nofun, nofun⟩

theorem chainItem_refused {f : BareFunction} {h : Header} {hs : List Header} (hfollows : f.follows (h :: hs) = false)
    (hf : Continues f behind) (hfree : s.context.Free false) (hbefore : s.Before (chainLexemes (h :: hs) f) behind) :
    Refused (derive levels (.statementListItem true) s) := by
  refine derive_refused (p := .statementListItem true) fun n => ?_
  have hstatement := chain_noStatement (h :: hs) hfollows hf n s.deepened hfree
  rw [chainLexemes_cons] at hbefore hstatement
  have hdeepened : s.deepened.Before (lexemes h.pieces ++ chainLexemes hs f) behind := by
    cases h <;> exact hbefore.of_eq rfl rfl
  have hrun : expand (derive n) (.statementListItem true) s.deepened = derive n .statement s.deepened :=
    chainItem_eq hfree.strict_eq hdeepened
  rw [hrun]
  exact hstatement hdeepened

/-! ### Texts -/

/-- Every lexeme of a chain can be told from what is printed next. -/
theorem sound_chain (hs : List Header) (ps : List Piece) : Sound (chainPieces hs ++ ps) = Sound ps := by
  induction hs with
  | nil => rfl
  | cons h hs ih =>
    unfold chainPieces at ih ⊢
    rw [List.flatMap_cons, List.append_assoc, List.append_assoc, ← ih]
    cases h <;> rfl

end Grammar

open Grammar

variable {hs : List Header} {f : BareFunction} {rest : List Char}

/-- The chain is read off the text up to the first word of the function, which goes on behind it. -/
theorem readsOff_chain (hs : List Header) (f : BareFunction) (rest : List Char) : ∃ behind,
    ReadsOff (chainLexemes hs f) (standing (bareFunctionText hs f rest) true 0) behind ∧ Continues f behind := by
  have hsound : Sound (chainPieces hs ++ f.pieces) = true := by
    rw [sound_chain]
    cases f <;> rfl
  have hlast : (chainPieces hs ++ f.pieces).getLast? ≠ some .space := by
    cases f <;> simp [BareFunction.pieces]
  have hreads := readsOff_printed hsound hlast (.inl rfl) (List.drop_zero (l := bareFunctionText hs f rest))
  have hlexemes : lexemes (chainPieces hs ++ f.pieces) = chainLexemes hs f ++ [f.second] := by
    unfold chainLexemes
    rw [lexemes_append, lexemes_append, List.append_assoc]
    cases f <;> rfl
  rw [hlexemes] at hreads
  obtain ⟨behind, hchain, hsecond⟩ := ReadsOff.append_iff.mp hreads
  exact ⟨behind, hchain, _, hsecond⟩

/-- No function is accepted behind a chain of headers that does not take it. -/
theorem bareFunction_refused (h : hs ≠ []) (hfollows : f.follows hs = false) (limit : Nat) :
    ¬ Accepted limit (bareFunctionText hs f rest) := by
  intro haccepted
  obtain ⟨token, scanner, d, t, hnext, hcode, _⟩ := code_of_accepted haccepted
  obtain ⟨behind, hreads, hcontinues⟩ := readsOff_chain hs f rest
  obtain ⟨header, hs, rfl⟩ := List.exists_cons_of_ne_nil h
  have hbefore : (State.begun (bareFunctionText (header :: hs) f rest) token scanner).Before
      (chainLexemes (header :: hs) f) behind := by
    obtain ⟨next, ls, hfirst, _⟩ := chainLexemes_first (header :: hs) f
    rw [hfirst] at hreads ⊢
    exact .of_next hreads (by decide) hnext
  have hopens := chain_opens (chainLexemes_cons header hs f ▸ hbefore)
  obtain ⟨u, hitem, _⟩ := exists_item_of_code hopens.1 hopens.2 hcode
  exact (chainItem_refused hfollows hcontinues (Context.ofScript_free false) hbefore).of_ok hitem

example : String.ofList (bareFunctionText [.label Tree.inner, .ifElse, .while] .generator "f() { }".toList) =
    "l: if (0) ; else while (0) function* f() { }" := by
  decide +kernel

theorem bareFunction_refused_while :
    [Header.label Tree.inner, .ifElse, .while] ≠ [] ∧
      BareFunction.generator.follows [.label Tree.inner, .ifElse, .while] = false ∧
      ¬ Accepted 64 (bareFunctionText [.label Tree.inner, .ifElse, .while] .generator "f() { }".toList) :=
  ⟨List.cons_ne_nil _ _, rfl, bareFunction_refused (List.cons_ne_nil _ _) rfl 64⟩

/-- Directly behind a label a generator is accepted. -/
theorem label_takes_generator :
    Accepted 64 (bareFunctionText [.label Tree.inner] .generator "f() { }".toList) := by
  unfold Accepted
  decide +kernel

end EcmaCheck
