import EcmaCheck.Proofs.Acceptance
import EcmaCheck.Proofs.DepthLimit
import EcmaCheck.Proofs.Printed.Sight

/-!
# Templates in templates

Names, object literals, functions and templates, with one of them in each other. Whatever stands in the text of the
templates, every brace in a substitution closes what it was opened for, and the brace of the substitution itself goes
on with the template text (`checkBuffer_embedded`).
-/

namespace EcmaCheck

open Lexical

/-! ## Trees and their texts -/

mutual

/-- What may stand in a substitution: a name, an object with one property, a function that returns something, or a
template. -/
inductive Embedded where
  | name
  | object (value : Embedded)
  | function (result : Embedded)
  | template (chunk : Chunk) (rest : Substitutions)

/-- The substitutions of a template, each with the text behind it. -/
inductive Substitutions where
  | none
  | more (value : Embedded) (chunk : Chunk) (rest : Substitutions)

end

/-- Whether no substitution follows. -/
def Substitutions.isNone : Substitutions → Bool
  | none => true
  | more .. => false

theorem kind_nameX : (Lexeme.word nameX.toWord).kind = .identifier "x" false :=
  nameX.kind_eq

/-- What is printed before the value of a property. -/
def objectOpening : List Piece :=
  [Punctuator.openParen.piece, Punctuator.openBrace.piece, nameA.toWord.piece, Punctuator.colon.piece, .space]

/-- What is printed behind the value of a property. -/
def objectClosing : List Piece :=
  [Punctuator.closeBrace.piece, Punctuator.closeParen.piece]

/-- What is printed before the result of a function. -/
def functionOpening : List Piece :=
  [Punctuator.openParen.piece, Keyword.function.word.piece, .space, Punctuator.openParen.piece,
    Punctuator.closeParen.piece, .space, Punctuator.openBrace.piece, .space, Keyword.return.word.piece, .space]

/-- What is printed behind the result of a function. -/
def functionClosing : List Piece :=
  [Punctuator.semicolon.piece, .space, Punctuator.closeBrace.piece, Punctuator.closeParen.piece]

mutual

/-- The tree as a text. -/
def Embedded.text : Embedded → List Char
  | .name => nameX.spelling
  | .object value => printed objectOpening ++ (value.text ++ printed objectClosing)
  | .function result => printed functionOpening ++ (result.text ++ printed functionClosing)
  | .template chunk rest => chunk.span true rest.isNone ++ rest.text

/-- The substitutions as a text. -/
def Substitutions.text : Substitutions → List Char
  | .none => []
  | .more value chunk rest => value.text ++ (chunk.span false rest.isNone ++ rest.text)

end

/-- The tree as an expression statement, with a semicolon or without one. -/
def Embedded.statement (e : Embedded) (semicolon : Bool) : List Char :=
  e.text ++ if semicolon then [';'] else []

example : (Embedded.object .name).statement true = "(\x7ba: x\x7d);".toList := by decide +kernel

example : (Embedded.function .name).statement false = "(function () \x7b return x; \x7d)".toList := by decide +kernel

mutual

/-- What is seen of the tree. -/
def Embedded.sights : Embedded → List Sight
  | .name => [.token (.identifier "x" false)]
  | .object value => pieceSights objectOpening ++ (value.sights ++ pieceSights objectClosing)
  | .function result => pieceSights functionOpening ++ (result.sights ++ pieceSights functionClosing)
  | .template _ rest => spanSights true rest.isNone ++ rest.sights

/-- What is seen of the substitutions. -/
def Substitutions.sights : Substitutions → List Sight
  | .none => []
  | .more value _ rest => value.sights ++ (spanSights false rest.isNone ++ rest.sights)

end

/-! ## What the texts show -/

/-- A name ends before the text. -/
def EndsName (text : List Char) : Prop :=
  ∃ c rest, text = c :: rest ∧ c ≠ '\\' ∧ isIdentifierPart c = false

mutual

theorem Embedded.shows : ∀ (e : Embedded) {sights : List Sight} {rest : List Char}, Shows sights rest →
    EndsName rest → Shows (e.sights ++ sights) (e.text ++ rest)
  | .name, sights, rest, h, hname => by
    obtain ⟨c, more, rfl, hescape, hpart⟩ := hname
    rw [Embedded.sights, ← kind_nameX]
    exact .lexeme 0 (by decide +kernel) (reads_word hescape hpart) h
  | .object value, sights, rest, h, _ => by
    rw [Embedded.text, Embedded.sights, List.append_assoc, List.append_assoc, List.append_assoc, List.append_assoc]
    exact shows_printed (by decide +kernel)
      (value.shows (shows_printed (by decide +kernel) h) ⟨'}', _, rfl, by decide +kernel⟩)
  | .function result, sights, rest, h, _ => by
    rw [Embedded.text, Embedded.sights, List.append_assoc, List.append_assoc, List.append_assoc, List.append_assoc]
    exact shows_printed (by decide +kernel)
      (result.shows (shows_printed (by decide +kernel) h) ⟨';', _, rfl, by decide +kernel⟩)
  | .template chunk substitutions, sights, rest, h, hname => by
    rw [Embedded.sights, Embedded.text, List.append_assoc, List.append_assoc]
    exact .span 0 true _ chunk (substitutions.shows h hname)

theorem Substitutions.shows : ∀ (es : Substitutions) {sights : List Sight} {rest : List Char}, Shows sights rest →
    EndsName rest → Shows (es.sights ++ sights) (es.text ++ rest)
  | .none, _, _, h, _ => h
  | .more value chunk substitutions, sights, rest, h, hname => by
    rw [Substitutions.sights, Substitutions.text, List.append_assoc, List.append_assoc, List.append_assoc,
      List.append_assoc]
    exact value.shows (.span 0 false _ chunk (substitutions.shows h hname)) ⟨'}', _, rfl, by decide +kernel⟩

end

namespace Grammar

variable {all : List TokenKind} {s t : State} {sights rest : List Sight} {k : TokenKind}
  {nested : Derivation} {levels : Nat}

/-! ## Operands and expressions -/

/-- What a tree may begin with. -/
inductive BeginsEmbedded : TokenKind → Prop where
  | name : BeginsEmbedded (.identifier "x" false)
  | paren : BeginsEmbedded (.punctuator .openParen)
  | template (last : Bool) : BeginsEmbedded (.template (templatePart true last) none)

theorem sights_cons (e : Embedded) : ∃ k more, e.sights = .token k :: more ∧ BeginsEmbedded k := by
  cases e with
  | name => exact ⟨_, _, rfl, .name⟩
  | object value => exact ⟨_, _, rfl, .paren⟩
  | function result => exact ⟨_, _, rfl, .paren⟩
  | template chunk rest => exact ⟨_, _, rfl, .template rest.isNone⟩

/-- What is known of the token that a tree begins with. -/
structure StartsEmbedded (t : Token) : Prop extends Begins t, Begun t where
  «new» : t.isKeyword .new = false
  super : t.isKeyword .super = false
  semicolon : t.isPunctuator .semicolon = false

theorem startsEmbedded_of_kind {t : Token} (h : t.kind = k) (hk : BeginsEmbedded k) : StartsEmbedded t := by
  obtain ⟨kind, start, stop, lexeme, newlineBefore⟩ := t
  subst h
  cases hk <;> exact ⟨⟨rfl, rfl, rfl⟩, ⟨⟨rfl, rfl, rfl, rfl, rfl⟩, rfl, rfl, rfl, rfl⟩, rfl, rfl, rfl⟩

/-- Whether a tree may end before a token of the kind. -/
def endsEmbedded : TokenKind → Bool
  | .punctuator .closeParen | .punctuator .closeBrace | .punctuator .semicolon | .endOfInput => true
  | _ => false

theorem stops_of_endsEmbedded (h : endsEmbedded k = true) : k.stops = true ∧ k ≠ .punctuator .assign ∧
    k ≠ .punctuator .comma ∧ k ≠ .punctuator .arrow ∧ k ≠ .punctuator .colon := by
  unfold endsEmbedded at h
  split at h
  · exact ⟨rfl, by decide, by decide, by decide, by decide⟩
  · exact ⟨rfl, by decide, by decide, by decide, by decide⟩
  · exact ⟨rfl, by decide, by decide, by decide, by decide⟩
  · exact ⟨rfl, by decide, by decide, by decide, by decide⟩
  · cases h

theorem isLimit_of_stalled (p : Position) : (Fault.stalled p).IsLimit :=
  .inr rfl

/-- What passes from the expansion of a production passes from the production. -/
theorem derive_passes {p : Production} {R : p.Result → Prop}
    (h : ∀ n, levels = n + 1 → Passes all s.deepened rest R (expand (derive n) p s.deepened)) :
    Passes all s rest R (derive levels p s) :=
  derive_ends (fun _ _ _ => .inl rfl) fun n hn => Ends.imp (h n hn) fun _ _ ha =>
    ⟨⟨agrees_surfaced ha.1.toAgrees, ha.1.sees.of_eq rfl rfl rfl⟩, ha.2⟩

theorem finds_ended {R : Summary → Prop} (e : Summary) (t : State) (h : s.Finds all t rest ∧ R e) :
    s.Finds all t.ended rest ∧ R e :=
  ⟨⟨⟨h.1.surroundings, h.1.isModule⟩, h.1.sees.of_eq rfl rfl rfl⟩, h.2⟩

/-- A primary expression before the end of a tree is an assignment expression. -/
theorem assignment_passes {R : Summary → Prop} (hbegins : Begins s.token) (hnew : s.token.isKeyword .new = false)
    (hsuper : s.token.isKeyword .super = false) (himport : s.token.isKeyword .import = false)
    (hrest : endsEmbedded (firstKind rest) = true) (hplain : s.context.Plain)
    (h : ∀ n, levels = n + 1 → Passes all s.deepened rest R (primary (derive n) s.deepened)) :
    Passes all s rest R (derive levels (.assignment true) s) := by
  obtain ⟨hstop, hassign, _⟩ := stops_of_endsEmbedded hrest
  refine derive_passes (p := .assignment true) fun n hn => ?_
  have hQ : EndsOperand fun e t => s.deepened.Finds all t rest ∧ R e :=
    ⟨fun e t ht => ht.1.sees.kind_eq ▸ hstop, finds_ended⟩
  have hleft := leftHandSide_ends isLimit_of_stalled hQ.endsBefore (h n hn) hnew hsuper himport
  have hconditional := conditional_ends isLimit_of_stalled hQ hleft hbegins hplain.quiet.deepened true
  exact expandAssignment_ends hQ hconditional hplain.quiet.deepened fun e t ht => ht.1.sees.kind_eq ▸ hassign

/-- An assignment expression before the end of a tree is an expression. -/
theorem expression_passes (hrest : endsEmbedded (firstKind rest) = true)
    (h : Passes all s rest (·.shorthand? = none) (nested (.assignment true) s)) :
    Passes all s rest (fun _ => True) ((discard (expression nested true) : Recognizer Unit) s) := by
  obtain ⟨_, _, hcomma, _⟩ := stops_of_endsEmbedded hrest
  have hpattern : Passes all s rest (·.shorthand? = none) (expressionOrPattern nested true s) :=
    expressionOrPattern_ends finds_ended h fun e t ht => ht.1.sees.kind_eq ▸ hcomma
  have hexpression : Passes all s rest (fun _ => True) (expression nested true s) := by
    refine Passes.bind (.refl s) hpattern fun e t ht he => ?_
    unfold rejectShorthand
    rw [he]
    exact ⟨ht, trivial⟩
  exact hexpression.discard

theorem consumeSemicolon_passes (hs : s.Sees all (.token (.punctuator .semicolon) :: rest)) :
    Passes all s rest (fun _ => True) (consumeSemicolon s) := by
  have hat : s.token.isPunctuator .semicolon = true := isPunctuator_of_kind hs.kind .semicolon
  unfold consumeSemicolon
  rw [token_bind, hat, if_pos rfl]
  exact .lastAdvance hs (by decide)

/-! ## What stands around trees -/

/-- One expression in parentheses, before the end of a tree. -/
theorem parenthesized_passes (hs : s.Sees all (.token (.punctuator .openParen) :: .token k :: sights))
    (hclose : k ≠ .punctuator .closeParen) (hspread : k ≠ .punctuator .ellipsis)
    (hrest : endsEmbedded (firstKind rest) = true)
    (hitem : ∀ t, s.Finds all t (.token k :: sights) →
      Passes all t (.token (.punctuator .closeParen) :: rest) (·.shorthand? = none) (nested (.assignment true) t)) :
    Passes all s rest (·.shorthand? = none) (parenthesized nested s) := by
  have hlist : Passes all s rest (fun list => list.arrowOnly? = none ∧ list.shorthand? = none)
      (parenthesizedList nested false s) := by
    unfold parenthesizedList
    refine .expect (.refl hs) fun t ht => ?_
    have hnotClose : t.token.isPunctuator .closeParen = false :=
      (isPunctuator_of_kind ht.sees.kind _).trans (decide_eq_false hclose)
    have hnotSpread : t.token.isPunctuator .ellipsis = false :=
      (isPunctuator_of_kind ht.sees.kind _).trans (decide_eq_false hspread)
    rw [token_bind, hnotClose, if_neg Bool.false_ne_true]
    refine Passes.bind (R := fun list : ParenthesizedList => list.arrowOnly? = none ∧ list.shorthand? = none)
      ht.toAgrees (.finish ?_ t.turns)
      fun list u (hu : s.Finds all u (.token (.punctuator .closeParen) :: rest)) hlist =>
        .advance hu fun v hv => ⟨hv, hlist⟩
    rw [isAt_bind, hnotClose, if_neg Bool.false_ne_true]
    unfold parenthesizedItem
    rw [token_bind, hnotSpread, if_neg Bool.false_ne_true]
    refine Passes.bind (.refl t) (notingOperandEnd_ends finds_ended (hitem t ht)) fun e u hu he => ?_
    have hat : u.token.isPunctuator .closeParen = true := isPunctuator_of_kind hu.sees.kind .closeParen
    rw [isAt_bind, hat, if_pos rfl]
    exact ⟨hu, _, rfl, rfl, he⟩
  unfold parenthesized
  rw [token_bind]
  refine Passes.bind (.refl s) hlist fun list t ht hlist => ?_
  have hnot : t.token.isPunctuator .arrow = false :=
    (isPunctuator_of_kind ht.sees.kind_eq _).trans (decide_eq_false (stops_of_endsEmbedded hrest).2.2.2.1)
  rw [isAtArrow_bind, hnot, Bool.false_and, if_neg Bool.false_ne_true, hlist.1]
  unfold ParenthesizedList.rejectShorthand
  rw [hlist.2]
  exact ⟨ht, rfl⟩

/-- One item before the closing punctuator. -/
theorem item_passes {α : Type} {close : Punctuator} {item : α → Recognizer α} {a : α} {R : α → Prop}
    (hclose : s.token.isPunctuator close = false)
    (hitem : Passes all s (.token (.punctuator close) :: rest) R (item a s)) :
    Passes all s (.token (.punctuator close) :: rest) R (loop a (itemTurn close item) s) := by
  have hdone {b : α} {u : State} (hu : s.Finds all u (.token (.punctuator close) :: rest)) (hb : R b) :
      Passes all u (.token (.punctuator close) :: rest) (fun r => ∃ c, r = .done c ∧ R c)
        (itemTurn close item b u) := by
    have hat : u.token.isPunctuator close = true := (isPunctuator_of_kind hu.sees.kind _).trans (decide_eq_true rfl)
    unfold itemTurn
    rw [isAt_bind, hat, if_pos rfl]
    exact ⟨.refl hu.sees, b, rfl, hb⟩
  have hturn : Passes all s (.token (.punctuator close) :: rest) (fun r => ∃ b, r = .again b ∧ R b)
      (itemTurn close item a s) := by
    unfold itemTurn
    rw [isAt_bind, hclose, if_neg Bool.false_ne_true]
    refine Passes.bind (.refl s) hitem fun b u hu hb => ?_
    have hat : u.token.isPunctuator close = true := (isPunctuator_of_kind hu.sees.kind _).trans (decide_eq_true rfl)
    rw [isAt_bind, hat, if_pos rfl]
    exact ⟨hu, b, rfl, hb⟩
  exact .again (.refl s) hturn (fun b u n hu hb => .of_agrees hu.toAgrees (.finish (hdone hu hb) n)) s.turns

/-- An object literal with one property, which has a value. -/
theorem objectLiteral_passes {name : String} (hname : name ≠ "async" ∧ name ≠ "get" ∧ name ≠ "set")
    (hs : s.Sees all (.token (.punctuator .openBrace) :: .token (.identifier name false) ::
      .token (.punctuator .colon) :: sights))
    (hvalue : ∀ n t, levels = n + 1 → t.context = s.context → t.isModule = s.isModule → t.Sees all sights →
      Passes all t (.token (.punctuator .closeBrace) :: rest) (·.shorthand? = none) (derive n (.assignment true) t)) :
    Passes all s rest (·.shorthand? = none) (objectLiteral (derive levels) s) := by
  have hmember : ∀ t, s.Finds all t (.token (.identifier name false) :: .token (.punctuator .colon) :: sights) →
      Passes all t (.token (.punctuator .closeBrace) :: rest) (·.shorthand? = none)
        (derive levels .objectMember t) := by
    intro t ht
    refine derive_passes (p := .objectMember) fun n hn => ?_
    have hsees : t.deepened.Sees all (.token (.identifier name false) :: .token (.punctuator .colon) :: sights) :=
      ht.sees.of_eq rfl rfl rfl
    have hword {word : String} (h : name ≠ word) : t.deepened.token.isWord word = false := by
      unfold Token.isWord
      rw [hsees.kind]
      simpa using h
    have hmodifiers : modifiers t.deepened = .ok ⟨false, false, none⟩ t.deepened := by
      have hstar : t.deepened.token.isPunctuator .star = false := isPunctuator_of_kind hsees.kind .star
      unfold modifiers
      rw [token_bind, hword hname.1, if_neg Bool.false_ne_true, hword hname.2.1, hword hname.2.2, Bool.or_false,
        if_neg Bool.false_ne_true, bind_of_ok (eat_of_not hstar)]
      rfl
    have hpropertyName : Passes all t.deepened (.token (.punctuator .colon) :: sights) (fun _ => True)
        (propertyName (derive n) false t.deepened) := by
      unfold propertyName
      rw [token_bind, hsees.kind]
      exact .advanceWith (.refl hsees) (by decide) fun u hu => ⟨hu, trivial⟩
    change Passes all t.deepened _ _ (expandObjectMember (derive n) t.deepened)
    unfold expandObjectMember
    rw [token_bind, bind_of_ok hmodifiers]
    refine Passes.bind (.refl _) hpropertyName fun key u hu _ => ?_
    have hnot : u.token.isPunctuator .openParen = false := isPunctuator_of_kind hu.sees.kind .openParen
    rw [isAt_bind, hnot, if_neg (by decide)]
    refine .eat hu fun u hu => ?_
    have hcontext : u.context = s.context := hu.context.trans ht.context
    have hmodule : u.isModule = s.isModule := hu.isModule.trans ht.isModule
    refine Passes.bind hu.toAgrees (notingOperandEnd_ends finds_ended (hvalue n u hn hcontext hmodule hu.sees))
      fun e v hv he => ⟨hv, he⟩
  unfold objectLiteral
  rw [token_bind]
  refine .advance (.refl hs) fun t ht => ?_
  have hnotClose : t.token.isPunctuator .closeBrace = false := isPunctuator_of_kind ht.sees.kind .closeBrace
  have hnotSpread : t.token.isPunctuator .ellipsis = false := isPunctuator_of_kind ht.sees.kind .ellipsis
  rw [itemsUntil_eq]
  refine Passes.bind (R := fun es : Elements => es.shorthand? = none) ht.toAgrees (item_passes hnotClose ?_)
    fun es u (hu : s.Finds all u (.token (.punctuator .closeBrace) :: rest)) hes =>
      .advance hu fun v hv => ⟨hv, hes⟩
  rw [bind_of_ok (eat_of_not hnotSpread), if_neg Bool.false_ne_true]
  refine Passes.bind (.refl t) (hmember t ht) fun e u hu he => ⟨hu, ?_⟩
  have hpush (assignable binding : Bool) : (({} : Elements).push e assignable binding).shorthand? = none := he
  split <;> exact hpush _ _

/-- Trees are read in the code of scripts, where nothing is reserved. -/
structure State.Ready (s : State) : Prop where
  free : s.context.Free false
  isModule : s.isModule = false

theorem State.Ready.of_agrees (h : s.Ready) (ht : s.Agrees t) : t.Ready :=
  ⟨ht.context ▸ h.free, ht.isModule.trans h.isModule⟩

theorem State.Ready.deepened (h : s.Ready) : s.deepened.Ready :=
  ⟨h.free, h.isModule⟩

/-- A statement that returns a tree. -/
theorem return_passes (hinside : s.context.inFunction = true) (hattached : s.attachedLabels = 0)
    (hk : BeginsEmbedded k) (hs : s.Sees all (.token (.keyword .return) :: .token k :: sights))
    (hresult : ∀ n t, s.deepened.deepened.Agrees t → t.Sees all (.token k :: sights) →
      Passes all t (.token (.punctuator .semicolon) :: rest) (·.shorthand? = none) (derive n (.assignment true) t)) :
    Passes all s rest (fun _ => True) (derive levels (.statementListItem false) s) := by
  refine derive_passes (p := .statementListItem false) fun n _ => ?_
  have hkind : s.deepened.token.kind = .keyword .return := hs.kind
  have hnot (w : Keyword) (hw : w ≠ .return) : s.deepened.token.isKeyword w = false :=
    (isKeyword_of_kind hkind w).trans (decide_eq_false fun h => hw (TokenKind.keyword.inj h).symm)
  have hidentifier : s.deepened.token.isIdentifier = false := by
    unfold Token.isIdentifier
    rw [hkind]
  have hitem : expand (derive n) (.statementListItem false) s.deepened = derive n .statement s.deepened :=
    expandStatementListItem_eq ⟨hnot _ nofun, hnot _ nofun, hnot _ nofun, hnot _ nofun, hnot _ nofun⟩
      (isAtLetDeclaration_of_not (isWord_of_kind hidentifier _))
      (isAtAsyncFunction_of_not (isWord_of_kind hidentifier _))
  rw [hitem]
  refine derive_passes (p := .statement) fun m _ => ?_
  have hsees : s.deepened.deepened.Sees all (.token (.keyword .return) :: .token k :: sights) := hs.of_eq rfl rfl rfl
  have hstatement : expand (derive m) .statement s.deepened.deepened =
      returnStatement (derive m) s.deepened.deepened := by
    change expandStatement (derive m) s.deepened.deepened = _
    unfold expandStatement
    rw [get_bind, modify_bind, token_bind, hsees.kind]
    exact congrArg (returnStatement (derive m)) (detached_eq hattached)
  rw [hstatement]
  unfold returnStatement
  rw [context_bind, show s.deepened.deepened.context.inFunction = true from hinside, if_pos rfl]
  refine .advance (.refl hsees) fun t ht => ?_
  have hstarts := startsEmbedded_of_kind ht.sees.kind hk
  have hends : (t.token.newlineBefore || t.token.isPunctuator .semicolon || t.token.isPunctuator .closeBrace ||
      t.token.isEnd) = false := by
    have hlist := hstarts.list
    unfold endsList at hlist
    rw [ht.sees.line, hstarts.semicolon, Bool.or_assoc, Bool.or_comm (t.token.isPunctuator _), hlist]
    rfl
  rw [token_bind, hends, if_neg Bool.false_ne_true]
  refine Passes.bind ht.toAgrees (expression_passes rfl (hresult m t ht.toAgrees ht.sees)) fun _ u hu _ => ?_
  exact .of_agrees hu.toAgrees (consumeSemicolon_passes hu.sees)

/-- What passes in the context of a function passes from the state around it. -/
theorem inFunctionContext_passes {α : Type} {c : Context} {body : Recognizer α} {R : α → Prop}
    (h : Passes all (s.inside c) rest R (body (s.inside c))) : Passes all s rest R (inFunctionContext c body s) := by
  have hrun : inFunctionContext c body s = (body >>= fun result => do
      modify fun t =>
        { t with context := s.context, labels := s.labels, attachedLabels := s.attachedLabels }
      return result) (s.inside c) := rfl
  rw [hrun]
  refine Ends.bind h fun a u hu => ?_
  exact ⟨⟨⟨Surroundings.ext rfl rfl rfl hu.1.classDepth hu.1.depth, hu.1.isModule⟩, hu.1.sees.of_eq rfl rfl rfl⟩, hu.2⟩

theorem parameters_passes
    (hs : s.Sees all (.token (.punctuator .openParen) :: .token (.punctuator .closeParen) :: rest)) :
    Passes all s rest (· = {}) (parameters nested s) := by
  refine .expect (.refl hs) fun t ht => ?_
  have hat : t.token.isPunctuator .closeParen = true := isPunctuator_of_kind ht.sees.kind .closeParen
  refine Passes.bind (R := (· = ({} : Parameters))) ht.toAgrees (.finish ?_ t.turns)
    fun ps u (hu : s.Finds all u (.token (.punctuator .closeParen) :: rest)) hps => .expect hu fun v hv => ⟨hv, hps⟩
  rw [isAt_bind, hat, if_pos rfl]
  exact ⟨.refl ht.sees, _, rfl, rfl⟩

/-- The body of a function that returns a tree. -/
theorem functionBody_passes (hinside : s.context.inFunction = true) (hattached : s.attachedLabels = 0)
    (hready : s.Ready) (hk : BeginsEmbedded k)
    (hs : s.Sees all (.token (.punctuator .openBrace) :: .token (.keyword .return) :: .token k :: sights))
    (hresult : ∀ n t, State.Ready t → t.Sees all (.token k :: sights) →
      Passes all t (.token (.punctuator .semicolon) :: .token (.punctuator .closeBrace) :: rest) (·.shorthand? = none)
        (derive n (.assignment true) t)) :
    Passes all s rest (fun _ => True) (functionBody (derive levels) true .division s) := by
  unfold functionBody
  refine .expect (.refl hs) fun t ht => ?_
  have hkind : t.token.kind = .keyword .return := ht.sees.kind
  have hstring : t.token.isString = false := by
    unfold Token.isString
    rw [hkind]
  have hdirectives : Passes all t (.token (.keyword .return) :: .token k :: sights) (· = {})
      (directives (derive levels) t) := by
    rw [directives_eq]
    refine Passes.finish ?_ t.turns
    rw [directiveTurn_of_not hstring]
    exact ⟨.refl ht.sees, _, rfl, rfl⟩
  refine Passes.bind ht.toAgrees hdirectives fun d u hu hd => ?_
  have hlist : Passes all u (.token (.punctuator .closeBrace) :: rest) (fun _ => True)
      (statementList (derive levels) false u) := by
    rw [statementList_eq]
    refine Passes.again (R := fun _ => True) (.refl u) ?_
      (fun _ v n (hv : u.Finds all v (.token (.punctuator .closeBrace) :: rest)) _ =>
        .of_agrees hv.toAgrees (.finish ?_ n)) u.turns
    · have hgoes : (u.token.isEnd || u.token.isPunctuator .closeBrace) = false :=
        endsList_eq_false (by rw [hu.sees.kind]; decide)
      unfold statementTurn
      rw [token_bind, hgoes, if_neg Bool.false_ne_true]
      have hinner {v : State} (hv : u.deepened.deepened.Agrees v) : v.Ready :=
        (hready.of_agrees hu.toAgrees).deepened.deepened.of_agrees hv
      exact Passes.bind (.refl u) (return_passes (hu.context ▸ hinside) (hu.attachedLabels.trans hattached) hk hu.sees
        fun n v hv hsees => hresult n v (hinner hv) hsees) fun _ v hv _ => ⟨hv, (), rfl, trivial⟩
    · have hat : (v.token.isEnd || v.token.isPunctuator .closeBrace) = true := by
        rw [isPunctuator_of_kind hv.sees.kind, Bool.or_comm]
        rfl
      unfold statementTurn
      rw [token_bind, hat, if_pos rfl]
      exact ⟨.refl hv.sees, (), rfl, trivial⟩
  refine Passes.bind hu.toAgrees hlist fun _ v hv _ => ?_
  subst hd
  exact .of_agrees hv.toAgrees (.lastExpect hv.sees (by decide))

/-- A function that returns a tree. -/
theorem function_passes (hready : s.Ready) (hk : BeginsEmbedded k)
    (hs : s.Sees all (.token (.keyword .function) :: .token (.punctuator .openParen) ::
      .token (.punctuator .closeParen) :: .token (.punctuator .openBrace) :: .token (.keyword .return) ::
      .token k :: sights))
    (hresult : ∀ n t, State.Ready t → t.Sees all (.token k :: sights) →
      Passes all t (.token (.punctuator .semicolon) :: .token (.punctuator .closeBrace) :: rest) (·.shorthand? = none)
        (derive n (.assignment true) t)) :
    Passes all s rest (·.shorthand? = none) (function (derive levels) false false false s) := by
  unfold function
  rw [token_bind]
  refine .advance (.refl hs) fun t ht => ?_
  have hstar : t.token.isPunctuator .star = false := isPunctuator_of_kind ht.sees.kind .star
  have hname : identifier? t.token = none := identifier?_of_kind (by
    unfold Token.isIdentifier
    rw [ht.sees.kind])
  have hstrict : t.context.strict = false := ht.context ▸ hready.free.strict_eq
  have hmodule : t.isModule = false := ht.isModule.trans hready.isModule
  rw [bind_of_ok (eat_of_not hstar), get_bind, hname]
  dsimp only
  rw [if_neg Bool.false_ne_true, if_neg Bool.false_ne_true, hstrict, hmodule]
  refine Passes.bind (R := fun _ => True) ht.toAgrees (inFunctionContext_passes ?_)
    fun _ u (hu : s.Finds all u rest) _ => ⟨hu, rfl⟩
  have hinner : (t.inside (.ofFunction false false false false)).Sees all _ := ht.sees.of_eq rfl rfl rfl
  unfold parametersAndBody
  rw [token_bind]
  refine Passes.bind (.refl _) (parameters_passes hinner) fun ps u hu hps => ?_
  subst hps
  have hfree : u.context.Free false := hu.context ▸ Context.ofFunction_free false
  have hrun : ((do
      failIf (accessorError? none {}) t.token.start
      modify fun s => { s with context := s.context.inBody false false }
      functionBody (derive levels) true .division) : Recognizer Unit) u =
      functionBody (derive levels) true .division u :=
    congrArg (fun c => functionBody (derive levels) true .division { u with context := c })
      (Context.inBody_plain hfree.toPlain)
  have hbody : Passes all u rest (fun _ => True) (functionBody (derive levels) true .division u) :=
    functionBody_passes (hu.context ▸ rfl) hu.attachedLabels ⟨hfree, hu.isModule.trans hmodule⟩ hk hu.sees hresult
  exact .of_agrees hu.toAgrees (hrun ▸ hbody)

/-! ## Templates -/

/-- A span of a template and the substitution behind it, if it is not the last. -/
def templateTurn (nested : Derivation) (tagged : Bool) (_ : Unit) : Recognizer (Turn Unit Unit) := do
  let span ← token
  match span.kind with
  | .template part _ =>
    if let (some p, false) := (span.malformedEscape?, tagged) then throw (.lexical .templateEscape p)
    advance
    if part.isLast then return .done ()
    discard (expression nested true)
    unless ← isAt .closeBrace do unexpected
    rescan .templateTail
    return .again ()
  | _ => unexpected

theorem template_eq (nested : Derivation) (tagged : Bool) :
    template nested tagged = loop () (templateTurn nested tagged) := rfl

theorem isLast_templatePart (opening last : Bool) : (templatePart opening last).isLast = last := by
  cases opening <;> cases last <;> rfl

/-- A span without malformed escapes. -/
theorem templateTurn_eq {part : TemplatePart} (hs : s.token.kind = .template part none) (tagged : Bool) :
    templateTurn nested tagged () s = (do
      advance
      if part.isLast then return .done ()
      discard (expression nested true)
      unless ← isAt .closeBrace do unexpected
      rescan .templateTail
      return .again () : Recognizer (Turn Unit Unit)) s := by
  have hescape : s.token.malformedEscape? = none := by
    unfold Token.malformedEscape?
    rw [hs]
  unfold templateTurn
  rw [token_bind, hs]
  dsimp only
  rw [hescape]

/-- The last span of a template. -/
theorem templateTurn_last {opening : Bool}
    (hs : s.Sees all (.token (.template (templatePart opening true) none) :: rest)) (n : Nat) :
    Passes all s rest (fun _ => True) (repeatTurns (templateTurn nested false) n () s) := by
  refine .finish ?_ n
  rw [templateTurn_eq hs.kind, isLast_templatePart, if_pos rfl]
  exact .advance (.refl hs) fun t ht => ⟨ht, (), rfl, trivial⟩

/-- A span of a template, and a tree behind it up to the brace that is read again. -/
theorem templateTurn_more {opening : Bool}
    (hs : s.Sees all (.token (.template (templatePart opening false) none) :: sights))
    (hvalue : ∀ t, s.Finds all t sights →
      Passes all t (.resumption :: rest) (·.shorthand? = none) (nested (.assignment true) t)) :
    Passes all s rest (fun r => ∃ u, r = .again u ∧ True) (templateTurn nested false () s) := by
  rw [templateTurn_eq hs.kind, isLast_templatePart, if_neg Bool.false_ne_true]
  refine .advance (.refl hs) fun t ht => ?_
  refine Passes.bind ht.toAgrees (expression_passes rfl (hvalue t ht)) fun _ u hu _ => ?_
  have hat : u.token.isPunctuator .closeBrace = true := isPunctuator_of_kind hu.sees.kind_eq .closeBrace
  rw [isAt_bind, hat, if_pos rfl]
  exact .rescan hu fun v hv => ⟨hv, (), rfl, trivial⟩

theorem primary_template {part : TemplatePart} {escape : Option Nat} (h : s.token.kind = .template part escape) :
    primary nested s = (do
      template nested false
      return .other s.token.start : Recognizer Summary) s.noted := by
  have hslash := isPunctuator_of_kind h .slash
  have hassign := isPunctuator_of_kind h .slashAssign
  unfold primary
  rw [isAt_bind, isAt_bind, hslash, hassign, if_neg (by simp)]
  dsimp only
  rw [noteOperandStart_bind, token_bind, token_noted, h]

theorem name_passes (hready : s.Ready) (hrest : endsEmbedded (firstKind rest) = true)
    (hs : s.Sees all (.token (.identifier "x" false) :: rest)) :
    Passes all s rest (·.shorthand? = none) (primary nested s) := by
  rw [primary_identifier hs.kind]
  refine .of_agrees (agrees_noted s) ?_
  have hasync : s.noted.token.isWord "async" = false := by
    unfold Token.isWord
    rw [token_noted, hs.kind]
    rfl
  have hreference : checkReference ⟨"x", false, s.token.start⟩ s.noted = .ok () s.noted := by
    have hnone : s.noted.context.identifierError? false ⟨"x", false, s.token.start⟩ = none :=
      (identifierError?_free (v := nameX)).mpr (hready.free.forbids_sloppy false nameX.name)
    unfold checkReference
    rw [context_bind, hnone]
    rfl
  unfold identifierExpression
  rw [isAtWord_bind, hasync, if_neg Bool.false_ne_true]
  unfold plainIdentifier
  rw [bind_of_ok hreference]
  have hsees : s.noted.Sees all (.token (.identifier "x" false) :: rest) := hs.of_eq rfl rfl rfl
  refine .advance (.refl hsees) fun t ht => ?_
  have hnot : t.token.isPunctuator .arrow = false :=
    (isPunctuator_of_kind ht.sees.kind_eq _).trans (decide_eq_false (stops_of_endsEmbedded hrest).2.2.2.1)
  rw [context_bind, isAtArrow_bind, hnot, Bool.false_and, if_neg Bool.false_ne_true]
  exact ⟨ht, rfl⟩

/-! ## Trees -/

/-- The tree is recognized wherever it stands, and what is behind it comes next. -/
def EmbeddedPasses (e : Embedded) : Prop :=
  ∀ (all : List TokenKind) (levels : Nat) (s : State) (rest : List Sight), s.Ready →
    endsEmbedded (firstKind rest) = true → s.Sees all (e.sights ++ rest) →
      Passes all s rest (·.shorthand? = none) (derive levels (.assignment true) s)

/-- From a span on, the substitutions behind it are recognized. -/
def SubstitutionsPass (es : Substitutions) : Prop :=
  ∀ (all : List TokenKind) (levels turns : Nat) (s : State) (opening : Bool) (rest : List Sight), s.Ready →
    s.Sees all (.token (.template (templatePart opening es.isNone) none) :: (es.sights ++ rest)) →
      Passes all s rest (fun _ => True) (repeatTurns (templateTurn (derive levels) false) turns () s)

/-- A primary expression as a tree. -/
theorem embedded_of_primary {e : Embedded}
    (h : ∀ (all : List TokenKind) (n : Nat) (s : State) (rest : List Sight), s.Ready →
      endsEmbedded (firstKind rest) = true → s.Sees all (e.sights ++ rest) →
      Passes all s rest (·.shorthand? = none) (primary (derive n) s)) : EmbeddedPasses e := by
  intro all levels s rest hready hrest hs
  obtain ⟨k, more, hsights, hk⟩ := sights_cons e
  have hstarts : StartsEmbedded s.token := startsEmbedded_of_kind ((hsights ▸ hs).kind) hk
  exact assignment_passes hstarts.toBegins hstarts.new hstarts.super hstarts.statement.import hrest
    hready.free.toPlain fun n _ => h all n s.deepened rest hready.deepened hrest (hs.of_eq rfl rfl rfl)

theorem object_passes {value : Embedded} (hvalue : EmbeddedPasses value) : EmbeddedPasses (.object value) := by
  refine embedded_of_primary fun all n s rest hready hrest hs => ?_
  have hopening : pieceSights objectOpening = [.token (.punctuator .openParen), .token (.punctuator .openBrace),
      .token (.identifier "a" false), .token (.punctuator .colon)] := by decide +kernel
  rw [Embedded.sights, hopening, List.append_assoc, List.append_assoc] at hs
  simp only [List.cons_append, List.nil_append] at hs
  rw [primary_openParen hs.kind]
  refine .of_agrees (agrees_noted s) ?_
  refine parenthesized_passes (k := .punctuator .openBrace) (hs.of_eq rfl rfl rfl) nofun nofun hrest fun t ht => ?_
  have ht' : t.Ready := (hready.of_agrees (agrees_noted s)).of_agrees ht.toAgrees
  have hbrace : t.token.kind = .punctuator .openBrace := ht.sees.kind
  have hnot (w : Keyword) : t.token.isKeyword w = false := isKeyword_of_kind hbrace w
  refine assignment_passes (begins_of_kind (by rw [hbrace]; rfl)) (hnot _) (hnot _) (hnot _) rfl ht'.free.toPlain
    fun m _ => ?_
  rw [primary_openBrace (s := t.deepened) hbrace]
  refine .of_agrees (agrees_noted _) (objectLiteral_passes (by decide) (ht.sees.of_eq rfl rfl rfl) ?_)
  intro l u _ hcontext hmodule hu
  exact hvalue _ l u _ ⟨hcontext ▸ ht'.free, hmodule.trans ht'.isModule⟩ rfl hu

theorem returning_passes {result : Embedded} (hresult : EmbeddedPasses result) : EmbeddedPasses (.function result) := by
  refine embedded_of_primary fun all n s rest hready hrest hs => ?_
  obtain ⟨k, more, hsights, hk⟩ := sights_cons result
  have hopening : pieceSights functionOpening = [.token (.punctuator .openParen), .token (.keyword .function),
      .token (.punctuator .openParen), .token (.punctuator .closeParen), .token (.punctuator .openBrace),
      .token (.keyword .return)] := by decide +kernel
  rw [Embedded.sights, hopening, List.append_assoc, List.append_assoc] at hs
  simp only [List.cons_append, List.nil_append] at hs
  rw [primary_openParen hs.kind]
  refine .of_agrees (agrees_noted s) ?_
  refine parenthesized_passes (k := .keyword .function) (hs.of_eq rfl rfl rfl) nofun nofun hrest fun t ht => ?_
  have ht' : t.Ready := (hready.of_agrees (agrees_noted s)).of_agrees ht.toAgrees
  have hfunction : t.token.kind = .keyword .function := ht.sees.kind
  have hnot {w : Keyword} (hw : Keyword.function ≠ w) : t.token.isKeyword w = false :=
    (isKeyword_of_kind hfunction w).trans (decide_eq_false fun h => hw (TokenKind.keyword.inj h))
  refine assignment_passes (begins_of_kind (by rw [hfunction]; rfl)) (hnot nofun) (hnot nofun) (hnot nofun) rfl
    ht'.free.toPlain fun m _ => ?_
  rw [primary_function (s := t.deepened) hfunction]
  have hsees : t.deepened.noted.Sees all _ := ht.sees.of_eq rfl rfl rfl
  rw [hsights] at hsees
  refine .of_agrees (agrees_noted _) (function_passes (s := t.deepened.noted) ⟨ht'.free, ht'.isModule⟩ hk hsees ?_)
  intro l u hu husees
  refine hresult _ l u _ hu rfl ?_
  rw [hsights]
  exact husees

theorem template_passes {chunk : Chunk} {es : Substitutions} (h : SubstitutionsPass es) :
    EmbeddedPasses (.template chunk es) := by
  refine embedded_of_primary fun all n s rest hready _ hs => ?_
  rw [Embedded.sights, List.append_assoc] at hs
  rw [primary_template (State.Sees.kind hs)]
  refine .of_agrees (agrees_noted s) ?_
  have hspans := h _ n s.noted.turns s.noted true rest (hready.of_agrees (agrees_noted s)) (hs.of_eq rfl rfl rfl)
  rw [template_eq]
  exact Passes.bind (.refl _) hspans fun _ t ht _ => ⟨ht, rfl⟩

theorem substitutions_more {value : Embedded} {chunk : Chunk} {es : Substitutions} (hvalue : EmbeddedPasses value)
    (hes : SubstitutionsPass es) : SubstitutionsPass (.more value chunk es) := by
  intro all levels turns s opening rest hready hs
  rw [Substitutions.sights, List.append_assoc, List.append_assoc] at hs
  have hturn : Passes all s _ _ (templateTurn (derive levels) false () s) := templateTurn_more hs fun t ht =>
    hvalue all levels t _ (hready.of_agrees ht.toAgrees) rfl ht.sees
  refine .again (.refl s) hturn (fun _ t n ht _ => ?_) turns
  exact .of_agrees ht.toAgrees (hes all levels n t false rest (hready.of_agrees ht.toAgrees) ht.sees)

mutual

theorem embedded_passes : ∀ e : Embedded, EmbeddedPasses e
  | .name => embedded_of_primary fun _ _ _ _ hready hrest hs => name_passes hready hrest hs
  | .object value => object_passes (embedded_passes value)
  | .function result => returning_passes (embedded_passes result)
  | .template _ rest => template_passes (substitutions_pass rest)

theorem substitutions_pass : ∀ es : Substitutions, SubstitutionsPass es
  | .none => fun _ _ turns _ _ _ _ hs => templateTurn_last hs turns
  | .more value _ rest => substitutions_more (embedded_passes value) (substitutions_pass rest)

end

/-! ## The statement -/

/-- What is seen of the end of the statement. -/
def endSights (semicolon : Bool) : List Sight :=
  if semicolon then [.token (.punctuator .semicolon)] else []

theorem endsEmbedded_endSights (semicolon : Bool) : endsEmbedded (firstKind (endSights semicolon)) = true := by
  cases semicolon <;> rfl

theorem consumeSemicolon_end {semicolon : Bool} (hs : s.Sees all (endSights semicolon)) :
    Passes all s [] (fun _ => True) (consumeSemicolon s) := by
  cases semicolon with
  | true => exact consumeSemicolon_passes hs
  | false =>
    have hkind : s.token.kind = .endOfInput := hs.kind_eq
    have hend : s.token.isEnd = true := by
      unfold Token.isEnd
      rw [hkind]
    unfold consumeSemicolon
    rw [token_bind, isPunctuator_of_kind hkind, hend, Bool.or_true, if_neg (by nofun), if_pos (by rfl)]
    exact ⟨⟨⟨rfl, rfl⟩, hs.of_eq rfl rfl rfl⟩, trivial⟩

theorem peek_sees (hs : s.Sees all (.token k :: sights)) :
    ∃ token, peek s = .ok token s ∧ token.kind = firstKind sights := by
  obtain ⟨_, _, token, scanner, hnext, hawaits⟩ := hs.awaits
  refine ⟨token, ?_, (hawaits { s with token, scanner } rfl rfl).kind_eq⟩
  unfold peek
  rw [hnext _ (goalAfter_ne_templateTail s.token)]

/-- A statement that begins like a tree is an expression. -/
theorem expandStatement_embedded (hattached : s.attachedLabels = 0) (hk : BeginsEmbedded k)
    (hs : s.Sees all (.token k :: sights))
    (hname : k = .identifier "x" false → endsEmbedded (firstKind sights) = true) :
    expandStatement nested s = (do
      discard (expression nested true)
      consumeSemicolon : Recognizer Unit) s := by
  have hbegun : Begun s.token := (startsEmbedded_of_kind hs.kind hk).toBegun
  unfold expandStatement
  rw [get_bind, modify_bind, token_bind, hs.kind, show { s with attachedLabels := 0 } = s from detached_eq hattached]
  cases hk with
  | name =>
    obtain ⟨next, hpeek, hnext⟩ := peek_sees hs
    have hcolon : next.isPunctuator .colon = false :=
      (isPunctuator_of_kind hnext _).trans (decide_eq_false (stops_of_endsEmbedded (hname rfl)).2.2.2.2)
    exact identifierStatement_eq hbegun hpeek hcolon
  | paren => rfl
  | template last => rfl

/-- What follows a tree that is a name. -/
theorem sights_cons_of_end {e : Embedded} (hrest : endsEmbedded (firstKind rest) = true) :
    ∃ k more, e.sights ++ rest = .token k :: more ∧ BeginsEmbedded k ∧
      (k = .identifier "x" false → endsEmbedded (firstKind more) = true) := by
  cases e with
  | name => exact ⟨_, _, rfl, .name, fun _ => hrest⟩
  | object value => exact ⟨_, _, rfl, .paren, nofun⟩
  | function result => exact ⟨_, _, rfl, .paren, nofun⟩
  | template chunk es => exact ⟨_, _, rfl, .template es.isNone, nofun⟩

/-- A tree as a statement of a script. -/
theorem statement_passes {e : Embedded} {semicolon : Bool} (hready : s.Ready) (hattached : s.attachedLabels = 0)
    (hs : s.Sees all (e.sights ++ endSights semicolon)) :
    Passes all s [] (fun _ => True) (derive levels (.statementListItem true) s) := by
  have hrest := endsEmbedded_endSights semicolon
  obtain ⟨k, more, hsights, hk, hname⟩ := sights_cons_of_end (e := e) hrest
  have hbegun : Begun s.token := (startsEmbedded_of_kind (hsights ▸ hs).kind hk).toBegun
  refine derive_passes (p := .statementListItem true) fun n _ => ?_
  have hitem : expand (derive n) (.statementListItem true) s.deepened = derive n .statement s.deepened :=
    expandStatementListItem_eq hbegun.statement (isAtLetDeclaration_of_not hbegun.let)
      (isAtAsyncFunction_of_not hbegun.async)
  rw [hitem]
  refine derive_passes (p := .statement) fun n _ => ?_
  have hsees : s.deepened.deepened.Sees all (e.sights ++ endSights semicolon) := hs.of_eq rfl rfl rfl
  have hstatement : expand (derive n) .statement s.deepened.deepened = (do
      discard (expression (derive n) true)
      consumeSemicolon : Recognizer Unit) s.deepened.deepened :=
    expandStatement_embedded hattached hk (hsights ▸ hsees) hname
  rw [hstatement]
  have hpasses := embedded_passes e _ n _ _ hready.deepened.deepened hrest hsees
  refine Passes.bind (.refl _) (expression_passes hrest hpasses) fun _ t ht _ => ?_
  exact .of_agrees ht.toAgrees (consumeSemicolon_end ht.sees)

theorem statementList_passes {e : Embedded} {semicolon : Bool} (hready : s.Ready) (hattached : s.attachedLabels = 0)
    (hs : s.Sees all (e.sights ++ endSights semicolon)) :
    Passes all s [] (fun _ => True) (statementList (derive levels) true s) := by
  obtain ⟨k, more, hsights, hk, _⟩ := sights_cons_of_end (e := e) (endsEmbedded_endSights semicolon)
  have hgoes : (s.token.isEnd || s.token.isPunctuator .closeBrace) = false :=
    (startsEmbedded_of_kind (hsights ▸ hs).kind hk).list
  have hdone {t : State} (ht : t.Sees all []) : statementTurn (derive levels) true () t = .ok (.done ()) t := by
    have hkind : t.token.kind = .endOfInput := ht.kind_eq
    unfold statementTurn Token.isEnd
    rw [token_bind, hkind]
    rfl
  rw [statementList_eq]
  refine Passes.again (R := fun _ => True) (.refl s) ?_
    (fun _ t n (ht : s.Finds all t []) _ =>
      .of_agrees ht.toAgrees (.finish (hdone ht.sees ▸ ⟨.refl ht.sees, (), rfl, trivial⟩) n)) s.turns
  unfold statementTurn
  rw [token_bind, hgoes, if_neg Bool.false_ne_true]
  exact Passes.bind (.refl s) (statement_passes hready hattached hs) fun _ t ht _ => ⟨ht, (), rfl, trivial⟩

theorem shows_statement (e : Embedded) (semicolon : Bool) :
    Shows (e.sights ++ endSights semicolon) (e.statement semicolon ++ ['\n']) := by
  cases semicolon with
  | true =>
    have hend : Shows (endSights true) ([';'] ++ ['\n']) :=
      .lexeme (l := .punctuator .semicolon) 0 (by decide) (reads_whole rfl _) (.done 0)
    rw [Embedded.statement, List.append_assoc]
    exact e.shows hend ⟨';', _, rfl, by decide +kernel⟩
  | false =>
    rw [Embedded.statement, List.append_assoc]
    exact e.shows (.done 0) ⟨'\n', _, rfl, by decide +kernel⟩

/-- The kinds of the tokens of the statement. -/
def statementKinds (e : Embedded) (semicolon : Bool) : List TokenKind :=
  tokenKinds (e.sights ++ endSights semicolon)

/-- The statement is a program, which consumes its tokens. -/
theorem program_passes (levels : Nat) (e : Embedded) (semicolon : Bool) :
    Ends Fault.IsLimit (fun _ t => t.consumed.reverse.map Token.kind = statementKinds e semicolon)
      (program (derive levels) (.initial false (.carrying (e.statement semicolon) true))) := by
  have htext : (Scanner.standing (e.statement semicolon) true 0).rest = e.statement semicolon ++ ['\n'] := rfl
  obtain ⟨token, scanner, hnext, hawaits⟩ := awaits_of_shows (Nat.zero_le _) htext (shows_statement e semicolon)
  let s : State := { State.initial false (.carrying (e.statement semicolon) true) with scanner, token }
  have hs : s.Sees (statementKinds e semicolon) (e.sights ++ endSights semicolon) := ⟨hawaits s rfl rfl, rfl⟩
  have hstart : start (.initial false (.carrying (e.statement semicolon) true)) = .ok () s := by
    have hread : (State.initial false (.carrying (e.statement semicolon) true)).scanner.next .regExp =
        (.ok token, scanner) := by
      change (Scanner.ofSource (.carrying (e.statement semicolon) true)).next .regExp = _
      rw [Scanner.ofSource_carrying]
      exact hnext .regExp (by decide)
    unfold start
    rw [hread]
    rfl
  obtain ⟨k, more, hsights, hk, _⟩ := sights_cons_of_end (e := e) (endsEmbedded_endSights semicolon)
  have hbegun : Begun s.token := (startsEmbedded_of_kind (hsights ▸ hs).kind hk).toBegun
  have hdirectives : Passes (statementKinds e semicolon) s (e.sights ++ endSights semicolon) (fun _ => True)
      (directives (derive levels) s) := by
    rw [directives_eq]
    refine Passes.finish ?_ s.turns
    rw [directiveTurn_of_not hbegun.string]
    exact ⟨.refl hs, _, rfl, trivial⟩
  unfold program
  rw [bind_of_ok hstart]
  refine Ends.bind hdirectives.discard fun _ t ht => ?_
  have hready : t.Ready := State.Ready.of_agrees (s := s) ⟨Context.ofScript_free false, rfl⟩ ht.1.toAgrees
  refine Ends.bind (statementList_passes hready ht.1.attachedLabels ht.1.sees) fun _ u hu => ?_
  have hkind : u.token.kind = .endOfInput := hu.1.sees.kind_eq
  have hend : u.token.isEnd = true := by
    unfold Token.isEnd
    rw [hkind]
  rw [token_bind, if_pos hend]
  exact (List.append_nil _).symm.trans hu.1.sees.consumed

/-- Names, objects, functions and templates with one of them in each other, and with any text around the substitutions
of the templates, are accepted as a statement, unless they nest too deep. What is consumed then are their tokens: a
brace is part of a template span where it closes a substitution, and a punctuator elsewhere. -/
theorem checkBuffer_embedded {limit : Nat} (e : Embedded) (semicolon : Bool)
    (hdeep : ∀ r, checkBuffer ⟨.script, limit⟩ (Utf8.encode (e.statement semicolon)) ≠ .tooDeep r) :
    checkBuffer ⟨.script, limit⟩ (Utf8.encode (e.statement semicolon)) = .ok ∧
      (finalState (run false limit (.carrying (e.statement semicolon) true))).consumed.reverse.map Token.kind =
        statementKinds e semicolon := by
  have hprogram := program_passes limit e semicolon
  cases hrun : run false limit (.carrying (e.statement semicolon) true) with
  | ok _ t => exact ⟨checkBuffer_encode_eq_ok.mpr ⟨t, hrun⟩, hprogram.of_ok hrun⟩
  | error f t =>
    refine absurd ?_ (not_isLimit_of_error hdeep hrun)
    rwa [show program (derive limit) _ = .error f t from hrun] at hprogram

/-- Template text that looks like code. -/
def misleading : Chunk where
  text := "\x7d;\n/* $ \x7b'".toList
  noBacktick := by decide
  noBackslash := by decide
  noSubstitution := by decide +kernel

/-- The brace behind the name goes on with the template, the other one closes the object. -/
example : statementKinds (.object (.template misleading (.more .name misleading .none))) true =
    [.punctuator .openParen, .punctuator .openBrace, .identifier "a" false, .punctuator .colon, .template .head none,
      .identifier "x" false, .template .tail none, .punctuator .closeBrace, .punctuator .closeParen,
      .punctuator .semicolon] := by decide +kernel

/-- A template in a function in an object in a template. -/
def templateInFunction : Embedded :=
  .template misleading
    (.more (.object (.function (.template misleading (.more .name misleading .none)))) misleading .none)

example : templateInFunction.statement true = ("`\x7d;\n/* $ \x7b'$\x7b(\x7ba: (function () \x7b return " ++
    "`\x7d;\n/* $ \x7b'$\x7bx\x7d\x7d;\n/* $ \x7b'`; \x7d)\x7d)\x7d\x7d;\n/* $ \x7b'`;").toList := by decide +kernel

theorem checkBuffer_embedded_templateInFunction :
    (∀ r, checkBuffer ⟨.script, 1024⟩ (Utf8.encode (templateInFunction.statement true)) ≠ .tooDeep r) ∧
      checkBuffer ⟨.script, 1024⟩ (Utf8.encode (templateInFunction.statement true)) = .ok ∧
      (finalState
        (run false 1024 (.carrying (templateInFunction.statement true) true))).consumed.reverse.map Token.kind =
        statementKinds templateInFunction true := by
  have hdeep := checkBuffer_of_ample_limit .script
    (show 3 * ((templateInFunction.statement true).length + 1) ≤ 1024 by decide +kernel)
  exact ⟨hdeep, checkBuffer_embedded templateInFunction true hdeep⟩

end Grammar

end EcmaCheck
