import EcmaCheck.Proofs.Printed.Function

/-!
# Statements that are printed

In a list of statements, a statement is what its expansion decides (`listItem_decided`); expression statements, blocks
and what stands in parentheses before a body.
-/

namespace EcmaCheck

/-- Whether the token begins a statement wherever it stands in a list, and no word. -/
def TokenKind.beginsStatement : TokenKind → Bool
  | .keyword k =>
    match k with
    | .function | .class | .const | .import | .export => false
    | _ => true
  | .identifier .. => false
  | _ => true

end EcmaCheck

namespace EcmaCheck.Grammar

variable {α : Type} {s t : State} {v : Prop} {l : Lexeme} {ls ms : List Lexeme} {nested : Derivation}

/-- The state in strict code. -/
def State.strictly (s : State) : State :=
  { s with context := { s.context with strict := true } }

/-! ## Items of a list -/

theorem variable_ne (w : Variable) {k : TokenKind} (hk : ∀ name escaped, k ≠ .identifier name escaped) :
    (Lexeme.word w.toWord).kind ≠ k :=
  fun h => hk _ _ (h.symm.trans w.kind_eq)

theorem isAtLetDeclaration_of_not (h : s.token.isWord "let" = false) : isAtLetDeclaration s = .ok false s := by
  unfold isAtLetDeclaration
  rw [isAtWord_bind, h, if_neg Bool.false_ne_true]
  rfl

theorem isAtAsyncFunction_of_not (h : s.token.isWord "async" = false) : isAtAsyncFunction s = .ok false s := by
  unfold isAtAsyncFunction
  rw [isAtWord_bind, h, if_neg Bool.false_ne_true]
  rfl

/-- What is known of a token that begins a statement wherever it stands in a list. -/
structure BeginsStatement (t : Token) : Prop where
  function : t.isKeyword .function = false
  «class» : t.isKeyword .class = false
  const : t.isKeyword .const = false
  «import» : t.isKeyword .import = false
  «export» : t.isKeyword .export = false

/-- An item that is neither a declaration nor an import or an export. -/
theorem expandStatementListItem_eq {topLevel : Bool} (hbegins : BeginsStatement s.token)
    (hlet : isAtLetDeclaration s = .ok false s) (hasync : isAtAsyncFunction s = .ok false s) :
    expandStatementListItem nested topLevel s = nested .statement s := by
  unfold expandStatementListItem
  rw [get_bind, hbegins.function, if_neg Bool.false_ne_true, hbegins.class, if_neg Bool.false_ne_true, hbegins.const,
    if_neg Bool.false_ne_true, bind_of_ok hlet, if_neg Bool.false_ne_true, bind_of_ok hasync,
    if_neg Bool.false_ne_true, hbegins.import, if_neg Bool.false_ne_true, hbegins.export, if_neg Bool.false_ne_true]
  rfl

theorem listItem_of_begins {topLevel : Bool} {R : Unit → Prop} (hbegins : BeginsStatement s.token)
    (hlet : isAtLetDeclaration s = .ok false s) (hasync : isAtAsyncFunction s = .ok false s)
    (h : Decided s v ls R (nested .statement s)) :
    Decided s v ls R (expandStatementListItem nested topLevel s) := by
  rwa [expandStatementListItem_eq hbegins hlet hasync]

theorem beginsStatement_of_kind {t : Token} (h : t.kind.beginsStatement = true) :
    BeginsStatement t ∧ t.isIdentifier = false := by
  have hkeyword (k : Keyword) (hk : (TokenKind.keyword k).beginsStatement = false) : t.isKeyword k = false := by
    rw [isKeyword_of_kind rfl]
    refine decide_eq_false fun hkind => ?_
    rw [hkind, hk] at h
    cases h
  refine ⟨⟨hkeyword _ rfl, hkeyword _ rfl, hkeyword _ rfl, hkeyword _ rfl, hkeyword _ rfl⟩, ?_⟩
  unfold Token.isIdentifier
  cases hkind : t.kind with
  | identifier => rw [hkind] at h; cases h
  | _ => rfl

theorem listItem_decided {topLevel : Bool} {R : Unit → Prop} (hs : s.Faces (l :: ms))
    (hbegins : l.kind.beginsStatement = true) (h : Decided s v ls R (nested .statement s)) :
    Decided s v ls R (expandStatementListItem nested topLevel s) := by
  obtain ⟨hbegins, hidentifier⟩ := beginsStatement_of_kind (hs.kind ▸ hbegins)
  exact listItem_of_begins hbegins (isAtLetDeclaration_of_not (isWord_of_kind hidentifier _))
    (isAtAsyncFunction_of_not (isWord_of_kind hidentifier _)) h

/-- `let` before a punctuator that begins no pattern declares nothing in sloppy code. -/
theorem isAtLetDeclaration_of_next {next : Token} {p : Punctuator} (hpeek : peek s = .ok next s)
    (hnext : next.kind = .punctuator p)
    (hlet : s.token.isWord "let" = true → p ≠ .openBracket ∧ p ≠ .openBrace ∧ s.context.strict = false) :
    isAtLetDeclaration s = .ok false s := by
  by_cases hword : s.token.isWord "let" = true
  · obtain ⟨hbracket, hbrace, hstrict⟩ := hlet hword
    have hidentifier : next.isIdentifier = false := by
      unfold Token.isIdentifier
      rw [hnext]
    have hpunctuator {q : Punctuator} (hq : p ≠ q) : next.isPunctuator q = false := by
      rw [isPunctuator_of_kind hnext]
      simpa using hq
    unfold isAtLetDeclaration
    rw [isAtWord_bind, if_pos hword, bind_of_ok hpeek, context_bind, hidentifier, hpunctuator hbracket,
      hpunctuator hbrace, hstrict]
    rfl
  · exact isAtLetDeclaration_of_not (Bool.eq_false_iff.mpr hword)

/-- `async` before a punctuator begins no function. -/
theorem isAtAsyncFunction_of_next {next : Token} {p : Punctuator} (hpeek : peek s = .ok next s)
    (hnext : next.kind = .punctuator p) : isAtAsyncFunction s = .ok false s := by
  have hfunction : next.isKeyword .function = false := isKeyword_of_kind hnext .function
  unfold isAtAsyncFunction
  rw [isAtWord_bind]
  split
  · rw [bind_of_ok hpeek, hfunction]
    rfl
  · rfl

/-- An item that begins with a name which declares nothing. -/
theorem listItem_name {topLevel : Bool} {R : Unit → Prop} {w : Variable} {p : Punctuator}
    (hs : s.Faces (.word w.toWord :: .punctuator p :: ms))
    (hlet : w.name = "let" → p ≠ .openBracket ∧ p ≠ .openBrace ∧ s.context.strict = false)
    (h : Decided s v ls R (nested .statement s)) : Decided s v ls R (expandStatementListItem nested topLevel s) := by
  have hkind : s.token.kind = .identifier w.name w.value.escaped := hs.kind.trans w.kind_eq
  obtain ⟨next, hpeek, hnext, _⟩ := peek_reaches (.refl hs)
  have hnot (k : Keyword) : s.token.isKeyword k = false := isKeyword_of_kind hkind k
  refine listItem_of_begins ⟨hnot _, hnot _, hnot _, hnot _, hnot _⟩
    (isAtLetDeclaration_of_next hpeek hnext fun hword => ?_)
    (isAtAsyncFunction_of_next hpeek hnext) h
  unfold Token.isWord at hword
  rw [hkind] at hword
  exact hlet (of_decide_eq_true ((Bool.and_eq_true _ _).mp hword).2)

/-! ## Ends of statements, blocks and conditions -/

theorem consumeSemicolon_decided (hs : s.Faces (.punctuator .semicolon :: ls)) :
    Decided s True ls (fun _ => True) (consumeSemicolon s) := by
  unfold consumeSemicolon
  rw [token_bind, isPunctuator_of_kind hs.kind, if_pos (by rfl)]
  exact .lastAdvance (.refl hs) (by decide)

/-- Before a closing brace the semicolon can be omitted. -/
theorem omitSemicolon_decided (hs : s.Faces (.punctuator .closeBrace :: ls)) :
    Decided s True (.punctuator .closeBrace :: ls) (fun _ => True) (consumeSemicolon s) := by
  unfold consumeSemicolon
  rw [token_bind, isPunctuator_of_kind hs.kind, isPunctuator_of_kind hs.kind, hs.line, if_neg (by nofun),
    if_pos (by rfl)]
  exact ⟨trivial, ⟨⟨rfl, rfl⟩, hs.of_eq rfl rfl⟩, trivial⟩

/-- An expression as a statement. -/
theorem expressionStatement_decided {w : Prop} {R : Summary → Prop}
    (h : Decided s v (.punctuator .semicolon :: ls) R (nested (.assignment true) s))
    (hpending : ∀ e, R e → (e.shorthand? = none ↔ w)) :
    Decided s (v ∧ w) ls (fun _ => True) ((do
      discard (expression nested true)
      consumeSemicolon : Recognizer Unit) s) := by
  refine Decided.andThen (R := fun _ => True) (.refl s) (.discard (.refl s) (expression_decided h nofun hpending))
    fun _ t _ ht _ => ?_
  exact .of_agrees ht.toAgrees (consumeSemicolon_decided ht.faces)

/-- The state of a statement that has taken off the labels attached to it. -/
def State.detached (s : State) : State :=
  { s with attachedLabels := 0 }

theorem detached_eq (h : s.attachedLabels = 0) : s.detached = s := by
  unfold State.detached
  rw [← h]

theorem faces_detached (hs : s.Faces ls) : s.detached.Faces ls :=
  hs.of_eq rfl rfl

/-- A statement that begins like an expression is one. -/
theorem expandStatement_expression (hs : s.Faces (l :: ls))
    (hbegins : l.kind = .punctuator .openParen ∨ l.kind = .keyword .new ∨ l.kind = .keyword .super) :
    expandStatement nested s = (do
      discard (expression nested true)
      consumeSemicolon : Recognizer Unit) s.detached := by
  unfold expandStatement
  rw [get_bind, modify_bind, token_bind, hs.kind]
  rcases hbegins with h | h | h <;> rw [h] <;> rfl

/-- A statement that begins with a name is an expression, unless the name is a label or declares something. -/
theorem expandStatement_name {w : Variable} {p : Punctuator} (hs : s.Faces (.word w.toWord :: .punctuator p :: ls))
    (hcolon : p ≠ .colon) (hbracket : p ≠ .openBracket) :
    expandStatement nested s = (do
      discard (expression nested true)
      consumeSemicolon : Recognizer Unit) s.detached := by
  have hkind : s.token.kind = .identifier w.name w.value.escaped := hs.kind.trans w.kind_eq
  obtain ⟨next, hpeek, hnext, _⟩ := peek_reaches (.refl (faces_detached hs))
  have hnot {q : Punctuator} (hq : p ≠ q) : next.isPunctuator q = false := by
    rw [isPunctuator_of_kind hnext]
    simpa [Lexeme.kind] using hq
  have hfunction : next.isKeyword .function = false := isKeyword_of_kind hnext .function
  unfold expandStatement
  rw [get_bind, modify_bind, token_bind, hkind]
  dsimp only
  unfold identifierStatement
  rw [token_bind]
  change (peek >>= _) s.detached = _
  rw [bind_of_ok hpeek, hnot hcolon, if_neg Bool.false_ne_true, hnot hbracket, hfunction, Bool.and_false,
    Bool.and_false, Bool.false_and]
  rfl

/-- What is known of a token that begins an expression as a statement. -/
structure Begun (t : Token) : Prop where
  statement : BeginsStatement t
  «let» : t.isWord "let" = false
  async : t.isWord "async" = false
  string : t.isString = false
  list : endsList t = false

/-- A statement that begins with a plain name is an expression, unless the name is a label. -/
theorem identifierStatement_eq {nested : Derivation} {next : Token} {i : Identifier} {attached : Nat}
    (hbegun : Begun s.token) (hpeek : peek s = .ok next s) (hcolon : next.isPunctuator .colon = false) :
    identifierStatement nested attached i s = (do
      discard (expression nested true)
      consumeSemicolon : Recognizer Unit) s := by
  unfold identifierStatement
  rw [token_bind, bind_of_ok hpeek, hcolon, if_neg Bool.false_ne_true, hbegun.let, hbegun.async]
  rfl

theorem block_decided (hs : s.Faces (.punctuator .openBrace :: (ms ++ .punctuator .closeBrace :: ls)))
    (hbody : ∀ t, s.Reaches t (ms ++ .punctuator .closeBrace :: ls) →
      Decided t v (.punctuator .closeBrace :: ls) (fun _ => True) (statementList nested false t)) :
    Decided s v ls (fun _ => True) (block nested s) := by
  unfold block
  refine .expect (.refl hs) fun t ht => ?_
  refine Decided.andThen ht.toAgrees (hbody t ht) fun _ u _ hu _ => ?_
  exact .lastExpectWith hu (by decide)

end EcmaCheck.Grammar
