import EcmaCheck.Proofs.Printed.CoverGrammar
import EcmaCheck.Proofs.Printed.Nest

/-!
# Both spellings of an arrow function

An arrow function of one parameter is accepted with its parameter in parentheses just if it is without them, wherever it
stands: at the top of a script or a module, strict or not, or in functions, generators, async functions and static
blocks inside each other (`arrow_spellings_agree`). The one exception is an async arrow function whose parameter is
called `await`, which is refused without parentheses, but in sloppy code of a script not with them
(`await_in_parentheses`).
-/

namespace EcmaCheck

open Punctuator (piece)

/-! ## Where the arrow function stands -/

/-- A declaration with code inside. -/
inductive Enclosure where
  | function (isGenerator isAsync : Bool) (name : Variable)
  | staticBlock (name : Variable)

namespace Enclosure

/-- What is printed before the code inside. -/
def opening : Enclosure → List Piece
  | function isGenerator isAsync name =>
    (if isAsync then [nameAsync.piece, .space] else []) ++ Keyword.function.word.piece ::
      ((if isGenerator then [piece .star] else []) ++ [.space, name.piece, piece .openParen, piece .closeParen, .space,
        piece .openBrace, .space])
  | staticBlock name => [Keyword.class.word.piece, .space, name.piece, .space, piece .openBrace, .space,
      nameStatic.piece, .space, piece .openBrace, .space]

/-- What is printed behind it. -/
def closing : Enclosure → List Piece
  | function .. => [.space, piece .closeBrace]
  | staticBlock _ => [.space, piece .closeBrace, .space, piece .closeBrace]

/-- The context inside, from that around it. -/
def inside (isModule : Bool) (c : Grammar.Context) : Enclosure → Grammar.Context
  | function isGenerator isAsync _ =>
    (Grammar.Context.ofFunction c.strict isModule isGenerator isAsync).inBody isGenerator isAsync
  | staticBlock _ => .ofStaticBlock

/-- Whether the declaration may bind its name. -/
def Binds (c : Grammar.Context) : Enclosure → Prop
  | function _ _ name => c.forbids true name.name = false
  | staticBlock name => Grammar.Context.forbids { c with strict := true } true name.name = false

end Enclosure

/-- A statement inside the enclosures, the first of them outermost. -/
def enclosedPieces : List Enclosure → List Piece → List Piece
  | [], statement => statement
  | e :: es, statement => e.opening ++ (enclosedPieces es statement ++ e.closing)

/-- Whether the names of the enclosures may be bound and the innermost context is as `valid` says. -/
def ValidInside (isModule : Bool) (valid : Grammar.Context → Prop) : Grammar.Context → List Enclosure → Prop
  | c, [] => valid c
  | c, e :: es => e.Binds c ∧ ValidInside isModule valid (e.inside isModule c) es

/-- What is required of the innermost context can be required in any. -/
theorem validInside_and {isModule : Bool} {valid : Grammar.Context → Prop} {v : Prop} {c : Grammar.Context}
    (es : List Enclosure) :
    ValidInside isModule (fun c => valid c ∧ v) c es ↔ ValidInside isModule valid c es ∧ v := by
  induction es generalizing c with
  | nil => rfl
  | cons e es ih => rw [ValidInside, ValidInside, ih, and_assoc]

/-- An arrow function of one parameter in parentheses as a statement. -/
def arrowStatement (isAsync enclosed : Bool) (x : Variable) : List Piece :=
  piece .openParen :: (arrowPieces isAsync enclosed x ++ [piece .closeParen, piece .semicolon])

/-- The text of a program that is the statement inside the enclosures, behind a directive if its code is strict. -/
def arrowProgram (strict : Bool) (es : List Enclosure) (isAsync enclosed : Bool) (x : Variable) : List Char :=
  printed (codePieces strict (enclosedPieces es (arrowStatement isAsync enclosed x)))

example : String.ofList (arrowProgram true [.function true false nameF, .staticBlock nameX] true false nameA) =
    "\"use strict\"; function* f() \x7b class x \x7b static \x7b (async a => 0); \x7d \x7d \x7d" := by
  decide +kernel

/-! ## Printing -/

/-- What follows a statement inside enclosures does not change how it is read, if it does not without them. -/
theorem sound_enclosed {statement : List Piece} (h : ∀ rest, Sound (statement ++ rest) = Sound rest)
    (es : List Enclosure) (rest : List Piece) : Sound (enclosedPieces es statement ++ rest) = Sound rest := by
  induction es generalizing rest with
  | nil => exact h rest
  | cons e es ih =>
    rw [enclosedPieces, List.append_assoc, List.append_assoc]
    have hopening (ps : List Piece) : Sound (e.opening ++ ps) = Sound ps := by
      cases e with
      | function isGenerator isAsync name => cases isGenerator <;> cases isAsync <;> rfl
      | staticBlock name => rfl
    rw [hopening, ih]
    cases e <;> exact sound_whole rfl rest

theorem sound_arrowStatement (isAsync enclosed : Bool) (x : Variable) (rest : List Piece) :
    Sound (arrowStatement isAsync enclosed x ++ rest) = Sound rest := by
  cases isAsync <;> cases enclosed <;> exact sound_whole rfl rest

/-- The lexemes of a statement inside enclosures, from the outside in. -/
theorem lexemes_enclosed (e : Enclosure) (es : List Enclosure) (statement : List Piece) (rest : List Lexeme) :
    lexemes (enclosedPieces (e :: es) statement) ++ rest =
      lexemes e.opening ++ (lexemes (enclosedPieces es statement) ++ (lexemes e.closing ++ rest)) := by
  rw [enclosedPieces, lexemes_append, lexemes_append, List.append_assoc, List.append_assoc]

namespace Grammar

variable {s : State} {v : Prop} {l : Lexeme} {ls ms rest : List Lexeme} {nested : Derivation} {levels : Nat}
  {topLevel : Bool}

/-! ## Declarations -/

/-- A function declaration as an item of a list. -/
theorem functionEnclosure_decided {isAsync isGenerator : Bool} {name : Variable}
    (hs : s.Faces ((if isAsync then [.word nameAsync.toWord] else []) ++ .word Keyword.function.word ::
      ((if isGenerator then [.punctuator .star] else []) ++ .word name.toWord :: rest)))
    (hinner : ∀ t, s.Reaches t rest → Decided t v ls (fun _ => True)
      (inFunctionContext (.ofFunction s.context.strict s.isModule isGenerator isAsync)
        (parametersAndBody nested ⟨isAsync, isGenerator, none⟩ .regExp) t)) :
    Decided s (s.context.forbids true name.name = false ∧ v) ls (fun _ => True)
      (expandStatementListItem nested topLevel s) := by
  unfold expandStatementListItem
  rw [get_bind]
  cases isAsync with
  | false =>
    have hkeyword : s.token.isKeyword .function = true :=
      isKeyword_of_kind (hs.kind.trans (Keyword.kind_word .function)) .function
    rw [if_pos hkeyword]
    exact functionDeclaration_decided hs hinner
  | true =>
    have hs : s.Faces (.word nameAsync.toWord :: .word Keyword.function.word ::
      ((if isGenerator then [.punctuator .star] else []) ++ .word name.toWord :: rest)) := hs
    have hnot (k : Keyword) : s.token.isKeyword k = false := isKeyword_of_kind (hs.kind.trans nameAsync.kind_eq) k
    have hlet : isAtLetDeclaration s = .ok false s := isAtLetDeclaration_of_not (isWord_async hs "let")
    obtain ⟨next, hpeek, hnext, hline⟩ := peek_reaches (.refl hs)
    have hfunction : next.isKeyword .function = true :=
      isKeyword_of_kind (hnext.trans (Keyword.kind_word .function)) .function
    have hasync : isAtAsyncFunction s = .ok true s := by
      unfold isAtAsyncFunction
      rw [isAtWord_bind, isWord_async hs, if_pos (by rfl), bind_of_ok hpeek, hfunction, hline]
      rfl
    rw [hnot, if_neg Bool.false_ne_true, hnot, if_neg Bool.false_ne_true, hnot, if_neg Bool.false_ne_true,
      bind_of_ok hlet, if_neg Bool.false_ne_true, bind_of_ok hasync, if_pos rfl]
    refine .advance (.refl hs) fun t ht => ?_
    have hdeclaration : Decided t (t.context.forbids true name.name = false ∧ v) ls (fun _ => True)
        (functionDeclaration nested true t) := by
      refine functionDeclaration_decided ht.faces fun u hu => ?_
      rw [ht.context, ht.isModule]
      exact hinner u (.of_agrees ht.toAgrees hu)
    rw [ht.context] at hdeclaration
    exact .of_agrees ht.toAgrees hdeclaration

/-- A class declaration with a static block as an item of a list. -/
theorem staticBlockEnclosure_decided {name : Variable}
    (hs : s.Faces (.word Keyword.class.word :: .word name.toWord :: .punctuator .openBrace :: .word nameStatic.toWord ::
      .punctuator .openBrace :: (ms ++ .punctuator .closeBrace :: .punctuator .closeBrace :: ls)))
    (hbody : ∀ n, BodyDecided s .ofStaticBlock v ms (.punctuator .closeBrace :: .punctuator .closeBrace :: ls)
      (statementList (derive n) false)) :
    Decided s (Context.forbids { s.context with strict := true } true name.name = false ∧ v) ls (fun _ => True)
      (expandStatementListItem (derive levels) topLevel s) := by
  have hkind : s.token.kind = .keyword .class := hs.kind.trans (Keyword.kind_word .class)
  have hfunction : s.token.isKeyword .function = false := isKeyword_of_kind hkind .function
  have hclass : s.token.isKeyword .class = true := isKeyword_of_kind hkind .class
  unfold expandStatementListItem
  rw [get_bind, hfunction, if_neg Bool.false_ne_true, if_pos hclass]
  refine classDeclaration_decided hs (variable_ne nameStatic nofun) (variable_ne nameStatic nofun)
    (variable_ne nameStatic nofun) fun t _ hmodule ht => ?_
  refine derive_decided (p := .classElement false false) fun n _ => ?_
  refine classElement_staticBlock (by decide) (by decide) (ht.of_eq rfl rfl) ?_
  exact fun u hcontext hlabels hattached hmodule' hu => hbody n u hcontext hlabels hattached (hmodule'.trans hmodule) hu

/-! ## Statements inside declarations -/

/-- Wherever it begins, the statement is valid if the context is as `valid` says. -/
def ItemDecided (isModule : Bool) (item : List Lexeme) (valid : Context → Prop) : Prop :=
  ∀ (levels : Nat) (topLevel : Bool) (s : State) (ls : List Lexeme), s.isModule = isModule → s.attachedLabels = 0 →
    s.Faces (item ++ ls) → Decided s (valid s.context) ls (fun _ => True)
      (derive levels (.statementListItem topLevel) s)

/-- A statement inside enclosures begins like the outermost of them. -/
theorem enclosed_begins {statement : List Piece} {first : Lexeme} (hfirst : lexemes statement = first :: rest)
    (hbegins : BeginsItem first) (es : List Enclosure) :
    ∃ l more, lexemes (enclosedPieces es statement) = l :: more ∧ BeginsItem l := by
  cases es with
  | nil => exact ⟨first, rest, hfirst, hbegins⟩
  | cons e es =>
    have hcons := lexemes_enclosed e es statement []
    rw [List.append_nil] at hcons
    cases e with
    | function isGenerator isAsync name =>
      cases isAsync with
      | false => exact ⟨_, _, hcons, .keyword .function⟩
      | true =>
        exact ⟨_, _, hcons, variable_ne nameAsync nofun, variable_ne nameAsync nofun, fun _ =>
          variable_ne nameAsync nofun⟩
    | staticBlock name => exact ⟨_, _, hcons, .keyword .class⟩

section

variable {c : Context} {isModule : Bool} {item : List Lexeme} {valid : Context → Prop} {first : Lexeme}

theorem item_notString (hfirst : item = first :: rest) (hbegins : BeginsItem first) {t : State}
    (ht : t.Faces (item ++ ls)) : t.token.isString = false := by
  subst hfirst
  exact isString_of_kind fun legacy h => hbegins.string_ne legacy (ht.kind.symm.trans h)

/-- A list that is the statement. -/
theorem ItemDecided.list (h : ItemDecided isModule item valid) (hfirst : item = first :: rest)
    (hbegins : BeginsItem first)
    (hmodule : s.isModule = isModule) (hattached : s.attachedLabels = 0) (hend : EndsList ls)
    (hs : s.Faces (item ++ ls)) :
    Decided s (valid s.context) ls (fun _ => True) (statementList (derive levels) topLevel s) := by
  have hitem := h levels topLevel s ls hmodule hattached hs
  rw [hfirst, List.cons_append] at hs
  exact statementList_single hs ⟨hbegins.end_ne, hbegins.close_ne⟩ hend hitem

/-- A body that is the statement. -/
theorem ItemDecided.body (h : ItemDecided isModule item valid) (hfirst : item = first :: rest)
    (hbegins : BeginsItem first) (hmodule : s.isModule = isModule) :
    BodyDecided s c (valid c) item (.punctuator .closeBrace :: ls) (statementList (derive levels) false) := by
  intro t hcontext _ hattached hmodule' ht
  subst hcontext
  exact h.list hfirst hbegins (hmodule'.trans hmodule) hattached rfl ht

end

/-- A statement inside enclosures is valid if their names may be bound and it is valid in the innermost context. -/
theorem enclosures_decided {isModule : Bool} {statement : List Piece} {valid : Context → Prop} {first : Lexeme}
    (hfirst : lexemes statement = first :: rest) (hbegins : BeginsItem first)
    (h : ItemDecided isModule (lexemes statement) valid) (es : List Enclosure) :
    ItemDecided isModule (lexemes (enclosedPieces es statement)) fun c => ValidInside isModule valid c es := by
  induction es with
  | nil => exact h
  | cons e es ih =>
    intro levels topLevel s ls hmodule _ hs
    rw [lexemes_enclosed] at hs
    obtain ⟨l, more, hl, hbegun⟩ := enclosed_begins hfirst hbegins es
    refine derive_decided (p := .statementListItem topLevel) fun n _ => ?_
    subst hmodule
    cases e with
    | function isGenerator isAsync name =>
      have hs : s.deepened.Faces ((if isAsync then [.word nameAsync.toWord] else []) ++ .word Keyword.function.word ::
          ((if isGenerator then [.punctuator .star] else []) ++ .word name.toWord :: .punctuator .openParen ::
            .punctuator .closeParen :: .punctuator .openBrace ::
              (lexemes (enclosedPieces es statement) ++ .punctuator .closeBrace :: ls))) := by
        cases isAsync <;> cases isGenerator <;> exact hs.of_eq rfl rfl
      refine functionEnclosure_decided hs fun t ht => noParameters_decided (by decide) ht.faces
        (fun _ => item_notString hl hbegun) ?_
      exact ih.body hl hbegun ht.isModule
    | staticBlock name =>
      exact staticBlockEnclosure_decided (s := s.deepened) (hs.of_eq rfl rfl) fun n => ih.body hl hbegun rfl

/-! ## The statement -/

theorem arrowStatement_lexemes (isAsync enclosed : Bool) (x : Variable) (ls : List Lexeme) :
    lexemes (arrowStatement isAsync enclosed x) ++ ls = .punctuator .openParen ::
      (lexemes (arrowPieces isAsync enclosed x) ++ .punctuator .closeParen :: .punctuator .semicolon :: ls) := by
  change _ :: (lexemes (arrowPieces isAsync enclosed x ++ _) ++ ls) = _
  rw [lexemes_append, List.append_assoc]
  rfl

theorem arrowPieces_begin (isAsync enclosed : Bool) (x : Variable) : ∃ first rest,
    lexemes (arrowPieces isAsync enclosed x) = first :: rest ∧ first.kind ≠ .punctuator .closeParen ∧
      first.kind ≠ .punctuator .ellipsis := by
  cases isAsync <;> cases enclosed
  · exact ⟨_, _, rfl, variable_ne x nofun, variable_ne x nofun⟩
  · exact ⟨_, _, rfl, nofun, nofun⟩
  all_goals exact ⟨_, _, rfl, variable_ne nameAsync nofun, variable_ne nameAsync nofun⟩

/-- The statement is valid if its arrow function may have the parameter. -/
theorem arrowStatement_decided (isModule isAsync enclosed : Bool) (x : Variable) :
    ItemDecided isModule (lexemes (arrowStatement isAsync enclosed x)) fun c =>
      c.TakesParameter isAsync enclosed x := by
  intro levels topLevel s ls _ hattached hs
  rw [arrowStatement_lexemes] at hs
  obtain ⟨first, rest, hfirst, hclose, hrest⟩ := arrowPieces_begin isAsync enclosed x
  refine derive_decided (p := .statementListItem topLevel) fun n _ => ?_
  refine listItem_decided (s := s.deepened) (hs.of_eq rfl rfl) rfl (derive_decided (p := .statement) fun m _ => ?_)
  have hfaces : s.deepened.deepened.Faces (.punctuator .openParen :: (lexemes (arrowPieces isAsync enclosed x) ++
      .punctuator .closeParen :: .punctuator .semicolon :: ls)) := hs.of_eq rfl rfl
  have hdetached : s.deepened.deepened.detached = s.deepened.deepened := detached_eq hattached
  have hexpression : Decided s.deepened.deepened (s.context.TakesParameter isAsync enclosed x)
      (.punctuator .semicolon :: ls) (fun e => e.shorthand? = none)
      (derive m (.assignment true) s.deepened.deepened) := by
    rw [hfirst] at hfaces
    refine enclosed_decided (.inl rfl) hfaces hclose hrest fun k t hcontext _ ht => ?_
    have ht : t.Faces
        (lexemes (arrowPieces isAsync enclosed x) ++ .punctuator .closeParen :: .punctuator .semicolon :: ls) := by
      rw [hfirst]
      exact ht
    have harrow : Decided t (t.context.TakesParameter isAsync enclosed x)
      (.punctuator .closeParen :: .punctuator .semicolon :: ls)
        (Summary.Is .arrow false) (derive k (.assignment true) t) := arrowFunction_decided rfl (by decide) ht
    rw [show t.context = s.context from hcontext] at harrow
    exact harrow.imp fun _ e he => he.none_iff.mpr rfl
  rw [show expand (derive m) .statement s.deepened.deepened = _ from expandStatement_expression hfaces (.inl rfl),
    hdetached]
  exact (expressionStatement_decided hexpression (w := True) fun e he => iff_of_true he trivial).iff
    (iff_of_eq (and_true _))

/-- The state is at the start of the code, in the context and with no label attached to it. -/
structure State.Starts (s : State) (isModule : Bool) (c : Context) (ls : List Lexeme) : Prop where
  context : s.context = c
  isModule : s.isModule = isModule
  attachedLabels : s.attachedLabels = 0
  faces : s.Faces ls

/-- A directive before the code makes it strict, and without it the code is what it is. -/
theorem directives_starts {strict : Bool} {isModule : Bool} {c : Context}
    (hs : s.Starts isModule c ((if strict then [.literal useStrict, .punctuator .semicolon] else []) ++ ls))
    (hstring : ∀ t : State, t.Faces ls → t.token.isString = false) :
    Concluded True (fun _ t => t.Starts isModule { c with strict := c.strict || strict } ls)
      (directives (derive levels) s) := by
  cases strict with
  | false =>
    refine Concluded.imp (directives_none hs.faces (hstring s hs.faces)) fun _ _ t ht => ?_
    rw [Bool.or_false]
    exact ⟨ht.1.context.trans hs.context, ht.1.isModule.trans hs.isModule,
      ht.1.attachedLabels.trans hs.attachedLabels, ht.1.faces⟩
  | true =>
    refine Concluded.imp (directives_useStrict_reaches hs.faces hstring) fun _ _ t ht => ?_
    rw [Bool.or_true]
    exact ⟨ht.context.trans (congrArg (fun c : Context => { c with strict := true }) hs.context),
      ht.isModule.trans hs.isModule, ht.attachedLabels.trans hs.attachedLabels, ht.faces⟩

/-- The context of a program behind its directives. -/
def programContext (isModule strict : Bool) : Context :=
  { Context.ofProgram isModule with strict := isModule || strict }

end Grammar

open Grammar

variable {options : Options} {strict : Bool} {es : List Enclosure}

/-- A statement inside enclosures is accepted if their names may be bound and it is valid in the innermost context. -/
theorem enclosed_accepted_iff {statement : List Piece} {valid : Context → Prop} {first : Lexeme} {rest : List Lexeme}
    (hsound : ∀ rest, Sound (statement ++ rest) = Sound rest) (hfirst : lexemes statement = first :: rest)
    (hbegins : BeginsItem first) (h : ItemDecided (options.sourceType = .module) (lexemes statement) valid)
    (hdeep : ∀ r,
      checkBuffer options (Utf8.encode (printed (codePieces strict (enclosedPieces es statement)))) ≠ .tooDeep r) :
    checkBuffer options (Utf8.encode (printed (codePieces strict (enclosedPieces es statement)))) = .ok ↔
      ValidInside (options.sourceType = .module) valid (programContext (options.sourceType = .module) strict) es := by
  have hstatement : Sound (enclosedPieces es statement) = true := by
    have hnothing := sound_enclosed hsound es []
    rwa [List.append_nil] at hnothing
  have hcode : Sound (codePieces strict (enclosedPieces es statement)) = true := by cases strict <;> exact hstatement
  obtain ⟨l, more, hl, hbegun⟩ := enclosed_begins hfirst hbegins es
  have hitem := enclosures_decided hfirst hbegins h es
  refine checkBuffer_printedAs hcode hdeep fun s hs => ?_
  have hstarts : s.Starts (options.sourceType = .module) (Context.ofProgram (options.sourceType = .module))
      ((if strict then [.literal useStrict, .punctuator .semicolon] else []) ++
        lexemes (enclosedPieces es statement)) := by
    refine ⟨hs.context, hs.isModule, hs.attachedLabels, ?_⟩
    cases strict <;> exact hs.faces
  have hfaces {t : State} (ht : t.Faces (lexemes (enclosedPieces es statement))) :
      t.Faces (lexemes (enclosedPieces es statement) ++ []) := by
    rwa [List.append_nil]
  have hstring (t : State) (ht : t.Faces (lexemes (enclosedPieces es statement))) : t.token.isString = false :=
    item_notString hl hbegun (hfaces ht)
  refine program_concluded (directives_starts hstarts hstring) fun t ht => ?_
  have hlist : Decided t (ValidInside (options.sourceType = .module) valid t.context es) [] (fun _ => True)
      (statementList (derive options.maxDepth) true t) :=
    hitem.list hl hbegun ht.isModule ht.attachedLabels trivial (hfaces ht.faces)
  rwa [ht.context] at hlist

/-- An arrow function of one parameter inside enclosures is accepted if their names may be bound and it may have the
parameter there. -/
theorem arrowProgram_accepted_iff {isAsync enclosed : Bool} {x : Variable}
    (hdeep : ∀ r, checkBuffer options (Utf8.encode (arrowProgram strict es isAsync enclosed x)) ≠ .tooDeep r) :
    checkBuffer options (Utf8.encode (arrowProgram strict es isAsync enclosed x)) = .ok ↔
      ValidInside (options.sourceType = .module) (fun c => c.TakesParameter isAsync enclosed x)
        (programContext (options.sourceType = .module) strict) es :=
  enclosed_accepted_iff (sound_arrowStatement isAsync enclosed x)
    ((List.append_nil _).symm.trans (arrowStatement_lexemes isAsync enclosed x [])) .openParen
    (arrowStatement_decided _ isAsync enclosed x) hdeep

/-- Both spellings of an arrow function are accepted in the same programs, unless they nest too deep; only an async one
must not call its parameter `await` without parentheses. -/
theorem arrow_spellings_agree (isAsync : Bool) (x : Variable)
    (hdeep : ∀ enclosed r,
      checkBuffer options (Utf8.encode (arrowProgram strict es isAsync enclosed x)) ≠ .tooDeep r) :
    checkBuffer options (Utf8.encode (arrowProgram strict es isAsync false x)) = .ok ↔
      checkBuffer options (Utf8.encode (arrowProgram strict es isAsync true x)) = .ok ∧
        (isAsync = true → x.name ≠ "await") := by
  rw [arrowProgram_accepted_iff (hdeep false), arrowProgram_accepted_iff (hdeep true), ← validInside_and]
  unfold Context.TakesParameter
  simp

theorem arrow_spellings_agree_enclosed :
    (∀ enclosed r, checkBuffer ⟨.module, 64⟩ (Utf8.encode
      (arrowProgram true [.function true false nameF, .staticBlock nameX] true enclosed nameA)) ≠ .tooDeep r) ∧
    checkBuffer ⟨.module, 64⟩ (Utf8.encode
      (arrowProgram true [.function true false nameF, .staticBlock nameX] true false nameA)) = .ok := by
  have hok (enclosed : Bool) : checkBuffer ⟨.module, 64⟩ (Utf8.encode
      (arrowProgram true [.function true false nameF, .staticBlock nameX] true enclosed nameA)) = .ok := by
    cases enclosed <;> decide +kernel
  have hdeep (enclosed : Bool) (r : ErrorRecord) : checkBuffer ⟨.module, 64⟩ (Utf8.encode
      (arrowProgram true [.function true false nameF, .staticBlock nameX] true enclosed nameA)) ≠ .tooDeep r := by
    rw [hok enclosed]
    exact Outcome.noConfusion
  exact ⟨hdeep, (arrow_spellings_agree true nameA hdeep).mpr ⟨hok true, fun _ => by decide⟩⟩

/-- The name of a parameter that an async function must not have. -/
def nameAwait : Variable :=
  .plain "await".toList (by decide +kernel) (by decide)

/-- In sloppy code of a script `(async (await) => 0);` is accepted, and `(async await => 0);` is not. -/
theorem await_in_parentheses :
    checkBuffer ⟨.script, 64⟩ (Utf8.encode (arrowProgram false [] true true nameAwait)) = .ok ∧
      checkBuffer ⟨.script, 64⟩ (Utf8.encode (arrowProgram false [] true false nameAwait)) ≠ .ok := by
  decide +kernel

end EcmaCheck
