import EcmaCheck.Proofs.Printed.Operand

/-!
# Functions and lists of statements that are printed

Lists of statements are decided one statement after the other (`items_decided`), and functions by their bodies, in the
contexts that they give them.
-/

namespace EcmaCheck.Grammar

variable {α : Type} {s t : State} {v : Prop} {l : Lexeme} {ls ms : List Lexeme} {nested : Derivation}

/-! ## Statement lists -/

/-- Statements up to a token of which `ends` is true. -/
theorem items_decided {ι : Type} {topLevel : Bool} (ends : Token → Bool) (items : List ι) (lexemes : ι → List Lexeme)
    (valid : ι → Prop) (hitem : ∀ i ∈ items, ∀ t ms, s.Reaches t (lexemes i ++ ms) →
      Decided t (valid i) ms (fun _ => True) (nested (.statementListItem topLevel) t))
    (hbegin : ∀ i ∈ items, ∀ t : State, ∀ ms, t.Faces (lexemes i ++ ms) → ends t.token = false)
    (hend : ∀ t : State, t.Faces ls → ends t.token = true) (hs : s.Faces (items.flatMap lexemes ++ ls)) :
    Decided s (∀ i ∈ items, valid i) ls (fun _ => True) ((loop () fun _ => do
      let t ← token
      if ends t then return .done ()
      nested (.statementListItem topLevel)
      return .again () : Recognizer Unit) s) := by
  refine .loop fun n => ?_
  suffices hlist : ∀ t, s.Reaches t (items.flatMap lexemes ++ ls) →
      Decided s (∀ i ∈ items, valid i) ls (fun _ => True) (repeatTurns (fun _ => do
        let t ← token
        if ends t then return .done ()
        nested (.statementListItem topLevel)
        return .again () : Unit → Recognizer (Turn Unit Unit)) n () t) from hlist s (.refl hs)
  clear hs
  induction items generalizing n with
  | nil =>
    intro t ht
    refine .done (b := ()) (u := t) ?_ ⟨nofun, ht, trivial⟩ n
    rw [token_bind, hend t ht.faces, if_pos rfl]
    rfl
  | cons i items ih =>
    intro t ht
    rw [List.flatMap_cons, List.append_assoc] at ht
    refine (Decided.again ht.toAgrees (R := fun _ => True) (v := valid i)
      (k := items.flatMap lexemes ++ ls) ?_ ?_ n).iff
      List.forall_mem_cons.symm
    · rw [token_bind, hbegin i List.mem_cons_self t _ ht.faces, if_neg Bool.false_ne_true]
      refine Decided.andThen (.refl t) (hitem i List.mem_cons_self t _ ht) fun _ u _ hu _ => ?_
      exact ⟨trivial, hu, (), rfl, trivial⟩
    · intro _ u m _ hu _
      exact ih (fun j hj => hitem j (List.mem_cons_of_mem i hj))
        (fun j hj => hbegin j (List.mem_cons_of_mem i hj)) m u hu

/-- What a list of statements ends before. -/
def EndsList : List Lexeme → Prop
  | [] => True
  | l :: _ => l.kind = .punctuator .closeBrace

/-- Whether the token is one that a list of statements ends before. -/
def endsList (t : Token) : Bool :=
  t.isEnd || t.isPunctuator .closeBrace

theorem endsList_of_faces (hs : s.Faces ls) (h : EndsList ls) : endsList s.token = true := by
  cases ls with
  | nil =>
    have hkind : s.token.kind = .endOfInput := hs
    unfold endsList Token.isEnd
    rw [hkind]
    rfl
  | cons l ls =>
    have hkind : l.kind = .punctuator .closeBrace := h
    unfold endsList
    rw [isPunctuator_of_kind hs.kind, hkind]
    exact Bool.or_true _

theorem endsList_eq_false {t : Token} (h : t.kind ≠ .endOfInput ∧ t.kind ≠ .punctuator .closeBrace) :
    endsList t = false := by
  unfold endsList
  rw [isPunctuator_of_kind rfl, decide_eq_false h.2, Bool.or_false]
  unfold Token.isEnd
  split
  · exact absurd ‹_› h.1
  · rfl

/-- Statements that follow each other are decided one by one. -/
theorem statementList_decided {ι : Type} {topLevel : Bool} (items : List ι) (lexemes : ι → List Lexeme)
    (valid : ι → Prop) (hitem : ∀ i ∈ items, ∀ t ms, s.Reaches t (lexemes i ++ ms) →
      Decided t (valid i) ms (fun _ => True) (nested (.statementListItem topLevel) t))
    (hbegin : ∀ i ∈ items, ∃ l rest, lexemes i = l :: rest ∧ l.kind ≠ .endOfInput ∧ l.kind ≠ .punctuator .closeBrace)
    (hend : EndsList ls) (hs : s.Faces (items.flatMap lexemes ++ ls)) :
    Decided s (∀ i ∈ items, valid i) ls (fun _ => True) (statementList nested topLevel s) := by
  refine items_decided endsList items lexemes valid hitem ?_ (fun t ht => endsList_of_faces ht hend) hs
  intro i hi t ms ht
  obtain ⟨l, rest, hl, hgoes⟩ := hbegin i hi
  rw [hl, List.cons_append] at ht
  exact endsList_eq_false (by rwa [ht.kind])

/-- A list of one statement. -/
theorem statementList_single {topLevel : Bool} (hs : s.Faces (l :: ms))
    (hgoes : l.kind ≠ .endOfInput ∧ l.kind ≠ .punctuator .closeBrace) (hend : EndsList ls)
    (hitem : Decided s v ls (fun _ => True) (nested (.statementListItem topLevel) s)) :
    Decided s v ls (fun _ => True) (statementList nested topLevel s) := by
  refine .loop fun turns => (Decided.again (v := v) (w := True) (k := ls) (R := fun _ => True) (.refl s) ?_
    (fun _ u m _ hu _ => ?_) turns).iff (iff_of_eq (and_true v))
  · have hgoes : (s.token.isEnd || s.token.isPunctuator .closeBrace) = false :=
      endsList_eq_false (by rwa [hs.kind])
    rw [token_bind, hgoes, if_neg Bool.false_ne_true]
    exact Decided.andThen (.refl s) hitem fun _ u _ hu _ => ⟨trivial, hu, (), rfl, trivial⟩
  · refine .done (b := ()) (u := u) ?_ ⟨trivial, hu, trivial⟩ m
    have hends : (u.token.isEnd || u.token.isPunctuator .closeBrace) = true := endsList_of_faces hu.faces hend
    rw [token_bind, hends, if_pos rfl]
    rfl

/-! ## Bodies -/

theorem isString_of_kind {t : Token} (h : ∀ legacy, t.kind ≠ .string legacy) : t.isString = false := by
  unfold Token.isString
  cases hkind : t.kind with
  | string legacy => exact absurd hkind (h legacy)
  | _ => rfl

/-- A list that does not begin with a string has no directives. -/
theorem directives_none (hs : s.Faces ls) (hstring : s.token.isString = false) :
    Decided s True ls (· = {}) (directives nested s) := by
  refine .loop (.done (b := {}) (u := s) ?_ ⟨trivial, .refl hs, rfl⟩)
  rw [token_bind]
  unfold Token.isString at hstring
  cases hkind : s.token.kind with
  | string legacy =>
    rw [hkind] at hstring
    cases hstring
  | _ => rfl

theorem functionBody_decided {close : LexicalGoal} (hclose : close ≠ .templateTail)
    (hs : s.Faces (.punctuator .openBrace :: (ms ++ .punctuator .closeBrace :: ls)))
    (hstring : ∀ t : State, t.Faces (ms ++ .punctuator .closeBrace :: ls) → t.token.isString = false)
    (hbody : ∀ t, s.Reaches t (ms ++ .punctuator .closeBrace :: ls) →
      Decided t v (.punctuator .closeBrace :: ls) (fun _ => True) (statementList nested false t)) (simple : Bool) :
    Decided s v ls (fun _ => True) (functionBody nested simple close s) := by
  unfold functionBody
  refine .expect (.refl hs) fun t ht => ?_
  refine .call ht.toAgrees (directives_none ht.faces (hstring t ht.faces)) fun d u hu hd => ?_
  refine Decided.andThen hu.toAgrees (hbody u hu) fun _ w _ hw _ => ?_
  subst hd
  exact .lastExpectWith hw hclose

/-- The state at the start of a function, which brings its own context and hides the labels around it. -/
def State.inside (s : State) (c : Context) : State :=
  { s with context := c, labels := [], attachedLabels := 0 }

theorem faces_inside (hs : s.Faces ls) (c : Context) : (s.inside c).Faces ls :=
  hs.of_eq rfl rfl

/-- A body that changes its own context. -/
theorem inFunctionContext_decidedIn {c : Context} (d : Context) {body : Recognizer α} {R : α → Prop}
    (h : Decided (s.inside d) v ls R (body (s.inside c))) : Decided s v ls R (inFunctionContext c body s) := by
  have hrun : inFunctionContext c body s = (body >>= fun result => do
      modify fun t =>
        { t with context := s.context, labels := s.labels, attachedLabels := s.attachedLabels }
      return result) (s.inside c) := rfl
  rw [hrun]
  refine .iff ?_ (iff_of_eq (and_true v))
  refine Decided.restore h (fun u hu => ⟨?_, hu.isModule⟩) (fun u => ⟨rfl, rfl⟩) fun a u _ hu ha => ?_
  · exact Surroundings.ext rfl rfl rfl hu.classDepth hu.depth
  · exact ⟨trivial, hu, ha⟩

theorem inFunctionContext_decided {c : Context} {body : Recognizer α} {R : α → Prop}
    (h : Decided (s.inside c) v ls R (body (s.inside c))) : Decided s v ls R (inFunctionContext c body s) :=
  inFunctionContext_decidedIn c h

/-! ## Functions -/

theorem parameters_none (hs : s.Faces (.punctuator .openParen :: .punctuator .closeParen :: ls)) :
    Decided s True ls (· = {}) (parameters nested s) := by
  refine .expect (.refl hs) fun t ht => ?_
  have hdone : Decided t True (.punctuator .closeParen :: ls) (· = {}) ((loop ({} : Parameters) fun ps => do
      if ← isAt .closeParen then return .done ps
      if ← eat .ellipsis then
        bindingTarget nested false
        requireLast .closeParen .restParameterNotLast
        return .done ⟨ps.count + 1, false, true⟩
      let isPlain ← bindingElement nested false
      unless ← isAt .closeParen do expect .comma
      return .again ⟨ps.count + 1, ps.simple && isPlain, ps.rest⟩ : Recognizer Parameters) t) := by
    refine .loop (.done (b := {}) (u := t) ?_ ⟨trivial, .refl ht.faces, rfl⟩)
    rw [isAt_bind, isPunctuator_of_kind ht.kind, if_pos (by rfl)]
    rfl
  refine .call ht.toAgrees hdone fun ps u hu hps => ?_
  exact .expect hu fun w hw => ⟨trivial, hw, hps⟩

theorem Context.inBody_plain {c : Context} (h : c.Plain) : c.inBody false false = c :=
  Context.ext rfl rfl h.yield.symm rfl h.await.symm rfl rfl rfl rfl rfl rfl rfl

/-- The state in the body of a function, from that of its parameters. -/
def State.inBody (s : State) (isGenerator isAsync : Bool) : State :=
  { s with context := s.context.inBody isGenerator isAsync }

section

variable {isAsync isGenerator : Bool} {w : Prop} {close : LexicalGoal} {R : Parameters → Prop}

/-- The parameters and the body of a function. -/
theorem parametersAndBody_decidedIn (hparameters : Decided s w ms R (parameters nested s))
    (hbody : ∀ (ps : Parameters) (t : State), (s.inBody isGenerator isAsync).Reaches t ms →
      Decided t v ls (fun _ => True) (functionBody nested ps.simple close t)) :
    Decided (s.inBody isGenerator isAsync) (w ∧ v) ls (fun _ => True)
      (parametersAndBody nested ⟨isAsync, isGenerator, none⟩ close s) := by
  unfold parametersAndBody
  rw [token_bind]
  refine Concluded.bind hparameters fun ps t _ ht => ?_
  have hreaches : (s.inBody isGenerator isAsync).Reaches (t.inBody isGenerator isAsync) ms := by
    refine ⟨⟨?_, ht.1.isModule⟩, ht.1.faces.of_eq rfl rfl⟩
    exact Surroundings.ext (congrArg (Context.inBody · isGenerator isAsync) ht.1.context) ht.1.labels
      ht.1.attachedLabels ht.1.classDepth ht.1.depth
  exact Decided.of_agrees hreaches.toAgrees (hbody ps _ hreaches)

/-- The parameters and the body of a function that is neither a generator nor asynchronous. -/
theorem parametersAndBody_decided (hparameters : Decided s w ms R (parameters nested s)) (hplain : s.context.Plain)
    (hbody : ∀ (ps : Parameters) (t : State), s.Reaches t ms →
      Decided t v ls (fun _ => True) (functionBody nested ps.simple close t)) :
    Decided s (w ∧ v) ls (fun _ => True) (parametersAndBody nested ⟨false, false, none⟩ close s) := by
  have hsame : s.inBody false false = s := by
    unfold State.inBody
    rw [Context.inBody_plain hplain]
  rw [← hsame] at hbody
  have hdecided := parametersAndBody_decidedIn hparameters hbody
  rwa [hsame] at hdecided

end

theorem identifier?_variable {x : Variable} (hs : s.Faces (.word x.toWord :: ls)) :
    identifier? s.token = some ⟨x.name, x.value.escaped, s.token.start⟩ := by
  unfold identifier?
  rw [hs.kind.trans x.kind_eq]

theorem identifier?_of_kind {t : Token} (h : t.isIdentifier = false) : identifier? t = none := by
  unfold Token.isIdentifier at h
  unfold identifier?
  cases hkind : t.kind with
  | identifier => rw [hkind] at h; cases h
  | _ => rfl

/-- The statements of a body, in whatever state of the function's own context they begin. -/
def BodyDecided (s : State) (c : Context) (v : Prop) (ms ls : List Lexeme) (body : Recognizer α) : Prop :=
  ∀ t : State, t.context = c → t.labels = [] → t.attachedLabels = 0 → t.isModule = s.isModule →
    t.Faces (ms ++ ls) → Decided t v ls (fun _ => True) (body t)

/-- A function without parameters, from its parentheses on. -/
theorem noParameters_decided {c : Context} {isAsync isGenerator : Bool} {close : LexicalGoal}
    (hclose : close ≠ .templateTail)
    (hs : s.Faces (.punctuator .openParen :: .punctuator .closeParen :: .punctuator .openBrace ::
      (ms ++ .punctuator .closeBrace :: ls)))
    (hstring : ∀ t : State, t.Faces (ms ++ .punctuator .closeBrace :: ls) → t.token.isString = false)
    (hbody : BodyDecided s (c.inBody isGenerator isAsync) v ms (.punctuator .closeBrace :: ls)
      (statementList nested false)) :
    Decided s v ls (fun _ => True)
      (inFunctionContext c (parametersAndBody nested ⟨isAsync, isGenerator, none⟩ close) s) := by
  refine inFunctionContext_decidedIn (c.inBody isGenerator isAsync) ?_
  refine (parametersAndBody_decidedIn (parameters_none (faces_inside hs c)) fun ps t ht => ?_).iff
    (iff_of_eq (true_and v))
  refine functionBody_decided hclose ht.faces hstring (fun u hu => ?_) _
  have hagrees := ht.toAgrees.trans hu.toAgrees
  exact hbody u hagrees.context hagrees.labels hagrees.attachedLabels hagrees.isModule hu.faces

theorem plainFunction_decided {c : Context} {close : LexicalGoal} (hclose : close ≠ .templateTail) (hplain : c.Plain)
    (hs : s.Faces (.punctuator .openParen :: .punctuator .closeParen :: .punctuator .openBrace ::
      (ms ++ .punctuator .closeBrace :: ls)))
    (hstring : ∀ t : State, t.Faces (ms ++ .punctuator .closeBrace :: ls) → t.token.isString = false)
    (hbody : BodyDecided s c v ms (.punctuator .closeBrace :: ls) (statementList nested false)) :
    Decided s v ls (fun _ => True)
      (inFunctionContext c (parametersAndBody nested ⟨false, false, none⟩ close) s) :=
  noParameters_decided hclose hs hstring (by rwa [Context.inBody_plain hplain])

/-- A function declaration, which binds its name. -/
theorem functionDeclaration_decided {isAsync isGenerator : Bool} {name : Variable} {rest : List Lexeme}
    (hs : s.Faces (.word Keyword.function.word :: ((if isGenerator then [.punctuator .star] else []) ++
      .word name.toWord :: rest)))
    (hinner : ∀ t, s.Reaches t rest → Decided t v ls (fun _ => True)
      (inFunctionContext (.ofFunction s.context.strict s.isModule isGenerator isAsync)
        (parametersAndBody nested ⟨isAsync, isGenerator, none⟩ .regExp) t)) :
    Decided s (s.context.forbids true name.name = false ∧ v) ls (fun _ => True)
      (functionDeclaration nested isAsync s) := by
  refine .discard (R := fun _ => True) (.refl s) ?_
  unfold function
  rw [token_bind]
  refine .advance (.refl hs) fun t ht => ?_
  obtain ⟨u, hstar, hu⟩ : ∃ u, eat .star t = .ok isGenerator u ∧ s.Reaches u (.word name.toWord :: rest) := by
    cases isGenerator with
    | false =>
      have hkind : t.token.kind = .identifier name.name name.value.escaped := ht.kind.trans name.kind_eq
      exact ⟨t, eat_of_not (isPunctuator_of_kind hkind .star), ht⟩
    | true => exact eat_reaches ht
  rw [bind_of_ok hstar, get_bind, identifier?_variable hu.faces]
  dsimp only
  rw [if_pos rfl, if_pos rfl, hu.context, hu.isModule]
  have hname : Decided u (s.context.forbids true name.name = false) (.word name.toWord :: rest) (fun _ => True)
      (failIf (s.context.bindingError? false ⟨name.name, name.value.escaped, u.token.start⟩) u.token.start u) :=
    (failIf_decided hu.faces _ _).iff bindingError?_free
  refine Decided.bind hu.toAgrees hname fun _ w _ hw _ => ?_
  refine .advance hw fun x hx => ?_
  exact Decided.andThen hx.toAgrees (hinner x hx) fun _ y _ hy _ => ⟨trivial, hy, trivial⟩

/-- A function expression without a name and without parameters. -/
theorem function_decided (hs : s.Faces (.word Keyword.function.word :: .punctuator .openParen ::
      .punctuator .closeParen :: .punctuator .openBrace :: (ms ++ .punctuator .closeBrace :: ls)))
    (hstring : ∀ t : State, t.Faces (ms ++ .punctuator .closeBrace :: ls) → t.token.isString = false)
    (hbody : BodyDecided s (.ofFunction s.context.strict s.isModule false false) v ms
      (.punctuator .closeBrace :: ls) (statementList nested false)) :
    Decided s v ls (Summary.Is .other false) (function nested false false false s) := by
  unfold function
  rw [token_bind]
  refine .advance (.refl hs) fun t ht => ?_
  have hstar : t.token.isPunctuator .star = false := isPunctuator_of_kind ht.kind .star
  have hname : identifier? t.token = none := identifier?_of_kind (by
    unfold Token.isIdentifier
    rw [ht.kind]
    rfl)
  rw [bind_of_ok (eat_of_not hstar), get_bind, hname]
  dsimp only
  rw [if_neg Bool.false_ne_true, if_neg Bool.false_ne_true, ht.context, ht.isModule]
  have hinner : Decided t v ls (fun _ => True) (inFunctionContext (.ofFunction s.context.strict s.isModule false false)
      (parametersAndBody nested ⟨false, false, none⟩ .division) t) :=
    plainFunction_decided (by decide) ⟨rfl, rfl⟩ ht.faces hstring
    fun u hcontext hlabels hattached hmodule hu => hbody u hcontext hlabels hattached (hmodule.trans ht.isModule) hu
  refine Decided.andThen ht.toAgrees hinner fun _ u _ hu _ => ?_
  exact ⟨trivial, hu, rfl, rfl⟩

/-! ## Parentheses and arrow functions -/

/-- One item in parentheses that is no rest. -/
theorem parenthesizedList_single {R : Summary → Prop} {first : Lexeme}
    (hs : s.Faces (.punctuator .openParen :: first :: ms)) (hclose : first.kind ≠ .punctuator .closeParen)
    (hrest : first.kind ≠ .punctuator .ellipsis)
    (hitem : ∀ t, s.Reaches t (first :: ms) →
      Decided t v (.punctuator .closeParen :: ls) R (nested (.assignment true) t)) (call : Bool) :
    Decided s v ls (fun list => ∃ e, R e ∧ list = ({} : ParenthesizedList).push e)
      (parenthesizedList nested call s) := by
  unfold parenthesizedList
  refine .expect (.refl hs) fun t ht => ?_
  have hnot : t.token.isPunctuator .closeParen = false :=
    (isPunctuator_of_kind ht.kind .closeParen).trans (decide_eq_false hclose)
  have hplain : t.token.isPunctuator .ellipsis = false :=
    (isPunctuator_of_kind ht.kind .ellipsis).trans (decide_eq_false hrest)
  have hturn : Decided t v (.punctuator .closeParen :: ls)
      (fun r => ∃ list, r = .done list ∧ ∃ e, R e ∧ list = ({} : ParenthesizedList).push e)
      (parenthesizedItem nested call {} t) := by
    unfold parenthesizedItem
    rw [token_bind, hplain, if_neg Bool.false_ne_true]
    refine Decided.andThen (.refl t) (assignmentOrPattern_decided (hitem t ht)) fun e u _ hu he => ?_
    rw [isAt_bind, isPunctuator_of_kind hu.kind, if_pos (by rfl)]
    exact ⟨trivial, hu, _, rfl, e, he, rfl⟩
  rw [token_bind, if_neg (by rw [hnot]; exact Bool.false_ne_true)]
  refine Decided.andThen (R := fun list => ∃ e, R e ∧ list = ({} : ParenthesizedList).push e) ht.toAgrees
    (.loop (.finish ?_)) fun list u _ (hu : s.Reaches u (.punctuator .closeParen :: ls)) hlist => ?_
  · rw [isAt_bind, hnot, if_neg Bool.false_ne_true]
    exact hturn
  · exact .advance hu fun w hw => ⟨trivial, hw, hlist⟩

/-- An expression in parentheses. -/
theorem parenthesized_decided {R : Summary → Prop} {w : Prop} {first next : Lexeme}
    (hs : s.Faces (.punctuator .openParen :: first :: ms))
    (hclose : first.kind ≠ .punctuator .closeParen) (hrest : first.kind ≠ .punctuator .ellipsis)
    (harrow : next.kind ≠ .punctuator .arrow)
    (hitem : ∀ t, s.Reaches t (first :: ms) →
      Decided t v (.punctuator .closeParen :: next :: ls) R (nested (.assignment true) t))
    (hpending : ∀ e, R e → (e.shorthand? = none ↔ w)) :
    Decided s (v ∧ w) (next :: ls) (fun e => ∃ item, R item ∧ e.shape = item.shape.inParentheses ∧ e.shorthand? = none)
      (parenthesized nested s) := by
  unfold parenthesized
  rw [token_bind]
  refine Decided.bind (.refl s) (parenthesizedList_single hs hclose hrest hitem false) fun list t _ ht hlist => ?_
  obtain ⟨e, he, rfl⟩ := hlist
  have hnot : t.token.isPunctuator .arrow = false :=
    (isPunctuator_of_kind ht.kind .arrow).trans (decide_eq_false harrow)
  rw [isAtArrow_bind, hnot, Bool.false_and, if_neg Bool.false_ne_true]
  refine (Decided.bind (R := fun _ => True) ht.toAgrees ?_ fun _ u hnone (hu : s.Reaches u (next :: ls)) _ => ?_).iff
    ((iff_of_eq (and_true _)).trans (hpending e he))
  · exact rejectShorthand_decided ht.faces e
  · exact ⟨trivial, hu, e, he, rfl, rfl⟩

/-- Nothing in parentheses. -/
theorem parenthesizedList_none (hs : s.Faces (.punctuator .openParen :: .punctuator .closeParen :: ls)) :
    Decided s True ls (fun list => list.allBinding = true ∧ list.allIdentifiers = true)
      (parenthesizedList nested false s) := by
  unfold parenthesizedList
  refine .expect (.refl hs) fun t ht => ?_
  have hat : t.token.isPunctuator .closeParen = true := isPunctuator_of_kind ht.kind .closeParen
  rw [token_bind, if_pos hat]
  refine Decided.call (R := fun list => list.allBinding = true ∧ list.allIdentifiers = true) ht.toAgrees
    (.loop (.finish ?_)) fun list u (hu : s.Reaches u (.punctuator .closeParen :: ls)) hlist => ?_
  · rw [isAt_bind, hat, if_pos rfl]
    exact ⟨trivial, .refl ht.faces, _, rfl, rfl, rfl⟩
  · exact .advance hu fun w hw => ⟨trivial, hw, hlist⟩

/-- An arrow with a body in braces. -/
theorem arrowBody_decided {start : Position} {simple : Bool}
    (hs : s.Faces (.punctuator .arrow :: .punctuator .openBrace :: (ms ++ .punctuator .closeBrace :: ls)))
    (hstring : ∀ t : State, t.Faces (ms ++ .punctuator .closeBrace :: ls) → t.token.isString = false)
    (hbody : BodyDecided s (s.context.ofArrow false) v ms (.punctuator .closeBrace :: ls)
      (statementList nested false)) :
    Decided s v ls (Summary.Is .arrow false) (arrowBody nested start false simple s) := by
  unfold arrowBody
  refine .advance (.refl hs) fun t ht => ?_
  rw [context_bind]
  refine Decided.andThen (R := fun _ => True) ht.toAgrees (inFunctionContext_decided ?_)
    fun _ u _ (hu : s.Reaches u ls) _ => ?_
  · have hat : (t.inside (t.context.ofArrow false)).token.isPunctuator .openBrace = true :=
      isPunctuator_of_kind ht.kind .openBrace
    rw [isAt_bind, hat, if_pos rfl]
    refine functionBody_decided (by decide) (faces_inside ht.faces _) hstring (fun u hu => ?_) _
    refine hbody u (hu.context.trans ?_) hu.labels hu.attachedLabels (hu.isModule.trans ht.isModule) hu.faces
    exact congrArg (Context.ofArrow · false) ht.context
  · exact ⟨trivial, hu, rfl, rfl⟩

/-- An arrow function without parameters. -/
theorem emptyArrow_decided
    (hs : s.Faces (.punctuator .openParen :: .punctuator .closeParen :: .punctuator .arrow :: .punctuator .openBrace ::
      (ms ++ .punctuator .closeBrace :: ls)))
    (hstring : ∀ t : State, t.Faces (ms ++ .punctuator .closeBrace :: ls) → t.token.isString = false)
    (hbody : BodyDecided s (s.context.ofArrow false) v ms (.punctuator .closeBrace :: ls)
      (statementList nested false)) :
    Decided s v ls (Summary.Is .arrow false) (parenthesized nested s) := by
  unfold parenthesized
  rw [token_bind]
  refine .call (.refl s) (parenthesizedList_none hs) fun list t ht hlist => ?_
  have hat : (t.token.isPunctuator .arrow && !t.token.newlineBefore) = true := by
    rw [isPunctuator_of_kind ht.kind, ht.faces.line]
    rfl
  rw [isAtArrow_bind, hat, if_pos rfl, hlist.1, if_pos rfl]
  refine .of_agrees ht.toAgrees (arrowBody_decided ht.faces hstring ?_)
  intro u hcontext hlabels hattached hmodule hu
  exact hbody u (by rw [hcontext, ht.context]) hlabels hattached (hmodule.trans ht.isModule) hu

/-- An assignment expression in parentheses. -/
theorem enclosed_decided {levels : Nat} {first : Lexeme} {p : Punctuator} (hp : p = .semicolon ∨ p = .closeBrace)
    (hs : s.Faces (.punctuator .openParen :: first :: ms)) (hclose : first.kind ≠ .punctuator .closeParen)
    (hrest : first.kind ≠ .punctuator .ellipsis)
    (hitem : ∀ (n : Nat) (t : State), t.context = s.context → t.isModule = s.isModule → t.Faces (first :: ms) →
      Decided t v (.punctuator .closeParen :: .punctuator p :: ls) (fun e => e.shorthand? = none)
        (derive n (.assignment true) t)) :
    Decided s v (.punctuator p :: ls) (fun e => e.shorthand? = none) (derive levels (.assignment true) s) := by
  have hstop : (Lexeme.punctuator p).kind.stops = true := by rcases hp with rfl | rfl <;> rfl
  have hassign : (Lexeme.punctuator p).kind ≠ .punctuator .assign := by rcases hp with rfl | rfl <;> nofun
  have harrow : (Lexeme.punctuator p).kind ≠ .punctuator .arrow := by rcases hp with rfl | rfl <;> nofun
  have hnot (k : Keyword) : s.token.isKeyword k = false := isKeyword_of_kind hs.kind k
  refine assignment_of_primary (quiet_of_kind hs.kind nofun) (by rw [hs.kind]; rfl) hstop hassign (hnot _) (hnot _)
    (hnot _) fun n _ => ?_
  have hfaces : s.deepened.Faces (.punctuator .openParen :: first :: ms) := hs.of_eq rfl rfl
  rw [primary_openParen hfaces.kind]
  refine .of_agrees (agrees_noted _) (Decided.iff (Decided.imp (parenthesized_decided (w := True) (faces_noted hfaces)
    hclose hrest harrow (fun t ht => hitem n t ht.context ht.isModule ht.faces) fun e he => iff_of_true he trivial)
    fun _ e he => ?_) (iff_of_eq (and_true v)))
  obtain ⟨item, _, _, hnone⟩ := he
  exact hnone

/-- What stands in parentheses and is an operand without them. -/
theorem wrapped_decided {levels : Nat} {first : Lexeme} {p : Punctuator} (hplain : s.context.Plain)
    (hp : p = .semicolon ∨ p = .closeBrace)
    (hs : s.Faces (.punctuator .openParen :: first :: ms))
    (hfirst : first.kind = .keyword .function ∨ first.kind = .keyword .class ∨
      first.kind = .punctuator .openParen ∨ first.kind = .punctuator .openBrace)
    (hprimary : ∀ (n : Nat) (t : State), t.context = s.context → t.isModule = s.isModule →
      t.Faces (first :: ms) → Decided t v (.punctuator .closeParen :: .punctuator p :: ls)
        (fun e => e.shorthand? = none) (primary (derive n) t)) :
    Decided s v (.punctuator p :: ls) (fun e => e.shorthand? = none) (derive levels (.assignment true) s) := by
  have hne {k : TokenKind} (hk : k ≠ .keyword .function ∧ k ≠ .keyword .class ∧ k ≠ .punctuator .openParen ∧
      k ≠ .punctuator .openBrace) : first.kind ≠ k := by
    rintro rfl
    rcases hfirst with h | h | h | h
    · exact hk.1 h
    · exact hk.2.1 h
    · exact hk.2.2.1 h
    · exact hk.2.2.2 h
  refine enclosed_decided hp hs (hne (by decide)) (hne (by decide)) fun n t hcontext hmodule ht => ?_
  have hnot {k : Keyword} (hk : k ≠ .function ∧ k ≠ .class) : t.token.isKeyword k = false :=
    (isKeyword_of_kind ht.kind k).trans (decide_eq_false (hne (by simpa using hk)))
  refine assignment_of_primary (hcontext ▸ hplain).quiet ?_ rfl nofun (hnot (by decide)) (hnot (by decide))
    (hnot (by decide)) fun m _ => hprimary m t.deepened hcontext hmodule (ht.of_eq rfl rfl)
  rw [ht.kind]
  rcases hfirst with h | h | h | h <;> rw [h] <;> rfl

end EcmaCheck.Grammar
