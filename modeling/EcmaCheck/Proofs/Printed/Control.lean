import EcmaCheck.Proofs.Printed.Statement

/-!
# Control statements that are printed

Conditions, loops, `switch` and `try` statements are decided by the statements in them, in the contexts that they give
them; jumps by the loops and labels around them.
-/

namespace EcmaCheck.Grammar

variable {s t : State} {v w : Prop} {l : Lexeme} {ls ms : List Lexeme} {levels : Nat}

/-! ## What a statement begins with -/

/-- The state of a loop that has marked the labels attached to it. -/
def State.marked (s : State) : State :=
  { s.detached with labels := markIteration s.attachedLabels s.labels }

theorem Concluded.markLabels {x : Unit → Recognizer Unit} {Q : Unit → State → Prop}
    (h : Concluded v Q (x () s.marked)) :
    Concluded v Q ((Grammar.markLabels s.attachedLabels >>= x) s.detached) := by
  by_cases hn : s.attachedLabels ≤ s.labels.length
  · rw [bind_of_ok (markLabels_of_le (s := s.detached) hn)]
    exact h
  · have hfault : Grammar.markLabels s.attachedLabels s.detached = .error (.labelsMissing s.token.start) s.detached :=
      congrFun (if_pos (Nat.lt_of_not_le hn)) s.detached
    rw [bind_of_error hfault]
    exact .inl (.inr rfl)

section

variable {nested : Derivation}

theorem expandStatement_while (h : s.token.kind = .keyword .while) :
    expandStatement nested s = (markLabels s.attachedLabels >>= fun _ => whileStatement nested) s.detached := by
  unfold expandStatement
  rw [get_bind, modify_bind, token_bind, h]
  rfl

theorem expandStatement_do (h : s.token.kind = .keyword .do) :
    expandStatement nested s = (markLabels s.attachedLabels >>= fun _ => doStatement nested) s.detached := by
  unfold expandStatement
  rw [get_bind, modify_bind, token_bind, h]
  rfl

theorem expandStatement_for (h : s.token.kind = .keyword .for) :
    expandStatement nested s = (markLabels s.attachedLabels >>= fun _ => forStatement nested) s.detached := by
  unfold expandStatement
  rw [get_bind, modify_bind, token_bind, h]
  rfl

theorem expandStatement_if (h : s.token.kind = .keyword .if) :
    expandStatement nested s = ifStatement nested s.detached := by
  unfold expandStatement
  rw [get_bind, modify_bind, token_bind, h]
  rfl

theorem expandStatement_switch (h : s.token.kind = .keyword .switch) :
    expandStatement nested s = switchStatement nested s.detached := by
  unfold expandStatement
  rw [get_bind, modify_bind, token_bind, h]
  rfl

theorem expandStatement_try (h : s.token.kind = .keyword .try) :
    expandStatement nested s = tryStatement nested s.detached := by
  unfold expandStatement
  rw [get_bind, modify_bind, token_bind, h]
  rfl

theorem expandStatement_break (h : s.token.kind = .keyword .break) :
    expandStatement nested s = breakStatement s.detached := by
  unfold expandStatement
  rw [get_bind, modify_bind, token_bind, h]
  rfl

theorem expandStatement_continue (h : s.token.kind = .keyword .continue) :
    expandStatement nested s = continueStatement s.detached := by
  unfold expandStatement
  rw [get_bind, modify_bind, token_bind, h]
  rfl

theorem expandStatement_block (h : s.token.kind = .punctuator .openBrace) :
    expandStatement nested s = block nested s.detached := by
  unfold expandStatement
  rw [get_bind, modify_bind, token_bind, h]
  rfl

theorem expandStatement_empty (h : s.token.kind = .punctuator .semicolon) :
    expandStatement nested s = advanceWith .regExp s.detached := by
  unfold expandStatement
  rw [get_bind, modify_bind, token_bind, h]
  rfl

end

/-! ## Conditions -/

/-- The number that serves as a condition. -/
def zero : Literal (.number false) where
  spelling := ['0']
  opens := by decide
  reads := by rfl

theorem zero_decided {p : Punctuator} (hplain : s.context.Plain) (hp : p = .closeParen ∨ p = .colon)
    (hs : s.Faces (.literal zero :: .punctuator p :: ls)) :
    Decided s True (.punctuator p :: ls) (fun _ => True) ((Functor.discard (expression (derive levels) true) :
      Recognizer Unit) s) := by
  have hnumber : Decided s True (.punctuator p :: ls) (Summary.Is .other false) (derive levels (.assignment true) s) :=
    (assignment_number hplain.quiet hs (by rcases hp with rfl | rfl <;> rfl)
      (by rcases hp with rfl | rfl <;> nofun)).iff
      (iff_of_true (by simp) trivial)
  have hexpression := expression_decided hnumber (by rcases hp with rfl | rfl <;> nofun) (w := True)
    fun e he => iff_of_true (he.none_iff.mpr rfl) trivial
  exact (Decided.discard (.refl s) hexpression).iff (iff_of_eq (and_true True))

theorem condition_decided (hplain : s.context.Plain)
    (hs : s.Faces (.punctuator .openParen :: .literal zero :: .punctuator .closeParen :: ls)) :
    Decided s True ls (fun _ => True) (condition (derive levels) s) := by
  refine .expect (.refl hs) fun t ht => ?_
  refine .call ht.toAgrees (zero_decided (ht.context ▸ hplain) (.inl rfl) ht.faces) fun _ u hu _ => ?_
  exact .lastExpectWith hu (by decide)

/-! ## Loops -/

/-- The state inside a loop. -/
def State.looping (s : State) : State :=
  { s with context := { s.context with inIteration := true, inBreakable := true } }

theorem loopBody_decided {nested : Derivation}
    (h : Decided s.looping v ls (fun _ => True) (nested .statement s.looping)) :
    Decided s v ls (fun _ => True) (loopBody nested s) := by
  have hrun : loopBody nested s = (nested .statement >>= fun _ =>
      modify (fun t => { t with context :=
        { t.context with inIteration := s.context.inIteration, inBreakable := s.context.inBreakable } }) >>=
        fun _ => pure ()) s.looping := rfl
  rw [hrun]
  refine .iff ?_ (iff_of_eq (and_true v))
  refine Decided.restore h (fun u hu => ⟨?_, hu.isModule⟩) (fun u => ⟨rfl, rfl⟩) fun _ u _ hu _ =>
    ⟨trivial, hu, trivial⟩
  refine Surroundings.ext ?_ hu.labels hu.attachedLabels hu.classDepth hu.depth
  exact congrArg (fun c : Context =>
    { c with inIteration := s.context.inIteration, inBreakable := s.context.inBreakable }) hu.context

theorem whileStatement_decided (hplain : s.context.Plain)
    (hs : s.Faces (.word Keyword.while.word :: .punctuator .openParen :: .literal zero ::
      .punctuator .closeParen :: ms))
    (h : ∀ t, s.Reaches t ms → Decided t.looping v ls (fun _ => True) (derive levels .statement t.looping)) :
    Decided s v ls (fun _ => True) (whileStatement (derive levels) s) := by
  refine .advance (.refl hs) fun t ht => ?_
  refine .call ht.toAgrees (condition_decided (ht.context ▸ hplain) ht.faces) fun _ u hu _ => ?_
  exact .of_agrees hu.toAgrees (loopBody_decided (h u hu))

theorem doStatement_decided (hplain : s.context.Plain) (hs : s.Faces (.word Keyword.do.word :: ms))
    (h : ∀ t, s.Reaches t ms → Decided t.looping v
      (.word Keyword.while.word :: .punctuator .openParen :: .literal zero :: .punctuator .closeParen ::
        .punctuator .semicolon :: ls) (fun _ => True) (derive levels .statement t.looping)) :
    Decided s v ls (fun _ => True) (doStatement (derive levels) s) := by
  refine .advance (.refl hs) fun t ht => ?_
  refine Decided.andThen ht.toAgrees (loopBody_decided (h t ht)) fun _ u _ hu _ => ?_
  have hat : u.token.isKeyword .while = true := isKeyword_of_kind (hu.kind.trans (Keyword.kind_word .while)) .while
  rw [isAtKeyword_bind, hat, if_pos rfl]
  dsimp only
  refine .advance hu fun u hu => ?_
  refine .call hu.toAgrees (condition_decided (hu.context ▸ hplain) hu.faces) fun _ x hx _ => ?_
  have hsemicolon : x.token.isPunctuator .semicolon = true := isPunctuator_of_kind hx.kind .semicolon
  rw [isAt_bind, hsemicolon, if_pos rfl]
  exact .lastAdvance hx (by decide)

theorem forAwait_openParen (hs : s.Faces (.punctuator .openParen :: ls)) : forAwait s = .ok false s := by
  have hword : s.token.isWord "await" = false := by
    unfold Token.isWord
    rw [hs.kind]
    rfl
  unfold forAwait
  rw [isAtWord_bind, hword, if_neg Bool.false_ne_true]
  rfl

theorem forStatement_decided
    (hs : s.Faces (.word Keyword.for.word :: .punctuator .openParen :: .punctuator .semicolon ::
      .punctuator .semicolon ::
      .punctuator .closeParen :: ms))
    (h : ∀ t, s.Reaches t ms → Decided t.looping v ls (fun _ => True) (derive levels .statement t.looping)) :
    Decided s v ls (fun _ => True) (forStatement (derive levels) s) := by
  refine .advance (.refl hs) fun t ht => ?_
  rw [bind_of_ok (forAwait_openParen ht.faces)]
  refine .expect ht fun t ht => ?_
  have hfirst : t.token.isPunctuator .semicolon = true := isPunctuator_of_kind ht.kind .semicolon
  rw [isAt_bind, hfirst, if_pos rfl, if_neg Bool.false_ne_true]
  dsimp only
  refine .advance ht fun t ht => ?_
  have hsecond : t.token.isPunctuator .semicolon = true := isPunctuator_of_kind ht.kind .semicolon
  unfold forClauses
  rw [isAt_bind, hsecond, if_pos rfl]
  dsimp only
  refine .expect ht fun t ht => ?_
  have hclose : t.token.isPunctuator .closeParen = true := isPunctuator_of_kind ht.kind .closeParen
  rw [isAt_bind, hclose, if_pos rfl]
  refine .expectWith ht (by decide) fun t ht => ?_
  exact .of_agrees ht.toAgrees (loopBody_decided (h t ht))

/-! ## Branches -/

theorem branch_decided {nested : Derivation} {first : Lexeme} (hs : s.Faces (first :: ms))
    (hfirst : first.kind ≠ .keyword .function) (h : Decided s v ls (fun _ => True) (nested .statement s)) :
    Decided s v ls (fun _ => True) (branch nested s) := by
  have hnot : s.token.isKeyword .function = false :=
    (isKeyword_of_kind hs.kind .function).trans (decide_eq_false hfirst)
  unfold branch
  rw [context_bind, isAtKeyword_bind, hnot, Bool.false_and, if_neg Bool.false_ne_true]
  exact h

theorem ifStatement_decided {first second : Lexeme} {ns : List Lexeme} (hplain : s.context.Plain)
    (hs : s.Faces (.word Keyword.if.word :: .punctuator .openParen :: .literal zero :: .punctuator .closeParen ::
      first :: ms))
    (hfirst : first.kind ≠ .keyword .function) (hsecond : second.kind ≠ .keyword .function)
    (hthen : ∀ t, s.Reaches t (first :: ms) →
      Decided t v (.word Keyword.else.word :: second :: ns) (fun _ => True) (derive levels .statement t))
    (helse : ∀ t, s.Reaches t (second :: ns) → Decided t w ls (fun _ => True) (derive levels .statement t)) :
    Decided s (v ∧ w) ls (fun _ => True) (ifStatement (derive levels) s) := by
  refine .advance (.refl hs) fun t ht => ?_
  refine .call ht.toAgrees (condition_decided (ht.context ▸ hplain) ht.faces) fun _ t ht _ => ?_
  refine Decided.bind ht.toAgrees (branch_decided ht.faces hfirst (hthen t ht)) fun _ u _ hu _ => ?_
  have hat : u.token.isKeyword .else = true := isKeyword_of_kind (hu.kind.trans (Keyword.kind_word .else)) .else
  rw [isAtKeyword_bind, hat, if_pos rfl]
  refine .advance hu fun u hu => ?_
  exact .of_agrees hu.toAgrees (branch_decided hu.faces hsecond (helse u hu))

/-- The state inside a `switch` statement. -/
def State.switching (s : State) : State :=
  { s with context := { s.context with inBreakable := true } }

/-- What the statements of a clause end before. -/
def endsClause (t : Token) : Bool :=
  t.isPunctuator .closeBrace || t.isKeyword .case || t.isKeyword .default || t.isEnd

section

variable {ι : Type} (lexemes : ι → List Lexeme) (valid : ι → Prop)

/-- What begins a statement of a clause. -/
def Goes (first : Lexeme) : Prop :=
  first.kind ≠ .punctuator .closeBrace ∧ first.kind ≠ .keyword .case ∧ first.kind ≠ .keyword .default ∧
    first.kind ≠ .endOfInput

theorem endsClause_of_goes {t : Token} {first : Lexeme} (ht : t.kind = first.kind) (h : Goes first) :
    endsClause t = false := by
  obtain ⟨hbrace, hcase, hdefault, hend⟩ := h
  unfold endsClause
  rw [isPunctuator_of_kind ht, isKeyword_of_kind ht, isKeyword_of_kind ht, decide_eq_false hbrace,
    decide_eq_false hcase, decide_eq_false hdefault]
  unfold Token.isEnd
  rw [ht]
  split
  · exact absurd ‹_› hend
  · rfl

/-- One clause with its statements. -/
theorem caseClause_decided {hasDefault : Bool} (isDefault : Bool) {next : Lexeme} {ns : List Lexeme} (items : List ι)
    (hplain : s.context.Plain)
    (hs : s.Faces ((if isDefault then [.word Keyword.default.word] else [.word Keyword.case.word, .literal zero]) ++
      .punctuator .colon :: (items.flatMap lexemes ++ next :: ns)))
    (hdefault : isDefault = true → hasDefault = false)
    (hitem : ∀ i ∈ items, ∀ t ms, s.Reaches t (lexemes i ++ ms) →
      Decided t (valid i) ms (fun _ => True) (derive levels (.statementListItem false) t))
    (hbegin : ∀ i ∈ items, ∃ first rest, lexemes i = first :: rest ∧ Goes first)
    (hnext : ∀ t : Token, t.kind = next.kind → endsClause t = true) :
    Decided s (∀ i ∈ items, valid i) (next :: ns) (· = (hasDefault || isDefault))
      (caseClause (derive levels) hasDefault s) := by
  have hbody (t : State) (ht : s.Reaches t (items.flatMap lexemes ++ next :: ns)) :
      Decided t (∀ i ∈ items, valid i) (next :: ns) (fun _ => True) ((loop () fun _ => do
        let t ← token
        if endsClause t then return .done ()
        derive levels (.statementListItem false)
        return .again () : Recognizer Unit) t) := by
    refine items_decided endsClause items lexemes valid
      (fun i hi u ms hu => hitem i hi u ms (.of_agrees ht.toAgrees hu)) ?_
      (fun u hu => hnext _ hu.kind) ht.faces
    intro i hi u ms hu
    obtain ⟨first, rest, hfirst, hgoes⟩ := hbegin i hi
    rw [hfirst] at hu
    exact endsClause_of_goes hu.kind hgoes
  unfold caseClause
  rw [token_bind]
  cases isDefault with
  | true =>
    have hkind : s.token.kind = .keyword .default := hs.kind.trans (Keyword.kind_word .default)
    have hcase : s.token.isKeyword .case = false := isKeyword_of_kind hkind .case
    have hat : s.token.isKeyword .default = true := isKeyword_of_kind hkind .default
    rw [hcase, if_neg Bool.false_ne_true, hat, if_pos rfl, hdefault rfl, if_neg Bool.false_ne_true]
    dsimp only
    refine .advance (.refl hs) fun t ht => ?_
    refine .expect ht fun t ht => ?_
    exact Decided.andThen ht.toAgrees (hbody t ht) fun _ u _ hu _ => ⟨trivial, hu, rfl⟩
  | false =>
    have hkind : s.token.kind = .keyword .case := hs.kind.trans (Keyword.kind_word .case)
    have hcase : s.token.isKeyword .case = true := isKeyword_of_kind hkind .case
    have hat : s.token.isKeyword .default = false := isKeyword_of_kind hkind .default
    rw [hcase, if_pos rfl, hat]
    refine .advance (.refl hs) fun t ht => ?_
    refine .call ht.toAgrees (zero_decided (ht.context ▸ hplain) (.inr rfl) ht.faces) fun _ t ht _ => ?_
    refine .expect ht fun t ht => ?_
    exact Decided.andThen ht.toAgrees (hbody t ht) fun _ u _ hu _ => ⟨trivial, hu, rfl⟩

/-- A `switch` statement with a clause for zero and one for anything else. -/
theorem switchStatement_decided (cs ds : List ι) (hplain : s.context.Plain)
    (hs : s.Faces (.word Keyword.switch.word :: .punctuator .openParen :: .literal zero :: .punctuator .closeParen ::
      .punctuator .openBrace :: .word Keyword.case.word :: .literal zero :: .punctuator .colon ::
      (cs.flatMap lexemes ++ .word Keyword.default.word :: .punctuator .colon ::
        (ds.flatMap lexemes ++ .punctuator .closeBrace :: ls))))
    (hitem : ∀ i, i ∈ cs ∨ i ∈ ds → ∀ t ms, s.switching.Reaches t (lexemes i ++ ms) →
      Decided t (valid i) ms (fun _ => True) (derive levels (.statementListItem false) t))
    (hbegin : ∀ i, i ∈ cs ∨ i ∈ ds → ∃ first rest, lexemes i = first :: rest ∧ Goes first) :
    Decided s ((∀ i ∈ cs, valid i) ∧ ∀ i ∈ ds, valid i) ls (fun _ => True) (switchStatement (derive levels) s) := by
  refine .advance (.refl hs) fun t ht => ?_
  refine .expect ht fun t ht => ?_
  refine .call ht.toAgrees (zero_decided (ht.context ▸ hplain) (.inl rfl) ht.faces) fun _ t ht _ => ?_
  refine .expect ht fun t ht => ?_
  refine .expect ht fun t ht => ?_
  have hagrees : s.switching.Agrees t.switching := by
    refine ⟨Surroundings.ext ?_ ht.labels ht.attachedLabels ht.classDepth ht.depth, ht.isModule⟩
    exact congrArg (fun c : Context => { c with inBreakable := true }) ht.context
  have hplain' : t.switching.context.Plain := by
    have hcontext : t.context.Plain := ht.context ▸ hplain
    exact ⟨hcontext.await, hcontext.yield⟩
  have hclauses : Decided t.switching ((∀ i ∈ cs, valid i) ∧ ∀ i ∈ ds, valid i) (.punctuator .closeBrace :: ls)
      (fun _ => True) (caseClauses (derive levels) t.switching) := by
    refine .loop (.again (R := (· = false)) (k := .word Keyword.default.word :: .punctuator .colon ::
      (ds.flatMap lexemes ++ .punctuator .closeBrace :: ls)) (.refl _) ?_ fun b u n _ hu hb => ?_)
    · have hnot : t.switching.token.isPunctuator .closeBrace = false :=
        isPunctuator_of_kind (ht.kind.trans (Keyword.kind_word .case)) .closeBrace
      rw [isAt_bind, hnot, if_neg Bool.false_ne_true]
      refine Decided.andThen (.refl _) (caseClause_decided lexemes valid false cs hplain'
        (ht.faces.of_eq rfl rfl) (fun h => absurd h Bool.false_ne_true)
        (fun i hi u ms hu => hitem i (.inl hi) u ms (.of_agrees hagrees hu))
        (fun i hi => hbegin i (.inl hi)) fun u hu => ?_) fun b u _ hu hb => ⟨trivial, hu, b, rfl, hb⟩
      unfold endsClause
      rw [isKeyword_of_kind (hu.trans (Keyword.kind_word .default)) .default]
      simp
    · subst hb
      refine Decided.iff (.again (R := fun _ => True) (k := .punctuator .closeBrace :: ls) hu.toAgrees ?_
        (fun b x n _ hx _ => ?_) n) (iff_of_eq (and_true _))
      · have hnot : u.token.isPunctuator .closeBrace = false :=
          isPunctuator_of_kind (hu.kind.trans (Keyword.kind_word .default)) .closeBrace
        rw [isAt_bind, hnot, if_neg Bool.false_ne_true]
        refine Decided.andThen (.refl _) (caseClause_decided lexemes valid true ds
          (hu.context ▸ hplain') hu.faces (fun _ => rfl)
          (fun i hi x ms hx => hitem i (.inr hi) x ms (.of_agrees (hagrees.trans hu.toAgrees) hx))
          (fun i hi => hbegin i (.inr hi)) fun x hx => ?_) fun b x _ hx _ => ⟨trivial, hx, b, rfl, trivial⟩
        unfold endsClause
        rw [isPunctuator_of_kind hx .closeBrace]
        rfl
      · refine .done (b := ()) (u := x) ?_ ⟨trivial, hx, trivial⟩ n
        have hat : x.token.isPunctuator .closeBrace = true := isPunctuator_of_kind hx.kind .closeBrace
        rw [isAt_bind, hat, if_pos rfl]
        rfl
  change Decided s _ ls _ ((caseClauses (derive levels) >>= fun _ =>
    modify (fun u => { u with context := { u.context with inBreakable := t.context.inBreakable } }) >>= fun _ =>
      expectWith .closeBrace .regExp) t.switching)
  refine .iff ?_ (iff_of_eq (and_true _))
  refine Decided.restore hclauses (fun u hu => ⟨?_, hu.isModule.trans ht.isModule⟩) (fun u => ⟨rfl, rfl⟩)
    fun _ u _ hu _ => .of_agrees hu.toAgrees (.lastExpectWith (.refl hu.faces) (by decide))
  refine Surroundings.ext ?_ (hu.labels.trans ht.labels) (hu.attachedLabels.trans ht.attachedLabels)
    (hu.classDepth.trans ht.classDepth) (hu.depth.trans ht.depth)
  refine (congrArg (fun c : Context => { c with inBreakable := t.context.inBreakable }) hu.context).trans ?_
  exact ht.context

end

/-- A `try` statement with a final block. -/
theorem tryStatement_decided {nested : Derivation} {bs fs : List Lexeme}
    (hs : s.Faces (.word Keyword.try.word :: .punctuator .openBrace :: (bs ++ .punctuator .closeBrace ::
      .word Keyword.finally.word :: .punctuator .openBrace :: (fs ++ .punctuator .closeBrace :: ls))))
    (hbody : ∀ t, s.Reaches t (bs ++ .punctuator .closeBrace :: .word Keyword.finally.word ::
        .punctuator .openBrace :: (fs ++ .punctuator .closeBrace :: ls)) →
      Decided t v (.punctuator .closeBrace :: .word Keyword.finally.word :: .punctuator .openBrace ::
        (fs ++ .punctuator .closeBrace :: ls)) (fun _ => True) (statementList nested false t))
    (hfinal : ∀ t, s.Reaches t (fs ++ .punctuator .closeBrace :: ls) →
      Decided t w (.punctuator .closeBrace :: ls) (fun _ => True) (statementList nested false t)) :
    Decided s (v ∧ w) ls (fun _ => True) (tryStatement nested s) := by
  refine .advance (.refl hs) fun t ht => ?_
  refine Decided.bind ht.toAgrees (block_decided ht.faces fun u hu => hbody u (.of_agrees ht.toAgrees hu))
    fun _ t _ ht _ => ?_
  have hkind : t.token.kind = .keyword .finally := ht.kind.trans (Keyword.kind_word .finally)
  have hcatch : catchClause nested t = .ok false t := by
    have hnot : t.token.isKeyword .catch = false := isKeyword_of_kind hkind .catch
    unfold catchClause
    rw [isAtKeyword_bind, hnot, if_neg Bool.false_ne_true]
    rfl
  have hfinally : Decided t w ls (· = true) (finallyClause nested t) := by
    have hat : t.token.isKeyword .finally = true := isKeyword_of_kind hkind .finally
    unfold finallyClause
    rw [isAtKeyword_bind, hat, if_pos rfl]
    refine .advance (.refl ht.faces) fun u hu => ?_
    refine Decided.andThen hu.toAgrees (block_decided hu.faces fun x hx =>
      hfinal x (.of_agrees (ht.toAgrees.trans hu.toAgrees) hx)) fun _ x _ hx _ => ⟨trivial, hx, rfl⟩
  rw [bind_of_ok hcatch]
  refine Decided.andThen ht.toAgrees hfinally fun b u _ hu hb => ?_
  subst hb
  rw [Bool.false_or, if_pos rfl]
  exact ⟨trivial, hu, trivial⟩

/-! ## Jumps -/

theorem jumpLabel?_bind {β : Type} (f : Option Identifier → Recognizer β) (s : State) :
    (jumpLabel? >>= f) s = f (if s.token.newlineBefore then none else identifier? s.token) s := rfl

theorem breakStatement_decided (hs : s.Faces (.word Keyword.break.word :: .punctuator .semicolon :: ls)) :
    Decided s (s.context.inBreakable = true) ls (fun _ => True) (breakStatement s) := by
  unfold breakStatement
  rw [token_bind]
  refine .advance (.refl hs) fun t ht => ?_
  have hnone : identifier? t.token = none := identifier?_of_kind (by
    unfold Token.isIdentifier
    rw [ht.kind]
    rfl)
  rw [jumpLabel?_bind, ht.faces.line, if_neg Bool.false_ne_true, hnone]
  dsimp only
  rw [context_bind, ht.context]
  cases hpermitted : s.context.inBreakable with
  | true =>
    rw [if_pos rfl]
    exact (Decided.of_agrees ht.toAgrees (consumeSemicolon_decided ht.faces)).iff (iff_of_true trivial rfl)
  | false =>
    rw [if_neg Bool.false_ne_true]
    exact .refuse Bool.false_ne_true

theorem continueStatement_decided (hs : s.Faces (.word Keyword.continue.word :: .punctuator .semicolon :: ls)) :
    Decided s (s.context.inIteration = true) ls (fun _ => True) (continueStatement s) := by
  unfold continueStatement
  rw [token_bind]
  refine .advance (.refl hs) fun t ht => ?_
  have hnone : identifier? t.token = none := identifier?_of_kind (by
    unfold Token.isIdentifier
    rw [ht.kind]
    rfl)
  rw [jumpLabel?_bind, ht.faces.line, if_neg Bool.false_ne_true, hnone]
  dsimp only
  rw [context_bind, ht.context]
  cases hpermitted : s.context.inIteration with
  | true =>
    rw [if_pos rfl]
    exact (Decided.of_agrees ht.toAgrees (consumeSemicolon_decided ht.faces)).iff (iff_of_true trivial rfl)
  | false =>
    rw [if_neg Bool.false_ne_true]
    exact .refuse Bool.false_ne_true

theorem breakStatement_label {x : Variable}
    (hs : s.Faces (.word Keyword.break.word :: .word x.toWord :: .punctuator .semicolon :: ls)) :
    Decided s (x.name ∈ s.labels.map Label.name) ls (fun _ => True) (breakStatement s) := by
  unfold breakStatement
  rw [token_bind]
  refine .advance (.refl hs) fun t ht => ?_
  rw [jumpLabel?_bind, ht.faces.line, if_neg Bool.false_ne_true, identifier?_variable ht.faces]
  dsimp only
  rw [get_bind, ht.labels]
  have hiff : (s.labels.any fun l => decide (l.name = x.name)) = true ↔ x.name ∈ s.labels.map Label.name := by
    simp
  by_cases hlabel : (s.labels.any fun l => decide (l.name = x.name)) = true
  · rw [if_pos hlabel]
    refine .advance ht fun u hu => ?_
    exact (Decided.of_agrees hu.toAgrees (consumeSemicolon_decided hu.faces)).iff (iff_of_true trivial (hiff.mp hlabel))
  · rw [if_neg hlabel]
    exact .refuse fun h => hlabel (hiff.mpr h)

theorem continueStatement_label {x : Variable}
    (hs : s.Faces (.word Keyword.continue.word :: .word x.toWord :: .punctuator .semicolon :: ls)) :
    Decided s (continueError? s.labels x.name = none) ls (fun _ => True) (continueStatement s) := by
  unfold continueStatement
  rw [token_bind]
  refine .advance (.refl hs) fun t ht => ?_
  rw [jumpLabel?_bind, ht.faces.line, if_neg Bool.false_ne_true, identifier?_variable ht.faces]
  dsimp only
  rw [get_bind, ht.labels]
  refine Decided.andThen ht.toAgrees (failIf_decided ht.faces _ _) fun _ u _ hu _ => ?_
  refine .advance hu fun u hu => ?_
  exact .of_agrees hu.toAgrees (consumeSemicolon_decided hu.faces)

/-! ## Labels -/

theorem advance_reaches (h : s.Reaches t (l :: ls)) : ∃ u, advance t = .ok () u ∧ s.Reaches u ls := by
  obtain ⟨u, hu, hreaches, _⟩ := advanceWith_reaches h (goalAfter_ne_templateTail t.token)
  exact ⟨u, hu, hreaches⟩

theorem expandStatement_label {nested : Derivation} {x : Variable}
    (hs : s.Faces (.word x.toWord :: .punctuator .colon :: ls)) :
    expandStatement nested s =
      labelledStatement nested s.attachedLabels ⟨x.name, x.value.escaped, s.token.start⟩ s.detached := by
  obtain ⟨next, hpeek, hnext, _⟩ := peek_reaches (.refl (faces_detached hs))
  have hcolon : next.isPunctuator .colon = true := isPunctuator_of_kind hnext .colon
  unfold expandStatement
  rw [get_bind, modify_bind, token_bind, hs.kind.trans x.kind_eq]
  dsimp only
  unfold identifierStatement
  rw [token_bind]
  change (peek >>= _) s.detached = _
  rw [bind_of_ok hpeek, hcolon, if_pos rfl]

/-- A label with its statement, where its word may be referred to. -/
theorem labelledStatement_concluded {nested : Derivation} {x : Variable} {place : Position} {attached : Nat}
    {first : Lexeme} (hs : s.Faces (.word x.toWord :: .punctuator .colon :: first :: ms))
    (hforbids : s.context.forbids false x.name = false) (hfirst : first.kind ≠ .keyword .function)
    (h : ∀ t : State, x.name ∉ s.labels.map Label.name → t.context = s.context → t.isModule = s.isModule →
      t.labels = ⟨x.name, false⟩ :: s.labels → t.attachedLabels = attached + 1 → t.Faces (first :: ms) →
      Concluded v (fun _ u => u.isModule = s.isModule ∧ u.Faces ls) (nested .statement t)) :
    Concluded (x.name ∉ s.labels.map Label.name ∧ v) (fun _ u => u.isModule = s.isModule ∧ u.Faces ls)
      (labelledStatement nested attached ⟨x.name, x.value.escaped, place⟩ s) := by
  have hcheck : checkReference ⟨x.name, x.value.escaped, place⟩ s = .ok () s := by
    unfold checkReference
    rw [context_bind, identifierError?_free.mpr hforbids]
    rfl
  have hiff : (s.labels.any fun l => decide (l.name = x.name)) = true ↔ x.name ∈ s.labels.map Label.name := by
    simp
  unfold labelledStatement
  rw [bind_of_ok hcheck, get_bind]
  dsimp only
  by_cases hlabel : (s.labels.any fun l => decide (l.name = x.name)) = true
  · rw [if_pos hlabel]
    exact .refuse fun hvalid => hvalid.1 (hiff.mp hlabel)
  · rw [if_neg hlabel, modify_bind]
    have hfaces : State.Faces { s with labels := ⟨x.name, false⟩ :: s.labels }
      (.word x.toWord :: .punctuator .colon :: first :: ms) := hs.of_eq rfl rfl
    obtain ⟨t, hadvance, ht⟩ := advance_reaches (.refl hfaces)
    rw [bind_of_ok hadvance]
    have hexpected : ∃ u, expectWith .colon .regExp t = .ok () u ∧ State.Reaches _ u (first :: ms) :=
      expectWith_reaches ht (by decide)
    obtain ⟨u, hexpect, hu⟩ := hexpected
    rw [bind_of_ok hexpect]
    have hnot : u.token.isKeyword .function = false :=
      (isKeyword_of_kind hu.kind .function).trans (decide_eq_false hfirst)
    rw [isAtKeyword_bind, hnot, context_bind, Bool.false_and, if_neg Bool.false_ne_true]
    have hnew : x.name ∉ s.labels.map Label.name := fun hmem => hlabel (hiff.mpr hmem)
    have hstatement := h { u with attachedLabels := attached + 1 } hnew hu.context hu.isModule hu.labels rfl
      (hu.faces.of_eq rfl rfl)
    refine Concluded.iff ?_ (and_iff_right hnew).symm
    rw [modify_bind]
    refine hstatement.andThen fun _ x _ hx => ?_
    exact ⟨trivial, hx.1, hx.2.of_eq rfl rfl⟩

end EcmaCheck.Grammar
