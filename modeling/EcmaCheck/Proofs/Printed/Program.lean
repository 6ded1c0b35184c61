import EcmaCheck.Proofs.Check
import EcmaCheck.Proofs.Code
import EcmaCheck.Proofs.Printed.Statement

/-!
# Programs that are printed

A text that was printed is checked as the lexemes that it was printed of: what its statements decide, the check decides,
unless it is cut off by the limit on nesting (`checkBuffer_printed`). A `use strict` directive before them makes them
strict code (`directives_useStrict`).
-/

namespace EcmaCheck.Grammar

variable {s : State} {v : Prop} {l : Lexeme} {ls : List Lexeme}

/-- A script faces the lexemes, in strict code or not. -/
structure State.Opens (s : State) (strict : Bool) (ls : List Lexeme) : Prop where
  context : s.context = { strict }
  labels : s.labels = []
  attachedLabels : s.attachedLabels = 0
  isModule : s.isModule = false
  faces : s.Faces ls

theorem State.Opens.of_reaches {t : State} {strict : Bool} {ms : List Lexeme} (hs : s.Opens strict ms)
    (ht : s.Reaches t ls) : t.Opens strict ls where
  context := ht.context.trans hs.context
  labels := ht.labels.trans hs.labels
  attachedLabels := ht.attachedLabels.trans hs.attachedLabels
  isModule := ht.isModule.trans hs.isModule
  faces := ht.faces

theorem start_reaches (isModule : Bool) {ps : List Piece} (hsound : Sound ps = true) :
    ∃ t, start (.initial isModule (.carrying (printed ps) true)) = .ok () t ∧
      (State.initial isModule (.carrying (printed ps) true)).Reaches t (lexemes ps) := by
  obtain ⟨token, after, hnext, hfaces⟩ := faces_of_spells (.ofSource (.carrying (printed ps) true)) rfl
    (spells_printed hsound)
  refine ⟨{ State.initial isModule (.carrying (printed ps) true) with scanner := after, token }, ?_,
    ⟨⟨rfl, rfl⟩, hfaces _ rfl rfl⟩⟩
  unfold start
  rw [show (State.initial isModule (.carrying (printed ps) true)).scanner.next .regExp = _
    from hnext .regExp (by decide)]
  rfl

theorem opens_of_reaches {source : Source} (h : (State.initial false source).Reaches s ls) : s.Opens false ls :=
  ⟨h.context, h.labels, h.attachedLabels, h.isModule, h.faces⟩

section

variable {options : Options} {text : List Char}

/-- What a recognition stops at is no limit, unless the text nests too deep. -/
theorem not_isLimit_of_error {f : Fault} {t : State} (hdeep : ∀ r, checkBuffer options (Utf8.encode text) ≠ .tooDeep r)
    (hrun : run (options.sourceType = .module) options.maxDepth (.carrying text true) = .error f t) : ¬ f.IsLimit := by
  have hfault : Grammar.fault? (options.sourceType = .module) options.maxDepth (.carrying text true) = some f := by
    unfold Grammar.fault?
    rw [hrun]
  have hcheck : checkBuffer options (Utf8.encode text) =
      Outcome.ofFault? (Grammar.fault? (options.sourceType = .module) options.maxDepth (.carrying text true)) := by
    unfold checkBuffer
    rw [bufferFault?_encode]
  rintro (hkind | hkind)
  · obtain ⟨r, hr⟩ := (Outcome.tooDeep_iff _).mpr ⟨f, hfault, hkind⟩
    exact hdeep r (hcheck.trans hr)
  · exact (fault_in hfault).2 hkind

/-- A text is accepted just if its statements are valid, unless it nests too deep. -/
theorem checkBuffer_started (hstart : start (.initial (options.sourceType = .module) (.carrying text true)) = .ok () s)
    (hdeep : ∀ r, checkBuffer options (Utf8.encode text) ≠ .tooDeep r)
    (h : Concluded v (fun _ t => t.token.kind = .endOfInput) ((do
      discard (directives (derive options.maxDepth))
      statementList (derive options.maxDepth) true : Recognizer Unit) s)) :
    checkBuffer options (Utf8.encode text) = .ok ↔ v := by
  let source : Source := .carrying text true
  have hprogram : program (derive options.maxDepth) (.initial (options.sourceType = .module) source) = ((do
      (do discard (directives (derive options.maxDepth))
          statementList (derive options.maxDepth) true : Recognizer Unit)
      unless (← token).isEnd do unexpected) : Recognizer Unit) s := by
    unfold program
    rw [bind_of_ok hstart, bind_assoc]
  have hconcluded : Concluded v (fun _ _ => True)
      (run (options.sourceType = .module) options.maxDepth source) := by
    unfold run
    rw [hprogram]
    refine h.andThen fun _ t _ (ht : t.token.kind = .endOfInput) => ?_
    have hend : t.token.isEnd = true := by
      unfold Token.isEnd
      rw [ht]
    rw [token_bind, if_pos hend]
    exact ⟨trivial, trivial⟩
  have hcheck : checkBuffer options (Utf8.encode text) =
      Outcome.ofFault? (Grammar.fault? (options.sourceType = .module) options.maxDepth source) := by
    unfold checkBuffer
    rw [bufferFault?_encode]
  rw [hcheck]
  unfold Grammar.fault?
  cases hrun : run (options.sourceType = .module) options.maxDepth source with
  | ok u t =>
    rw [hrun] at hconcluded
    exact iff_of_true rfl hconcluded.1
  | error f t =>
    rw [hrun] at hconcluded
    refine iff_of_false ?_ (hconcluded.resolve_left (not_isLimit_of_error hdeep hrun))
    cases f <;> rintro ⟨⟩

end

/-- What is printed is accepted just if its statements are valid, unless it nests too deep. -/
theorem checkBuffer_printedAs {options : Options} {ps : List Piece} (hsound : Sound ps = true)
    (hdeep : ∀ r, checkBuffer options (Utf8.encode (printed ps)) ≠ .tooDeep r)
    (h : ∀ s : State, (State.initial (options.sourceType = .module) (.carrying (printed ps) true)).Reaches s
      (lexemes ps) →
      Concluded v (fun _ t => t.Faces []) ((do
        discard (directives (derive options.maxDepth))
        statementList (derive options.maxDepth) true : Recognizer Unit) s)) :
    checkBuffer options (Utf8.encode (printed ps)) = .ok ↔ v := by
  obtain ⟨s, hstart, hs⟩ := start_reaches (options.sourceType = .module) hsound
  exact checkBuffer_started hstart hdeep (h s hs)

theorem checkBuffer_printed {limit : Nat} {ps : List Piece} (hsound : Sound ps = true)
    (hdeep : ∀ r, checkBuffer ⟨.script, limit⟩ (Utf8.encode (printed ps)) ≠ .tooDeep r)
    (h : ∀ s : State, s.Opens false (lexemes ps) → Concluded v (fun _ t => t.Faces []) ((do
      discard (directives (derive limit))
      statementList (derive limit) true : Recognizer Unit) s)) :
    checkBuffer ⟨.script, limit⟩ (Utf8.encode (printed ps)) = .ok ↔ v :=
  checkBuffer_printedAs hsound hdeep fun s hs => h s (opens_of_reaches hs)

/-- A program is its statements, in the code that the directives make it. -/
theorem program_concluded {levels : Nat} {opens : State → Prop}
    (hdirectives : Concluded True (fun _ t => opens t) (directives (derive levels) s))
    (h : ∀ t : State, opens t → Decided t v [] (fun _ => True) (statementList (derive levels) true t)) :
    Concluded v (fun _ t => t.Faces []) ((do
      discard (directives (derive levels))
      statementList (derive levels) true : Recognizer Unit) s) := by
  have hdiscard : Concluded True (fun _ t => opens t)
      ((Functor.discard (directives (derive levels)) : Recognizer Unit) s) :=
    Concluded.andThen (f := fun _ => pure ()) hdirectives fun _ t _ ht => ⟨trivial, ht⟩
  refine (Concluded.bind hdiscard fun _ t _ ht => ?_).iff (iff_of_eq (true_and v))
  exact Concluded.imp (h t ht) fun _ _ u hu => hu.1.faces

/-! ## Directives -/

/-- Without directives code is sloppy. -/
theorem directives_sloppy {levels : Nat} (hs : s.Opens false ls) (hstring : s.token.isString = false) :
    Concluded True (fun _ t => t.Opens false ls) (directives (derive levels) s) :=
  Concluded.imp (directives_none hs.faces hstring) fun _ _ _ ht => hs.of_reaches ht.1

/-- The directive that makes code strict. -/
def useStrict : Literal (.string false) where
  spelling := "\"use strict\"".toList
  opens := by decide
  reads := by simp [Lexical.element, Lexical.stringFrom]

/-- The state stands one token further, in the same surroundings. -/
structure State.StepsTo (s t : State) (next : Token) (after : Scanner) : Prop extends s.Agrees t where
  token : t.token = next
  scanner : t.scanner = after
  consumed : t.consumed = s.token :: s.consumed

theorem advanceWith_steps {goal : LexicalGoal} {next : Token} {after : Scanner}
    (h : s.scanner.next goal = (.ok next, after)) : ∃ t, advanceWith goal s = .ok () t ∧ s.StepsTo t next after := by
  refine ⟨{ s with consumed := s.token :: s.consumed, scanner := after, token := next }, ?_, ⟨rfl, rfl⟩, rfl, rfl, rfl⟩
  unfold advanceWith
  rw [h]
  rfl

/-- Where it is not known what comes next. -/
theorem advanceWith_ends {E : Fault → Prop} {goal : LexicalGoal}
    (h : (∀ f, E f) ∨ ∃ token scanner, s.scanner.next goal = (.ok token, scanner)) :
    Ends E (fun _ t => s.Agrees t ∧ s.scanner.next goal = (.ok t.token, t.scanner)) (advanceWith goal s) := by
  rcases hread : s.scanner.next goal with ⟨f | token, scanner⟩
  · rcases h with hall | ⟨_, _, hok⟩
    · cases hrun : advanceWith goal s with
      | error => exact hall _
      | ok =>
        unfold advanceWith at hrun
        rw [hread] at hrun
        cases hrun
    · cases hread.symm.trans hok
  · obtain ⟨t, ht, hsteps⟩ := advanceWith_steps hread
    rw [ht]
    exact ⟨hsteps.toAgrees, by rw [hsteps.token, hsteps.scanner]⟩

section

variable {E : Fault → Prop} {levels : Nat} {next : Token} {after : Scanner} (hE : ∀ p, E (.stalled p))
  (hzero : levels = 0 → ∀ n p, E (.tooDeep n p)) (hkind : s.token.kind = .string false)
  (hnext : s.scanner.next .division = (.ok next, after)) (hsemicolon : next.kind = .punctuator .semicolon)

include hE hzero hkind hnext hsemicolon

/-- A string before a semicolon is an expression of one token. -/
theorem expression_string : Ends E (fun _ t => s.StepsTo t next after) (expression (derive levels) true s) := by
  let Q (s : State) (e : Summary) (t : State) : Prop := s.StepsTo t next after ∧ e.Is .other false
  have hkindAfter {s t : State} (ht : s.StepsTo t next after) : t.token.kind = .punctuator .semicolon :=
    ht.token ▸ hsemicolon
  have hQ (s : State) : EndsOperand (Q s) := by
    refine ⟨fun e t ht => ?_, fun e t ht =>
      ⟨⟨⟨ht.1.surroundings, ht.1.isModule⟩, ht.1.token, ht.1.scanner, ht.1.consumed⟩, ht.2⟩⟩
    rw [hkindAfter ht.1]
    rfl
  have hne {p : Punctuator} (hp : p ≠ .semicolon) (s : State) (e : Summary) (t : State) (ht : Q s e t) :
      t.token.kind ≠ .punctuator p := by
    rw [hkindAfter ht.1]
    intro h
    cases h
    exact hp rfl
  have hquiet : s.deepened.Quiet := quiet_of_kind hkind nofun
  have hgoal : s.token.goalAfter = .division := by
    unfold Token.goalAfter Token.endsOperand
    rw [hkind]
    rfl
  have hderive : Ends E (Q s) (derive levels (.assignment true) s) := by
    refine derive_ends (p := .assignment true) hzero fun n _ => ?_
    have hprimary : Ends E (Q s.deepened) (primary (derive n) s.deepened) := by
      have hnext' : s.deepened.noted.scanner.next s.token.goalAfter = (.ok next, after) := hgoal ▸ hnext
      obtain ⟨t, hadvance, ht⟩ := advanceWith_steps hnext'
      have hstring : s.deepened.token.kind = .string false := hkind
      have hrun : primary (derive n) s.deepened = .ok (.other s.token.start) t :=
        (primary_string hstring).trans (tokenLiteral_eq_ok hadvance)
      rw [hrun]
      exact ⟨⟨.trans (agrees_noted _) ht.toAgrees, ht.token, ht.scanner, ht.consumed⟩, rfl, rfl⟩
    have hnot (k : Keyword) : s.deepened.token.isKeyword k = false := isKeyword_of_kind hkind k
    have hbegins : Begins s.deepened.token := begins_of_kind (congrArg TokenKind.beginsOperand hkind)
    have hleft := leftHandSide_ends hE (hQ _).endsBefore hprimary (hnot _) (hnot _) (hnot _)
    have hconditional := conditional_ends hE (hQ _) hleft hbegins hquiet true
    refine (expandAssignment_ends (hQ _) hconditional hquiet (hne (by decide) _)).imp fun e t ht => ?_
    exact ⟨⟨agrees_surfaced ht.1.toAgrees, ht.1.token, ht.1.scanner, ht.1.consumed⟩, ht.2⟩
  refine (expressionOrPattern_ends (hQ s).ended hderive (hne (by decide) s)).bind fun e t ht => ?_
  unfold rejectShorthand
  rw [ht.2.none_iff.mpr rfl]
  exact ht.1

/-- A `use strict` directive, behind which the code is strict. -/
theorem directiveTurn_useStrict (hlexeme : s.token.lexeme = "\"use strict\"") {d : Directives}
    (hoctal : d.octalEscape? = none)
    (hbehind : (∀ f, E f) ∨ ∃ token scanner, after.next .regExp = (.ok token, scanner)) :
    Ends E (fun r u => (∃ d', r = .again d' ∧ d'.octalEscape? = none ∧ d'.useStrict?.isSome = true) ∧
        State.Agrees { s with context := { s.context with strict := true } } u ∧
        after.next .regExp = (.ok u.token, u.scanner))
      (directiveTurn (derive levels) d s) := by
  unfold directiveTurn
  rw [token_bind, hkind]
  dsimp only
  refine Ends.bind (P := fun _ t => s.StepsTo t next after)
    ((expression_string hE hzero hkind hnext hsemicolon).bind fun _ t ht => ht) fun _ t ht => ?_
  have hend : t.previousEnd = s.token.stop := by
    unfold State.previousEnd
    rw [ht.consumed]
    rfl
  have hat : t.token.isPunctuator .semicolon = true := by
    rw [isPunctuator_of_kind rfl, ht.token]
    exact decide_eq_true hsemicolon
  have hconsume : consumeSemicolon t = advanceWith .regExp t := congrFun (if_pos hat) t
  rw [get_bind, hend]
  refine Ends.bind (P := fun _ u => t.Agrees u ∧ after.next .regExp = (.ok u.token, u.scanner)) ?_ fun _ u hu => ?_
  · rw [hconsume, ← ht.scanner]
    exact advanceWith_ends (ht.scanner.symm ▸ hbehind)
  · have hnote : noteDirective s.token false d u = .ok ⟨d.useStrict?.or (some s.token.start), none⟩
        { u with context := { u.context with strict := true } } := by
      unfold noteDirective
      rw [if_pos (by unfold isUseStrict; rw [hlexeme]; rfl), if_neg Bool.false_ne_true, hoctal]
      rfl
    rw [if_pos rfl, bind_of_ok hnote]
    have hagrees := ht.toAgrees.trans hu.1
    refine ⟨⟨_, rfl, rfl, ?_⟩, ⟨?_, hagrees.isModule⟩, hu.2⟩
    · cases d.useStrict? <;> rfl
    · refine Surroundings.ext ?_ hagrees.labels hagrees.attachedLabels hagrees.classDepth hagrees.depth
      exact congrArg (fun c => { c with strict := true }) hagrees.context

end

/-- After the directive the code is strict. -/
theorem directives_useStrict_reaches {levels : Nat} (hs : s.Faces (.literal useStrict :: .punctuator .semicolon :: ls))
    (hstring : ∀ t : State, t.Faces ls → t.token.isString = false) :
    Concluded True (fun _ t => s.strictly.Reaches t ls) (directives (derive levels) s) := by
  obtain ⟨next, after, hnext, hfaces⟩ := hs.next
  have hsemicolon := hfaces { s with token := next, scanner := after } rfl rfl
  obtain ⟨behind, scanner, hbehind, hrest⟩ := hsemicolon.next
  rw [directives_eq, concluded_iff_ends]
  refine .again (R := fun _ t => s.strictly.Reaches t ls) (isLimit_stalled True) ?_ (fun d t turns n ht => ?_) s.turns
  · have hzero (_ : levels = 0) (n : Nat) (p : Position) : (Fault.tooDeep n p).IsLimit ∨ ¬ True := .inl (.inl rfl)
    refine (directiveTurn_useStrict (isLimit_stalled True) hzero hs.kind (hnext .division (by decide))
      hsemicolon.kind hs.2.1 rfl (.inr ⟨behind, scanner, hbehind .regExp (by decide)⟩)).imp fun r t ht => ?_
    obtain ⟨⟨d, rfl, _⟩, hagrees, hread⟩ := ht
    cases (hbehind .regExp (by decide)).symm.trans hread
    exact ⟨d, rfl, hagrees, hrest t rfl rfl⟩
  · have ht : s.strictly.Reaches { t with repeated := turns } ls :=
      ⟨⟨ht.surroundings, ht.isModule⟩, ht.faces.of_eq rfl rfl⟩
    exact .done (isLimit_stalled True) (directiveTurn_of_not (hstring _ ht.faces) d) ⟨trivial, ht⟩ n

theorem directives_useStrict {levels : Nat}
    (hs : s.Opens false (.literal useStrict :: .punctuator .semicolon :: ls))
    (hstring : ∀ t : State, t.Faces ls → t.token.isString = false) :
    Concluded True (fun _ t => t.Opens true ls) (directives (derive levels) s) := by
  refine (directives_useStrict_reaches hs.faces hstring).imp fun _ _ t ht => ?_
  refine ⟨ht.context.trans ?_, ht.labels.trans hs.labels, ht.attachedLabels.trans hs.attachedLabels,
    ht.isModule.trans hs.isModule, ht.faces⟩
  change { s.context with strict := true } = _
  rw [hs.context]

end EcmaCheck.Grammar
