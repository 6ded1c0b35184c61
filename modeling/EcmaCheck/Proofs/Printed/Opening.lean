import EcmaCheck.Proofs.CommonRest
import EcmaCheck.Proofs.Printed.Program

/-!
# Openings

A text may begin with what was printed and go on behind a blank in whatever way. The lexemes of such an opening are read
off the text one after the other (`readsOff_printed`), and recognizers pass over them: over the head of a function
declaration, into its body (`functionDeclaration_ends`).
-/

namespace EcmaCheck

open Lexical Scanner

/-! ## Reading off lexemes -/

/-- From the first scanner to the second the lexemes are read, whatever is expected, and no line ends before them. -/
inductive ReadsOff : List Lexeme → Scanner → Scanner → Prop
  | nil {s : Scanner} : ReadsOff [] s s
  | cons {l : Lexeme} {ls : List Lexeme} {token : Token} {s t u : Scanner} (hkind : token.kind = l.kind)
    (hlexeme : token.lexeme = String.ofList l.spelling)
    (hnext : ∀ goal, goal ≠ .templateTail → s.next goal = (.ok token, t)) (hrest : ReadsOff ls t u)
    (hline : token.newlineBefore = false) : ReadsOff (l :: ls) s u

namespace ReadsOff

variable {l : Lexeme} {ls ms : List Lexeme} {s t : Scanner}

theorem append_iff : ReadsOff (ls ++ ms) s t ↔ ∃ u, ReadsOff ls s u ∧ ReadsOff ms u t := by
  induction ls generalizing s with
  | nil =>
    refine ⟨fun h => ⟨s, .nil, h⟩, fun ⟨u, hu, h⟩ => ?_⟩
    cases hu
    exact h
  | cons l ls ih =>
    constructor
    · rintro (_ | ⟨hkind, hlexeme, hnext, hrest, hline⟩)
      obtain ⟨u, hls, hms⟩ := ih.mp hrest
      exact ⟨u, .cons hkind hlexeme hnext hls hline, hms⟩
    · rintro ⟨u, _ | ⟨hkind, hlexeme, hnext, hrest, hline⟩, hms⟩
      exact .cons hkind hlexeme hnext (ih.mpr ⟨u, hrest, hms⟩) hline

/-- A space before the first lexeme makes no difference. -/
theorem of_space {text : List Char} {n : Nat} (hspace : text[n]? = some ' ')
    (h : ReadsOff (l :: ls) (standing text true (n + 1)) t) : ReadsOff (l :: ls) (standing text true n) t := by
  cases h with
  | cons hkind hlexeme hnext hrest hline =>
    refine .cons hkind hlexeme (fun goal hgoal => ?_) hrest hline
    rw [next_blank hspace (.inl rfl) hgoal, hnext goal hgoal]
    simp only [Except.map, show ¬ ' ' = '\n' by decide, decide_false, Bool.or_false]

theorem exists_next (h : ReadsOff (l :: ls) s t) : ∃ token scanner, s.next .regExp = (.ok token, scanner) := by
  cases h with
  | cons _ _ hnext _ => exact ⟨_, _, hnext .regExp (by decide)⟩

end ReadsOff

/-- A lexeme is read where the text goes on with it. -/
theorem read_lexeme {text rest : List Char} {n : Nat} {l : Lexeme} {q : Piece} {goal : LexicalGoal}
    (hprecedes : l.precedes q = true) (hreads : l.ReadsBefore (rest ++ ['\n'])) (hgoal : goal ≠ .templateTail)
    (h : text.drop n = l.spelling ++ rest) :
    (⟨l.kind, n, n + l.spelling.length, false⟩ : Span).Read text goal n := by
  obtain ⟨c, more, hc, hopens⟩ := l.first hprecedes
  have hlength : text.length - n = l.spelling.length + rest.length := by
    rw [← List.length_drop, h, List.length_append]
  have hpos : 0 < l.spelling.length := by
    rw [hc]
    exact Nat.zero_lt_succ _
  have hle : n ≤ text.length := by omega
  refine ⟨Nat.le_refl n, Nat.lt_add_of_pos_right hpos, ?_, ?_, ?_⟩
  · simp only
    omega
  · rw [skipGap, if_neg hgoal, rest_standing_true hle, h, hc, Nat.sub_self]
    exact gap_opens _ hopens 0 _
  · simp only
    rw [rest_standing_true hle, h, List.append_assoc, Nat.add_sub_cancel_left]
    exact hreads goal hgoal

theorem lexemes_ne_nil {ps : List Piece} {l : Lexeme} (h : .lexeme l ∈ ps) : lexemes ps ≠ [] :=
  List.ne_nil_of_mem (List.mem_filterMap.mpr ⟨.lexeme l, h, rfl⟩)

/-- What was printed is read off up to its end, where a blank follows. -/
theorem readsOff_printed {text rest : List Char} {ps : List Piece} {n : Nat} {c : Char} (hsound : Sound ps = true)
    (hlast : ps.getLast? ≠ some .space) (hc : c = ' ' ∨ c = '\n') (h : text.drop n = printed ps ++ c :: rest) :
    ReadsOff (lexemes ps) (standing text true n) (standing text true (n + (printed ps).length)) := by
  induction ps generalizing n with
  | nil => exact .nil
  | cons q ps ih =>
    have hdrop : text.drop (n + q.text.length) = printed ps ++ c :: rest := by
      rw [← List.drop_drop, h, show printed (q :: ps) = q.text ++ printed ps from rfl, List.append_assoc,
        List.drop_left]
    have hlength : n + (printed (q :: ps)).length = n + q.text.length + (printed ps).length := by
      rw [show printed (q :: ps) = q.text ++ printed ps from rfl, List.length_append, Nat.add_assoc]
    have hmore : ps.getLast? ≠ some .space := by
      intro hspace
      refine hlast ?_
      rw [List.getLast?_cons, hspace]
      rfl
    rw [hlength]
    cases q with
    | space =>
      have hspace : text[n]? = some ' ' := by
        rw [← List.head?_drop, h]
        rfl
      have hls : lexemes ps ≠ [] := by
        cases hps : ps.getLast? with
        | none =>
          rw [List.getLast?_eq_none_iff.mp hps] at hlast
          exact absurd rfl hlast
        | some last =>
          cases last with
          | space => exact absurd hps hmore
          | lexeme l => exact lexemes_ne_nil (List.mem_of_getLast? hps)
      obtain ⟨l, ls, hcons⟩ := List.exists_cons_of_ne_nil hls
      have hreads := ih hsound hmore hdrop
      change ReadsOff (lexemes ps) _ _
      rw [hcons] at hreads ⊢
      exact hreads.of_space hspace
    | lexeme l =>
      obtain ⟨hl, hps⟩ := (Bool.and_eq_true _ _).mp hsound
      have hreads : l.ReadsBefore (printed ps ++ c :: rest ++ ['\n']) := by
        cases ps with
        | nil => exact l.readsBefore_gap hl hc _
        | cons q ps =>
          rw [show printed (q :: ps) = q.text ++ printed ps from rfl, List.append_assoc, List.append_assoc]
          exact l.readsBefore_piece hl _
      have htext : text.drop n = l.spelling ++ (printed ps ++ c :: rest) := by
        rw [h, show printed (.lexeme l :: ps) = l.spelling ++ printed ps from rfl, List.append_assoc]
      refine .cons ?_ ?_ (fun goal hgoal => (read_lexeme hl hreads hgoal htext).next) (ih hps hmore hdrop) rfl
      · rfl
      · simp only [Span.token, htext, Nat.add_sub_cancel_left, List.take_left]

namespace Grammar

/-! ## Passing over lexemes -/

/-- The current token is the first lexeme, and the others are read off up to the scanner. -/
def State.Before (s : State) : List Lexeme → Scanner → Prop
  | [], _ => False
  | l :: ls, behind =>
    s.token.kind = l.kind ∧ s.token.lexeme = String.ofList l.spelling ∧ ReadsOff ls s.scanner behind

variable {s t : State} {l next : Lexeme} {ls : List Lexeme} {behind : Scanner} {E : Fault → Prop}

theorem State.Before.of_eq (h : s.Before (l :: ls) behind) (htoken : t.token = s.token)
    (hscanner : t.scanner = s.scanner) :
    t.Before (l :: ls) behind :=
  ⟨htoken ▸ h.1, htoken ▸ h.2.1, hscanner ▸ h.2.2⟩

/-- The first lexeme has been read. -/
theorem State.Before.of_next {goal : LexicalGoal} {scanner : Scanner} (hreads : ReadsOff (l :: ls) scanner behind)
    (hgoal : goal ≠ .templateTail) (hnext : scanner.next goal = (.ok s.token, s.scanner)) :
    s.Before (l :: ls) behind := by
  cases hreads with
  | cons hkind hlexeme hread hrest =>
    cases hnext.symm.trans (hread goal hgoal)
    exact ⟨hkind, hlexeme, hrest⟩

/-- The state stands before the lexemes, in the surroundings of another. -/
structure State.Comes (s t : State) (ls : List Lexeme) (behind : Scanner) : Prop extends s.Agrees t where
  before : t.Before ls behind

theorem advanceWith_comes {goal : LexicalGoal} (hs : s.Before (l :: next :: ls) behind) (hgoal : goal ≠ .templateTail) :
    ∃ t, advanceWith goal s = .ok () t ∧ s.Comes t (next :: ls) behind := by
  obtain ⟨_, _, _ | ⟨hkind, hlexeme, hnext, hrest⟩⟩ := hs
  obtain ⟨t, ht, hsteps⟩ := advanceWith_steps (hnext goal hgoal)
  exact ⟨t, ht, hsteps.toAgrees, hsteps.token ▸ hkind, hsteps.token ▸ hlexeme, hsteps.scanner ▸ hrest⟩

theorem advance_comes (hs : s.Before (l :: next :: ls) behind) :
    ∃ t, advance s = .ok () t ∧ s.Comes t (next :: ls) behind :=
  advanceWith_comes hs (goalAfter_ne_templateTail s.token)

theorem expect_comes {p : Punctuator} (hs : s.Before (.punctuator p :: next :: ls) behind) :
    ∃ t, expect p s = .ok () t ∧ s.Comes t (next :: ls) behind := by
  obtain ⟨t, ht, hcomes⟩ := advance_comes hs
  exact ⟨t, (congrFun (if_pos (Token.isPunctuator_iff.mpr hs.1)) s).trans ht, hcomes⟩

/-! ## Parameters -/

/-- The lexemes of a list of parameters that are plain identifiers. -/
def parameterLexemes : List Variable → List Lexeme
  | [] => []
  | [v] => [.word v.toWord]
  | v :: w :: vs => .word v.toWord :: .punctuator .comma :: parameterLexemes (w :: vs)

/-- One turn of a parameter list. -/
def parameterTurn (nested : Derivation) (ps : Parameters) : Recognizer (Turn Parameters Parameters) := do
  if ← isAt .closeParen then return .done ps
  if ← eat .ellipsis then
    bindingTarget nested false
    requireLast .closeParen .restParameterNotLast
    return .done ⟨ps.count + 1, false, true⟩
  let isPlain ← bindingElement nested false
  unless ← isAt .closeParen do expect .comma
  return .again ⟨ps.count + 1, ps.simple && isPlain, ps.rest⟩

theorem parameters_eq (nested : Derivation) : parameters nested = (do
    expect .openParen
    let ps ← loop ({} : Parameters) (parameterTurn nested)
    expect .closeParen
    return ps) := rfl

section

variable {v : Variable}

theorem identifier?_of_before (hs : s.Before (.word v.toWord :: ls) behind) :
    identifier? s.token = some ⟨v.name, v.value.escaped, s.token.start⟩ := by
  unfold identifier?
  rw [hs.1.trans v.kind_eq]

/-- A name is bound, unless it may not be. -/
theorem failIf_ends {e : Option GrammarError} {p : Position} (h : e = none ∨ ∀ f, E f) :
    Ends E (fun _ t => e = none ∧ t = s) (failIf e p s) := by
  cases e with
  | none => exact ⟨rfl, rfl⟩
  | some e => exact h.resolve_left (Option.some_ne_none e) _

theorem bindingIdentifier_ends (hname : s.context.forbids true v.name = false ∨ ∀ f, E f)
    (hs : s.Before (.word v.toWord :: next :: ls) behind) :
    Ends E (fun _ t => s.context.forbids true v.name = false ∧ s.Comes t (next :: ls) behind)
      (bindingIdentifier false s) := by
  unfold bindingIdentifier
  rw [token_bind, identifier?_of_before hs]
  refine Ends.bind (failIf_ends (hname.imp_left bindingError?_free.mpr)) fun _ u hu => ?_
  obtain ⟨hfree, rfl⟩ := hu
  obtain ⟨t, ht, hcomes⟩ := advance_comes hs
  rw [ht]
  exact ⟨bindingError?_free.mp hfree, hcomes⟩

/-- A plain identifier before what is no initializer. -/
theorem bindingElement_ends {levels : Nat} (hzero : levels = 0 → ∀ n p, E (.tooDeep n p))
    (hname : s.context.forbids true v.name = false ∨ ∀ f, E f) (hnext : next.kind ≠ .punctuator .assign)
    (hs : s.Before (.word v.toWord :: next :: ls) behind) :
    Ends E (fun plain t => plain = true ∧ (s.context.forbids true v.name = false ∧ levels ≠ 0) ∧
      s.Comes t (next :: ls) behind)
      (bindingElement (derive levels) false s) := by
  have hkind : s.token.kind = .identifier v.name v.value.escaped := hs.1.trans v.kind_eq
  have hplain : s.token.isIdentifier = true := by
    unfold Token.isIdentifier
    rw [hkind]
  have htarget : Ends E (fun _ t => (s.context.forbids true v.name = false ∧ levels ≠ 0) ∧
    s.Comes t (next :: ls) behind)
      (derive levels (.bindingTarget false) s) := by
    refine derive_ends (p := .bindingTarget false) hzero fun n hn => ?_
    have hdeepened : s.deepened.Before (.word v.toWord :: next :: ls) behind := hs.of_eq rfl rfl
    have hnot (p : Punctuator) : s.deepened.token.isPunctuator p = false :=
      (isPunctuator_of_kind hkind p).trans (decide_eq_false (by nofun))
    have hexpand : expandBindingTarget (derive n) false s.deepened = bindingIdentifier false s.deepened := by
      unfold expandBindingTarget
      rw [isAt_bind, hnot, if_neg Bool.false_ne_true, isAt_bind, hnot, if_neg Bool.false_ne_true]
    change Ends E _ (expandBindingTarget (derive n) false s.deepened)
    rw [hexpand]
    have hallowed : s.deepened.context.forbids true v.name = false ∨ ∀ f, E f := hname
    refine (bindingIdentifier_ends hallowed hdeepened).imp fun _ t ht => ?_
    exact ⟨⟨ht.1, hn ▸ Nat.succ_ne_zero n⟩, agrees_surfaced ht.2.toAgrees, ht.2.before.of_eq rfl rfl⟩
  unfold bindingElement
  rw [token_bind, hplain]
  refine Ends.bind htarget fun _ t ht => ?_
  have hassign : t.token.isPunctuator .assign = false :=
    (isPunctuator_of_kind ht.2.before.1 .assign).trans (decide_eq_false hnext)
  rw [bind_of_ok (eat_of_not hassign), if_neg Bool.false_ne_true]
  exact ⟨rfl, ht⟩

end

/-- Parameters that are bound, if there are levels to bind them on. -/
structure Bindable (c : Context) (levels : Nat) (ps : List Variable) : Prop where
  names : ∀ v ∈ ps, c.forbids true v.name = false
  levels : ps ≠ [] → levels ≠ 0

theorem parameterTurns_ends {levels : Nat} (hE : ∀ p, E (.stalled p)) {ps : List Variable} {count : Nat} (n : Nat)
    (hbindable : Bindable s.context levels ps ∨ ∀ f, E f)
    (hs : s.Before (parameterLexemes ps ++ .punctuator .closeParen :: ls) behind) :
    Ends E (fun r t => r = ⟨count + ps.length, true, false⟩ ∧ Bindable s.context levels ps ∧
        s.Comes t (.punctuator .closeParen :: ls) behind)
      (repeatTurns (parameterTurn (derive levels)) n ⟨count, true, false⟩ s) := by
  induction ps generalizing s n count with
  | nil =>
    have hturn : parameterTurn (derive levels) ⟨count, true, false⟩ s = .ok (.done ⟨count, true, false⟩) s := by
      unfold parameterTurn
      rw [isAt_bind, if_pos (Token.isPunctuator_iff.mpr hs.1)]
      rfl
    exact .done hE hturn ⟨rfl, ⟨nofun, nofun⟩, .refl s, hs⟩ n
  | cons v ps ih =>
    have hname : s.context.forbids true v.name = false ∨ ∀ f, E f :=
      hbindable.imp_left fun h => h.names v List.mem_cons_self
    have hzero (h : levels = 0) (n : Nat) (p : Position) : E (.tooDeep n p) :=
      hbindable.elim (fun hb => absurd h (hb.levels (List.cons_ne_nil v ps))) fun hall => hall _
    have hrest {t : State} (ht : s.Agrees t) : Bindable t.context levels ps ∨ ∀ f, E f := by
      refine hbindable.imp_left fun h => ⟨fun w hw => ?_, fun _ => h.levels (List.cons_ne_nil v ps)⟩
      rw [ht.context]
      exact h.names w (List.mem_cons_of_mem v hw)
    have hcollect {t : State} (hagrees : s.Agrees t) (hv : s.context.forbids true v.name = false ∧ levels ≠ 0)
        (h : Bindable t.context levels ps) : Bindable s.context levels (v :: ps) :=
      ⟨List.forall_mem_cons.mpr ⟨hv.1, hagrees.context ▸ h.names⟩, fun _ => hv.2⟩
    refine .again (R := fun ps' t => ps' = ⟨count + 1, true, false⟩ ∧
      (s.context.forbids true v.name = false ∧ levels ≠ 0) ∧
      s.Comes t (parameterLexemes ps ++ .punctuator .closeParen :: ls) behind) hE ?_ (fun ps' t turns n ht => ?_) n
    · have hnot (p : Punctuator) : s.token.isPunctuator p = false := by
        have hkind : s.token.kind = .identifier v.name v.value.escaped := by
          cases ps <;> exact hs.1.trans v.kind_eq
        exact (isPunctuator_of_kind hkind p).trans (decide_eq_false (by nofun))
      unfold parameterTurn
      rw [isAt_bind, hnot, if_neg Bool.false_ne_true, bind_of_ok (eat_of_not (hnot .ellipsis)),
        if_neg Bool.false_ne_true]
      cases ps with
      | nil =>
        refine Ends.bind (bindingElement_ends hzero hname (by nofun) hs) fun plain t ht => ?_
        obtain ⟨rfl, hv, hcomes⟩ := ht
        rw [isAt_bind, if_pos (Token.isPunctuator_iff.mpr hcomes.before.1)]
        exact ⟨_, rfl, rfl, hv, hcomes⟩
      | cons w ws =>
        refine Ends.bind (bindingElement_ends hzero hname (by nofun) hs) fun plain t ht => ?_
        obtain ⟨rfl, hv, hcomes⟩ := ht
        have hclose : t.token.isPunctuator .closeParen = false :=
          (isPunctuator_of_kind hcomes.before.1 .closeParen).trans (decide_eq_false (by nofun))
        obtain ⟨next, more, hnext⟩ : ∃ next more,
            parameterLexemes (w :: ws) ++ .punctuator .closeParen :: ls = next :: more := by
          cases ws <;> exact ⟨_, _, rfl⟩
        have hbefore :
            t.Before (.punctuator .comma :: (parameterLexemes (w :: ws) ++ .punctuator .closeParen :: ls)) behind :=
          hcomes.before
        rw [hnext] at hbefore ⊢
        obtain ⟨u, hu, hcomes'⟩ := expect_comes hbefore
        rw [isAt_bind, hclose, if_neg Bool.false_ne_true, bind_of_ok hu]
        exact ⟨_, rfl, rfl, hv, hcomes.toAgrees.trans hcomes'.toAgrees, hcomes'.before⟩
    · obtain ⟨rfl, hv, hcomes⟩ := ht
      have hnoted :
          State.Before { t with repeated := turns } (parameterLexemes ps ++ .punctuator .closeParen :: ls) behind := by
        have hbefore := hcomes.before
        cases ps with
        | nil => exact hbefore
        | cons w ws => cases ws <;> exact hbefore
      have hagrees : s.Agrees { t with repeated := turns } := ⟨hcomes.surroundings, hcomes.isModule⟩
      refine (ih n (hrest hagrees) hnoted).imp fun r u hu => ?_
      obtain ⟨rfl, hps, hlast⟩ := hu
      refine ⟨?_, hcollect hagrees hv hps, hagrees.trans hlast.toAgrees, hlast.before⟩
      rw [List.length_cons, Nat.add_assoc, Nat.add_comm 1]

theorem parameters_ends {levels : Nat} (hE : ∀ p, E (.stalled p)) {ps : List Variable}
    (hbindable : Bindable s.context levels ps ∨ ∀ f, E f)
    (hs : s.Before (.punctuator .openParen :: (parameterLexemes ps ++ .punctuator .closeParen :: next :: ls)) behind) :
    Ends E (fun r t => r = ⟨ps.length, true, false⟩ ∧ Bindable s.context levels ps ∧ s.Comes t (next :: ls) behind)
      (parameters (derive levels) s) := by
  have hopen : ∃ t, expect .openParen s = .ok () t ∧
      s.Comes t (parameterLexemes ps ++ .punctuator .closeParen :: next :: ls) behind := by
    obtain _ | ⟨v, _ | ⟨w, ws⟩⟩ := ps <;> exact expect_comes hs
  obtain ⟨t, ht, hcomes⟩ := hopen
  have hbindable' : Bindable t.context levels ps ∨ ∀ f, E f := by rwa [hcomes.context]
  rw [parameters_eq, bind_of_ok ht]
  refine Ends.bind (parameterTurns_ends hE t.turns hbindable' hcomes.before) fun r u hu => ?_
  obtain ⟨rfl, hps, hclose⟩ := hu
  obtain ⟨w, hw, hlast⟩ := expect_comes hclose.before
  rw [bind_of_ok hw, Nat.zero_add]
  exact ⟨rfl, hcomes.context ▸ hps, (hcomes.toAgrees.trans hclose.toAgrees).trans hlast.toAgrees, hlast.before⟩

/-! ## Bodies -/

variable {nested : Derivation} {Q : Unit → State → Prop}

/-- The text behind what is read off can be read on. -/
abbrev ReadsOn (E : Fault → Prop) (behind : Scanner) : Prop :=
  (∀ f, E f) ∨ ∃ token scanner, behind.next .regExp = (.ok token, scanner)

theorem functionBody_ends {close : LexicalGoal} (hbehind : ReadsOn E behind)
    (hs : s.Before [.punctuator .openBrace] behind)
    (hcode : ∀ t, s.Agrees t → behind.next .regExp = (.ok t.token, t.scanner) →
      Ends E (fun _ u => Ends E Q (expectWith .closeBrace close u)) (code nested false t.turns {} t)) :
    Ends E Q (functionBody nested true close s) := by
  obtain ⟨hkind, _, _ | _⟩ := hs
  have hgoal : s.token.goalAfter = .regExp := by
    unfold Token.goalAfter Token.endsOperand
    rw [hkind]
    rfl
  have hexpect : expect .openBrace s = advanceWith .regExp s := by
    rw [← hgoal]
    exact congrFun (if_pos (Token.isPunctuator_iff.mpr hkind)) s
  unfold functionBody
  refine Ends.bind (P := fun _ t => s.Agrees t ∧ s.scanner.next .regExp = (.ok t.token, t.scanner)) ?_ fun _ t ht => ?_
  · rw [hexpect]
    exact advanceWith_ends hbehind
  · have hbody := hcode t ht.1 ht.2
    unfold code at hbody
    rw [directives_eq]
    cases hturns : (loop {} (directiveTurn nested) : Recognizer Directives) t with
    | error f u =>
      have hcode : repeatTurns (directiveTurn nested) t.turns {} t = .error f u := hturns
      rw [bind_of_error hcode] at hbody
      rw [bind_of_error hturns]
      exact hbody
    | ok d u =>
      have hcode : repeatTurns (directiveTurn nested) t.turns {} t = .ok d u := hturns
      rw [bind_of_ok hcode] at hbody
      rw [bind_of_ok hturns]
      cases hlist : statementList nested false u with
      | error f w =>
        rw [bind_of_error hlist] at hbody ⊢
        exact hbody
      | ok _ w =>
        rw [bind_of_ok hlist] at hbody ⊢
        obtain ⟨strict?, octal?⟩ := d
        cases strict? <;> exact hbody

/-- The lexemes of the head of a function declaration, up to the brace that opens its body. -/
def functionLexemes (n : Variable) (ps : List Variable) : List Lexeme :=
  .word Keyword.function.word :: .word n.toWord :: .punctuator .openParen ::
    (parameterLexemes ps ++ [.punctuator .closeParen, .punctuator .openBrace])

/-- The context of a plain function's code. -/
abbrev State.functionContext (s : State) : Context :=
  .ofFunction s.context.strict s.isModule false false

theorem inFunctionContext_ends {α : Type} {c : Context} {body : Recognizer α} {P : α → State → Prop}
    (h : Ends E P (body (s.inside c))) :
    Ends E (fun a t => ∃ u, P a u ∧
        t = { u with context := s.context, labels := s.labels, attachedLabels := s.attachedLabels })
      (inFunctionContext c body s) := by
  have hrun : inFunctionContext c body s = (body >>= fun result => do
      modify fun t =>
        { t with context := s.context, labels := s.labels, attachedLabels := s.attachedLabels }
      return result) (s.inside c) := rfl
  rw [hrun]
  exact h.bind fun a u hu => ⟨u, hu, rfl⟩

/-- The parameters and the body of a plain function. -/
theorem parametersAndBody_ends {levels : Nat} {ps : List Variable} {close : LexicalGoal} (hE : ∀ p, E (.stalled p))
    (hplain : s.context.Plain) (hbindable : Bindable s.context levels ps ∨ ∀ f, E f) (hbehind : ReadsOn E behind)
    (hs : s.Before (.punctuator .openParen ::
      (parameterLexemes ps ++ [.punctuator .closeParen, .punctuator .openBrace]))
      behind)
    (hcode : ∀ t, s.Agrees t → behind.next .regExp = (.ok t.token, t.scanner) →
      Ends E (fun _ u => Ends E Q (expectWith .closeBrace close u)) (code (derive levels) false t.turns {} t)) :
    Ends E (fun _ t => Bindable s.context levels ps ∧ Q () t)
      (parametersAndBody (derive levels) ⟨false, false, none⟩ close s) := by
  unfold parametersAndBody
  rw [token_bind]
  refine Ends.bind (parameters_ends hE hbindable hs) fun r t ht => ?_
  obtain ⟨rfl, hps, hcomes⟩ := ht
  have hsame : { t with context := t.context.inBody false false } = t := by
    rw [Context.inBody_plain (hcomes.context ▸ hplain)]
  have hrun : ((do
      failIf (accessorError? none ⟨ps.length, true, false⟩) s.token.start
      modify fun s => { s with context := s.context.inBody false false }
      functionBody (derive levels) true close) : Recognizer Unit) t = functionBody (derive levels) true close t :=
    congrArg (functionBody (derive levels) true close) hsame
  refine Ends.imp (P := Q) ?_ fun _ u hu => ⟨hps, hu⟩
  rw [hrun]
  exact functionBody_ends hbehind hcomes.before fun u hu => hcode u (hcomes.toAgrees.trans hu)

/-- A function declaration whose name and parameters are bound ends as the code of its body does. -/
theorem functionDeclaration_ends {levels : Nat} {n : Variable} {ps : List Variable} (hE : ∀ p, E (.stalled p))
    (hname : s.context.forbids true n.name = false ∨ ∀ f, E f)
    (hbindable : Bindable s.functionContext levels ps ∨ ∀ f, E f) (hbehind : ReadsOn E behind)
    (hs : s.Before (functionLexemes n ps) behind)
    (hcode : ∀ t, (s.inside s.functionContext).Agrees t → behind.next .regExp = (.ok t.token, t.scanner) →
      Ends E (fun _ u => Ends E Q (expectWith .closeBrace .regExp u)) (code (derive levels) false t.turns {} t)) :
    Ends E (fun _ t => (s.context.forbids true n.name = false ∧ Bindable s.functionContext levels ps) ∧
        ∃ u, Q () u ∧ t = { u with context := s.context, labels := s.labels, attachedLabels := s.attachedLabels })
      (functionDeclaration (derive levels) false s) := by
  obtain ⟨t, ht, hkeyword⟩ := advance_comes hs
  obtain ⟨u, hu, hopen⟩ := advance_comes hkeyword.before
  have hagrees := hkeyword.toAgrees.trans hopen.toAgrees
  have hstar : t.token.isPunctuator .star = false :=
    (isPunctuator_of_kind (hkeyword.before.1.trans n.kind_eq) .star).trans (decide_eq_false (by nofun))
  have hdeclared : s.context.bindingError? false ⟨n.name, n.value.escaped, t.token.start⟩ = none ∨ ∀ f, E f :=
    hname.imp_left bindingError?_free.mpr
  have hinside : (s.inside s.functionContext).Agrees (u.inside s.functionContext) :=
    ⟨Surroundings.ext rfl rfl rfl hagrees.classDepth hagrees.depth, hagrees.isModule⟩
  have hbody : Ends E (fun _ w => ∃ v, (Bindable s.functionContext levels ps ∧ Q () v) ∧
        w = { v with context := u.context, labels := u.labels, attachedLabels := u.attachedLabels })
      (inFunctionContext s.functionContext (parametersAndBody (derive levels) ⟨false, false, none⟩ .regExp) u) :=
    inFunctionContext_ends (parametersAndBody_ends hE ⟨rfl, rfl⟩ hbindable hbehind (hopen.before.of_eq rfl rfl)
      fun w hw => hcode w (hinside.trans hw))
  change Ends E _ ((function (derive levels) false true true >>= fun _ => pure ()) s)
  unfold function
  rw [bind_assoc, token_bind, bind_assoc, bind_of_ok ht, bind_assoc, bind_of_ok (eat_of_not hstar),
    bind_assoc, get_bind, identifier?_of_before hkeyword.before, hkeyword.context, hkeyword.isModule]
  dsimp only
  rw [if_pos rfl, if_pos rfl, bind_assoc]
  refine Ends.bind (failIf_ends hdeclared) fun _ t' ht' => ?_
  obtain ⟨hfree, rfl⟩ := ht'
  rw [bind_assoc, bind_of_ok hu, bind_assoc]
  refine hbody.bind fun _ w hw => ?_
  obtain ⟨v, ⟨hps, hQ⟩, rfl⟩ := hw
  refine ⟨⟨bindingError?_free.mp hfree, hps⟩, v, hQ, ?_⟩
  rw [hagrees.context, hagrees.labels, hagrees.attachedLabels]

/-- A function declaration in a list of statements. -/
theorem functionItem_ends {levels : Nat} {n : Variable} {ps : List Variable} {topLevel : Bool}
    (hE : ∀ p, E (.stalled p)) (hzero : levels = 0 → ∀ n p, E (.tooDeep n p))
    (hname : s.context.forbids true n.name = false ∨ ∀ f, E f)
    (hbindable : Bindable s.functionContext (levels - 1) ps ∨ ∀ f, E f) (hbehind : ReadsOn E behind)
    (hs : s.Before (functionLexemes n ps) behind)
    (hcode : ∀ t, (s.deepened.inside s.functionContext).Agrees t → behind.next .regExp = (.ok t.token, t.scanner) →
      Ends E (fun _ u => Ends E Q (expectWith .closeBrace .regExp u)) (code (derive (levels - 1)) false t.turns {} t)) :
    Ends E
      (fun _ t => (levels ≠ 0 ∧ s.context.forbids true n.name = false ∧ Bindable s.functionContext (levels - 1) ps) ∧
        ∃ u, Q () u ∧ t.input = u.input)
      (derive levels (.statementListItem topLevel) s) := by
  refine derive_ends (p := .statementListItem topLevel) hzero fun l hl => ?_
  subst hl
  have hkeyword : s.deepened.token.isKeyword .function = true := by
    rw [isKeyword_of_kind (show s.deepened.token.kind = _ from hs.1.trans (Keyword.kind_word .function))]
    exact decide_eq_true rfl
  have hexpand :
      expandStatementListItem (derive l) topLevel s.deepened = functionDeclaration (derive l) false s.deepened := by
    unfold expandStatementListItem
    rw [get_bind, if_pos hkeyword]
  change Ends E _ (expandStatementListItem (derive l) topLevel s.deepened)
  rw [hexpand]
  have hdeclared : s.deepened.context.forbids true n.name = false ∨ ∀ f, E f := hname
  refine (functionDeclaration_ends hE hdeclared hbindable hbehind (hs.of_eq rfl rfl) hcode).imp fun _ t ht => ?_
  obtain ⟨hpermitted, u, hQ, rfl⟩ := ht
  exact ⟨⟨Nat.succ_ne_zero l, hpermitted⟩, u, hQ, rfl⟩

/-! ## Code turn by turn -/

section

variable {P : Directives → State → Prop} {topLevel : Bool} {d : Directives}

/-- A directive, behind which the code goes on. -/
theorem code_again_ends {R : Directives → State → Prop} (hE : ∀ p, E (.stalled p))
    (hturn : Ends E (fun r u => ∃ d', r = .again d' ∧ R d' u) (directiveTurn nested d s))
    (hrest : ∀ d' u turns n, R d' u → Ends E P (code nested topLevel n d' { u with repeated := turns })) (n : Nat) :
    Ends E P (code nested topLevel n d s) := by
  cases n with
  | zero => exact hE _
  | succ n =>
    unfold code
    rw [repeatTurns, bind_assoc, token_bind, bind_assoc]
    refine hturn.bind fun r u hr => ?_
    obtain ⟨d', rfl, hR⟩ := hr
    exact hrest d' u _ n hR

/-- A `use strict` directive, behind which the code goes on and is strict. -/
theorem code_useStrict_ends {levels : Nat} (hE : ∀ p, E (.stalled p)) (hzero : levels = 0 → ∀ n p, E (.tooDeep n p))
    (hs : s.Before [.literal useStrict, .punctuator .semicolon] behind) (hbehind : ReadsOn E behind)
    (hrest : ∀ d u n, State.Agrees { s with context := { s.context with strict := true } } u →
      behind.next .regExp = (.ok u.token, u.scanner) → Ends E P (code (derive levels) topLevel n d u)) (n : Nat) :
    Ends E P (code (derive levels) topLevel n {} s) := by
  obtain ⟨hkind, hlexeme, _ | ⟨hsemicolon, _, hnext, _ | _⟩⟩ := hs
  refine code_again_ends (R := fun _ u => State.Agrees { s with context := { s.context with strict := true } } u ∧
    behind.next .regExp = (.ok u.token, u.scanner)) hE ?_ (fun d u turns n hu => ?_) n
  · refine (directiveTurn_useStrict hE hzero hkind (hnext .division (by decide)) hsemicolon hlexeme rfl hbehind).imp
      fun r u hu => ?_
    obtain ⟨⟨d, rfl, _⟩, hagrees, hread⟩ := hu
    exact ⟨d, rfl, hagrees, hread⟩
  · exact hrest d { u with repeated := turns } n ⟨hu.1.surroundings, hu.1.isModule⟩ hu.2

/-- Strict code that is recognized from its directive on is recognized behind it. -/
theorem exists_code_of_useStrict {levels n : Nat} {a : Directives}
    (hs : s.Before [.literal useStrict, .punctuator .semicolon] behind)
    (hrun : code (derive levels) topLevel n {} s = .ok a t) :
    ∃ d u n, State.Agrees { s with context := { s.context with strict := true } } u ∧
      behind.next .regExp = (.ok u.token, u.scanner) ∧ code (derive levels) topLevel n d u = .ok a t := by
  have hends : Ends (fun _ => True)
    (fun a t => ∃ d u n, State.Agrees { s with context := { s.context with strict := true } } u ∧
      behind.next .regExp = (.ok u.token, u.scanner) ∧ code (derive levels) topLevel n d u = .ok a t)
      (code (derive levels) topLevel n {} s) := by
    refine code_useStrict_ends (fun _ => trivial) (fun _ _ _ => trivial) hs (.inl fun _ => trivial)
      (fun d u m hagrees hnext => (Ends.self _).imp fun a t ha => ?_) n
    exact ⟨d, u, m, hagrees, hnext, ha⟩
  exact hends.of_ok hrun

/-- One statement, at the end of the text. -/
theorem code_item_ends (hE : ∀ p, E (.stalled p)) (hstring : s.token.isString = false)
    (hopen : (s.token.isEnd || s.token.isPunctuator .closeBrace) = false)
    (hitem : Ends E (fun _ t => t.token.isEnd = true) (nested (.statementListItem topLevel) s)) (n : Nat) :
    Ends E (fun _ t => t.token.isEnd = true) (code nested topLevel n d s) := by
  refine Ends.bind (P := fun _ t => t = s) (.done hE (directiveTurn_of_not hstring d) rfl n) fun _ t ht => ?_
  subst ht
  refine Ends.bind (P := fun _ u => u.token.isEnd = true) ?_ fun _ u hu => hu
  rw [statementList_eq]
  refine .again (R := fun _ u => u.token.isEnd = true) hE ?_ (fun _ u turns m hu => ?_) t.turns
  · unfold statementTurn
    rw [token_bind, hopen, if_neg Bool.false_ne_true]
    exact hitem.bind fun _ u hu => ⟨(), rfl, hu⟩
  · have hdone : statementTurn nested topLevel () { u with repeated := turns } =
        .ok (.done ()) { u with repeated := turns } := by
      unfold statementTurn
      rw [token_bind, show (State.mk ..).token.isEnd = true from hu, Bool.true_or, if_pos rfl]
      rfl
    exact .done hE hdone hu m

/-- The lexemes of a head are those of a statement that is no directive. -/
theorem not_string_of_function {v : Variable} {ps : List Variable} (hs : s.Before (functionLexemes v ps) behind) :
    s.token.isString = false ∧ (s.token.isEnd || s.token.isPunctuator .closeBrace) = false := by
  have hkind : s.token.kind = .keyword .function := hs.1.trans (Keyword.kind_word .function)
  constructor
  · unfold Token.isString
    rw [hkind]
  · unfold Token.isEnd
    rw [isPunctuator_of_kind hkind, hkind]
    rfl

/-- Code that is one function declaration, at the end of the text. -/
theorem code_function_ends {levels : Nat} {v : Variable} {ps : List Variable} (hE : ∀ p, E (.stalled p))
    (hzero : levels = 0 → ∀ n p, E (.tooDeep n p)) (hname : s.context.forbids true v.name = false ∨ ∀ f, E f)
    (hbindable : Bindable s.functionContext (levels - 1) ps ∨ ∀ f, E f) (hbehind : ReadsOn E behind)
    (hs : s.Before (functionLexemes v ps) behind)
    (hcode : ∀ t, (s.deepened.inside s.functionContext).Agrees t → behind.next .regExp = (.ok t.token, t.scanner) →
      Ends E (fun _ u => Ends E (fun _ w => w.token.isEnd = true) (expectWith .closeBrace .regExp u))
        (code (derive (levels - 1)) false t.turns {} t)) (n : Nat) :
    Ends E (fun _ t => t.token.isEnd = true) (code (derive levels) topLevel n d s) := by
  obtain ⟨hstring, hopen⟩ := not_string_of_function hs
  refine code_item_ends hE hstring hopen ?_ n
  refine (functionItem_ends hE hzero hname hbindable hbehind hs hcode).imp fun _ t ht => ?_
  obtain ⟨_, u, hu, hinput⟩ := ht
  rw [show t.token = u.token from congrArg Input.token hinput, hu]

end

end Grammar

/-! ## Printing heads -/

/-- A list of parameters that are plain identifiers. -/
def parameterPieces : List Variable → List Piece
  | [] => []
  | [v] => [v.piece]
  | v :: w :: vs => v.piece :: Punctuator.comma.piece :: .space :: parameterPieces (w :: vs)

/-- The head of a function declaration, up to the brace that opens its body. -/
def functionPieces (n : Variable) (ps : List Variable) : List Piece :=
  Keyword.function.word.piece :: .space :: n.piece :: Punctuator.openParen.piece ::
    (parameterPieces ps ++ [Punctuator.closeParen.piece, .space, Punctuator.openBrace.piece])

theorem lexemes_parameterPieces (ps : List Variable) : lexemes (parameterPieces ps) = Grammar.parameterLexemes ps := by
  induction ps with
  | nil => rfl
  | cons v ps ih =>
    cases ps with
    | nil => rfl
    | cons w ps => exact congrArg (fun ls => .word v.toWord :: .punctuator .comma :: ls) ih

theorem lexemes_functionPieces (n : Variable) (ps : List Variable) :
    lexemes (functionPieces n ps) = Grammar.functionLexemes n ps := by
  have hlexemes : lexemes (functionPieces n ps) = .word Keyword.function.word :: .word n.toWord ::
      .punctuator .openParen :: lexemes (parameterPieces ps ++ _) := rfl
  rw [hlexemes, lexemes_append, lexemes_parameterPieces]
  rfl

theorem sound_parameterPieces (ps : List Variable) (rest : List Piece) :
    Sound (parameterPieces ps ++ Punctuator.closeParen.piece :: rest) = Sound rest := by
  induction ps with
  | nil => exact sound_whole rfl rest
  | cons v ps ih =>
    cases ps with
    | nil => exact sound_whole rfl rest
    | cons w ps =>
      have hcomma : Punctuator.comma.isWhole = true := rfl
      exact (sound_whole hcomma (.space :: (parameterPieces (w :: ps) ++ Punctuator.closeParen.piece :: rest))).trans ih

theorem sound_functionPieces (n : Variable) (ps : List Variable) : Sound (functionPieces n ps) = true := by
  have hparameters := sound_parameterPieces ps [.space, Punctuator.openBrace.piece]
  have hopen : Punctuator.openParen.isWhole = true := rfl
  exact (sound_whole hopen _).trans hparameters

end EcmaCheck
