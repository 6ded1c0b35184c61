import EcmaCheck.Proofs.Division
import EcmaCheck.Proofs.Session
import EcmaCheck.Proofs.Tiling

/-!
# Parser and scanner in step

Between the token consumed last and the current one there is nothing but a gap, and the current token tells whether a
line ends in it; the scanner stands behind the current token (`Input.InStep`). Reading the next token keeps this, and so
does reading a token again, as that begins where the token does (`Stands.rescan`). So it holds in all states that a
recognition visits behind its first token (`in_step_of_visits`): what it moves along to its end (`Visits.between`) never
consumes the end of the text.
-/

namespace EcmaCheck

open Lexical Scanner

section Reading

variable {text : List Char} {sentinel : Bool} {n : Nat} {goal : LexicalGoal} {token : Token} {scanner : Scanner}

/-! ## Reading behind a place -/

/-- A token that is read before the end of the text is a span that begins behind the gap. -/
theorem Scanner.span_of_next {k : Nat} {newline : Bool} (hgoal : goal = .templateTail → text[n]? = some '}')
    (hskip : (standing text sentinel n).skipGap goal = ⟨k, .ok newline⟩) (hlt : n + k < text.length)
    (h : (standing text sentinel n).next goal = (.ok token, scanner)) :
    ∃ span : Span, span.Within text goal n ∧ span.first = n + k ∧ span.newlineBefore = newline ∧
      token = span.token text ∧ scanner = standing text sentinel span.behind := by
  have hbefore : (standing text sentinel n).advance k = standing text sentinel (n + k) :=
    advance_standing sentinel (Nat.le_of_lt hlt)
  have hrest : ((standing text sentinel n).advance k).rest ≠ [] := by
    rw [hbefore]
    exact rest_standing_ne_nil sentinel hlt
  rcases helement : element (standing text sentinel n).source.sentinel goal ((standing text sentinel n).advance k).rest
    with ⟨m, e | kind⟩
  · cases (next_misread hskip hrest helement).symm.trans (congrArg Prod.fst h)
  · have hnext := (next_token hskip hrest helement).symm.trans h
    have htoken : _ = token := Except.ok.inj (congrArg Prod.fst hnext)
    have hstart : token.start = placeAt text (n + k) := by
      rw [← htoken, hbefore]
      rfl
    have hnewline : token.newlineBefore = newline := by rw [← htoken]
    have hn : n ≤ text.length := by omega
    cases scans goal hn hgoal with
    | fails _ _ hfails => cases (hfails sentinel).symm.trans (congrArg Prod.fst h)
    | ends _ _ _ hends =>
      have hend := Except.ok.inj ((hends sentinel).symm.trans (congrArg Prod.fst h))
      rw [← hend] at hstart
      exact absurd (eq_of_placeAt_eq (Nat.le_refl _) (Nat.le_of_lt hlt) hstart) (by omega)
    | reads span hs _ hreads =>
      have hread := (hreads sentinel).symm.trans h
      have hspan : span.token text = token := Except.ok.inj (congrArg Prod.fst hread)
      refine ⟨span, hs, ?_, ?_, hspan.symm, (congrArg Prod.snd hread).symm⟩
      · rw [← hspan] at hstart
        exact eq_of_placeAt_eq hs.first_le (Nat.le_of_lt hlt) hstart
      · rw [← hspan] at hnewline
        exact hnewline

end Reading

namespace Grammar

section Between

variable {text : List Char} {sentinel : Bool} {n : Nat} {goal : LexicalGoal} {token : Token} {scanner : Scanner}

/-- What was read from an index of the text: a gap and a token, behind which the scanner stands, or a gap up to the end
of the text. -/
inductive Stands (text : List Char) (sentinel : Bool) (n : Nat) (token : Token) (scanner : Scanner) : Prop
  | amid (span : Span) {goal : LexicalGoal} (hs : span.Within text goal n)
    (hgap : (standing text sentinel n).skipGap .regExp = ⟨span.first - n, .ok span.newlineBefore⟩)
    (htoken : token = span.token text) (hscanner : scanner = standing text sentinel span.behind)
  | atEnd (newline : Bool) (hn : n ≤ text.length)
    (hgap : (standing text false n).skipGap .regExp = ⟨text.length - n, .ok newline⟩)
    (htoken : token = endToken text (newline || sentinel))

theorem stands_of_next (hgoal : goal ≠ .templateTail) (hn : n ≤ text.length)
    (h : (standing text sentinel n).next goal = (.ok token, scanner)) : Stands text sentinel n token scanner := by
  have hskip (goal : LexicalGoal) (hgoal : goal ≠ .templateTail) :
      (standing text sentinel n).skipGap goal = (standing text sentinel n).skipGap .regExp := by
    rw [skipGap, skipGap, if_neg hgoal, if_neg (by decide)]
  have hreads : ReadsGap (text.drop n) ((standing text false n).skipGap .regExp)
      ((standing text true n).skipGap .regExp) := skipGap_reads hn (by rintro ⟨⟩)
  generalize hplain : (standing text false n).skipGap .regExp = plain at hreads
  generalize hcarrying : (standing text true n).skipGap .regExp = carrying at hreads
  have hboth : (standing text sentinel n).skipGap .regExp = if sentinel then carrying else plain := by
    cases sentinel
    · exact hplain
    · exact hcarrying
  cases hreads with
  | @fails k k' m c hc hline =>
    have hfails : (standing text sentinel n).skipGap goal = ⟨if sentinel then k' else k, .error m⟩ := by
      rw [hskip goal hgoal, hboth]
      cases sentinel <;> rfl
    cases (next_fails hfails).symm.trans (congrArg Prod.fst h)
  | @ends newline =>
    rw [List.length_drop] at hplain hboth
    have hends : (standing text sentinel n).skipGap goal =
        ⟨text.length - n + sentinel.toNat, .ok (newline || sentinel)⟩ := by
      rw [hskip goal hgoal, hboth]
      cases sentinel <;> simp
    obtain ⟨hrest, hplace⟩ := advance_standing_end sentinel hn
    have htoken := Except.ok.inj ((next_ends hends hrest).symm.trans (congrArg Prod.fst h))
    rw [hplace] at htoken
    exact .atEnd newline hn hplain htoken.symm
  | @goesOn k newline c hc hline =>
    rw [List.getElem?_drop] at hc
    have hlt := (List.getElem?_eq_some_iff.mp hc).1
    have hgap : (standing text sentinel n).skipGap .regExp = ⟨k, .ok newline⟩ := by
      rw [hboth]
      cases sentinel <;> rfl
    obtain ⟨span, hs, hfirst, rfl, htoken, hscanner⟩ :=
      span_of_next (fun h => absurd h hgoal) ((hskip goal hgoal).trans hgap) hlt h
    refine .amid span hs ?_ htoken hscanner
    rw [hgap, hfirst, Nat.add_sub_cancel_left]

/-- A token that is read again begins where it did, and the gap before it stays as it was. -/
theorem Stands.rescan {again : Token} {after : Scanner} (h : Stands text sentinel n token scanner)
    (hgoal : Rereads token goal) (hrescan : scanner.rescan goal token = (.ok again, after)) :
    Stands text sentinel n again after := by
  cases h with
  | atEnd _ _ _ htoken => cases hgoal <;> subst htoken <;> rename_i hkind <;> cases hkind
  | amid span hs hgap htoken hscanner =>
    subst htoken hscanner
    have hlt : span.first < text.length := Nat.lt_of_lt_of_le hs.first_lt hs.behind_le
    obtain ⟨read, hnext, rfl⟩ := next_of_rescan hs.first_le rfl hrescan
    obtain ⟨newline, hskip⟩ : ∃ newline, (standing text sentinel span.first).skipGap goal = ⟨0, .ok newline⟩ := by
      cases hgoal with
      | template => exact ⟨false, rfl⟩
      | regExp =>
        have hbefore : (standing text sentinel n).advance (span.first - n) = standing text sentinel span.first := by
          rw [advance_standing sentinel (by have := hs.le_first; omega), Nat.add_sub_cancel' hs.le_first]
        apply skipGap_behind (by decide) hgap <;> rw [hbefore]
        exact rest_standing_ne_nil sentinel hlt
    have hbrace : goal = .templateTail → text[span.first]? = some '}' := by
      rintro rfl
      cases hgoal with
      | template hbrace => exact hs.getElem?_first (Token.isPunctuator_iff.mp hbrace) rfl
    obtain ⟨span', hs', hfirst, _, rfl, rfl⟩ := span_of_next hbrace hskip hlt hnext
    rw [Nat.add_zero] at hfirst
    refine .amid { span' with newlineBefore := span.newlineBefore } { hs' with le_first := ?_ } ?_ rfl rfl
    · rw [hfirst]
      exact hs.le_first
    · simp only [hfirst]
      exact hgap

/-! ## The text between two tokens -/

/-- The text between the token consumed last and the current one is a gap. A line ends before the current token just if
a line terminator is in the gap, or, where the input ends, in the text up to the end of the source. Unless the input
ends, the scanner stands behind the current token. -/
structure Input.InStep (source : Source) (i : Input) : Prop where
  le_start : i.previousEnd.offset ≤ i.token.start.offset
  between : ∃ before gap behind, source.text = before ++ gap ++ behind ∧ byteLength before = i.previousEnd.offset ∧
    byteLength (before ++ gap) = i.token.start.offset ∧ IsGap (i.previousEnd.offset = 0) gap ∧
    i.token.newlineBefore = (gap ++ if i.token.isEnd then behind else []).any isLineTerminator
  position : i.token.isEnd = false → i.scanner.position = i.token.stop

theorem Stands.inStep {i : Input} (h : Stands text sentinel n i.token i.scanner)
    (hprevious : i.previousEnd = placeAt text n) : i.InStep (.carrying text sentinel) := by
  have hbegin (hn : n ≤ text.length) : (Source.carrying text sentinel).text.take n = text.take n := by
    cases sentinel with
    | false => rfl
    | true => exact List.take_append_of_le_length hn
  cases h with
  | amid span hs hgap htoken hscanner =>
    have hle := hs.first_le
    have hn : n ≤ text.length := Nat.le_trans hs.le_first hle
    have hfirst : n + (span.first - n) = span.first := Nat.add_sub_cancel' hs.le_first
    obtain ⟨gap, ⟨behind, hbehind⟩, hisGap, hlength, hnewline⟩ := gap_ok hgap
    have htaken : (text.drop n).take (span.first - n) = gap := by
      rw [← take_rest_standing sentinel hn (by omega), ← hbehind, hlength, List.take_left]
    have hstart : i.token.start.offset = (placeAt text n).offset + byteLength gap := by
      rw [htoken, ← htaken, ← offset_placeAt_add (by omega), hfirst]
      rfl
    refine ⟨by rw [hprevious, hstart]; omega, ⟨text.take n, gap, behind, ?_, ?_, ?_, ?_, ?_⟩, ?_⟩
    · rw [List.append_assoc, hbehind, ← hbegin hn]
      exact (List.take_append_drop _ _).symm
    · rw [hprevious, offset_placeAt hn]
    · rw [byteLength_append, hstart, offset_placeAt hn]
    · rw [hprevious]
      exact hisGap
    · rw [htoken, hs.isEnd_token]
      simpa [Span.token] using hnewline
    · intro
      rw [hscanner, htoken]
      rfl
  | atEnd newline hn hgap htoken =>
    obtain ⟨gap, hprefix, hisGap, hlength, hnewline⟩ := gap_ok hgap
    obtain rfl : gap = text.drop n := hprefix.eq_of_length (by rw [← hlength]; exact List.length_drop.symm)
    have hwhole : byteLength (text.take n ++ text.drop n) = i.token.start.offset := by
      rw [List.take_append_drop, htoken, endToken, offset_placeAt (Nat.le_refl _), List.take_length]
    have hsum := hwhole
    rw [byteLength_append, ← offset_placeAt hn, ← hprevious] at hsum
    refine ⟨by omega, ⟨text.take n, text.drop n, if sentinel then ['\n'] else [], ?_, ?_, hwhole, ?_, ?_⟩, ?_⟩
    · rw [List.take_append_drop]
      cases sentinel with
      | false => exact (List.append_nil text).symm
      | true => rfl
    · rw [hprevious, offset_placeAt hn]
    · rw [hprevious]
      exact hisGap
    · rw [htoken]
      cases sentinel <;> simp [endToken, Token.isEnd, hnewline, isLineTerminator]
    · rw [htoken]
      rintro ⟨⟩

/-- Moving along keeps parser and scanner in step, as long as the end of the text is not consumed. -/
theorem inStep_of_leads {i j : Input} (hleads : i.Leads true j) (hj : ∀ t ∈ j.consumed, t.isEnd = false)
    (h : Stands text sentinel n i.token i.scanner) (hprevious : i.previousEnd = placeAt text n) :
    j.InStep (.carrying text sentinel) := by
  generalize htrue : true = ok at hleads
  induction hleads generalizing n with
  | done => exact h.inStep hprevious
  | fails | misreads => cases htrue
  | @advance i i' j ok goal hgoal hadvance hleads ih =>
    obtain ⟨hnext, heq⟩ := Input.eq_of_receive hadvance
    have hend : i.token.isEnd = false := by
      apply hj
      apply hleads.consumed_suffix.subset
      rw [heq]
      exact List.mem_cons_self
    cases h with
    | atEnd _ _ _ htoken => rw [htoken] at hend; cases hend
    | amid span hs _ htoken hscanner =>
      rw [hscanner] at hnext
      apply ih hj (stands_of_next hgoal hs.behind_le hnext) _ htrue
      rw [heq]
      exact congrArg Token.stop htoken
  | rescan hgoal hrescan _ ih =>
    obtain ⟨hread, heq⟩ := Input.eq_of_receive hrescan
    apply ih hj (h.rescan hgoal hread) _ htrue
    rw [heq]
    exact hprevious
  | noteOmission _ ih | noteStart _ ih | noteEnd _ ih | noteTurn _ _ ih => exact ih hj h hprevious htrue

end Between

/-! ## The states that are visited -/

variable {α β : Type}

/-- A recognizer that begins in the first state visits the second: it begins there, or its first part visits it, or its
first part succeeds and the rest visits it. All parts get along as recognizers do. -/
inductive Visits : {α : Type} → Recognizer α → State → State → Prop
  | begins {α : Type} {x : Recognizer α} {s : State} (hx : Moves x) : Visits x s s
  | first {α β : Type} {x : Recognizer α} {f : α → Recognizer β} {s t : State} (hf : ∀ a, Moves (f a))
    (h : Visits x s t) : Visits (x >>= f) s t
  | rest {α β : Type} {x : Recognizer α} {f : α → Recognizer β} {s t u : State} {a : α} (hx : Moves x)
    (hrun : x s = .ok a t) (h : Visits (f a) t u) : Visits (x >>= f) s u

/-- A recognition may get from the input to the result. -/
def Input.LeadsTo (i : Input) : EStateM.Result Fault State α → Prop
  | .ok _ t => i.Leads true t.input
  | .error _ t => i.Leads false t.input

theorem leadsTo_of_moves {x : Recognizer α} (hx : Moves x) (s : State) : s.input.LeadsTo (x s) := by
  have hmoved := hx.moved s
  cases h : x s with
  | ok => rw [h] at hmoved; exact hmoved.1
  | error => rw [h] at hmoved; exact hmoved

theorem Input.LeadsTo.bind {i : Input} {x : Recognizer α} {f : α → Recognizer β} {s : State} (h : i.LeadsTo (x s))
    (hf : ∀ a, Moves (f a)) : i.LeadsTo ((x >>= f) s) := by
  change i.LeadsTo (EStateM.bind x f s)
  unfold EStateM.bind
  cases hrun : x s with
  | error => rw [hrun] at h; exact h
  | ok a t =>
    rw [hrun] at h
    have hrest := leadsTo_of_moves (hf a) t
    change i.LeadsTo (f a t)
    cases hend : f a t <;> rw [hend] at hrest <;> exact h.trans hrest

/-- A state that is visited lies between where the recognizer begins and where it ends. -/
theorem Visits.between {x : Recognizer α} {s t : State} (h : Visits x s t) :
    s.input.Leads true t.input ∧ t.input.LeadsTo (x s) := by
  induction h with
  | begins hx => exact ⟨.done _, leadsTo_of_moves hx _⟩
  | first hf _ ih => exact ⟨ih.1, ih.2.bind hf⟩
  | @rest _ _ x f s t _ a hx hrun _ ih =>
    have hbind : (x >>= f) s = f a t := by
      change EStateM.bind x f s = f a t
      simp only [EStateM.bind, hrun]
    rw [hbind]
    exact ⟨(hx.moved_of_ok hrun).trans ih.1, ih.2⟩

theorem Input.LeadsTo.finalState {i : Input} {r : EStateM.Result Fault State Unit} (h : i.LeadsTo r) :
    ∃ ok, i.Leads ok (finalState r).input := by
  cases r with
  | ok => exact ⟨true, h⟩
  | error => exact ⟨false, h⟩

/-- What is recognized of a program behind its first token. -/
def programBehindStart (nested : Derivation) : Recognizer Unit := do
  discard (directives nested)
  statementList nested true
  unless (← token).isEnd do unexpected

theorem program_eq (nested : Derivation) : program nested = start >>= fun _ => programBehindStart nested :=
  rfl

/-- Looking at the next token leaves the state as it is, and shows the token that consuming the current one would make
current, or the fault with which that would fail. -/
theorem peek_spec (s : State) :
    (∀ t u, peek s = .ok t u ↔ u = s ∧ ∃ v, advance s = .ok () v ∧ v.token = t) ∧
      ∀ f u, peek s = .error f u ↔ u = s ∧ ∃ v, advance s = .error f v := by
  have hadvance : advance s = { s with consumed := s.token :: s.consumed }.receive (s.scanner.next s.token.goalAfter) :=
    rfl
  rw [hadvance]
  unfold peek State.receive
  rcases s.scanner.next s.token.goalAfter with ⟨g | next, scanner⟩
  · simp [eq_comm, and_comm]
  · simp [eq_comm, and_comm]

/-- In all states that a recognition visits behind its first token, parser and scanner are in step; and looking at the
next token leaves the state as it is and shows the token that consuming the current one would make current. -/
theorem in_step_of_visits (isModule : Bool) (limit : Nat) (text : List Char) {s t : State}
    (hstart : start (.initial isModule (.ofText text)) = .ok () s)
    (h : Visits (programBehindStart (derive limit)) s t) :
    t.input.InStep (.ofText text) ∧
      (∀ next u, peek t = .ok next u ↔ u = t ∧ ∃ v, advance t = .ok () v ∧ v.token = next) ∧
      ∀ f u, peek t = .error f u ↔ u = t ∧ ∃ v, advance t = .error f v := by
  refine ⟨?_, peek_spec t⟩
  obtain ⟨own, sentinel, hsource⟩ := Source.ofText_eq text
  rw [hsource] at hstart ⊢
  have hrun : run isModule limit (.carrying own sentinel) = programBehindStart (derive limit) s := by
    rw [run, program_eq]
    change EStateM.bind _ _ _ = _
    simp only [EStateM.bind, hstart]
  obtain ⟨hleads, hend⟩ := h.between
  -- the tokens that the run has consumed in the end include those consumed so far
  obtain ⟨ok, hend⟩ := hend.finalState
  rw [← hrun] at hend
  have hpassed := passed_finalState isModule limit own sentinel
  have hconsumed : ∀ u ∈ t.input.consumed, u.isEnd = false := by
    intro u hu
    exact (hpassed.consumed u (hend.consumed_suffix.subset hu)).1
  rw [start, State.initial, ofSource_carrying] at hstart
  unfold State.receive at hstart
  rcases hnext : (standing own sentinel 0).next .regExp with ⟨f | first, scanner⟩ <;> simp only [hnext] at hstart <;>
    cases hstart
  exact inStep_of_leads hleads hconsumed (stands_of_next (by decide) (Nat.zero_le _) hnext) (placeAt_zero own).symm

/-- Behind a directive and a comment, the name on the next line is the current token. -/
theorem in_step_of_visits_directive : ∃ s t, start (.initial false (.ofText "'a' // c\nb".toList)) = .ok () s ∧
    Visits (programBehindStart (derive 9)) s t ∧ t.token.newlineBefore = true ∧
      t.input.InStep (.ofText "'a' // c\nb".toList) := by
  obtain ⟨s, hstart, t, hrun, hkind⟩ : ∃ s, start (.initial false (.ofText "'a' // c\nb".toList)) = .ok () s ∧
      ∃ t, discard (directives (derive 9)) s = .ok () t ∧ t.token.newlineBefore = true := by
    have hrun : (match start (.initial false (.ofText "'a' // c\nb".toList)) with
        | .error .. => false
        | .ok _ s =>
          match (discard (directives (derive 9)) : Recognizer Unit) s with
          | .error .. => false
          | .ok _ t => t.token.newlineBefore) = true := by decide +kernel
    split at hrun
    · cases hrun
    · rename_i s hstart
      split at hrun
      · cases hrun
      · rename_i t hdirectives
        exact ⟨s, hstart, t, hdirectives, hrun⟩
  have hvisits : Visits (programBehindStart (derive 9)) s t := .rest inferInstance hrun (.begins inferInstance)
  exact ⟨s, t, hstart, hvisits, hkind, (in_step_of_visits false 9 _ hstart hvisits).1⟩

end Grammar

end EcmaCheck
