import EcmaCheck.Proofs.CommonRest
import EcmaCheck.Proofs.Lockstep.Token

/-!
# Places at which no token ends

A recognition may miss the place of an insertion: it has come to a token that runs across it, or to the end of the text,
or to the `?` of a `?.5` between whose last characters the place is (`Insertion.Missed`). Then it goes on like this, and
consumes no token that ends there (`not_endsThere`).
-/

namespace EcmaCheck

open Lexical Scanner

/-- A token that is read again ends no earlier than it did. -/
theorem Span.Within.behind_le_again {text : List Char} {goal goal' : LexicalGoal} {n : Nat} {span again : Span}
    (hs : span.Within text goal n) (hgoal : Grammar.Rereads (span.token text) goal')
    (hread : again.Read text goal' span.first) : span.behind ≤ again.behind := by
  obtain ⟨p, hp, hgoals⟩ := hgoal.exists_punctuator
  have hlength := hs.fits.length hp
  have hfirst := hread.le_first
  have hpos := hread.first_lt
  have hsince := hs.first_lt
  rcases hgoals with ⟨rfl, hslash⟩ | ⟨_, rfl⟩
  · -- a literal has two slashes, and `/=` is no longer
    have htwo : p.spelling.length ≤ 2 := by rcases hslash with rfl | rfl <;> decide
    by_cases heq : again.first = span.first
    · have hchar : text[span.first]? = some '/' := by
        rcases hslash with rfl | rfl <;> exact hs.getElem?_first hp rfl
      have helement := hread.element
      rw [heq, rest_standing_of_char hchar, element_slash_regExp] at helement
      have := two_le_regExp helement
      omega
    · omega
  · change _ = 1 at hlength
    omega

/-- A token that may be read again as template text begins with a brace. -/
theorem Span.Within.getElem?_of_rereads {text : List Char} {goal goal' : LexicalGoal} {n : Nat} {span : Span}
    (hs : span.Within text goal n) (hgoal : Grammar.Rereads (span.token text) goal') :
    goal' = .templateTail → text[span.first]? = some '}' := by
  rintro rfl
  cases hgoal with
  | template hbrace => exact hs.getElem?_first (Token.isPunctuator_iff.mp hbrace) rfl

namespace Insertion

variable (t : Insertion)

/-- Read before the place, the token runs across it, or the one behind it does. -/
def Misses (span : Span) : Prop :=
  t.before.length < span.behind ∨ SplitsPoint (t.before.drop span.first) (t.after ++ ['\n'])

/-- No token that is read from here on ends at the place, nor does the current one. -/
inductive Missed (token : Token) (scanner : Scanner) : Prop
  | ends (hend : token.isEnd = true) (hrest : scanner.rest = [])
  | across (span : Span) {goal : LexicalGoal} {n : Nat} (hs : span.Within t.plain goal n)
    (hlt : t.before.length < span.behind) (htoken : token = span.token t.plain)
    (hscanner : scanner = standing t.plain true span.behind)
  | point (span : Span) {goal : LexicalGoal} {n : Nat} (hs : span.Within t.plain goal n)
    (hsplit : SplitsPoint (t.before.drop span.first) (t.after ++ ['\n'])) (hbehind : span.behind = span.first + 1)
    (htoken : token = span.token t.plain) (hscanner : scanner = standing t.plain true span.behind)

variable {t} {span : Span} {goal : LexicalGoal} {n : Nat} {token : Token} {scanner : Scanner}

/-! ## The point of `?.5` -/

theorem length_of_splitsPoint (h : SplitsPoint (t.before.drop n) (t.after ++ ['\n'])) : t.before.length = n + 2 := by
  have hlength := congrArg List.length h.1
  rw [List.length_drop] at hlength
  change _ = 2 at hlength
  omega

theorem rest_of_splitsPoint (h : SplitsPoint (t.before.drop n) (t.after ++ ['\n'])) :
    (standing t.plain true n).rest = '?' :: '.' :: (t.after ++ ['\n']) := by
  have hlength := length_of_splitsPoint h
  have hle := before_le (t := t)
  rw [rest_standing_true (by omega), drop_plain_front (by omega), h.1]
  rfl

theorem rest_succ_of_splitsPoint (h : SplitsPoint (t.before.drop n) (t.after ++ ['\n'])) :
    (standing t.plain true (n + 1)).rest = '.' :: (t.after ++ ['\n']) := by
  have hlength := length_of_splitsPoint h
  have hle := before_le (t := t)
  have hrest := rest_of_splitsPoint h
  rw [rest_standing_true (by omega)] at hrest ⊢
  rw [← List.drop_drop]
  have hdrop := congrArg (List.drop 1) hrest
  rwa [List.drop_append_of_le_length (by rw [List.length_drop]; omega)] at hdrop

theorem getElem?_of_splitsPoint (h : SplitsPoint (t.before.drop n) (t.after ++ ['\n'])) : t.plain[n]? = some '?' := by
  have hlength := length_of_splitsPoint h
  have hdrop := drop_plain_front (t := t) (n := n) (by omega) []
  rw [List.append_nil, h.1] at hdrop
  rw [← List.head?_drop, hdrop]
  rfl

/-! ## Missing the place -/

theorem Missed.of_read (hs : span.Within t.plain goal n) (h : span.Read t.plain goal n) (hm : t.Misses span) :
    t.Missed (span.token t.plain) (standing t.plain true span.behind) := by
  rcases hm with hlt | hsplit
  · exact .across span hs hlt rfl rfl
  · refine .point span hs hsplit ?_ rfl rfl
    have helement := h.element
    rw [rest_of_splitsPoint hsplit, element_question hsplit.2] at helement
    have hlength : 1 = span.behind - span.first := congrArg Reading.length helement
    have := hs.first_lt
    omega

/-- A token that was read from behind the place misses it. -/
theorem Missed.of_behind {token : Token} (hn : t.before.length ≤ n) (h : Gives t.plain goal n token scanner) :
    t.Missed token scanner := by
  cases h with
  | ends hend hrest => exact .ends hend hrest
  | reads span hs _ htoken hscanner =>
    exact .across span hs (Nat.lt_of_le_of_lt (Nat.le_trans hn hs.le_first) hs.first_lt) htoken hscanner

/-- The next token misses the place as well. -/
theorem Missed.next {token' : Token} {scanner' : Scanner} (h : t.Missed token scanner) (hgoal : goal ≠ .templateTail)
    (hnext : scanner.next goal = (.ok token', scanner')) : t.Missed token' scanner' := by
  cases h with
  | ends hend hrest =>
    have hgap : scanner.skipGap goal = ⟨0, .ok false⟩ := by
      rw [skipGap, if_neg hgoal, hrest]
      exact gapFrom_nil
    have hends := (next_ends hgap hrest).symm.trans (congrArg Prod.fst hnext)
    have hstill := (scanner_next_ends hgap hrest).symm.trans (congrArg Prod.snd hnext)
    cases hends
    subst hstill
    exact .ends rfl hrest
  | across span hs hlt _ hscanner =>
    rw [hscanner] at hnext
    exact .of_behind (Nat.le_of_lt hlt) (gives hs.behind_le (fun h => absurd h hgoal) hnext)
  | point span hs hsplit hbehind _ hscanner =>
    rw [hscanner, hbehind] at hnext
    have hle : span.first + 1 ≤ t.plain.length := hbehind ▸ hs.behind_le
    have hrest := rest_succ_of_splitsPoint hsplit
    cases gives hle (fun h => absurd h hgoal) hnext with
    | ends hend hrest => exact .ends hend hrest
    | reads span' hs' h' htoken hscanner =>
      -- no gap is there, and the point goes on with the digit
      have hgap := h'.gap
      rw [skipGap, if_neg hgoal, hrest, gap, gapFrom_other (by decide) (by decide) (by decide)] at hgap
      · have hzero : 0 = span'.first - (span.first + 1) := congrArg Reading.length hgap
        have hfirst : span'.first = span.first + 1 := by
          have := hs'.le_first
          omega
        have helement := h'.element
        rw [hfirst, hrest] at helement
        have htwo := two_le_of_element_point hsplit.2 helement
        have hlength := length_of_splitsPoint hsplit
        exact .across span' hs' (by omega) htoken hscanner
      · exact fun _ h => absurd (List.cons.inj h).1 (by decide)

/-- A token that is read again misses the place as well. -/
theorem Missed.rescan {token' : Token} {scanner' : Scanner} (h : t.Missed token scanner)
    (hgoal : Grammar.Rereads token goal) (hrescan : scanner.rescan goal token = (.ok token', scanner')) :
    t.Missed token' scanner' := by
  obtain ⟨p, hp, hgoals⟩ := hgoal.exists_punctuator
  cases h with
  | ends hend hrest =>
    rw [Token.isEnd_of_isPunctuator (Token.isPunctuator_iff.mpr hp)] at hend
    cases hend
  | across span hs hlt htoken hscanner =>
    rw [hscanner] at hrescan
    obtain ⟨again, hnext, rfl⟩ := next_of_rescan hs.first_le (htoken ▸ rfl) hrescan
    cases gives hs.first_le (hs.getElem?_of_rereads (htoken ▸ hgoal)) hnext with
    | ends hend hrest => exact .ends hend hrest
    | reads span' hs' h' hagain hscanner' =>
      have hle := hs.behind_le_again (htoken ▸ hgoal) h'
      exact .across { span' with newlineBefore := token.newlineBefore } { hs' with } (Nat.lt_of_lt_of_le hlt hle)
        (hagain ▸ rfl) hscanner'
  | point span hs hsplit hbehind htoken hscanner =>
    have hspan : span.kind = .punctuator p := (congrArg Token.kind htoken).symm.trans hp
    have hquestion := getElem?_of_splitsPoint hsplit
    rcases hgoals with ⟨_, rfl | rfl⟩ | ⟨_, rfl⟩ <;> cases hquestion.symm.trans (hs.getElem?_first hspan rfl)

/-- The current token does not end at the place. -/
theorem Missed.stop_ne (h : t.Missed token scanner) (hend : token.isEnd = false) :
    token.stop.offset ≠ byteLength t.before := by
  have hle := before_le (t := t)
  have hplace : (placeAt t.plain t.before.length).offset = byteLength t.before := by
    rw [offset_placeAt hle, plain, List.take_left]
  rw [← hplace]
  cases h with
  | ends hend' => rw [hend] at hend'; cases hend'
  | across span hs hlt htoken =>
    rw [htoken]
    exact (Nat.ne_of_lt (offset_placeAt_lt hlt hs.behind_le)).symm
  | point span hs hsplit hbehind htoken =>
    rw [htoken]
    refine Nat.ne_of_lt (offset_placeAt_lt ?_ hle)
    have := length_of_splitsPoint hsplit
    omega

/-! ## Reading under another goal -/

theorem misses_of_missed (hs : span.Within t.plain goal n) (h : t.Missed (span.token t.plain) scanner) :
    t.Misses span := by
  have same {span' : Span} {goal' : LexicalGoal} {n' : Nat} (hs' : span'.Within t.plain goal' n')
      (h : span.token t.plain = span'.token t.plain) : span.first = span'.first ∧ span.behind = span'.behind :=
    ⟨eq_of_placeAt_eq hs.first_le hs'.first_le (congrArg Token.start h),
      eq_of_placeAt_eq hs.behind_le hs'.behind_le (congrArg Token.stop h)⟩
  cases h with
  | ends hend =>
    rw [hs.isEnd_token] at hend
    cases hend
  | across span' hs' hlt htoken => exact .inl ((same hs' htoken).2 ▸ hlt)
  | point span' hs' hsplit _ htoken => exact .inr ((same hs' htoken).1 ▸ hsplit)

/-- A token that begins where another one does ends no earlier than the other did under the goal of an operator. -/
theorem Missed.under {goal' : LexicalGoal} {token' : Token} {scanner' : Scanner} (h : t.Missed token scanner)
    (hn : n ≤ t.plain.length) (hgoal : goal ≠ .templateTail) (hgoal' : goal' ≠ .templateTail)
    (hkind : goal = .division ∨ token.kind ≠ .regExp)
    (hnext : (standing t.plain true n).next goal = (.ok token, scanner))
    (hnext' : (standing t.plain true n).next goal' = (.ok token', scanner')) : t.Missed token' scanner' := by
  have hnot {g : LexicalGoal} (hg : g ≠ .templateTail) : g = .templateTail → t.plain[n]? = some '}' :=
    fun h => absurd h hg
  cases gives hn (hnot hgoal') hnext' with
  | ends hend hrest => exact .ends hend hrest
  | reads span' hs' h' htoken' hscanner' =>
    cases gives hn (hnot hgoal) hnext with
    | ends hend =>
      have hsame := (scans goal hn (hnot hgoal)).isEnd_eq (congrArg Prod.fst hnext) hgoal
      rw [← (scans goal' hn (hnot hgoal')).isEnd_eq (congrArg Prod.fst hnext') hgoal', hend, htoken',
        hs'.isEnd_token] at hsame
      cases hsame
    | reads span hs hread htoken =>
      have hfirst : span'.first = span.first := by
        have hgap := hread.gap
        have hgap' := h'.gap
        rw [skipGap, if_neg hgoal] at hgap
        rw [skipGap, if_neg hgoal'] at hgap'
        have hlength : span.first - n = span'.first - n := congrArg Reading.length (hgap.symm.trans hgap')
        have := hs.le_first
        have := hs'.le_first
        omega
      have helement := hread.element
      have helement' := h'.element
      rw [hfirst] at helement'
      subst htoken
      have hlength : span.behind - span.first ≤ span'.behind - span.first := by
        cases goal with
        | templateTail => exact absurd rfl hgoal
        | division =>
          cases goal' with
          | templateTail => exact absurd rfl hgoal'
          | division => exact Nat.le_of_eq (congrArg Reading.length (helement.symm.trans helement'))
          | regExp => exact length_le_of_regExp helement helement'
        | regExp =>
          have hother := element_division_eq helement (hkind.resolve_left (by decide))
          cases goal' with
          | templateTail => exact absurd rfl hgoal'
          | division => exact Nat.le_of_eq (congrArg Reading.length (hother.symm.trans helement'))
          | regExp => exact Nat.le_of_eq (congrArg Reading.length (helement.symm.trans helement'))
      rw [htoken', hscanner']
      refine .of_read hs' h' ?_
      rcases misses_of_missed hs h with hlt | hsplit
      · refine .inl ?_
        have := hs.first_lt
        have := hs'.first_lt
        omega
      · exact .inr (hfirst ▸ hsplit)

/-! ## Tokens that end at the place -/

variable (t)

/-- A token has been consumed that ends at the place. -/
def EndsThere (consumed : List Token) : Prop :=
  ∃ u ∈ consumed, u.isEnd = false ∧ u.stop.offset = byteLength t.before

variable {t} {i j : Grammar.Input} {ok : Bool} {consumed : List Token}

theorem not_endsThere_nil : ¬ t.EndsThere [] :=
  fun ⟨_, hu, _⟩ => absurd hu List.not_mem_nil

theorem not_endsThere_cons (h : ¬ t.EndsThere consumed)
    (hstop : token.isEnd = false → token.stop.offset ≠ byteLength t.before) : ¬ t.EndsThere (token :: consumed) := by
  rintro ⟨u, hu, hend, hoffset⟩
  rcases List.mem_cons.mp hu with rfl | hu
  · exact hstop hend hoffset
  · exact h ⟨u, hu, hend, hoffset⟩

/-- Who has missed the place does not get there. -/
theorem not_endsThere (h : i.Leads ok j) (hmissed : t.Missed i.token i.scanner) (hnot : ¬ t.EndsThere i.consumed) :
    ¬ t.EndsThere j.consumed := by
  induction h with
  | done | fails => exact hnot
  | misreads => exact not_endsThere_cons hnot hmissed.stop_ne
  | @advance i i' j ok goal hgoal h hj ih =>
    obtain ⟨hnext, heq⟩ := Grammar.Input.eq_of_receive h
    refine ih (hmissed.next hgoal hnext) ?_
    rw [heq]
    exact not_endsThere_cons hnot hmissed.stop_ne
  | @rescan i i' j ok goal hgoal h hj ih =>
    obtain ⟨hrescan, heq⟩ := Grammar.Input.eq_of_receive h
    refine ih (hmissed.rescan hgoal hrescan) ?_
    rw [heq]
    exact hnot
  | noteOmission _ ih | noteStart _ ih | noteEnd _ ih | noteTurn _ _ ih => exact ih hmissed hnot

/-- Behind a name a token is read that does not miss the place, if the recognition gets there. -/
theorem exists_next_of_leads (h : i.Leads ok j) (hname : i.token.isName = true) (hnot : ¬ t.EndsThere i.consumed)
    (hstop : i.token.stop.offset ≠ byteLength t.before) (hthere : t.EndsThere j.consumed) :
    ∃ goal token scanner, goal ≠ .templateTail ∧ i.scanner.next goal = (.ok token, scanner) ∧
      ¬ t.Missed token scanner := by
  induction h with
  | done | fails => exact absurd hthere hnot
  | misreads => exact absurd hthere (not_endsThere_cons hnot fun _ => hstop)
  | @advance i i' j ok goal hgoal h hj ih =>
    obtain ⟨hnext, heq⟩ := Grammar.Input.eq_of_receive h
    refine ⟨goal, i'.token, i'.scanner, hgoal, hnext, fun hmissed => not_endsThere hj hmissed ?_ hthere⟩
    rw [heq]
    exact not_endsThere_cons hnot fun _ => hstop
  | rescan hgoal => exact absurd hgoal (Grammar.not_rereads_of_isName hname _)
  | noteOmission _ ih | noteStart _ ih | noteEnd _ ih | noteTurn _ _ ih => exact ih hname hnot hstop hthere

end Insertion

end EcmaCheck
