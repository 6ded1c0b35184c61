import EcmaCheck.Proofs.Omission.Reading

/-!
# Recognitions without a semicolon and with it

A semicolon is inserted at a place of a text. The recognition of the whole follows one of the plain text that omits a
semicolon there (`Following.omitting`): before the place both read the same tokens, and behind the semicolon the second
goes on as the first does. In between the first has halted. If it takes a token there it never omits the semicolon
(`Insertion.not_omittedThere`).
-/

namespace EcmaCheck

open Lexical Scanner Grammar

namespace Insertion

variable (t : Insertion)

/-- A statement has ended at the place without its semicolon. -/
def OmittedThere (omitted : List Position) : Prop :=
  ∃ p ∈ omitted, p.offset = byteLength t.before

/-- A semicolon has been omitted at the place, and no end of the text has been consumed. -/
def Omits (i : Input) : Prop :=
  t.OmittedThere i.omitted ∧ Unended i

/-- The current token has missed the place, where no semicolon has been omitted. -/
structure Stuck (i : Input) : Prop where
  missed : t.Missed i.token i.scanner
  not_omitted : ¬ t.OmittedThere i.omitted

/-- So has the token behind the current one, which is a name. -/
structure StuckNext (i : Input) : Prop where
  isName : i.token.isName = true
  missed {goal : LexicalGoal} {token : Token} {scanner : Scanner} : goal ≠ .templateTail →
    i.scanner.next goal = (.ok token, scanner) → t.Missed token scanner
  not_omitted : ¬ t.OmittedThere i.omitted

variable {t} {i i' j k : Input} {b : Bool} {goal : LexicalGoal}

/-! ## Getting past the place -/

theorem not_omittedThere_cons {p : Position} {omitted : List Position} (h : ¬ t.OmittedThere omitted)
    (hp : p.offset ≠ byteLength t.before) : ¬ t.OmittedThere (p :: omitted) := by
  rintro ⟨q, hq, hoffset⟩
  rcases List.mem_cons.mp hq with rfl | hq
  · exact hp hoffset
  · exact h ⟨q, hq, hoffset⟩

/-- Who has missed the place omits no semicolon there. -/
theorem not_omittedThere (h : i.Leads true k) (hk : Unended k) (hstuck : t.Stuck i)
    (hprevious : i.previousEnd.offset ≠ byteLength t.before) : ¬ t.OmittedThere k.omitted := by
  generalize htrue : true = ok at h
  induction h with
  | done => exact hstuck.not_omitted
  | fails | misreads => cases htrue
  | advance hgoal h hj ih =>
    subst htrue
    have hend := hk.isEnd_of_advance h hj
    obtain ⟨hnext, heq⟩ := Input.eq_of_receive h
    refine ih hk ⟨hstuck.missed.next hgoal hnext, ?_⟩ ?_ rfl
    · rw [heq]
      exact hstuck.not_omitted
    · rw [heq]
      exact hstuck.missed.stop_ne hend
  | rescan hgoal h _ ih =>
    obtain ⟨hrescan, heq⟩ := Input.eq_of_receive h
    refine ih hk ⟨hstuck.missed.rescan hgoal hrescan, ?_⟩ ?_ htrue
    · rw [heq]
      exact hstuck.not_omitted
    · rw [heq]
      exact hprevious
  | noteOmission _ ih => exact ih hk ⟨hstuck.missed, not_omittedThere_cons hstuck.not_omitted hprevious⟩ hprevious htrue
  | noteStart _ ih | noteEnd _ ih | noteTurn _ _ ih =>
    exact ih hk ⟨hstuck.missed, hstuck.not_omitted⟩ hprevious htrue

/-- A name that does not end at the place, with a token behind it that misses the place, leads past it. -/
theorem StuckNext.not_omittedThere (h : i.Leads true k) (hk : Unended k) (hstuck : t.StuckNext i)
    (hstop : i.token.stop.offset ≠ byteLength t.before) (hprevious : i.previousEnd.offset ≠ byteLength t.before) :
    ¬ t.OmittedThere k.omitted := by
  generalize htrue : true = ok at h
  induction h with
  | done => exact hstuck.not_omitted
  | fails | misreads => cases htrue
  | advance hgoal h hj ih =>
    subst htrue
    obtain ⟨hnext, heq⟩ := Input.eq_of_receive h
    refine Insertion.not_omittedThere hj hk ⟨hstuck.missed hgoal hnext, ?_⟩ ?_
    · rw [heq]
      exact hstuck.not_omitted
    · rw [heq]
      exact hstop
  | rescan hgoal => exact absurd hgoal (not_rereads_of_isName hstuck.isName _)
  | noteOmission _ ih =>
    exact ih hk ⟨hstuck.isName, hstuck.missed, not_omittedThere_cons hstuck.not_omitted hprevious⟩ hstop hprevious htrue
  | noteStart _ ih | noteEnd _ ih | noteTurn _ _ ih =>
    exact ih hk ⟨hstuck.isName, hstuck.missed, hstuck.not_omitted⟩ hstop hprevious htrue

theorem Stuck.of_rests (h : t.Stuck i) (hrests : i.Rests j) : t.Stuck j := by
  induction hrests with
  | refl => exact h
  | rescan hgoal hrescan _ ih =>
    obtain ⟨hnext, heq⟩ := Input.eq_of_receive hrescan
    refine ih ⟨h.missed.rescan hgoal hnext, ?_⟩
    rw [heq]
    exact h.not_omitted
  | noteStart _ ih | noteEnd _ ih | noteTurn _ _ ih => exact ih ⟨h.missed, h.not_omitted⟩

theorem StuckNext.of_rests (h : t.StuckNext i) (hrests : i.Rests j) : t.StuckNext j := by
  induction hrests with
  | refl => exact h
  | rescan hgoal => exact absurd hgoal (not_rereads_of_isName h.isName _)
  | noteStart _ ih | noteEnd _ ih | noteTurn _ _ ih => exact ih ⟨h.isName, h.missed, h.not_omitted⟩

/-- Who takes a token that has missed the place will not omit a semicolon there. -/
theorem Stuck.not_omits (h : t.Stuck i) (htakes : i.Takes j) (hleads : j.Leads true k) : ¬ t.Omits k := by
  rintro ⟨hthere, hk⟩
  obtain ⟨l, l', goal, hrests, hgoal, hl, hleads'⟩ := htakes
  have hstuck := h.of_rests hrests
  have hend := hk.isEnd_of_advance hl (hleads'.trans hleads)
  obtain ⟨hnext, heq⟩ := Input.eq_of_receive hl
  refine not_omittedThere (hleads'.trans hleads) hk ⟨hstuck.missed.next hgoal hnext, ?_⟩ ?_ hthere
  · rw [heq]
    exact hstuck.not_omitted
  · rw [heq]
    exact hstuck.missed.stop_ne hend

theorem StuckNext.not_omits (h : t.StuckNext i) (htakes : i.TakesTwo j) (hleads : j.Leads true k) : ¬ t.Omits k := by
  obtain ⟨l, l', goal, hrests, hgoal, hl, htakes⟩ := htakes
  have hstuck := h.of_rests hrests
  obtain ⟨hnext, heq⟩ := Input.eq_of_receive hl
  refine Stuck.not_omits ⟨hstuck.missed hgoal hnext, ?_⟩ htakes hleads
  rw [heq]
  exact hstuck.not_omitted

end Insertion

namespace Omitting

open Insertion

variable (t : Insertion)

/-- Behind the semicolon the second goes on as the first does. -/
structure GoesOn (b : Bool) (i j : Input) : Prop where
  inserted : t.inserted = [';']
  alongside : Resuming.Alongside t.plain t.whole t.before.length (t.before.length + 1) false b i j
  previousEnd : b = true → byteLength t.before < i.previousEnd.offset

/-- Where the two stand. -/
inductive Alongside (b : Bool) (i j : Input) : Prop
  | front (span : Span) {goal : LexicalGoal} {n : Nat} (hs : span.Within t.plain goal n)
    (hle : span.behind ≤ t.before.length) (h₁ : i.token = span.token t.plain) (h₂ : j.token = span.token t.whole)
    (hscanner₁ : i.scanner = standing t.plain true span.behind)
    (hscanner₂ : j.scanner = standing t.whole true span.behind)
    (hprevious : j.previousEnd.offset = i.previousEnd.offset) (hbefore : i.previousEnd.offset < byteLength t.before)
    (hnot : ¬ t.OmittedThere i.omitted)
  | waits (hb : b = false) (h₁ : isDivision i.token = true) (h₂ : j.token.kind = .regExp)
    (hagain : ∀ i', i.rescan .regExp = .ok i' → isDivision i'.token = false ∧ GoesOn t false i' j)
  | behind (h : GoesOn t b i j)

/-- The second stands before the semicolon. -/
structure Halted (i j : Input) : Prop where
  semicolon : j.token.kind = .punctuator .semicolon
  scanner : j.scanner = standing t.whole true (t.before.length + 1)
  reads : ∃ goal, goal ≠ .templateTail ∧ (standing t.plain true t.before.length).next goal = (.ok i.token, i.scanner)
  previousEnd : t.Stops i.previousEnd j.previousEnd
  not_omitted : ¬ t.OmittedThere i.omitted

variable {t} {i i' j j' k : Input} {b : Bool} {goal : LexicalGoal}

/-! ## Tokens -/

/-- Places that lie as far behind those where the texts go on alike. -/
theorem stops_of_stop {p q : Position} (hinserted : t.inserted = [';'])
    (h : Resuming.Stop t.plain t.whole t.before.length (t.before.length + 1) p q)
    (hp : byteLength t.before < p.offset) : t.Stops p q := by
  have hone : byteLength [';'] = 1 := by decide
  have htake : t.whole.take (t.before.length + 1) = t.before ++ [';'] := by
    rw [whole, hinserted, List.take_append, List.take_of_length_le (Nat.le_succ _), Nat.add_sub_cancel_left]
    rfl
  rw [Resuming.Stop, plain, List.take_left, htake, byteLength_append, hone] at h
  rw [Stops, if_neg (Nat.not_le_of_lt hp), hinserted, hone]
  omega

theorem GoesOn.twins (ht : t.Opens) (h : GoesOn t b i j) : Twins t.Stops i.token j.token := by
  have htwins := Resuming.twins_of_reached (ht.resumes h.inserted) h.alongside.reached
  refine ⟨htwins.kind, htwins.lexeme, fun hend => stops_of_stop h.inserted (htwins.stop hend) ?_⟩
  cases h.alongside.reached with
  | atEnd _ _ _ h₁ =>
    rw [h₁] at hend
    cases hend
  | amid span _ hs hn _ h₁ =>
    rw [h₁, ← offset_before]
    exact offset_placeAt_lt (Nat.lt_of_le_of_lt hn hs.first_lt) hs.behind_le

theorem twins_front {span : Span} {n : Nat} (hs : span.Within t.plain goal n) (hle : span.behind ≤ t.before.length) :
    Twins t.Stops (span.token t.plain) (span.token t.whole) :=
  ⟨rfl, lexeme_front hle hs.first_lt, fun _ => stops_front hle⟩

theorem Alongside.heads (ht : t.Opens) (h : Alongside t b i j) : Heads t.Stops i.token j.token := by
  cases h with
  | front span hs hle h₁ h₂ =>
    rw [h₁, h₂]
    exact .twins (twins_front hs hle)
  | waits _ h₁ h₂ => exact .regExp h₁ h₂
  | behind h => exact .twins (h.twins ht)

theorem Alongside.sameTokens (ht : t.Opens) (h : Alongside t true i j) : SameTokens t.Stops i.token j.token := by
  cases h with
  | front span hs hle h₁ h₂ =>
    rw [h₁, h₂]
    exact { twins_front hs hle with newlineBefore := rfl }
  | waits hb => cases hb
  | behind h => exact { h.twins ht with newlineBefore := Resuming.newlineBefore_of_reached h.alongside.reached }

theorem Alongside.stops (h : Alongside t true i j) : t.Stops i.previousEnd j.previousEnd := by
  cases h with
  | front _ _ _ _ _ _ _ hprevious hbefore =>
    rw [Stops, if_pos (Nat.le_of_lt hbefore)]
    exact hprevious
  | waits hb => cases hb
  | behind h => exact stops_of_stop h.inserted (h.alongside.previousEnd rfl) (h.previousEnd rfl)

/-! ## What is noted -/

/-- Only the tokens and what has been consumed matter behind the semicolon. -/
theorem GoesOn.of_tokens (h : GoesOn t b i j) (htoken₁ : i'.token = i.token) (hscanner₁ : i'.scanner = i.scanner)
    (hconsumed₁ : b = true → i'.consumed = i.consumed) (htoken₂ : j'.token = j.token)
    (hscanner₂ : j'.scanner = j.scanner) (hconsumed₂ : b = true → j'.consumed = j.consumed) : GoesOn t b i' j' := by
  refine ⟨h.inserted, ⟨h.alongside.reached.of_tokens htoken₁ hscanner₁ htoken₂ hscanner₂, fun hb => ?_⟩, fun hb => ?_⟩
  · rw [Resuming.previousEnd_of_consumed (hconsumed₁ hb), Resuming.previousEnd_of_consumed (hconsumed₂ hb)]
    exact h.alongside.previousEnd hb
  · rw [Resuming.previousEnd_of_consumed (hconsumed₁ hb)]
    exact h.previousEnd hb

theorem Alongside.of_tokens (h : Alongside t b i j) (htoken₁ : i'.token = i.token) (hscanner₁ : i'.scanner = i.scanner)
    (hconsumed₁ : i'.consumed = i.consumed)
    (homitted : i.previousEnd.offset ≠ byteLength t.before → ¬ t.OmittedThere i.omitted → ¬ t.OmittedThere i'.omitted)
    (htoken₂ : j'.token = j.token) (hscanner₂ : j'.scanner = j.scanner) (hconsumed₂ : j'.consumed = j.consumed) :
    Alongside t b i' j' := by
  cases h with
  | front span hs hle h₁ h₂ hs₁ hs₂ hprevious hbefore hnot =>
    have hprevious₁ := Resuming.previousEnd_of_consumed hconsumed₁
    refine .front span hs hle (htoken₁.trans h₁) (htoken₂.trans h₂) (hscanner₁.trans hs₁) (hscanner₂.trans hs₂) ?_
      (hprevious₁ ▸ hbefore) (homitted (Nat.ne_of_lt hbefore) hnot)
    rw [hprevious₁, Resuming.previousEnd_of_consumed hconsumed₂]
    exact hprevious
  | waits hb h₁ h₂ hagain =>
    refine .waits hb (htoken₁ ▸ h₁) (htoken₂ ▸ h₂) fun i'' hrescan => ?_
    obtain ⟨hread, heq⟩ := Input.eq_of_receive hrescan
    rw [htoken₁, hscanner₁] at hread
    have hread' : i.rescan .regExp = .ok { i with scanner := i''.scanner, token := i''.token } := by
      rw [Input.rescan, hread]
      rfl
    obtain ⟨hdivision, hgoes⟩ := hagain _ hread'
    exact ⟨hdivision, hgoes.of_tokens rfl rfl (absurd · Bool.false_ne_true) htoken₂ hscanner₂
      (absurd · Bool.false_ne_true)⟩
  | behind h =>
    exact .behind (h.of_tokens htoken₁ hscanner₁ (fun _ => hconsumed₁) htoken₂ hscanner₂ fun _ => hconsumed₂)

/-! ## Passing tokens -/

theorem Halted.stuck (h : Halted t i j) : t.Stuck i := by
  obtain ⟨goal, hgoal, hnext⟩ := h.reads
  exact ⟨.of_behind (Nat.le_refl _) (gives before_le (fun h => absurd h hgoal) hnext), h.not_omitted⟩

theorem GoesOn.advance (ht : t.Opens) (h : GoesOn t b i j) (hend : i.token.isEnd = false) (hgoal : goal ≠ .templateTail)
    (hi : i.advance goal = .ok i') : ∃ j', j.advance goal = .ok j' ∧ GoesOn t true i' j' := by
  obtain ⟨j', hj, halongside | hhalted⟩ :=
    Resuming.exists_advance (ht.resumes h.inserted) h.alongside.reached hend hgoal hi
  · refine ⟨j', hj, h.inserted, halongside, fun _ => ?_⟩
    rw [(Input.eq_of_receive hi).2]
    change byteLength t.before < i.token.stop.offset
    cases h.alongside.reached with
    | atEnd _ _ _ h₁ =>
      rw [h₁] at hend
      cases hend
    | amid span _ hs hn _ h₁ =>
      rw [h₁, ← offset_before]
      exact offset_placeAt_lt (Nat.lt_of_le_of_lt hn hs.first_lt) hs.behind_le
  · cases hhalted.closed

theorem Alongside.advance (ht : t.Opens) (h : Alongside t b i j) (hkind : j.token.kind = i.token.kind)
    (hgoal : goal ≠ .templateTail) (hi : i.advance goal = .ok i') (hleads : i'.Leads true k) (hfinish : t.Omits k) :
    ∃ j', j.advance goal = .ok j' ∧ (Alongside t true i' j' ∨ Halted t i' j') := by
  have hend := hfinish.2.isEnd_of_advance hi hleads
  cases h with
  | waits _ h₁ h₂ =>
    rw [hkind] at h₂
    rw [isDivision, Token.isPunctuator_of_kind h₂ nofun, Token.isPunctuator_of_kind h₂ nofun] at h₁
    cases h₁
  | behind h =>
    obtain ⟨j', hj, hgoes⟩ := h.advance ht hend hgoal hi
    exact ⟨j', hj, .inl (.behind hgoes)⟩
  | front span hs hle h₁ h₂ hscanner₁ hscanner₂ _ _ hnot =>
    obtain ⟨hnext, heq⟩ := Input.eq_of_receive hi
    have hprevious₁ : i'.previousEnd = placeAt t.plain span.behind := by
      rw [heq]
      exact congrArg Token.stop h₁
    have homitted : i'.omitted = i.omitted := (congrArg Input.omitted heq :)
    have hadvance : j.advance goal = j.consume.receive ((standing t.whole true span.behind).next goal) := by
      rw [Input.advance, hscanner₂]
    have hprevious₂ : j.consume.previousEnd = placeAt t.whole span.behind := congrArg Token.stop h₂
    rw [hscanner₁] at hnext
    rw [hadvance]
    by_cases hlt : span.behind < t.before.length
    · have hbefore : (placeAt t.plain span.behind).offset < byteLength t.before := by
        rw [← offset_before]
        exact offset_placeAt_lt hlt before_le
      cases next_front ht.closed hs.behind_le fun h => absurd h hgoal with
      | stops hfails => cases hfails.symm.trans (congrArg Prod.fst hnext)
      | misses hread hm =>
        cases hread.symm.trans hnext
        have hstuck : t.Stuck i' := ⟨hm, homitted ▸ hnot⟩
        exact absurd hfinish.1 (not_omittedThere hleads hfinish.2 hstuck (hprevious₁ ▸ Nat.ne_of_lt hbefore))
      | reads span' hs' hle' hread₁ hread₂ =>
        have hboth := hnext.symm.trans hread₁
        rw [hread₂]
        refine ⟨_, rfl, .inl (.front span' hs' hle' (Except.ok.inj (congrArg Prod.fst hboth)) rfl
          (congrArg Prod.snd hboth) rfl ?_ (hprevious₁ ▸ hbefore) (homitted ▸ hnot))⟩
        change j.consume.previousEnd.offset = _
        rw [hprevious₁, hprevious₂, offset_front hle]
    · have hplace : span.behind = t.before.length := by omega
      rw [hplace] at hnext hprevious₁ hprevious₂ ⊢
      rw [ht.next_semicolon hgoal]
      refine ⟨_, rfl, .inr ⟨rfl, rfl, ⟨goal, hgoal, hnext⟩, ?_, homitted ▸ hnot⟩⟩
      rw [hprevious₁]
      change t.Stops _ j.consume.previousEnd
      rw [hprevious₂]
      exact stops_front (Nat.le_refl _)

/-! ## Looking ahead -/

theorem GoesOn.peek (ht : t.Opens) {token : Token} (h : GoesOn t b i j) (hend : i.token.isEnd = false)
    (hgoal : goal ≠ .templateTail) (hnext : (i.scanner.next goal).1 = .ok token) :
    ∃ u, (j.scanner.next goal).1 = .ok u ∧ SameTokens t.Stops token u := by
  obtain ⟨j', hj, hgoes⟩ := h.advance ht hend hgoal (Input.receive_of_ok (i := i.consume) hnext)
  exact ⟨j'.token, congrArg Prod.fst (Input.eq_of_receive hj).1,
    { hgoes.twins ht with newlineBefore := Resuming.newlineBefore_of_reached hgoes.alongside.reached }⟩

theorem Alongside.peek (ht : t.Opens) {token : Token} (h : Alongside t b i j) (hname : i.token.isName = true)
    (hnext : (i.scanner.next i.token.goalAfter).1 = .ok token)
    (hkind : i.token.goalAfter = .division ∨ token.kind ≠ .regExp) (hleads : i.Leads true k) (hfinish : t.Omits k) :
    ∃ u, (j.scanner.next i.token.goalAfter).1 = .ok u ∧
      (SameTokens t.Stops token u ∨ ClosesStatement u ∧ t.StuckNext i) := by
  have hgoal := Token.goalAfter_ne_templateTail i.token
  cases h with
  | waits _ h₁ => exact absurd (.regExp h₁) (not_rereads_of_isName hname _)
  | behind h =>
    obtain ⟨u, hu, hsame⟩ := h.peek ht (Token.isEnd_of_isName hname) hgoal hnext
    exact ⟨u, hu, .inl hsame⟩
  | front span hs hle h₁ h₂ hscanner₁ hscanner₂ _ hbefore hnot =>
    rcases hread : i.scanner.next i.token.goalAfter with ⟨r, scanner⟩
    rw [hread] at hnext
    obtain rfl : r = .ok token := hnext
    rw [hscanner₁] at hread
    rw [hscanner₂]
    by_cases hlt : span.behind < t.before.length
    · cases next_front ht.closed hs.behind_le fun h => absurd h hgoal with
      | stops hfails => cases hfails.symm.trans (congrArg Prod.fst hread)
      | misses hread' hm =>
        cases hread'.symm.trans hread
        have hstuck : t.StuckNext i := ⟨hname, fun hgoal' hnext' =>
          hm.under hs.behind_le hgoal hgoal' hkind hread (hscanner₁ ▸ hnext'), hnot⟩
        refine absurd hfinish.1 (hstuck.not_omittedThere hleads hfinish.2 ?_ (Nat.ne_of_lt hbefore))
        rw [h₁, ← offset_before]
        exact Nat.ne_of_lt (offset_placeAt_lt hlt before_le)
      | reads span' hs' hle' hread₁ hread₂ =>
        cases hread₁.symm.trans hread
        rw [hread₂]
        exact ⟨_, rfl, .inl { twins_front hs' hle' with newlineBefore := rfl }⟩
    · have hplace : span.behind = t.before.length := by omega
      rw [hplace] at hscanner₁ ⊢
      rw [ht.next_semicolon hgoal]
      refine ⟨_, rfl, .inr ⟨.inl rfl, hname, fun hgoal' hnext' => ?_, hnot⟩⟩
      rw [hscanner₁] at hnext'
      exact .of_behind (Nat.le_refl _) (gives before_le (fun h => absurd h hgoal') hnext')

/-! ## Reading again -/

theorem Alongside.rescan (ht : t.Opens) (h : Alongside t b i j) (hkind : j.token.kind = i.token.kind)
    (hend : i.token.isEnd = false) (hgoal : goal = .templateTail → i.token.isPunctuator .closeBrace = true)
    (hi : i.rescan goal = .ok i') (hleads : i'.Leads true k) (hfinish : t.Omits k) :
    (∃ j', j.rescan goal = .ok j' ∧ Alongside t b i' j') ∧ (goal = .regExp → isDivision i'.token = false) := by
  obtain ⟨hread, heq⟩ := Input.eq_of_receive hi
  have hconsumed : i'.consumed = i.consumed := (congrArg Input.consumed heq :)
  cases h with
  | waits _ h₁ h₂ =>
    rw [hkind] at h₂
    rw [isDivision, Token.isPunctuator_of_kind h₂ nofun, Token.isPunctuator_of_kind h₂ nofun] at h₁
    cases h₁
  | behind h =>
    obtain ⟨⟨j', hj, halongside⟩, hnot⟩ := Resuming.exists_rescan (ht.resumes h.inserted) h.alongside hend hgoal hi
    refine ⟨⟨j', hj, .behind ⟨h.inserted, halongside, fun hb => ?_⟩⟩, hnot⟩
    rw [Resuming.previousEnd_of_consumed hconsumed]
    exact h.previousEnd hb
  | front span hs hle h₁ h₂ hscanner₁ hscanner₂ hprevious hbefore hnot =>
    have hfirst := hs.first_le
    have hwhole := length_whole (t := t)
    have hplain := before_le (t := t)
    have homitted : i'.omitted = i.omitted := (congrArg Input.omitted heq :)
    have hprevious₁ := Resuming.previousEnd_of_consumed hconsumed
    rw [hscanner₁, rescan_again _ hfirst (h₁ ▸ rfl)] at hread
    have hrescan : j.rescan goal =
        j.receive (Insertion.again i.token.newlineBefore ((standing t.whole true span.first).next goal)) := by
      rw [Input.rescan, hscanner₂, rescan_again (n := span.first) _ (by omega) (h₂ ▸ rfl), h₁, h₂]
      rfl
    have happroaches := (next_front ht.closed hfirst fun htail =>
      hs.getElem?_first (Token.isPunctuator_iff.mp (h₁ ▸ hgoal htail)) rfl).again i.token.newlineBefore
    rw [hrescan]
    cases happroaches with
    | stops hfails => cases hfails.symm.trans (congrArg Prod.fst hread)
    | misses hread' hm =>
      cases hread'.symm.trans hread
      have hstuck : t.Stuck i' := ⟨hm, homitted ▸ hnot⟩
      exact absurd hfinish.1 (not_omittedThere hleads hfinish.2 hstuck (hprevious₁ ▸ Nat.ne_of_lt hbefore))
    | reads span' hs' hle' hread₁ hread₂ =>
      have hboth := hread.symm.trans hread₁
      have htoken : i'.token = span'.token t.plain := Except.ok.inj (congrArg Prod.fst hboth)
      rw [hread₂]
      refine ⟨⟨_, rfl, .front span' hs' hle' htoken rfl (congrArg Prod.snd hboth) rfl ?_ (hprevious₁ ▸ hbefore)
        (homitted ▸ hnot)⟩, fun hregExp => ?_⟩
      · rw [hprevious₁]
        exact hprevious
      · subst hregExp
        rw [htoken]
        exact Comparison.isDivision_eq_false_iff.mpr hs'.fits.not_division

theorem Alongside.kind (ht : t.Opens) (h : Alongside t b i j) :
    j.token.kind = i.token.kind ∨ isDivision i.token = true ∧ j.token.kind = .regExp := by
  cases h.heads ht with
  | twins h => exact .inl h.kind
  | regExp h₁ h₂ => exact .inr ⟨h₁, h₂⟩

theorem Alongside.rescanRegExp (ht : t.Opens) (h : Alongside t b i j) (hdivision : isDivision i.token = true)
    (hi : i.rescan .regExp = .ok i') (hleads : i'.Leads true k) (hfinish : t.Omits k) :
    isDivision i'.token = false ∧ (isDivision j.token = true ∧ (∃ j', j.rescan .regExp = .ok j' ∧ Alongside t b i' j') ∨
      isDivision j.token = false ∧ Alongside t b i' j) := by
  rcases h.kind ht with hkind | ⟨_, hregExp⟩
  · obtain ⟨hexists, hnot⟩ :=
      h.rescan ht hkind (Comparison.isEnd_of_isDivision hdivision) (fun h => absurd h (by decide)) hi hleads hfinish
    refine ⟨hnot rfl, .inl ⟨?_, hexists⟩⟩
    rwa [isDivision, Token.isPunctuator, Token.isPunctuator, hkind]
  · have hnot : isDivision j.token = false := by
      rw [isDivision, Token.isPunctuator_of_kind hregExp nofun, Token.isPunctuator_of_kind hregExp nofun]
      rfl
    cases h with
    | waits hb _ _ hagain =>
      obtain ⟨hnot', hgoes⟩ := hagain _ hi
      exact ⟨hnot', .inr ⟨hnot, .behind (hb ▸ hgoes)⟩⟩
    | front _ _ _ h₁ h₂ =>
      have hkind : j.token.kind = i.token.kind := by
        rw [h₁, h₂]
        rfl
      rw [isDivision, Token.isPunctuator, Token.isPunctuator, hkind] at hnot
      cases hnot.symm.trans hdivision
    | behind h =>
      rw [isDivision, Token.isPunctuator, Token.isPunctuator, (h.twins ht).kind] at hnot
      cases hnot.symm.trans hdivision

/-! ## Omitting the semicolon -/

/-- Behind the semicolon the second reads what the first reads there at the start of a statement. -/
theorem GoesOn.begins (ht : t.Opens) (hinserted : t.inserted = [';']) {token₁ : Token} {scanner₁ : Scanner}
    (h : (standing t.plain true t.before.length).next .regExp = (.ok token₁, scanner₁)) :
    ∃ token₂ scanner₂, (standing t.whole true (t.before.length + 1)).next .regExp = (.ok token₂, scanner₂) ∧
      token₂.kind = token₁.kind ∧
        ∀ {i j : Input} (line : Bool), i.token = { token₁ with newlineBefore := line } → i.scanner = scanner₁ →
          j.token = token₂ → j.scanner = scanner₂ → GoesOn t false i j := by
  obtain ⟨token₂, scanner₂, hnext, hbegin⟩ := Resuming.exists_begin (ht.resumes hinserted) h
  have hgoes {i j : Input} (line : Bool) (h₁ : i.token = { token₁ with newlineBefore := line })
      (hs₁ : i.scanner = scanner₁) (h₂ : j.token = token₂) (hs₂ : j.scanner = scanner₂) : GoesOn t false i j :=
    ⟨hinserted, (hbegin h₁ hs₁ (h₂.trans rfl) hs₂).resolve_right fun h => Bool.false_ne_true h.closed,
      (absurd · Bool.false_ne_true)⟩
  let i : Input := ⟨scanner₁, token₁, [], [], [], [], []⟩
  let j : Input := ⟨scanner₂, token₂, [], [], [], [], []⟩
  have hboth : GoesOn t false i j := hgoes token₁.newlineBefore rfl rfl rfl rfl
  exact ⟨token₂, scanner₂, hnext, (hboth.twins ht).kind, hgoes⟩

/-- Where the first omits its semicolon, the second takes it. -/
theorem Halted.omits (ht : t.Opens) (h : Halted t i j) :
    ∃ j', j.advance .regExp = .ok j' ∧ Alongside t false i.noteOmission j' := by
  obtain ⟨goal, hgoal, hnext⟩ := h.reads
  have hadvance : j.advance .regExp =
      j.consume.receive ((standing t.whole true (t.before.length + 1)).next .regExp) := by
    rw [Input.advance, h.scanner]
  rw [hadvance]
  cases hdivision : isDivision i.token with
  | false =>
    have hsame := next_regExp_eq before_le hgoal hnext hdivision
    rcases ht.reads with ⟨hinserted, -⟩ | ⟨⟨f, hf⟩, -⟩
    · obtain ⟨token₂, scanner₂, hnext₂, -, hgoes⟩ := GoesOn.begins ht hinserted hsame
      rw [hnext₂]
      exact ⟨_, rfl, .behind (hgoes i.token.newlineBefore rfl rfl rfl rfl)⟩
    · cases hf.symm.trans (congrArg Prod.fst hsame)
  | true =>
    cases gives before_le (fun h => absurd h hgoal) hnext with
    | ends hend => cases hend.symm.trans (Comparison.isEnd_of_isDivision hdivision)
    | reads span hs hread htoken hscanner =>
      -- the first can only go on by reading its token again, which is what the second has read
      have hagain {i' : Input} (hi : i.noteOmission.rescan .regExp = .ok i') :
          ∃ again, (standing t.plain true t.before.length).next .regExp = (.ok again, i'.scanner) ∧
            i'.token = { again with newlineBefore := span.newlineBefore } ∧ isDivision again = false := by
        have hrescan := (Input.eq_of_receive hi).1
        change i.scanner.rescan .regExp i.token = _ at hrescan
        rw [htoken, hscanner] at hrescan
        exact next_of_rescan_regExp hgoal hread hrescan
      rcases ht.reads with ⟨hinserted, token₁, hnext₁⟩ | ⟨⟨f, hf⟩, token₂, scanner₂, hnext₂, hkind⟩
      · rcases hfirst : (standing t.plain true t.before.length).next .regExp with ⟨r, scanner₁⟩
        rw [hfirst] at hnext₁ hagain
        obtain rfl : r = .ok token₁ := hnext₁
        obtain ⟨token₂, scanner₂, hnext₂, hkind, hgoes⟩ := GoesOn.begins ht hinserted hfirst
        rw [hnext₂]
        refine ⟨_, rfl, .waits rfl hdivision ?_ fun i' hi => ?_⟩
        · exact hkind.trans (kind_of_next_regExp before_le hgoal hnext hdivision hfirst)
        · obtain ⟨again, hread', htoken', hnot⟩ := hagain hi
          cases hread'
          refine ⟨?_, hgoes _ htoken' rfl rfl rfl⟩
          rw [htoken']
          exact hnot
      · rw [hnext₂]
        refine ⟨_, rfl, .waits rfl hdivision hkind fun i' hi => ?_⟩
        obtain ⟨again, hread', _⟩ := hagain hi
        cases hf.symm.trans (congrArg Prod.fst hread')

end Omitting

open Insertion Omitting in
/-- With a semicolon at the place, a recognition follows one that omits it there. -/
def Grammar.Following.omitting {t : Insertion} (ht : t.Opens) : Following where
  stop := t.Stops
  finish := t.Omits
  input := Omitting.Alongside t
  halted := Halted t
  stuck := t.Stuck
  stuckNext := t.StuckNext
  offset_eq_iff := stops_iff
  weaken h := by
    cases h with
    | front span hs hle h₁ h₂ hs₁ hs₂ hprevious hbefore hnot =>
      exact .front span hs hle h₁ h₂ hs₁ hs₂ hprevious hbefore hnot
    | waits hb => cases hb
    | behind h =>
      refine .behind ⟨h.inserted, ?_, (absurd · Bool.false_ne_true)⟩
      exact ⟨h.alongside.reached.weaken, (absurd · Bool.false_ne_true)⟩
  heads_of_input h := h.heads ht
  sameTokens_of_input h := h.sameTokens ht
  stop_of_input h := h.stops
  stop_of_halted h := h.previousEnd
  closes_of_halted h := .inl h.semicolon
  stuck_of_halted h := h.stuck
  not_finish h := h.not_omits
  not_finish_next h := h.not_omits
  input_of_sameReading h hi hj :=
    h.of_tokens hi.token hi.scanner hi.consumed (fun _ hnot => hi.omitted ▸ hnot) hj.token hj.scanner hj.consumed
  halted_of_sameReading {i i' j j'} h hi hj := by
    refine ⟨hj.token ▸ h.semicolon, hj.scanner.trans h.scanner, ?_, ?_, hi.omitted ▸ h.not_omitted⟩
    · rw [hi.token, hi.scanner]
      exact h.reads
    · rw [Resuming.previousEnd_of_consumed hi.consumed, Resuming.previousEnd_of_consumed hj.consumed]
      exact h.previousEnd
  advance h hkind hgoal hi hleads hfinish := h.advance ht hkind hgoal hi hleads hfinish
  peek h hname hnext hkind hleads hfinish := h.peek ht hname hnext hkind hleads hfinish
  rescanRegExp h hdivision hi hleads hfinish := h.rescanRegExp ht hdivision hi hleads hfinish
  rescanTemplate h hbrace hi hleads hfinish := by
    refine (h.rescan ht ((h.kind ht).resolve_right ?_) (Token.isEnd_of_isPunctuator hbrace) (fun _ => hbrace) hi hleads
      hfinish).1
    rintro ⟨hdivision, _⟩
    have hk := Token.isPunctuator_iff.mp hbrace
    exact absurd hdivision (by simp [isDivision, Token.isPunctuator, hk])
  noteOmission h := h.of_tokens rfl rfl rfl (fun hp hnot => not_omittedThere_cons hnot hp) rfl rfl rfl
  omits h _ _ := .inl ⟨Token.isPunctuator_iff.mpr h.semicolon, h.omits ht⟩

end EcmaCheck
