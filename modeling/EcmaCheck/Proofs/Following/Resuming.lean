import EcmaCheck.Proofs.CommonRest
import EcmaCheck.Proofs.Comparison
import EcmaCheck.Proofs.Following.Program

/-!
# Recognitions of texts that go on alike

Where a text goes on as another does (`Resumes`), its recognition follows that of the other (`Following.resuming`), as
long as no end of a text is consumed. If the second then closes a block, the first has halted where the block ends.
-/

namespace EcmaCheck.Grammar

open Lexical Scanner

namespace Input

/-- Nothing is read again where the token does not ask for it. -/
theorem Rests.unread {i j : Input} (h : i.Rests j) (hno : ∀ goal, ¬ Rereads i.token goal) :
    j.token = i.token ∧ j.scanner = i.scanner := by
  induction h with
  | refl => exact ⟨rfl, rfl⟩
  | rescan hgoal => exact absurd hgoal (hno _)
  | noteStart _ ih => exact ih hno
  | noteEnd _ ih => exact ih hno
  | noteTurn _ _ ih => exact ih hno

end Input

/-- No end of a text has been consumed. -/
def Unended (i : Input) : Prop :=
  ∀ t ∈ i.consumed, t.isEnd = false

/-- From a state whose token has been consumed since, the token did not end the text. -/
theorem Unended.isEnd_of_advance {i i' k : Input} {goal : LexicalGoal} (hk : Unended k) (h : i.advance goal = .ok i')
    (hleads : i'.Leads true k) : i.token.isEnd = false := by
  have hsuffix := hleads.consumed_suffix
  rw [(Input.eq_of_receive h).2] at hsuffix
  exact hk _ (hsuffix.subset List.mem_cons_self)

namespace Resuming

variable (text₁ text₂ : List Char) (k₁ k₂ : Nat) (closed : Bool)

/-- Places that lie as far behind the places where the texts go on. -/
def Stop (p q : Position) : Prop :=
  q.offset + byteLength (text₁.take k₁) = p.offset + byteLength (text₂.take k₂)

/-- The two have read the same token, or both texts have ended. -/
inductive Reached (b : Bool) (i j : Input) : Prop
  | amid (span : Span) (newline : Bool) {goal : LexicalGoal} {n : Nat} (hs : span.Within text₁ goal n)
    (hn : k₁ ≤ span.first) (hbare : ∀ goal, (standing text₁ true span.first).skipGap goal = ⟨0, .ok false⟩)
    (h₁ : i.token = span.token text₁) (hscanner₁ : i.scanner = standing text₁ true span.behind)
    (h₂ : j.token = ({ span.moved k₁ k₂ with newlineBefore := newline } : Span).token text₂)
    (hscanner₂ : j.scanner = standing text₂ true (k₂ + (span.behind - k₁)))
    (hnewline : b = true → newline = span.newlineBefore)
  | atEnd (newline₁ newline₂ : Bool) (hopen : closed = false) (h₁ : i.token = endToken text₁ newline₁)
    (h₂ : j.token = endToken text₂ newline₂) (hnewline : b = true → newline₂ = newline₁)

/-- Where the two stand; with `true` what they have consumed last ended alike. -/
structure Alongside (b : Bool) (i j : Input) : Prop where
  reached : Reached text₁ text₂ k₁ k₂ closed b i j
  previousEnd : b = true → Stop text₁ text₂ k₁ k₂ i.previousEnd j.previousEnd

/-- The first text has ended, and the second closes its block. -/
structure Ended (i j : Input) : Prop where
  closed : closed = true
  ended : i.token.isEnd = true
  brace : j.token.kind = .punctuator .closeBrace
  scanner : j.scanner = standing text₂ true (k₂ + (text₁.length + 2 - k₁))

/-- The first text has ended behind tokens of it, and the second closes its block. -/
structure Halted (i j : Input) : Prop extends Ended text₁ text₂ k₁ k₂ closed i j where
  previousEnd : Stop text₁ text₂ k₁ k₂ i.previousEnd j.previousEnd

/-- The token is the last of its text. -/
def Last (i : Input) : Prop :=
  i.token.isName = true ∧
    ∀ goal t, goal ≠ .templateTail → (i.scanner.next goal).1 = .ok t → t.isEnd = true

variable {text₁ text₂ k₁ k₂ closed} {b : Bool} {i j : Input}

theorem twins_of_reached (hr : Resumes text₁ text₂ k₁ k₂ closed) (h : Reached text₁ text₂ k₁ k₂ closed b i j) :
    Twins (Stop text₁ text₂ k₁ k₂) i.token j.token := by
  cases h with
  | amid span newline hs hn _ h₁ _ h₂ _ _ =>
    rw [h₁, h₂]
    have hlt := hs.first_lt
    refine ⟨rfl, hr.lexeme_moved hn hs, fun _ => hr.offset_moved (by omega) hs.behind_le⟩
  | atEnd _ _ _ h₁ h₂ _ =>
    rw [h₁, h₂]
    exact ⟨rfl, rfl, nofun⟩

theorem newlineBefore_of_reached (h : Reached text₁ text₂ k₁ k₂ closed true i j) :
    j.token.newlineBefore = i.token.newlineBefore := by
  cases h with
  | amid span newline hs hn _ h₁ _ h₂ _ hnewline =>
    rw [h₁, h₂]
    exact hnewline rfl
  | atEnd _ _ _ h₁ h₂ hnewline =>
    rw [h₁, h₂]
    exact hnewline rfl

theorem Reached.weaken (h : Reached text₁ text₂ k₁ k₂ closed true i j) : Reached text₁ text₂ k₁ k₂ closed b i j := by
  cases h with
  | amid span newline hs hn hbare h₁ hscanner₁ h₂ hscanner₂ hnewline =>
    exact .amid span newline hs hn hbare h₁ hscanner₁ h₂ hscanner₂ fun _ => hnewline rfl
  | atEnd newline₁ newline₂ hopen h₁ h₂ hnewline => exact .atEnd newline₁ newline₂ hopen h₁ h₂ fun _ => hnewline rfl

/-- Only the tokens and what is read behind them matter. -/
theorem Reached.of_tokens {i' j' : Input} (h : Reached text₁ text₂ k₁ k₂ closed b i j) (htoken₁ : i'.token = i.token)
    (hscanner₁ : i'.scanner = i.scanner) (htoken₂ : j'.token = j.token) (hscanner₂ : j'.scanner = j.scanner) :
    Reached text₁ text₂ k₁ k₂ closed b i' j' := by
  cases h with
  | amid span newline hs hn hbare h₁ h₁' h₂ h₂' hnewline =>
    exact .amid span newline hs hn hbare (htoken₁.trans h₁) (hscanner₁.trans h₁') (htoken₂.trans h₂)
      (hscanner₂.trans h₂')
      hnewline
  | atEnd newline₁ newline₂ hopen h₁ h₂ hnewline =>
    exact .atEnd newline₁ newline₂ hopen (htoken₁.trans h₁) (htoken₂.trans h₂) hnewline

theorem previousEnd_of_consumed {i i' : Input} (h : i'.consumed = i.consumed) : i'.previousEnd = i.previousEnd := by
  rw [Input.previousEnd, h]
  rfl

/-- Where a token has been read, the two stand behind it. -/
theorem exists_advance (hr : Resumes text₁ text₂ k₁ k₂ closed) {i' : Input} {goal : LexicalGoal}
    (h : Reached text₁ text₂ k₁ k₂ closed b i j) (he : i.token.isEnd = false) (hgoal : goal ≠ .templateTail)
    (hi : i.advance goal = .ok i') :
    ∃ j', j.advance goal = .ok j' ∧
      (Alongside text₁ text₂ k₁ k₂ closed true i' j' ∨ Halted text₁ text₂ k₁ k₂ closed i' j') := by
  cases h with
  | atEnd _ _ _ h₁ _ _ =>
    rw [h₁] at he
    cases he
  | amid span newline hs hn hbare h₁ hscanner₁ h₂ hscanner₂ hnewline =>
    have hlt := hs.first_lt
    obtain ⟨hnext, hi'⟩ := Input.eq_of_receive hi
    rw [hscanner₁] at hnext
    have hprevious : Stop text₁ text₂ k₁ k₂ i'.previousEnd j.token.stop := by
      rw [hi', h₂]
      change Stop text₁ text₂ k₁ k₂ i.token.stop _
      rw [h₁]
      exact hr.offset_moved (by omega) hs.behind_le
    have hadvance : j.advance goal = j.consume.receive ((standing text₂ true (k₂ + (span.behind - k₁))).next goal) := by
      rw [Input.advance, hscanner₂]
    rw [hadvance]
    cases hr.next (by omega) hs.behind_le (fun h => absurd h hgoal) hnext with
    | ends _ htoken hopen hreading =>
      rw [Input.receive_of_ok hreading]
      exact ⟨_, rfl, .inl ⟨.atEnd true true hopen htoken rfl fun _ => rfl, fun _ => hprevious⟩⟩
    | closes _ htoken hclosed hreading =>
      rw [hreading]
      exact ⟨_, rfl, .inr ⟨⟨hclosed, htoken ▸ rfl, rfl, rfl⟩, hprevious⟩⟩
    | reads span' hs' hread htoken hscanner hreading =>
      have hfirst := hs'.le_first
      rw [hreading]
      exact ⟨_, rfl,
        .inl ⟨.amid span' span'.newlineBefore hs' (by omega) (skipGap_first (fun h => absurd h hgoal) hread)
        htoken hscanner rfl rfl fun _ => rfl, fun _ => hprevious⟩⟩

theorem exists_peek (hr : Resumes text₁ text₂ k₁ k₂ closed) {t : Token} (h : Reached text₁ text₂ k₁ k₂ closed b i j)
    (hname : i.token.isName = true) (hnext : (i.scanner.next i.token.goalAfter).1 = .ok t) :
    ∃ u, (j.scanner.next i.token.goalAfter).1 = .ok u ∧
      (SameTokens (Stop text₁ text₂ k₁ k₂) t u ∨ ClosesStatement u ∧ Last i) := by
  cases h with
  | atEnd _ _ _ h₁ _ _ =>
    rw [h₁] at hname
    cases hname
  | amid span newline hs hn hbare h₁ hscanner₁ h₂ hscanner₂ hnewline =>
    have hlt := hs.first_lt
    have hgoal := Token.goalAfter_ne_templateTail i.token
    rcases hreading₁ : i.scanner.next i.token.goalAfter with ⟨_, scanner⟩
    rw [hreading₁] at hnext
    cases hnext
    rw [hscanner₁] at hreading₁
    rw [hscanner₂]
    cases hr.next (by omega) hs.behind_le (fun h => absurd h hgoal) hreading₁ with
    | ends _ htoken hopen hreading =>
      refine ⟨_, hreading, .inl ⟨⟨?_, ?_, ?_⟩, ?_⟩⟩ <;> rw [htoken]
      · rfl
      · rfl
      · exact nofun
      · rfl
    | closes hgap htoken hclosed hreading =>
      refine ⟨_, congrArg Prod.fst hreading, .inr ⟨.inr rfl, hname, fun goal u hgoal' hu => ?_⟩⟩
      have hskip (s : Scanner) : s.skipGap goal = s.skipGap i.token.goalAfter := by
        rw [skipGap, skipGap, if_neg hgoal, if_neg hgoal']
      rw [hscanner₁, next_ends ((hskip _).trans hgap) (advance_standing_end true hs.behind_le).1] at hu
      cases hu
      rfl
    | reads span' hs' _ htoken _ hreading =>
      have hfirst := hs'.le_first
      have hlt' := hs'.first_lt
      refine ⟨_, congrArg Prod.fst hreading, .inl ⟨⟨?_, ?_, fun _ => ?_⟩, ?_⟩⟩ <;> rw [htoken]
      · rfl
      · exact hr.lexeme_moved (by omega) hs'
      · exact hr.offset_moved (by omega) hs'.behind_le
      · rfl

/-- A token is read again alike. -/
theorem exists_rescan (hr : Resumes text₁ text₂ k₁ k₂ closed) {i' : Input} {goal : LexicalGoal}
    (h : Alongside text₁ text₂ k₁ k₂ closed b i j) (he : i.token.isEnd = false)
    (hgoal : goal = .templateTail → i.token.isPunctuator .closeBrace = true) (hi : i.rescan goal = .ok i') :
    (∃ j', j.rescan goal = .ok j' ∧ Alongside text₁ text₂ k₁ k₂ closed b i' j') ∧
      (goal = .regExp → isDivision i'.token = false) := by
  obtain ⟨hreached, hprevious⟩ := h
  cases hreached with
  | atEnd _ _ _ h₁ _ _ =>
    rw [h₁] at he
    cases he
  | amid span newline hs hn hbare h₁ hscanner₁ h₂ hscanner₂ hnewline =>
    obtain ⟨hnext, hi'⟩ := Input.eq_of_receive hi
    have hbrace : goal = .templateTail → text₁[span.first]? = some '}' := fun h => by
      have hkind := Token.isPunctuator_iff.mp (hgoal h)
      rw [h₁] at hkind
      exact hs.getElem?_first hkind rfl
    have hconsumed : i'.consumed = i.consumed := by rw [hi']
    rw [hscanner₁] at hnext
    have hstart₁ : i.token.start = placeAt text₁ span.first := by rw [h₁]; rfl
    have hstart₂ : j.token.start = placeAt text₂ (k₂ + (span.first - k₁)) := by rw [h₂]; rfl
    obtain ⟨again, hagain, htoken'⟩ := next_of_rescan hs.first_le hstart₁ hnext
    have hbehind := hr.rest.le_length (Resumes.le_whole hs.first_le)
    have hnewline' : b = true → j.token.newlineBefore = i.token.newlineBefore := fun h => by
      rw [h₁, h₂]
      exact hnewline h
    have hprevious' (hb : b = true) {j' : Input} (hj : j'.consumed = j.consumed) :
        Stop text₁ text₂ k₁ k₂ i'.previousEnd j'.previousEnd := by
      rw [previousEnd_of_consumed hconsumed, previousEnd_of_consumed hj]
      exact hprevious hb
    cases hr.next hn hs.first_le hbrace hagain with
    | ends hgap | closes hgap => exact nomatch congrArg Reading.length ((hbare goal).symm.trans hgap)
    | reads span' hs' hread htoken hscanner hreading =>
      have hfirst := hs'.le_first
      have hj : j.rescan goal = .ok { j with
          scanner := standing text₂ true (k₂ + (span'.behind - k₁))
          token := { (span'.moved k₁ k₂).token text₂ with newlineBefore := j.token.newlineBefore } } := by
        rw [Input.rescan, hscanner₂, rescan_standing true _ hbehind hstart₂, hreading]
        rfl
      refine ⟨⟨_, hj, ?_, fun hb => hprevious' hb rfl⟩, fun hgoal => ?_⟩
      · have hwithin : ({ span' with newlineBefore := i.token.newlineBefore } : Span).Within text₁ goal span.first :=
          { hs' with }
        refine .amid _ j.token.newlineBefore hwithin (by simp only; omega)
          (fun goal => skipGap_first hbrace hread goal) ?_
          hscanner rfl rfl hnewline'
        rw [htoken', htoken]
        rfl
      · rw [htoken', htoken, Comparison.isDivision_eq_false_iff]
        subst hgoal
        exact hs'.fits.not_division

end Resuming

open Resuming in
/-- The second text goes on as the first does. -/
def Following.resuming {text₁ text₂ : List Char} {k₁ k₂ : Nat} {closed : Bool}
    (hr : Resumes text₁ text₂ k₁ k₂ closed) : Following where
  stop := Stop text₁ text₂ k₁ k₂
  finish := Unended
  input := Alongside text₁ text₂ k₁ k₂ closed
  halted := Halted text₁ text₂ k₁ k₂ closed
  stuck i := i.token.isEnd = true
  stuckNext := Last
  offset_eq_iff hp hq := by
    unfold Stop at hp hq
    omega
  weaken h := ⟨h.reached.weaken, (absurd · Bool.false_ne_true)⟩
  heads_of_input h := .twins (twins_of_reached hr h.reached)
  sameTokens_of_input h := { twins_of_reached hr h.reached with newlineBefore := newlineBefore_of_reached h.reached }
  stop_of_input h := h.previousEnd rfl
  stop_of_halted h := h.previousEnd
  closes_of_halted h := .inr h.brace
  stuck_of_halted h := h.ended
  not_finish hstuck htakes hleads hfinish := by
    obtain ⟨l, l', goal, hrests, _, hl, hleads'⟩ := htakes
    have hend := Unended.isEnd_of_advance hfinish hl (hleads'.trans hleads)
    rw [(hrests.unread (not_rereads_of_isEnd hstuck)).1] at hend
    exact absurd (hend.symm.trans hstuck) (by decide)
  not_finish_next hlast htakes hleads hfinish := by
    obtain ⟨hname, hlast⟩ := hlast
    obtain ⟨l, l', goal, hrests, hgoal, hl, m, m', goal', hrests', _, hm, hleads'⟩ := htakes
    obtain ⟨hnext, _⟩ := Input.eq_of_receive hl
    rw [(hrests.unread (not_rereads_of_isName hname)).2] at hnext
    have hend := hlast goal l'.token hgoal (congrArg Prod.fst hnext)
    have hopen := Unended.isEnd_of_advance hfinish hm (hleads'.trans hleads)
    rw [(hrests'.unread (not_rereads_of_isEnd hend)).1] at hopen
    exact absurd (hopen.symm.trans hend) (by decide)
  input_of_sameReading h hi hj := by
    refine ⟨h.reached.of_tokens hi.token hi.scanner hj.token hj.scanner, fun hb => ?_⟩
    rw [previousEnd_of_consumed hi.consumed, previousEnd_of_consumed hj.consumed]
    exact h.previousEnd hb
  halted_of_sameReading h hi hj := by
    refine ⟨⟨h.closed, hi.token ▸ h.ended, hj.token ▸ h.brace, hj.scanner.trans h.scanner⟩, ?_⟩
    rw [previousEnd_of_consumed hi.consumed, previousEnd_of_consumed hj.consumed]
    exact h.previousEnd
  advance h _ hgoal hi hleads hfinish :=
    exists_advance hr h.reached (Unended.isEnd_of_advance hfinish hi hleads) hgoal hi
  peek h hname hnext _ _ _ := exists_peek hr h.reached hname hnext
  rescanRegExp h hdivision hi _ _ := by
    obtain ⟨hexists, hread⟩ :=
      exists_rescan hr h (Comparison.isEnd_of_isDivision hdivision) (fun hgoal => absurd hgoal (by decide)) hi
    refine ⟨hread rfl, .inl ⟨?_, hexists⟩⟩
    have htwins := twins_of_reached hr h.reached
    simp only [isDivision, htwins.isPunctuator]
    exact hdivision
  rescanTemplate h hbrace hi _ _ := (exists_rescan hr h (Token.isEnd_of_isPunctuator hbrace) (fun _ => hbrace) hi).1
  noteOmission h := ⟨h.reached.of_tokens rfl rfl rfl rfl, h.previousEnd⟩
  omits h _ _ := by
    refine .inr ⟨?_, { h with }⟩
    simp only [Token.isPunctuator, h.brace]
    rfl

namespace Resuming

variable {text₁ text₂ : List Char} {k₁ k₂ : Nat} {closed : Bool}

/-- Where the texts go on alike the first token of both is the same, on whatever line, or the first has ended. -/
theorem exists_begin (hr : Resumes text₁ text₂ k₁ k₂ closed) {token₁ : Token} {scanner₁ : Scanner}
    (h : (standing text₁ true k₁).next .regExp = (.ok token₁, scanner₁)) :
    ∃ token₂ scanner₂, (standing text₂ true k₂).next .regExp = (.ok token₂, scanner₂) ∧
      ∀ {i j : Input} {line₁ line₂ : Bool}, i.token = { token₁ with newlineBefore := line₁ } → i.scanner = scanner₁ →
        j.token = { token₂ with newlineBefore := line₂ } → j.scanner = scanner₂ →
          Alongside text₁ text₂ k₁ k₂ closed false i j ∨ Ended text₁ text₂ k₁ k₂ closed i j := by
  have hnext := hr.next (Nat.le_refl k₁) hr.le_length (fun hgoal => absurd hgoal (by decide)) h
  rw [Nat.sub_self, Nat.add_zero] at hnext
  cases hnext with
  | ends _ htoken hopen hreading =>
    refine ⟨_, _, Prod.ext hreading rfl, fun {i j line₁ line₂} h₁ _ h₂ _ => .inl ⟨?_, (absurd · Bool.false_ne_true)⟩⟩
    exact .atEnd line₁ line₂ hopen (h₁.trans (htoken ▸ rfl)) h₂ (absurd · Bool.false_ne_true)
  | closes _ htoken hclosed hreading =>
    refine ⟨_, _, hreading, fun h₁ _ h₂ hscanner₂ => .inr ⟨hclosed, ?_, ?_, hscanner₂⟩⟩
    · rw [h₁, htoken]
      rfl
    · rw [h₂]
      rfl
  | reads span hs hread htoken hscanner hreading =>
    refine ⟨_, _, hreading, fun {i j line₁ line₂} h₁ hscanner₁ h₂ hscanner₂ => .inl ⟨?_, (absurd · Bool.false_ne_true)⟩⟩
    have hwithin : ({ span with newlineBefore := line₁ } : Span).Within text₁ .regExp k₁ := { hs with }
    have hbare (goal : LexicalGoal) : (standing text₁ true span.first).skipGap goal = ⟨0, .ok false⟩ :=
      skipGap_first (fun hgoal => absurd hgoal (by decide)) hread goal
    exact .amid _ line₂ hwithin hs.le_first hbare (h₁.trans (htoken ▸ rfl)) (hscanner₁.trans hscanner) h₂ hscanner₂
      (absurd · Bool.false_ne_true)

/-- The code of the second goes on as that of the first, and has its block closed where the first has ended. -/
theorem code_follows (hr : Resumes text₁ text₂ k₁ k₂ closed) {levels₁ levels₂ : Nat} (hle : levels₁ ≤ levels₂)
    {topLevel₁ topLevel₂ : Bool} (htop : topLevel₂ = topLevel₁ ∨ topLevel₁ = true ∧ topLevel₂ = false)
    {s₁ s₂ t₁ : State} {d₁ d₂ d : Directives} {n₁ : Nat} (n₂ : Nat) (hmodule : s₁.isModule = false)
    (haround : Around s₁ s₂)
    (hs : Alongside text₁ text₂ k₁ k₂ closed false s₁.input s₂.input ∨ Ended text₁ text₂ k₁ k₂ closed s₁.input s₂.input)
    (hp : Prologues d₁ d₂) (hrun : code (derive levels₁) topLevel₁ n₁ d₁ s₁ = .ok d t₁)
    (hfinishes : (Following.resuming hr).Finishes t₁.input) :
    Following.Follows (fun d d' t₁ t₂ => Prologues d d' ∧ Around t₁ t₂ ∧
        (Alongside text₁ text₂ k₁ k₂ closed false t₁.input t₂.input ∨ Ended text₁ text₂ k₁ k₂ closed t₁.input t₂.input))
      d t₁ (code (derive levels₂) topLevel₂ n₂ d₂ s₂) := by
  rcases hs with hs | hended
  · have hblock (i j : Input) (h : Halted text₁ text₂ k₁ k₂ closed i j) :
        i.token.isEnd = true ∧ j.token.isPunctuator .closeBrace = true :=
      ⟨h.ended, Token.isPunctuator_iff.mpr h.brace⟩
    have hderives : (Following.resuming hr).Derives (derive levels₁) (derive levels₂) := Following.derives_derive hle
    have hcode := hderives.code hblock htop hmodule n₁ n₂ hp { haround with input := .inl hs }
    refine (hcode hrun hfinishes trivial).mono fun d' t₂ h => ⟨h.1, h.2.toAround, ?_⟩
    exact h.2.input.imp_right Halted.toEnded
  · have hend₁ : (s₁.token.isEnd || s₁.token.isPunctuator .closeBrace) = true := by
      rw [show s₁.token.isEnd = true from hended.ended]
      rfl
    have hend₂ : (s₂.token.isEnd || s₂.token.isPunctuator .closeBrace) = true := by
      rw [show s₂.token.isPunctuator .closeBrace = true from Token.isPunctuator_iff.mpr hended.brace, Bool.or_true]
    rcases code_ends hend₁ topLevel₁ n₁ d₁ with hcode | ⟨p, hcode⟩ <;> cases hcode.symm.trans hrun
    rcases code_ends hend₂ topLevel₂ n₂ d₂ with hcode | ⟨p, hcode⟩ <;> rw [hcode]
    · exact ⟨hp, haround, .inr hended⟩
    · exact ⟨p, rfl⟩

end Resuming

end EcmaCheck.Grammar
