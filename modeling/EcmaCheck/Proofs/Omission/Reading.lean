import EcmaCheck.Proofs.Following.Resuming
import EcmaCheck.Proofs.Spacing.Alongside

/-!
# Reading behind a semicolon

A semicolon is inserted where a token ends. What stands behind it is then read as the start of a statement, where a `/`
begins a regular expression. Any other token is read as before (`next_regExp_eq`), and the regular expression is the one
that the token is read again as (`next_of_rescan_regExp`).
-/

namespace EcmaCheck

open Lexical Scanner Grammar

variable {text : List Char} {n : Nat} {goal goal' : LexicalGoal} {span again : Span} {token : Token} {scanner : Scanner}

/-! ## Reading under another goal -/

/-- Gaps are the same under all goals but the one where a template goes on. -/
theorem skipGap_eq (s : Scanner) (h : goal ≠ .templateTail) (h' : goal' ≠ .templateTail) :
    s.skipGap goal' = s.skipGap goal := by
  rw [skipGap, skipGap, if_neg h, if_neg h']

/-- What is no division is read alike where a statement may begin. -/
theorem next_regExp_eq (hn : n ≤ text.length) (hgoal : goal ≠ .templateTail)
    (h : (standing text true n).next goal = (.ok token, scanner)) (hdivision : isDivision token = false) :
    (standing text true n).next .regExp = (.ok token, scanner) := by
  have hskip : (standing text true n).skipGap .regExp = (standing text true n).skipGap goal :=
    skipGap_eq _ hgoal (by decide)
  cases unfolds goal hn fun h => absurd h hgoal with
  | gapFails hgap => exact nomatch (next_fails hgap).symm.trans (congrArg Prod.fst h)
  | misreads hlt hgap helement =>
    obtain ⟨f, hf⟩ := next_misreads hlt hgap helement
    exact nomatch hf.symm.trans (congrArg Prod.fst h)
  | ends hgap =>
    have hrest := (advance_standing_end true hn).1
    have hgap' := hskip.trans hgap
    rw [← h]
    exact Prod.ext ((next_ends hgap' hrest).trans (next_ends hgap hrest).symm)
      ((scanner_next_ends hgap' hrest).trans (scanner_next_ends hgap hrest).symm)
  | reads span hs hread =>
    rw [hread.next] at h
    cases h
    refine Span.Read.next ⟨hread.le_first, hread.first_lt, hread.behind_le, hskip.trans hread.gap, ?_⟩
    cases goal with
    | templateTail => exact absurd rfl hgoal
    | regExp => exact hread.element
    | division =>
      have hlt := Nat.lt_of_lt_of_le hread.first_lt hread.behind_le
      have helement := hread.element
      rw [rest_standing_of_char (List.getElem?_eq_getElem hlt)] at helement ⊢
      by_cases hslash : text[span.first] = '/'
      · rw [hslash] at helement
        obtain ⟨p, hkind, hp, -⟩ := element_slash_division helement
        have hnot := Comparison.isDivision_eq_false_iff.mp hdivision
        rcases hp with rfl | rfl
        · exact absurd hkind hnot.1
        · exact absurd hkind hnot.2
      · rwa [element_regExp_eq hslash]

/-- Where a division was read, a regular expression begins. -/
theorem kind_of_next_regExp {token' : Token} {scanner' : Scanner} (hn : n ≤ text.length) (hgoal : goal ≠ .templateTail)
    (h : (standing text true n).next goal = (.ok token, scanner)) (hdivision : isDivision token = true)
    (h' : (standing text true n).next .regExp = (.ok token', scanner')) : token'.kind = .regExp := by
  have hnot {g : LexicalGoal} (hg : g ≠ .templateTail) : g = .templateTail → text[n]? = some '}' := fun h => absurd h hg
  have hend := Comparison.isEnd_of_isDivision hdivision
  have hend' : token'.isEnd = false := by
    rw [(scans .regExp hn (hnot (by decide))).isEnd_eq (congrArg Prod.fst h') (by decide),
      ← (scans goal hn (hnot hgoal)).isEnd_eq (congrArg Prod.fst h) hgoal, hend]
  cases gives hn (hnot hgoal) h with
  | ends hends => cases hends.symm.trans hend
  | reads span hs hread htoken =>
    cases gives hn (hnot (by decide)) h' with
    | ends hends => cases hends.symm.trans hend'
    | reads span' hs' hread' htoken' =>
      have hskip : (standing text true n).skipGap .regExp = (standing text true n).skipGap goal :=
        skipGap_eq _ hgoal (by decide)
      have hgap := hskip.symm.trans hread'.gap
      have hlength : span.first - n = span'.first - n := congrArg Reading.length (hread.gap.symm.trans hgap)
      have hfirst : span'.first = span.first := by
        have := hs.le_first
        have := hs'.le_first
        omega
      have hslash : text[span.first]? = some '/' := by
        rw [htoken, isDivision, Bool.or_eq_true] at hdivision
        rcases hdivision with hp | hp <;> exact hs.getElem?_first (Token.isPunctuator_iff.mp hp) rfl
      have helement := hread'.element
      rw [hfirst, rest_standing_of_char hslash, element_slash_regExp] at helement
      rw [htoken']
      exact kind_of_regExp helement

/-! ## Reading again -/

/-- A token that may be read at the start of another one may be read from before the gap. -/
theorem Span.Read.before_gap (hgoal : goal ≠ .templateTail) (hgoal' : goal' ≠ .templateTail) (h : span.Read text goal n)
    (hagain : again.Read text goal' span.first) :
    again.first = span.first ∧ ({ again with newlineBefore := span.newlineBefore } : Span).Read text goal' n := by
  have hgap := hagain.gap
  rw [skipGap_first (fun h => absurd h hgoal) h] at hgap
  have hzero : 0 = again.first - span.first := congrArg Reading.length hgap
  have hfirst : again.first = span.first := by
    have := hagain.le_first
    omega
  refine ⟨hfirst, hfirst ▸ h.le_first, hagain.first_lt, hagain.behind_le, ?_, hagain.element⟩
  rw [skipGap_eq _ hgoal hgoal', h.gap, hfirst]

/-- What a token is read again as may be read from before the gap. -/
theorem next_of_rescan_regExp {m : Nat} {token' : Token} {scanner' : Scanner} (hgoal : goal ≠ .templateTail)
    (hread : span.Read text goal n)
    (h : (standing text true m).rescan .regExp (span.token text) = (.ok token', scanner')) :
    ∃ again, (standing text true n).next .regExp = (.ok again, scanner') ∧
      token' = { again with newlineBefore := span.newlineBefore } ∧ isDivision again = false := by
  have hle := Nat.le_of_lt (Nat.lt_of_lt_of_le hread.first_lt hread.behind_le)
  obtain ⟨read, hnext, rfl⟩ := next_of_rescan hle rfl h
  cases unfolds .regExp hle fun h => absurd h (by decide) with
  | gapFails hgap => exact nomatch (next_fails hgap).symm.trans (congrArg Prod.fst hnext)
  | misreads hlt hgap helement =>
    obtain ⟨f, hf⟩ := next_misreads hlt hgap helement
    exact nomatch hf.symm.trans (congrArg Prod.fst hnext)
  | ends hgap =>
    have hskip := skipGap_first (fun h => absurd h hgoal) hread .regExp
    exact nomatch congrArg Reading.length (hskip.symm.trans hgap)
  | reads span' hs' hread' =>
    obtain ⟨_, hagain⟩ := hread.before_gap hgoal (by decide) hread'
    cases hread'.next.symm.trans hnext
    exact ⟨_, hagain.next, rfl, Comparison.isDivision_eq_false_iff.mpr hs'.fits.not_division⟩

/-! ## The semicolon -/

namespace Insertion

variable {t : Insertion}

/-- A semicolon is inserted. Behind it the whole is read as the text is read there at the start of a statement, or a
regular expression is read if nothing can be read there in the text. -/
structure Opens (t : Insertion) : Prop where
  before_ne : t.before ≠ []
  first : ∃ more, t.inserted = ';' :: more
  reads : (t.inserted = [';'] ∧ ∃ token, ((standing t.plain true t.before.length).next .regExp).1 = .ok token) ∨
    (∃ f, ((standing t.plain true t.before.length).next .regExp).1 = .error f) ∧
      ∃ token scanner, (standing t.whole true (t.before.length + 1)).next .regExp = (.ok token, scanner) ∧
        token.kind = .regExp

theorem Opens.closed (h : t.Opens) : t.Closed := by
  obtain ⟨more, hmore⟩ := h.first
  exact ⟨';', more, hmore, by decide +kernel⟩

/-- The semicolon. -/
def semicolon (t : Insertion) : Span :=
  ⟨.punctuator .semicolon, t.before.length, t.before.length + 1, false⟩

/-- The semicolon is read where the token before it ends. -/
theorem Opens.next_semicolon (h : t.Opens) (hgoal : goal ≠ .templateTail) :
    (standing t.whole true t.before.length).next goal =
      (.ok (t.semicolon.token t.whole), standing t.whole true (t.before.length + 1)) := by
  obtain ⟨more, hmore⟩ := h.first
  have hlength := length_whole (t := t)
  have hbefore := before_le (t := t)
  rw [hmore, List.length_cons] at hlength
  have hrest : (standing t.whole true t.before.length).rest = ';' :: (more ++ (t.after ++ ['\n'])) := by
    rw [rest_standing_true (by omega), drop_whole_front (Nat.le_refl _), List.drop_length, hmore]
    rfl
  have hread : t.semicolon.Read t.whole goal t.before.length := by
    refine ⟨Nat.le_refl _, Nat.lt_succ_self _, by change t.before.length + 1 ≤ _; omega, ?_, ?_⟩
    · change _ = (⟨t.before.length - t.before.length, .ok false⟩ : Reading Misreading Bool)
      rw [skipGap, if_neg hgoal, hrest, gap, gapFrom_other (by decide) (by decide) (by decide), Nat.sub_self]
      exact fun _ h => absurd (List.cons.inj h).1 (by decide)
    · change element true goal (standing t.whole true t.before.length).rest =
        (⟨t.before.length + 1 - t.before.length, .ok (.punctuator .semicolon)⟩ : Reading Misreading TokenKind)
      rw [hrest, Nat.add_sub_cancel_left]
      cases goal with
      | templateTail => exact absurd rfl hgoal
      | regExp | division => rfl
  exact hread.next

/-- Behind the semicolon the text goes on as before. -/
theorem Opens.resumes (h : t.Opens) (hinserted : t.inserted = [';']) :
    Resumes t.plain t.whole t.before.length (t.before.length + 1) false := by
  have hlength := length_whole (t := t)
  have hbefore := before_le (t := t)
  have hpos := List.length_pos_iff.mpr h.before_ne
  rw [hinserted, List.length_singleton] at hlength
  have hplace {n : Nat} (hn : t.before.length ≤ n) :
      t.before.length + 1 + (n - t.before.length) = t.inserted.length + n := by
    rw [hinserted, List.length_singleton]
    omega
  refine ⟨hbefore, ?_⟩
  rw [blockEnd, List.append_nil]
  refine ⟨hbefore, by omega, ?_, fun {n goal} hn hle => ?_⟩
  · have hdrop := drop_behind (t := t) (Nat.le_refl _)
    rwa [hinserted, List.length_singleton, Nat.add_comm] at hdrop
  · rw [hplace hn, skipGap, skipGap, rest_behind hn hle, not_atStart (by omega) hle, not_atStart (by omega) (by
      rw [hinserted, List.length_singleton]
      omega)]

end Insertion

end EcmaCheck
