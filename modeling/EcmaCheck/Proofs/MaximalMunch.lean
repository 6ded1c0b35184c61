import EcmaCheck.Proofs.Lexical.Punctuator
import EcmaCheck.Proofs.Literals.LongestNumeral

/-!
# Maximal munch of punctuators

Where a punctuator begins, the next token is the longest one whose spelling comes next, and covers exactly that
spelling; only `?.` before a digit is read as `?` (`Scanner.next_punctuator`).
-/

namespace EcmaCheck

namespace Lexical

variable {c : Char} {p : Punctuator} {body : List Char}

/-- What begins a punctuator begins no other token, but for the numerals, templates and regular expressions. -/
theorem head_of_punctuator (h : p.spelling.head? = some c) :
    c ≠ '"' ∧ c ≠ '\'' ∧ c ≠ '\x60' ∧ c ≠ '#' ∧ beginsName c = false := by
  cases p <;> cases h <;> decide +kernel

/-- A punctuator is read where it begins, unless another token begins with the same character. -/
theorem element_of_punctuator (sentinel : Bool) {goal : LexicalGoal} (h : p.spelling.head? = some c)
    (hnumeral : beginsNumeral (c :: body) = false) (htemplate : ¬ (c = '}' ∧ goal = .templateTail))
    (hregExp : ¬ (c = '/' ∧ goal = .regExp)) :
    element sentinel goal (c :: body) = (((punctuatorFrom c body).map TokenKind.punctuator).after 1).reportedAt 0 := by
  obtain ⟨hdouble, hsingle, hgrave, hsign, hname⟩ := head_of_punctuator h
  have htail : (decide (c = '}') && decide (goal = .templateTail)) = false := by simpa using htemplate
  have hslash : (decide (c = '/') && decide (goal = .regExp)) = false := by simpa using hregExp
  have hnumeral : (isDecimalDigit c || (c = '.' && body.head?.any isDecimalDigit)) = false := hnumeral
  simp only [element, htail, hslash, hdouble, hsingle, hgrave, hnumeral, hsign, hname, decide_false, Bool.or_self,
    Bool.false_eq_true, if_false]

end Lexical

open Lexical

/-- Where a token begins with the first character of a punctuator and is no number, no template text that goes on and no
regular expression, the next token is the longest punctuator that comes next, but for `?.` before a digit, which is read
as `?`. The token covers exactly the spelling of its punctuator. -/
theorem Scanner.next_punctuator {goal : LexicalGoal} {s : Scanner} {n : Nat} {newline : Bool} {c : Char}
    {body : List Char} (hgap : s.skipGap goal = ⟨n, .ok newline⟩) (hrest : (s.advance n).rest = c :: body)
    (hc : ∃ q : Punctuator, q.spelling.head? = some c) (hnumeral : beginsNumeral (c :: body) = false)
    (htemplate : ¬ (c = '}' ∧ goal = .templateTail)) (hregExp : ¬ (c = '/' ∧ goal = .regExp)) :
    ∃ p, s.next goal = (.ok ⟨.punctuator p, (s.advance n).position,
        ((s.advance n).advance p.spelling.length).position, String.ofList p.spelling, newline⟩,
        (s.advance n).advance p.spelling.length) ∧
      p.spelling <+: c :: body ∧
      (IsPointAfterQuestion (c :: body) → p = .question) ∧
      (¬ IsPointAfterQuestion (c :: body) → LongestPunctuator (c :: body) p) := by
  obtain ⟨q, hq⟩ := hc
  have hne : (s.advance n).rest ≠ [] := hrest ▸ List.cons_ne_nil c body
  have helement := element_of_punctuator s.source.sentinel hq hnumeral htemplate hregExp
  -- a punctuator that begins with the character and is read gives the token
  have token {p : Punctuator} (hread : punctuatorFrom c body = ⟨p.spelling.tail.length, .ok p⟩)
      (hstart : p.spelling <+: c :: body) :
      s.next goal = (.ok ⟨.punctuator p, (s.advance n).position,
        ((s.advance n).advance p.spelling.length).position, String.ofList p.spelling, newline⟩,
        (s.advance n).advance p.spelling.length) := by
    obtain ⟨d, more, hspelling⟩ := List.exists_cons_of_ne_nil (spelling_ne_nil p)
    have hlength : 1 + p.spelling.tail.length = p.spelling.length := by
      rw [hspelling]
      exact Nat.add_comm 1 _
    have htoken : element s.source.sentinel goal (s.advance n).rest = ⟨p.spelling.length, .ok (.punctuator p)⟩ := by
      rw [hrest, helement, hread, ← hlength]
      rfl
    rw [next_token hgap hne htoken, hrest, ← List.prefix_iff_eq_take.mp hstart]
  by_cases hpoint : IsPointAfterQuestion (c :: body)
  · obtain ⟨rfl, hread⟩ := punctuatorFrom_question hpoint
    have hstart : Punctuator.question.spelling <+: '?' :: body := List.cons_prefix_cons.mpr ⟨rfl, List.nil_prefix⟩
    exact ⟨.question, token hread hstart, hstart, fun _ => rfl, fun h => absurd hpoint h⟩
  · obtain ⟨p, hread, _, hlongest⟩ := longest_of_punctuatorFrom hq hpoint
    exact ⟨p, token hread hlongest.isPrefix, hlongest.isPrefix, fun h => absurd h hpoint, fun _ => hlongest⟩

/-- Four of the five characters make a punctuator. -/
theorem Scanner.next_punctuator_shift :
    let s := Scanner.ofSource (.ofText " >>>==".toList)
    let body := ">>==".toList
    s.skipGap .regExp = ⟨1, .ok false⟩ ∧ (s.advance 1).rest = '>' :: body ∧
    (∃ q : Punctuator, q.spelling.head? = some '>') ∧ beginsNumeral ('>' :: body) = false ∧
    ¬ ('>' = '}' ∧ LexicalGoal.regExp = .templateTail) ∧ ¬ ('>' = '/' ∧ LexicalGoal.regExp = .regExp) ∧
    ∃ p, s.next .regExp = (.ok ⟨.punctuator p, (s.advance 1).position,
        ((s.advance 1).advance p.spelling.length).position, String.ofList p.spelling, false⟩,
        (s.advance 1).advance p.spelling.length) ∧
      p.spelling <+: '>' :: body ∧
      (IsPointAfterQuestion ('>' :: body) → p = .question) ∧
      (¬ IsPointAfterQuestion ('>' :: body) → LongestPunctuator ('>' :: body) p) := by
  intro s body
  have hgap : s.skipGap .regExp = ⟨1, .ok false⟩ :=
    (gapFrom_space (by decide +kernel) (by decide +kernel)).trans
      (gapFrom_other (by decide +kernel) (by decide +kernel) (by decide))
  have hrest : (s.advance 1).rest = '>' :: body := by decide
  have hc : ∃ q : Punctuator, q.spelling.head? = some '>' := ⟨.greater, rfl⟩
  have htemplate : ¬ ('>' = '}' ∧ LexicalGoal.regExp = .templateTail) := by decide
  have hregExp : ¬ ('>' = '/' ∧ LexicalGoal.regExp = .regExp) := by decide
  exact ⟨hgap, hrest, hc, rfl, htemplate, hregExp, next_punctuator hgap hrest hc rfl htemplate hregExp⟩

end EcmaCheck
