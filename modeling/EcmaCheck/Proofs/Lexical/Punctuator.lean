import EcmaCheck.Lexical.Punctuator
import Mathlib.Data.List.Nodup

/-!
# The longest punctuator

The decisions of `punctuatorFrom` choose among endings: `Decides` says that a lexer takes the longest of them that comes
next, and holds of two decisions put together (`Decides.ifNext`). The endings decided between are those of every
punctuator that begins with the character (`exists_decides`), so that the longest of all is read, `?.` before a digit
apart (`longest_of_punctuatorFrom`).

`punctuator?` looks it up in the list of all punctuators instead; `punctuatorFrom_eq` says that both agree.
-/

namespace EcmaCheck.Lexical

open Lexer

variable {text rest : List Char} {c : Char} {p q : Punctuator}

/-- Whether the text begins with the punctuator. -/
def beginsWith (p : Punctuator) (text : List Char) : Bool :=
  p.spelling.isPrefixOf text && !(p = .optionalChain && (text.drop 2).head?.any isDecimalDigit)

/-- The longest punctuator that the text begins with. -/
def punctuator? (text : List Char) : Option Punctuator :=
  Punctuator.all.find? (beginsWith · text)

/-- The text begins with `?.` and a digit. -/
def IsPointAfterQuestion (text : List Char) : Prop :=
  ∃ rest, text = '?' :: '.' :: rest ∧ rest.head?.any isDecimalDigit = true

/-- The punctuator is the longest of those whose spellings the text begins with. -/
structure LongestPunctuator (text : List Char) (p : Punctuator) : Prop where
  isPrefix : p.spelling <+: text
  longest (q : Punctuator) : q.spelling <+: text → q.spelling.length ≤ p.spelling.length

/-! ## The table -/

theorem spelling_injective (h : p.spelling = q.spelling) : p = q :=
  List.inj_on_of_nodup_map (l := Punctuator.all) (by decide +kernel) p.mem_all q.mem_all h

theorem spelling_ne_nil (p : Punctuator) : p.spelling ≠ [] := by
  cases p <;> exact List.cons_ne_nil _ _

theorem beginsWith_eq (h : ¬ IsPointAfterQuestion text) : beginsWith p text = p.spelling.isPrefixOf text := by
  unfold beginsWith
  by_cases hp : p = .optionalChain ∧ p.spelling <+: text
  · obtain ⟨rfl, rest, rfl⟩ := hp
    have hdigit : rest.head?.any isDecimalDigit = false := Bool.eq_false_iff.mpr fun hd => h ⟨rest, rfl, hd⟩
    rw [show (Punctuator.optionalChain.spelling ++ rest).drop 2 = rest from rfl, hdigit, Bool.and_false, Bool.not_false,
      Bool.and_true]
  · rcases not_and_or.mp hp with hp | hp
    · rw [decide_eq_false hp, Bool.false_and, Bool.not_false, Bool.and_true]
    · rw [Bool.eq_false_iff.mpr fun h => hp (List.isPrefixOf_iff_prefix.mp h), Bool.false_and]

theorem prefix_of_punctuator? (h : punctuator? text = some p) : p.spelling <+: text := by
  have hp := List.find?_some h
  rw [beginsWith, Bool.and_eq_true, List.isPrefixOf_iff_prefix] at hp
  exact hp.1

/-- The first punctuator found is at least as long as any other that the text begins with. -/
theorem length_le_of_punctuator? (h : punctuator? text = some p) (hq : beginsWith q text = true) :
    q.spelling.length ≤ p.spelling.length := by
  have hsorted : Punctuator.all.Pairwise fun p q => q.spelling.length ≤ p.spelling.length := by decide +kernel
  obtain ⟨_, before, after, hall, hbefore⟩ := List.find?_eq_some_iff_append.mp h
  have hmem : q ∈ before ++ p :: after := hall ▸ q.mem_all
  rw [hall] at hsorted
  rcases List.mem_append.mp hmem with hmem | hmem
  · have hnot := hbefore q hmem
    rw [hq] at hnot
    cases hnot
  · rcases List.mem_cons.mp hmem with rfl | hmem
    · exact Nat.le_refl _
    · exact List.rel_of_pairwise_cons (List.pairwise_append.mp hsorted).2.1 hmem

theorem punctuator?_of_longest (h : ¬ IsPointAfterQuestion text) (hp : LongestPunctuator text p) :
    punctuator? text = some p := by
  have hbegins : beginsWith p text = true := (beginsWith_eq h).trans (List.isPrefixOf_iff_prefix.mpr hp.isPrefix)
  have hsome : (punctuator? text).isSome := List.find?_isSome.mpr ⟨p, p.mem_all, hbegins⟩
  obtain ⟨q, hq⟩ := Option.isSome_iff_exists.mp hsome
  have hstart := prefix_of_punctuator? hq
  have hlength : q.spelling.length = p.spelling.length :=
    Nat.le_antisymm (hp.longest q hstart) (length_le_of_punctuator? hq hbegins)
  have hspelling : q.spelling = p.spelling :=
    (List.prefix_of_prefix_length_le hstart hp.isPrefix (Nat.le_of_eq hlength)).eq_of_length hlength
  rw [hq, spelling_injective hspelling]

theorem punctuator?_question (h : IsPointAfterQuestion text) : punctuator? text = some .question := by
  obtain ⟨rest, rfl, hdigit⟩ := h
  have hpoint : beginsWith .optionalChain ('?' :: '.' :: rest) = false := by
    rw [beginsWith, List.drop_succ_cons, List.drop_succ_cons, List.drop_zero, hdigit]
    rfl
  unfold punctuator? Punctuator.all
  simp only [List.find?_cons, hpoint]
  rfl

theorem punctuator?_eq_none (h : ∀ p : Punctuator, p.spelling.head? ≠ some c) : punctuator? (c :: rest) = none := by
  refine List.find?_eq_none.mpr fun p _ hp => ?_
  rw [beginsWith, Bool.and_eq_true, List.isPrefixOf_iff_prefix] at hp
  obtain ⟨d, more, hspelling⟩ := List.exists_cons_of_ne_nil (spelling_ne_nil p)
  have hstart := hp.1
  rw [hspelling] at hstart
  refine h p ?_
  rw [hspelling, (List.cons_prefix_cons.mp hstart).1]
  rfl

/-! ## Decisions -/

theorem ifNext_cons {α : Type} (c d : Char) (taken left : Lexer LexicalError α) (rest : List Char) :
    ifNext c taken left (d :: rest) = if d = c then (taken rest).after 1 else left (d :: rest) := by
  unfold ifNext
  by_cases h : d = c
  · subst h
    rw [Lexer.reading_bind_ok (n := 1) (a := true) (if_pos rfl), if_pos rfl, if_pos rfl]
    rfl
  · rw [Lexer.reading_bind_ok (n := 0) (a := false) (if_neg fun hd => h (Option.some.inj hd)), if_neg h]
    exact congrArg (Reading.mk · _) (Nat.zero_add _)

theorem ifNext_nil {α : Type} (c : Char) (taken left : Lexer LexicalError α) : ifNext c taken left [] = left [] :=
  congrArg (Reading.mk · _) (Nat.zero_add _)

/-- Of the endings, the lexer takes the longest that the text begins with. -/
def Decides (l : Lexer LexicalError Punctuator) (endings : List (List Char × Punctuator)) (text : List Char) : Prop :=
  ∃ e ∈ endings, l text = ⟨e.1.length, .ok e.2⟩ ∧ e.1 <+: text ∧ ∀ e' ∈ endings, e'.1 <+: text →
    e'.1.length ≤ e.1.length

namespace Decides

variable {taken left : Lexer LexicalError Punctuator} {ps qs : List (List Char × Punctuator)}

protected theorem pure (p : Punctuator) : Decides (pure p) [([], p)] text := by
  refine ⟨_, List.mem_singleton_self _, rfl, List.nil_prefix, fun e he _ => ?_⟩
  obtain rfl := List.mem_singleton.mp he
  exact Nat.le_refl _

/-- Where the character does not come next, the endings that go on with it do not count. -/
theorem of_left {c : Char} (hleft : Decides left qs text) (hread : ifNext c taken left text = left text)
    (hnext : text.head? ≠ some c) :
    Decides (ifNext c taken left) (ps.map (fun e => (c :: e.1, e.2)) ++ qs) text := by
  obtain ⟨e, he, hl, hstart, hlongest⟩ := hleft
  refine ⟨e, List.mem_append_right _ he, hread.trans hl, hstart, fun e' he' hstart' => ?_⟩
  rcases List.mem_append.mp he' with he' | he'
  · obtain ⟨f, _, rfl⟩ := List.mem_map.mp he'
    obtain ⟨more, rfl⟩ := hstart'
    exact absurd rfl hnext
  · exact hlongest e' he' hstart'

/-- Endings that go on with the character are told from those that do not. -/
protected theorem ifNext {c : Char} (htaken : ∀ rest, text = c :: rest → Decides taken ps rest)
    (hleft : text.head? ≠ some c → Decides left qs text) (hqs : ∀ e ∈ qs, e.1.head? ≠ some c) :
    Decides (ifNext c taken left) (ps.map (fun e => (c :: e.1, e.2)) ++ qs) text := by
  cases text with
  | nil =>
    have hnext : ([] : List Char).head? ≠ some c := by simp
    exact of_left (hleft hnext) (ifNext_nil c taken left) hnext
  | cons d rest =>
    by_cases hd : d = c
    · subst hd
      obtain ⟨f, hf, hread, hstart, hlongest⟩ := htaken rest rfl
      refine ⟨(d :: f.1, f.2), List.mem_append_left _ (List.mem_map_of_mem hf), ?_,
        List.cons_prefix_cons.mpr ⟨rfl, hstart⟩, fun e he hstart' => ?_⟩
      · rw [ifNext_cons, if_pos rfl, hread, Reading.after, List.length_cons, Nat.add_comm]
      rcases List.mem_append.mp he with he | he
      · obtain ⟨f', hf', rfl⟩ := List.mem_map.mp he
        exact Nat.succ_le_succ (hlongest f' hf' (List.cons_prefix_cons.mp hstart').2)
      · -- an ending that does not go on with the character is empty
        cases hempty : e.1 with
        | nil => exact Nat.zero_le _
        | cons b more =>
          rw [hempty] at hstart'
          refine absurd ?_ (hqs e he)
          rw [hempty, (List.cons_prefix_cons.mp hstart').1]
          rfl
    · have hnext : (d :: rest).head? ≠ some c := fun h => hd (Option.some.inj h)
      exact of_left (hleft hnext) (by rw [ifNext_cons, if_neg hd]) hnext

/-- Decisions that do not depend on the text. -/
theorem always {c : Char} (htaken : ∀ rest, Decides taken ps rest) (hleft : ∀ rest, Decides left qs rest)
    (hqs : ∀ e ∈ qs, e.1.head? ≠ some c) (text : List Char) :
    Decides (Lexical.ifNext c taken left) (ps.map (fun e => (c :: e.1, e.2)) ++ qs) text :=
  .ifNext (fun rest _ => htaken rest) (fun _ => hleft text) hqs

theorem pointPunctuator : Decides pointPunctuator [(['.', '.'], .ellipsis), ([], .dot)] text := by
  by_cases h : ['.', '.'] <+: text
  · refine ⟨_, List.mem_cons_self, if_pos (List.isPrefixOf_iff_prefix.mpr h), h, fun e he _ => ?_⟩
    rcases List.mem_cons.mp he with rfl | he
    · exact Nat.le_refl _
    · obtain rfl := List.mem_singleton.mp he
      exact Nat.zero_le _
  · refine ⟨_, List.mem_cons_of_mem _ (List.mem_singleton_self _),
      if_neg fun hp => h (List.isPrefixOf_iff_prefix.mp hp), List.nil_prefix, fun e he hstart => ?_⟩
    rcases List.mem_cons.mp he with rfl | he
    · exact absurd hstart h
    · obtain rfl := List.mem_singleton.mp he
      exact Nat.le_refl _

theorem questionPunctuator (h : ¬ IsPointAfterQuestion ('?' :: text)) :
    Decides questionPunctuator [(['.'], .optionalChain), ([], .question)] text := by
  have heq : Lexical.questionPunctuator text = ifNext '.' (pure .optionalChain) (pure .question) text := by
    cases text with
    | nil => rfl
    | cons d rest =>
      rw [ifNext_cons]
      by_cases hd : d = '.'
      · subst hd
        have hdigit : rest.head?.any isDecimalDigit = false := Bool.eq_false_iff.mpr fun hd => h ⟨rest, rfl, hd⟩
        rw [if_pos rfl]
        refine if_pos ?_
        rw [List.drop_succ_cons, List.drop_zero, hdigit]
        rfl
      · rw [if_neg hd]
        refine if_neg ?_
        rw [List.head?_cons, decide_eq_false fun h => hd (Option.some.inj h), Bool.false_and]
        exact Bool.false_ne_true
  have hdecides : Decides (ifNext '.' (pure .optionalChain) (pure .question)) [(['.'], .optionalChain), ([], .question)]
      text :=
    .ifNext (fun _ _ => .pure _) (fun _ => .pure _) (by decide)
  obtain ⟨e, he, hread, hlongest⟩ := hdecides
  exact ⟨e, he, heq.trans hread, hlongest⟩

end Decides

/-- The endings are those of the punctuators that begin with the character. -/
def Covers (c : Char) (endings : List (List Char × Punctuator)) : Prop :=
  (∀ e ∈ endings, e.2.spelling = c :: e.1) ∧
    ∀ p ∈ Punctuator.all, p.spelling.head? = some c → (p.spelling.tail, p) ∈ endings

instance (c : Char) (endings : List (List Char × Punctuator)) : Decidable (Covers c endings) :=
  inferInstanceAs (Decidable (_ ∧ _))

/-- What begins with a character is decided among all punctuators that begin with it. -/
theorem exists_decides (hc : p.spelling.head? = some c) (h : ¬ IsPointAfterQuestion (c :: rest)) :
    ∃ endings, Decides (punctuatorFrom c) endings rest ∧ Covers c endings := by
  have one (p : Punctuator) (text : List Char) : Decides (pure p) [([], p)] text := .pure p
  have two {c : Char} (p q : Punctuator) (text : List Char) :
      Decides (ifNext c (pure p) (pure q)) [([c], p), ([], q)] text := .always (one p) (one q) (by simp) text
  unfold punctuatorFrom
  split
  case h_11 => exact ⟨_, .pointPunctuator, by decide +kernel⟩
  case h_12 =>
    exact ⟨_, .ifNext (fun rest _ => two _ _ rest) (fun _ => .questionPunctuator h) (by simp), by decide +kernel⟩
  case h_13 => exact ⟨_, .always (one _) (.always (two _ _) (one _) (by simp)) (by simp) rest, by decide +kernel⟩
  case h_14 => exact ⟨_, .always (two _ _) (one _) (by simp) rest, by decide +kernel⟩
  case h_15 | h_16 => exact ⟨_, .always (one _) (two _ _) (by simp) rest, by decide +kernel⟩
  case h_17 | h_20 | h_22 | h_23 => exact ⟨_, .always (two _ _) (two _ _) (by simp) rest, by decide +kernel⟩
  case h_18 | h_19 | h_24 => exact ⟨_, two _ _ rest, by decide +kernel⟩
  case h_21 =>
    exact ⟨_, .always (.always (two _ _) (two _ _) (by simp)) (two _ _) (by simp) rest, by decide +kernel⟩
  case h_25 =>
    cases p <;> cases hc <;> contradiction
  all_goals exact ⟨_, one _ rest, by decide +kernel⟩

/-- The longest punctuator is read of what begins with one, but for `?.` before a digit. -/
theorem longest_of_punctuatorFrom (hc : p.spelling.head? = some c) (h : ¬ IsPointAfterQuestion (c :: rest)) :
    ∃ q, punctuatorFrom c rest = ⟨q.spelling.tail.length, .ok q⟩ ∧ q.spelling.head? = some c ∧
      LongestPunctuator (c :: rest) q := by
  obtain ⟨endings, ⟨e, he, hread, hstart, hlongest⟩, hspelling, hcomplete⟩ := exists_decides hc h
  have hq := hspelling e he
  refine ⟨e.2, by rw [hread, hq, List.tail_cons], by rw [hq]; rfl, ?_, fun q hq' => ?_⟩
  · rw [hq]
    exact List.cons_prefix_cons.mpr ⟨rfl, hstart⟩
  · obtain ⟨d, more, hd⟩ := List.exists_cons_of_ne_nil (spelling_ne_nil q)
    rw [hd] at hq'
    obtain ⟨rfl, hmore⟩ := List.cons_prefix_cons.mp hq'
    have hmem := hcomplete q q.mem_all (by rw [hd]; rfl)
    rw [hd, List.tail_cons] at hmem
    rw [hd, hq]
    exact Nat.succ_le_succ (hlongest _ hmem hmore)

theorem punctuatorFrom_question (h : IsPointAfterQuestion (c :: rest)) :
    c = '?' ∧ punctuatorFrom c rest = ⟨0, .ok .question⟩ := by
  obtain ⟨more, htext, hdigit⟩ := h
  cases htext
  refine ⟨rfl, ?_⟩
  change ifNext '?' _ questionPunctuator ('.' :: more) = _
  rw [ifNext_cons, if_neg (by decide)]
  refine if_neg ?_
  rw [List.drop_succ_cons, List.drop_zero, hdigit, Bool.not_true, Bool.and_false]
  exact Bool.false_ne_true

theorem punctuatorFrom_unexpected (h : ∀ p : Punctuator, p.spelling.head? ≠ some c) :
    punctuatorFrom c rest = ⟨0, .error (.unexpectedCharacter c)⟩ := by
  have hnone : ¬ ∃ p ∈ Punctuator.all, p.spelling.head? = some c := by
    rintro ⟨p, _, hp⟩
    exact h p hp
  unfold punctuatorFrom
  split
  case h_25 => rfl
  all_goals exact absurd (by decide) hnone

/-- The decisions read the punctuator that the table holds. -/
theorem punctuatorFrom_eq (c : Char) (rest : List Char) :
    punctuatorFrom c rest = (punctuator? (c :: rest)).elim ⟨0, .error (.unexpectedCharacter c)⟩
      fun p => ⟨p.spelling.tail.length, .ok p⟩ := by
  by_cases hchain : IsPointAfterQuestion (c :: rest)
  · rw [punctuator?_question hchain, (punctuatorFrom_question hchain).2]
    rfl
  by_cases hc : ∃ p : Punctuator, p.spelling.head? = some c
  · obtain ⟨p, hc⟩ := hc
    obtain ⟨q, hread, _, hlongest⟩ := longest_of_punctuatorFrom hc hchain
    rw [hread, punctuator?_of_longest hchain hlongest]
    rfl
  · have hnone (p : Punctuator) : p.spelling.head? ≠ some c := fun h => hc ⟨p, h⟩
    rw [punctuatorFrom_unexpected hnone, punctuator?_eq_none hnone]
    rfl

/-- The reading of a punctuator as a token. -/
theorem punctuator_reading (c : Char) (rest : List Char) :
    (((punctuatorFrom c rest).map TokenKind.punctuator).after 1).reportedAt 0 =
      (punctuator? (c :: rest)).elim ⟨1, .error ⟨.unexpectedCharacter c, 0⟩⟩
        fun p => ⟨p.spelling.length, .ok (.punctuator p)⟩ := by
  rw [punctuatorFrom_eq]
  cases punctuator? (c :: rest) with
  | none => rfl
  | some p =>
    have hpos := List.length_pos_iff.mpr (spelling_ne_nil p)
    have hlength : 1 + p.spelling.tail.length = p.spelling.length := by
      rw [List.length_tail]
      omega
    change (⟨1 + p.spelling.tail.length, .ok (.punctuator p)⟩ : Reading Misreading TokenKind) = _
    rw [hlength]
    rfl

end EcmaCheck.Lexical
