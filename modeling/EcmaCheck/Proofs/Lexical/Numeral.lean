import EcmaCheck.Lexical.Numeral
import EcmaCheck.Proofs.Lexical.Reading

/-!
# Numeric literals with a sentinel

A numeric literal stays within its text and ends where the text does, with or without a sentinel (`numeral_kept`). It
takes at least one character (`numeral_length_pos`).
-/

namespace EcmaCheck.Lexical

open Lexer

variable {text : List Char}

/-! ## Digits -/

theorem isDigitOf_ten {c : Char} (h : isDecimalDigit c = true) : isDigitOf 10 c = true := by
  simp only [isDecimalDigit, isDigitOf, hexDigit?, Bool.and_eq_true, decide_eq_true_eq] at h ⊢
  rw [if_pos (by simpa using h)]
  have h0 : ('0' : Char).toNat ≤ c.toNat := h.1
  have h9 : c.toNat ≤ ('9' : Char).toNat := h.2
  simp only [Option.any_some, decide_eq_true_eq]
  change c.toNat - 48 < 10
  change c.toNat ≤ 57 at h9
  omega

theorem digitsFrom_length_le (radix count : Nat) (separated : Bool) (length : Nat) (text : List Char) :
    length ≤ (digitsFrom radix count separated length text).length ∧
      (digitsFrom radix count separated length text).length ≤ length + text.length := by
  fun_induction digitsFrom radix count separated length text with
  | case1 | case2 => exact ⟨Nat.le_refl _, Nat.le_refl _⟩
  | case3 | case6 | case7 => exact ⟨Nat.le_refl _, Nat.le_add_right _ _⟩
  | case4 count separated length rest _ ih => simp only [List.length_cons]; omega
  | case5 count separated length c rest _ _ ih => simp only [List.length_cons]; omega

theorem digitsFrom_sentinel (radix count : Nat) (separated : Bool) (length : Nat) (text : List Char) :
    digitsFrom radix count separated length (text ++ ['\n']) = digitsFrom radix count separated length text := by
  have hline : isDigitOf radix '\n' = false := rfl
  fun_induction digitsFrom radix count separated length text <;> simp_all [digitsFrom]

theorem digits_kept (radix : Nat) : Kept (fun _ => True) (digits radix) text where
  length_le := Nat.zero_add text.length ▸ (digitsFrom_length_le radix 0 false 0 text).2
  sentinel := digitsFrom_sentinel radix 0 false 0 text
  ok _ := trivial

/-! ## Parts of literals -/

theorem exponent_kept : Kept (fun _ => True) exponent text := by
  refine .peek rfl (.ite (fun hmark => ?_) fun _ => .pure trivial)
  refine (Kept.skip ?_).bind fun n _ h => .peek rfl (.optional (fun hsign => .skip ?_) fun t => ?_)
  · rintro rfl
    exact absurd hmark (by decide)
  · intro hnil
    rw [hnil] at hsign
    exact absurd hsign (by decide)
  · exact (digits_kept 10).bind fun _ _ _ => .optional (fun _ => .fail) fun _ => .pure trivial

/-- The kinds of numeric literals. -/
def IsNumeric (kind : TokenKind) : Prop :=
  kind = .bigInt ∨ ∃ legacy, kind = .number legacy

theorem endingHere_kept {kind : TokenKind} (h : IsNumeric kind) : Kept IsNumeric (endingHere kind) text :=
  .peek rfl (.optional (fun _ => .fail) fun _ => .pure h)

theorem endingHere_suffix_kept (big : Bool) :
    Kept IsNumeric (endingHere (if big then .bigInt else .number false)) text := by
  cases big with
  | true => exact endingHere_kept (.inl rfl)
  | false => exact endingHere_kept (.inr ⟨false, rfl⟩)

theorem pointNumeral_kept (h : text ≠ []) : Kept IsNumeric pointNumeral text :=
  (Kept.skip h).bind fun _ _ _ => (digits_kept 10).discard.bind fun _ _ _ =>
    exponent_kept.discard.bind fun _ _ _ => endingHere_kept (.inr ⟨false, rfl⟩)

theorem radixNumeral_kept (radix : Nat) {c d : Char} (rest : List Char) :
    Kept IsNumeric (radixNumeral radix) (c :: d :: rest) := by
  refine (Kept.skip (List.cons_ne_nil _ _)).bind fun _ _ h => ?_
  cases h
  refine (Kept.skip (List.cons_ne_nil _ _)).bind fun _ _ _ => (digits_kept radix).bind fun _ _ _ => ?_
  exact .optional (fun _ => .fail) fun _ => (Kept.accept (by decide)).bind fun big _ _ => endingHere_suffix_kept _

theorem legacyNumeral_kept : Kept IsNumeric legacyNumeral text := by
  have hend (t : List Char) : Kept IsNumeric (do
      let next ← peek
      if next = some '_' || next = some 'n' then fail .legacyOctalSuffix
      endingHere (.number true)) t :=
    .peek rfl (.optional (fun _ => .fail) fun _ => endingHere_kept (.inr ⟨true, rfl⟩))
  refine (Kept.run rfl).bind fun _ integer _ => .ite (fun _ => ?_) fun _ => hend _
  refine (Kept.accept (by decide)).bind fun _ point _ => .optional (fun _ => (digits_kept 10).discard) fun _ => ?_
  exact exponent_kept.discard.bind fun _ _ _ => hend _

theorem decimalNumeral_kept : Kept IsNumeric decimalNumeral text := by
  refine (digits_kept 10).discard.bind fun _ _ _ => (Kept.accept (by decide)).bind fun _ point _ => ?_
  refine .optional (fun _ => (digits_kept 10).discard) fun _ => exponent_kept.bind fun _ power _ => ?_
  refine .ite (fun _ => ?_) fun _ => ?_
  · have hnone (t : List Char) : Kept (fun _ => True) (pure false : Lexer LexicalError Bool) t := .pure trivial
    exact (hnone _).bind fun _ big _ => endingHere_suffix_kept big
  · exact (Kept.accept (by decide)).bind fun _ big _ => endingHere_suffix_kept big

/-! ## Literals -/

theorem numeral_zero_kept {c : Char} (rest : List Char) : Kept IsNumeric numeral ('0' :: c :: rest) := by
  cases hradix : radixMark? c with
  | some radix =>
    exact .of_eq (radixNumeral_kept radix rest) (by simp [numeral, hradix]) (by simp [numeral, hradix])
  | none =>
    by_cases hdigit : isDecimalDigit c = true
    · exact .of_eq legacyNumeral_kept (by simp [numeral, hradix, hdigit]) (by simp [numeral, hradix, hdigit])
    by_cases hsep : c = '_'
    · subst hsep
      exact .of_eq (Kept.fail (e := .separatorAfterLeadingZero)) rfl rfl
    · exact .of_eq decimalNumeral_kept (by simp [numeral, hradix, hdigit, hsep])
        (by simp [numeral, hradix, hdigit, hsep])

theorem numeral_kept (h : text ≠ []) : Kept IsNumeric numeral text := by
  obtain ⟨c, rest, rfl⟩ := List.exists_cons_of_ne_nil h
  by_cases hpoint : c = '.'
  · subst hpoint
    exact .of_eq (pointNumeral_kept h) rfl rfl
  by_cases hzero : c = '0'
  · subst hzero
    cases rest with
    | nil => exact .of_eq decimalNumeral_kept rfl rfl
    | cons d rest => exact numeral_zero_kept rest
  · exact .of_eq decimalNumeral_kept (by simp [numeral, hpoint, hzero]) (by simp [numeral, hpoint, hzero])

theorem digits_length_pos {c : Char} {rest : List Char} (h : isDecimalDigit c = true) :
    0 < (digits 10 (c :: rest)).length := by
  have hc : c ≠ '_' := by rintro rfl; exact absurd h (by decide)
  have hten : isDigitOf 10 c = true := isDigitOf_ten h
  rw [digits, digitsFrom, if_neg hc, if_pos hten]
  exact (digitsFrom_length_le ..).1

theorem decimalNumeral_length_pos {c : Char} {rest : List Char} (h : isDecimalDigit c = true) :
    0 < (decimalNumeral (c :: rest)).length :=
  Nat.lt_of_lt_of_le (digits_length_pos h) (Nat.le_trans (length_le_bind _ _ _) (length_le_bind _ _ _))

/-- A literal that begins with a digit or a point takes at least that. -/
theorem numeral_length_pos (text : List Char) {kind : TokenKind}
    (h : text.head? = some '.' ∨ text.head?.any isDecimalDigit = true) (hok : (numeral text).result = .ok kind) :
    0 < (numeral text).length := by
  revert hok
  fun_cases numeral text with
  | case1 rest => exact fun _ => Nat.lt_of_lt_of_le (by simp [skip]) (length_le_bind skip _ ('.' :: rest))
  | case2 c rest => exact fun _ => Nat.lt_of_lt_of_le (by simp [skip]) (length_le_bind skip _ ('0' :: c :: rest))
  | case3 c rest =>
    have hrun : 0 < (run isDecimalDigit ('0' :: c :: rest) : Reading LexicalError _).length := Nat.succ_pos _
    exact fun _ => Nat.lt_of_lt_of_le hrun (length_le_bind _ _ _)
  | case4 =>
    intro hok
    cases hok
  | case5 => exact fun _ => decimalNumeral_length_pos rfl
  | case6 text hpoint =>
    cases text with
    | nil => simp at h
    | cons c rest =>
      intro _
      have hc : (c :: rest).head? ≠ some '.' := fun hc => hpoint rest (by rw [Option.some.inj hc])
      exact decimalNumeral_length_pos (h.resolve_left hc)

end EcmaCheck.Lexical
