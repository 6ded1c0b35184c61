import EcmaCheck.Proofs.Lexical.Boundary

/-!
# Numeric literals before a boundary

A numeric literal is read alike whatever follows, if it ends there (`numeral_closed`).
-/

namespace EcmaCheck.Lexical

open Lexer

variable {head tail : List Char}

/-- Each digit takes a character. -/
theorem digitsFrom_count {radix count length n r : Nat} {separated : Bool} {text : List Char}
    (h : digitsFrom radix count separated length text = ⟨n, .ok r⟩) : r + length ≤ n + count := by
  fun_induction digitsFrom radix count separated length text with
  | case1 | case3 | case6 => cases h
  | case2 | case7 => cases h; omega
  | case4 count separated length rest _ ih => have := ih h; omega
  | case5 count separated length c rest _ _ ih => have := ih h; omega

/-- A point with a digit behind it takes both. -/
theorem two_le_numeral_point {rest : List Char} {n : Nat} {kind : TokenKind}
    (hdigit : rest.head?.any isDecimalDigit = true) (h : numeral ('.' :: rest) = ⟨n, .ok kind⟩) : 2 ≤ n := by
  obtain ⟨d, rest, rfl⟩ := List.exists_cons_of_ne_nil (l := rest) (by rintro rfl; cases hdigit)
  have hskip : (skip : Lexer LexicalError Unit) ('.' :: d :: rest) = ⟨1, .ok ()⟩ := by simp [skip]
  have hdigits : 0 < (digits 10 (d :: rest)).length := digits_length_pos hdigit
  rw [show numeral ('.' :: d :: rest) = pointNumeral ('.' :: d :: rest) from rfl, pointNumeral, reading_bind_ok hskip,
    List.drop_one, List.tail_cons] at h
  have hlength : 1 + _ = n := congrArg Reading.length h
  rw [← hlength]
  exact Nat.add_le_add_left
    (Nat.lt_of_lt_of_le hdigits (Nat.le_trans (length_le_bind _ _ _) (length_le_bind _ _ _))) 1

variable {tail' : List Char}

theorem digitsFrom_closed {radix count length n r : Nat} {separated : Bool}
    (h : digitsFrom radix count separated length (head ++ tail) = ⟨n, .ok r⟩) (hle : n ≤ length + head.length)
    (hs : Determined head tail' (n - length)) :
    digitsFrom radix count separated length (head ++ tail') = ⟨n, .ok r⟩ := by
  have hstop {count length n : Nat} {separated : Bool} (hsep : ¬ separated = true) (hs : Determined [] tail' n) :
      digitsFrom radix count separated length ([] ++ tail') = ⟨length, .ok count⟩ := by
    obtain ⟨w, more, rfl, hw⟩ := hs.closes (Nat.zero_le _)
    rw [List.nil_append, digitsFrom, if_neg (hw.ne_of_part rfl), hw.digitOf, if_neg Bool.false_ne_true, if_neg hsep]
  have hmore {count length : Nat} {separated : Bool} {rest : List Char}
      (h : digitsFrom radix count separated length rest = ⟨n, .ok r⟩) : length ≤ n := by
    have := (digitsFrom_length_le radix count separated length rest).1
    rwa [h] at this
  generalize ht : head ++ tail = text at h
  fun_induction digitsFrom radix count separated length text generalizing head with
  | case1 | case3 | case6 => cases h
  | case2 count separated length hsep =>
    cases h
    obtain ⟨rfl, rfl⟩ := List.append_eq_nil_iff.mp ht
    exact hstop hsep hs
  | case4 count separated length rest hsep ih =>
    have hle' := hmore h
    obtain ⟨rfl, rfl⟩ | ⟨head, rfl, rfl⟩ := List.append_eq_cons_iff.mp ht
    · exact absurd hle (Nat.not_le_of_lt hle')
    · rw [List.cons_append, digitsFrom, if_pos rfl, if_neg hsep]
      exact ih (by rw [List.length_cons] at hle; omega) (hs.within (by rw [List.length_cons]; omega)) rfl h
  | case5 count separated length c rest hc hdigit ih =>
    have hle' := hmore h
    obtain ⟨rfl, rfl⟩ | ⟨head, rfl, rfl⟩ := List.append_eq_cons_iff.mp ht
    · exact absurd hle (Nat.not_le_of_lt hle')
    · rw [List.cons_append, digitsFrom, if_neg hc, if_pos hdigit]
      exact ih (by rw [List.length_cons] at hle; omega) (hs.within (by rw [List.length_cons]; omega)) rfl h
  | case7 count separated length c rest hc hdigit hsep =>
    cases h
    obtain ⟨rfl, rfl⟩ | ⟨head, rfl, rfl⟩ := List.append_eq_cons_iff.mp ht
    · exact hstop hsep hs
    · rw [List.cons_append, digitsFrom, if_neg hc, if_neg hdigit, if_neg hsep]

theorem digits_closed (radix : Nat) : ClosedBy tail' (digits radix) head tail := by
  intro n r h hle hs
  exact digitsFrom_closed h (by omega) hs

theorem exponent_closed : ClosedBy tail' exponent head tail := by
  refine .peek (.ite (fun hmark => ?_) fun _ => .pure) fun _ w hw a h more => ?_
  · have hne : head ++ tail ≠ [] := fun hnil => by rw [hnil] at hmark; cases hmark
    refine (ClosedBy.skip hne).bind fun n _ _ _ =>
      .peek (.optional (fun hsign => .skip ?_) fun head => ?_) fun _ _ _ a h => ?_
    · intro hnil
      rw [hnil] at hsign
      cases hsign
    · exact (digits_closed 10).bind fun _ _ _ _ => .optional (fun _ => .fail) fun _ => .pure
    · refine absurd rfl (Takes.ite (fun hsign => .of_first (.skip ?_)) (fun _ => .of_next fun count hcount => ?_) 0 a h)
      · rintro rfl
        cases hsign
      · obtain rfl := Nat.le_zero.mp (digitsFrom_count hcount)
        exact .of_first .fail
  · have hmark : ¬ (decide (some w = some 'e') || decide (some w = some 'E')) = true := by
      simp [hw.ne_of_part (show isIdentifierPart 'e' = true from rfl),
        hw.ne_of_part (show isIdentifierPart 'E' = true from rfl)]
    rw [if_neg hmark]
    split at h
    · rename_i htail
      refine absurd rfl (Takes.of_first (.skip ?_) 0 a h)
      rintro rfl
      cases htail
    · exact h

theorem endingHere_closed (kind : TokenKind) : ClosedBy tail' (endingHere kind) head tail := by
  refine .peek (.optional (fun _ => .fail) fun _ => .pure) fun _ w hw a h more => ?_
  have hends : ¬ (some w).any (fun c => c = '\\' || isDecimalDigit c || isIdentifierStart c) = true := by
    simp [hw.escape, hw.decimalDigit, hw.start]
  rw [if_neg hends]
  split at h
  · cases h
  · exact h

theorem pointNumeral_closed (h : head ++ tail ≠ []) : ClosedBy tail' pointNumeral head tail :=
  (ClosedBy.skip h).bind fun _ _ _ _ => (digits_closed 10).discard.bind fun _ _ _ _ =>
    exponent_closed.discard.bind fun _ _ _ _ => endingHere_closed _

theorem radixNumeral_closed (radix : Nat) {c d : Char} {rest : List Char} (h : head ++ tail = c :: d :: rest) :
    ClosedBy tail' (radixNumeral radix) head tail := by
  refine (ClosedBy.skip (by rw [h]; nofun)).bind fun n _ hn hle => ?_
  rw [h] at hn
  cases hn
  refine (ClosedBy.skip ?_).bind fun _ _ _ _ => (digits_closed radix).bind fun _ _ _ _ => ?_
  · rw [← List.drop_append_of_le_length hle, h]
    nofun
  · refine .optional (fun _ => .fail) fun _ => (ClosedBy.accept fun hw => hw.ne_of_part rfl).bind fun _ _ _ _ => ?_
    exact endingHere_closed _

theorem legacyNumeral_closed : ClosedBy tail' legacyNumeral head tail := by
  have hend (head : List Char) : ClosedBy tail' (do
      let next ← peek
      if next = some '_' || next = some 'n' then fail .legacyOctalSuffix
      endingHere (.number true)) head tail := by
    refine .peek (.optional (fun _ => .fail) fun _ => endingHere_closed _) fun hnil w hw a h more => ?_
    have hsuffix : ¬ (decide (some w = some '_') || decide (some w = some 'n')) = true := by
      simp [hw.ne_of_part (show isIdentifierPart '_' = true from rfl),
        hw.ne_of_part (show isIdentifierPart 'n' = true from rfl)]
    rw [if_neg hsuffix]
    split at h
    · cases h
    · exact @endingHere_closed [] _ _ _ 0 a h (Nat.le_refl 0) (.inr ⟨w, more, rfl, hw⟩)
  refine (ClosedBy.run Closes.decimalDigit).bind fun _ integer _ _ => .ite (fun _ => ?_) fun _ => hend _
  refine (ClosedBy.accept Closes.point).bind fun _ point _ _ =>
    .optional (fun _ => (digits_closed 10).discard) fun _ => ?_
  exact exponent_closed.discard.bind fun _ _ _ _ => hend _

theorem decimalNumeral_closed : ClosedBy tail' decimalNumeral head tail := by
  refine (digits_closed 10).discard.bind fun _ _ _ _ => (ClosedBy.accept Closes.point).bind fun _ point _ _ => ?_
  refine .optional (fun _ => (digits_closed 10).discard) fun _ => exponent_closed.bind fun _ power _ _ => ?_
  refine .ite (fun _ => ?_) fun _ => ?_
  · exact ClosedBy.bind (.pure (a := false)) fun _ big _ _ => endingHere_closed _
  · exact (ClosedBy.accept fun hw => hw.ne_of_part rfl).bind fun _ big _ _ => endingHere_closed _

theorem numeral_zero_decimal {d : Char} (hradix : radixMark? d = none) (hdigit : isDecimalDigit d = false)
    (hsep : d ≠ '_') (rest : List Char) : numeral ('0' :: d :: rest) = decimalNumeral ('0' :: d :: rest) := by
  simp [numeral, hradix, hdigit, hsep]

/-- A zero by itself is a literal before what is no mark and no digit. -/
theorem numeral_zero_one {d : Char} {rest : List Char} {n : Nat} {kind : TokenKind}
    (h : numeral ('0' :: d :: rest) = ⟨n, .ok kind⟩) (hn : n ≤ 1) :
    radixMark? d = none ∧ isDecimalDigit d = false ∧ d ≠ '_' := by
  cases hradix : radixMark? d with
  | some radix =>
    rw [show numeral ('0' :: d :: rest) = radixNumeral radix ('0' :: d :: rest) by simp [numeral, hradix]] at h
    have hskip {c : Char} {rest : List Char} : (skip : Lexer LexicalError Unit) (c :: rest) = ⟨1, .ok ()⟩ := by
      simp [skip]
    rw [radixNumeral, reading_bind_ok hskip, List.drop_one, List.tail_cons, reading_bind_ok hskip] at h
    have hlength : 1 + (1 + _) = n := congrArg Reading.length h
    omega
  | none =>
    cases hdigit : isDecimalDigit d with
    | true =>
      rw [show numeral ('0' :: d :: rest) = legacyNumeral ('0' :: d :: rest) by simp [numeral, hradix, hdigit]] at h
      have hrun : 2 ≤ (run isDecimalDigit ('0' :: d :: rest) : Reading LexicalError _).length := by
        simp [run, hdigit, show isDecimalDigit '0' = true from rfl]
      have hlength : 2 ≤ n :=
        Nat.le_trans hrun (Nat.le_trans (length_le_bind _ _ _) (Nat.le_of_eq (congrArg Reading.length h)))
      omega
    | false =>
      refine ⟨rfl, rfl, ?_⟩
      rintro rfl
      cases h

theorem radixMark?_closed {w : Char} (hw : Closes w) : radixMark? w = none := by
  have hne {c : Char} (hc : isIdentifierPart c = true) : w ≠ c := hw.ne_of_part hc
  simp [radixMark?, hne (c := 'x') rfl, hne (c := 'X') rfl, hne (c := 'o') rfl, hne (c := 'O') rfl, hne (c := 'b') rfl,
    hne (c := 'B') rfl]

/-- After a zero the literal goes on as the next character says. -/
theorem numeral_zero_closed : ClosedBy tail' numeral ('0' :: head) tail := by
  intro n a h hle hs
  cases head with
  | nil =>
    have hdecimal : numeral ('0' :: tail) = decimalNumeral ('0' :: tail) := by
      cases tail with
      | nil => rfl
      | cons d rest =>
        obtain ⟨hradix, hdigit, hsep⟩ := numeral_zero_one h hle
        exact numeral_zero_decimal hradix hdigit hsep rest
    have hpos : 0 < (numeral ('0' :: tail)).length := numeral_length_pos _ (.inr rfl) (congrArg Reading.result h)
    obtain ⟨w, more, rfl, hw⟩ := hs.closes (Nat.lt_of_lt_of_eq hpos (congrArg Reading.length h))
    rw [List.cons_append, List.nil_append,
      numeral_zero_decimal (radixMark?_closed hw) hw.decimalDigit (hw.ne_of_part rfl)]
    exact @decimalNumeral_closed ['0'] _ _ n a (hdecimal ▸ h) hle hs
  | cons d head =>
    rw [List.cons_append, List.cons_append] at h ⊢
    cases hradix : radixMark? d with
    | some radix =>
      have heq (rest : List Char) : numeral ('0' :: d :: rest) = radixNumeral radix ('0' :: d :: rest) := by
        simp [numeral, hradix]
      rw [heq] at h ⊢
      exact @radixNumeral_closed ('0' :: d :: head) _ _ radix _ _ _ rfl n a h hle hs
    | none =>
      by_cases hdigit : isDecimalDigit d = true
      · have heq (rest : List Char) : numeral ('0' :: d :: rest) = legacyNumeral ('0' :: d :: rest) := by
          simp [numeral, hradix, hdigit]
        rw [heq] at h ⊢
        exact @legacyNumeral_closed ('0' :: d :: head) _ _ n a h hle hs
      by_cases hsep : d = '_'
      · subst hsep
        cases h
      · have hdigit := Bool.eq_false_iff.mpr hdigit
        rw [numeral_zero_decimal hradix hdigit hsep] at h ⊢
        exact @decimalNumeral_closed ('0' :: d :: head) _ _ n a h hle hs

theorem numeral_closed (h : head ≠ []) : ClosedBy tail' numeral head tail := by
  obtain ⟨c, head, rfl⟩ := List.exists_cons_of_ne_nil h
  by_cases hpoint : c = '.'
  · subst hpoint
    exact @pointNumeral_closed ('.' :: head) tail _ nofun
  by_cases hzero : c = '0'
  · subst hzero
    exact numeral_zero_closed
  · have heq (rest : List Char) : numeral (c :: rest) = decimalNumeral (c :: rest) := by
      simp [numeral, hpoint, hzero]
    intro n a hr hle hs
    rw [List.cons_append, heq] at hr ⊢
    exact @decimalNumeral_closed (c :: head) _ _ n a hr hle hs

end EcmaCheck.Lexical
