import EcmaCheck.Proofs.Lexical.ClosedNumeral

/-!
# Tokens before a boundary

What is read of `head` as a token is read of it wherever it ends there (`element_closed`). Literals with a closing mark
do not look behind it, so that they are read whatever follows.
-/

namespace EcmaCheck.Lexical

variable {head tail tail' : List Char}

/-! ## Escapes -/

/-- The reading is one of the first `n` characters: one that fails has looked at the character behind it. -/
def Inside {ε α : Type} (r : Reading ε α) (n : Nat) : Prop :=
  r.length < n ∨ r.length ≤ n ∧ ∃ a, r.result = .ok a

theorem le_length_hexDigits (e : LexicalError) (value length count : Nat) (text : List Char) :
    length ≤ (hexDigits e value length count text).length := by
  fun_induction hexDigits e value length count text with
  | case1 | case2 | case4 => exact Nat.le_refl _
  | case3 value length count c rest digit _ ih => exact Nat.le_of_succ_le ih

theorem length_hexDigits {e : LexicalError} {value length count r : Nat} {text : List Char}
    (h : (hexDigits e value length count text).result = .ok r) :
    (hexDigits e value length count text).length = length + count := by
  fun_induction hexDigits e value length count text with
  | case1 => rfl
  | case2 | case4 => cases h
  | case3 value length count c rest digit _ ih => rw [ih h, Nat.add_assoc, Nat.add_comm 1]

theorem hexDigits_cut {e : LexicalError} {value length count : Nat}
    (h : Inside (hexDigits e value length count (head ++ tail)) (length + head.length)) :
    hexDigits e value length count (head ++ tail') = hexDigits e value length count (head ++ tail) := by
  induction count generalizing value length head with
  | zero => rfl
  | succ count ih =>
    cases head with
    | nil =>
      rcases h with hlt | ⟨hle, r, hr⟩
      · exact absurd hlt (Nat.not_lt_of_le (le_length_hexDigits ..))
      · rw [length_hexDigits hr, List.length_nil] at hle
        omega
    | cons c head =>
      simp only [List.cons_append, hexDigits] at h ⊢
      split at h
      · exact ih (by rwa [List.length_cons, Nat.add_comm head.length, ← Nat.add_assoc] at h)
      · rfl

theorem length_unicodeEscape {text : List Char} {code : Nat} (h : (unicodeEscape text).result = .ok code) :
    2 ≤ (unicodeEscape text).length := by
  revert h
  fun_cases unicodeEscape text with
  | case1 | case2 => nofun
  | case3 => exact fun _ => Nat.le_add_left 2 _
  | case4 =>
    intro h
    rw [length_hexDigits h]
    omega

theorem unicodeEscape_cut (h : Inside (unicodeEscape (head ++ tail)) head.length) :
    unicodeEscape (head ++ tail') = unicodeEscape (head ++ tail) := by
  have hplain {c : Char} (hc : c ≠ '{') (rest : List Char) :
      unicodeEscape (c :: rest) = hexDigits .unicodeEscape 0 0 4 (c :: rest) := by
    unfold unicodeEscape
    split
    · rename_i hcons
      exact absurd (List.cons.inj hcons).1 hc
    · rfl
  cases head with
  | nil =>
    rcases h with hlt | ⟨hle, code, hcode⟩
    · exact absurd hlt (Nat.not_lt_zero _)
    · have := length_unicodeEscape hcode
      rw [List.length_nil] at hle
      omega
  | cons c head =>
    by_cases hc : c = '{'
    · subst hc
      have hlt : ((head ++ tail).takeWhile isHexDigit).length < head.length := by
        simp only [List.cons_append, unicodeEscape, List.length_cons] at h
        repeat' split at h
        all_goals rcases h with h | ⟨h, _, hr⟩
        all_goals first | cases hr; done | simp only at h; omega
      simp only [List.cons_append, unicodeEscape, @takeWhile_cut _ _ tail' _ (Nat.le_of_lt hlt) (.inl hlt),
        @head?_drop_cut _ tail tail' _ hlt]
    · rw [List.cons_append, hplain hc] at h ⊢
      rw [List.cons_append, hplain hc]
      exact @hexDigits_cut (c :: head) _ _ _ _ _ _ (by rwa [Nat.zero_add])

/-- Where the text goes on behind `head` as that of a source does. A sentinel is never all that is left. -/
def GoesOn (sentinel : Bool) (tail tail' : List Char) : Prop :=
  sentinel = true → tail ≠ [] ∧ tail' ≠ []

theorem length_escape_pos {sentinel : Bool} {c : Char} (rest : List Char) :
    0 < (escape sentinel (c :: rest)).length := by
  rw [escape]
  repeat' split
  all_goals first | exact Nat.one_pos | exact Nat.two_pos | exact Nat.add_pos_left Nat.one_pos _

theorem startsWithPairedFeed_cut {sentinel : Bool} (htails : GoesOn sentinel tail tail') (c : Char) (head : List Char) :
    startsWithPairedFeed sentinel (c :: (head ++ tail')) = startsWithPairedFeed sentinel (c :: (head ++ tail)) := by
  by_cases hc : c = '\n'
  · subst hc
    cases sentinel with
    | false => rfl
    | true =>
      have hne := List.isEmpty_eq_false_iff.mpr (List.append_ne_nil_of_right_ne_nil head (htails rfl).1)
      have hne' := List.isEmpty_eq_false_iff.mpr (List.append_ne_nil_of_right_ne_nil head (htails rfl).2)
      simp only [startsWithPairedFeed, hne, hne']
  · simp [startsWithPairedFeed, hc]

theorem escape_cut {sentinel : Bool} (htails : GoesOn sentinel tail tail')
    (h : (escape sentinel (head ++ tail)).length < head.length) :
    escape sentinel (head ++ tail') = escape sentinel (head ++ tail) := by
  match head with
  | [] => exact absurd h (Nat.not_lt_zero _)
  | [c] => exact absurd (length_escape_pos tail) (Nat.not_lt_of_le (Nat.le_of_lt_succ h))
  | c :: d :: head =>
    simp only [List.cons_append, escape, List.head?_cons, startsWithPairedFeed_cut htails] at h ⊢
    by_cases hx : c = 'x'
    · rw [if_pos hx] at h
      rw [if_pos hx, if_pos hx, ← List.cons_append, ← List.cons_append, hexDigits_cut]
      refine .inl ?_
      simp only [Reading.after, Reading.map, List.length_cons, List.cons_append] at h ⊢
      omega
    rw [if_neg hx] at h
    rw [if_neg hx, if_neg hx]
    by_cases hu : c = 'u'
    · rw [if_pos hu] at h
      rw [if_pos hu, if_pos hu, ← List.cons_append, ← List.cons_append, unicodeEscape_cut]
      refine .inl ?_
      simp only [Reading.after, Reading.map, List.length_cons, List.cons_append] at h ⊢
      omega
    rw [if_neg hu] at h
    rw [if_neg hu, if_neg hu]
    by_cases hnull : (decide (c = '0') && !Option.any isDecimalDigit (some d)) = true
    · simp only [hnull, if_true]
    simp only [hnull, Bool.false_eq_true, if_false] at h ⊢
    by_cases hoctal : isOctalDigit c = true
    · rw [if_pos hoctal] at h
      rw [if_pos hoctal, if_pos hoctal, ← List.cons_append, ← List.cons_append, takeWhile_take_cut]
      simp only [List.length_cons, List.cons_append] at h ⊢
      omega
    · rw [if_neg hoctal, if_neg hoctal]

/-! ## Strings and templates -/

theorem stringFrom_length_lt {sentinel legacy : Bool} {quote : Char} {length n : Nat} {kind : TokenKind}
    {text : List Char} (h : stringFrom sentinel quote legacy length text = ⟨n, .ok kind⟩) : length < n := by
  fun_induction stringFrom sentinel quote legacy length text with
  | case1 | case2 | case5 => cases h
  | case3 => cases h; exact Nat.lt_succ_self _
  | case4 legacy length rest m octal _ _ _ ih => have := ih h; omega
  | case6 legacy length c rest _ _ _ ih => exact Nat.lt_of_succ_lt (ih h)

theorem stringFrom_cut {sentinel legacy : Bool} {quote : Char} {length n : Nat} {kind : TokenKind}
    (htails : GoesOn sentinel tail tail')
    (h : stringFrom sentinel quote legacy length (head ++ tail) = ⟨n, .ok kind⟩) (hle : n ≤ length + head.length) :
    stringFrom sentinel quote legacy length (head ++ tail') = ⟨n, .ok kind⟩ := by
  have hlt := stringFrom_length_lt h
  generalize ht : head ++ tail = text at h
  fun_induction stringFrom sentinel quote legacy length text generalizing head with
  | case1 | case2 | case5 => cases h
  | case3 legacy length rest hline =>
    cases h
    obtain ⟨rfl, rfl⟩ | ⟨head, rfl, rfl⟩ := List.append_eq_cons_iff.mp ht
    · exact absurd hlt (Nat.not_lt_of_le hle)
    · rw [List.cons_append, stringFrom, if_neg hline, if_pos rfl]
  | case4 legacy length rest m octal hescape hline hquote ih =>
    obtain ⟨rfl, rfl⟩ | ⟨head, rfl, rfl⟩ := List.append_eq_cons_iff.mp ht
    · exact absurd hlt (Nat.not_lt_of_le hle)
    · have hmore := stringFrom_length_lt h
      rw [List.length_cons] at hle
      have hm : m < head.length := by omega
      have hcut := @escape_cut head _ _ _ htails (by rwa [hescape])
      rw [List.drop_append_of_le_length (Nat.le_of_lt hm)] at h ih
      rw [List.cons_append, stringFrom, if_neg hline, if_neg hquote, if_pos rfl, hcut, hescape]
      simp only [List.drop_append_of_le_length (Nat.le_of_lt hm)]
      exact ih (by rw [List.length_drop]; omega) hmore rfl h
  | case6 legacy length c rest hline hquote hslash ih =>
    obtain ⟨rfl, rfl⟩ | ⟨head, rfl, rfl⟩ := List.append_eq_cons_iff.mp ht
    · exact absurd hlt (Nat.not_lt_of_le hle)
    · rw [List.cons_append, stringFrom, if_neg hline, if_neg hquote, if_neg hslash]
      rw [List.length_cons] at hle
      exact ih (by omega) (stringFrom_length_lt h) rfl h

theorem templateFrom_length_lt {sentinel opening : Bool} {malformed : Option Nat} {length n : Nat} {kind : TokenKind}
    {text : List Char} (h : templateFrom sentinel opening malformed length text = ⟨n, .ok kind⟩) : length < n := by
  fun_induction templateFrom sentinel opening malformed length text with
  | case1 => cases h
  | case2 => cases h; exact Nat.lt_succ_self _
  | case3 => cases h; exact Nat.lt_add_of_pos_right Nat.two_pos
  | case4 malformed length rest m _ _ _ ih => have := ih h; omega
  | case5 malformed length rest m _ _ _ _ _ ih => have := ih h; omega
  | case6 malformed length c rest _ _ _ ih => exact Nat.lt_of_succ_lt (ih h)

theorem templateFrom_cut {sentinel opening : Bool} {malformed : Option Nat} {length n : Nat} {kind : TokenKind}
    (htails : GoesOn sentinel tail tail')
    (h : templateFrom sentinel opening malformed length (head ++ tail) = ⟨n, .ok kind⟩)
    (hle : n ≤ length + head.length) :
    templateFrom sentinel opening malformed length (head ++ tail') = ⟨n, .ok kind⟩ := by
  have hlt := templateFrom_length_lt h
  generalize ht : head ++ tail = text at h
  fun_induction templateFrom sentinel opening malformed length text generalizing head with
  | case1 => cases h
  | case2 malformed length rest =>
    cases h
    obtain ⟨rfl, rfl⟩ | ⟨head, rfl, rfl⟩ := List.append_eq_cons_iff.mp ht
    · exact absurd hlt (Nat.not_lt_of_le hle)
    · rw [List.cons_append, templateFrom, if_pos rfl]
  | case3 malformed length c rest hc hopen =>
    cases h
    obtain ⟨rfl, rfl⟩ | ⟨head, rfl, rfl⟩ := List.append_eq_cons_iff.mp ht
    · exact absurd hlt (Nat.not_lt_of_le hle)
    · cases head with
      | nil => exact absurd hle (Nat.not_le_of_lt (Nat.lt_succ_self _))
      | cons d head =>
        have hhead : (d :: head ++ tail').head? = (d :: head ++ tail).head? := rfl
        rw [List.cons_append, templateFrom, if_neg hc, hhead, if_pos hopen]
  | case4 malformed length rest m hescape hc hopen ih =>
    obtain ⟨rfl, rfl⟩ | ⟨head, rfl, rfl⟩ := List.append_eq_cons_iff.mp ht
    · exact absurd hlt (Nat.not_lt_of_le hle)
    · have hmore := templateFrom_length_lt h
      rw [List.length_cons] at hle
      have hm : m < head.length := by omega
      have hcut := @escape_cut head _ _ _ htails (by rwa [hescape])
      have hhead : (head ++ tail').head? = (head ++ tail).head? := head?_drop_cut (n := 0) (Nat.zero_lt_of_lt hm)
      rw [List.drop_append_of_le_length (Nat.le_of_lt hm)] at h ih
      rw [List.cons_append, templateFrom, if_neg hc, hhead, if_neg hopen, if_pos rfl, hcut, hescape]
      simp only [List.drop_append_of_le_length (Nat.le_of_lt hm)]
      exact ih (by rw [List.length_drop]; omega) hmore rfl h
  | case5 malformed length rest m result hresult hescape hc hopen ih =>
    obtain ⟨rfl, rfl⟩ | ⟨head, rfl, rfl⟩ := List.append_eq_cons_iff.mp ht
    · exact absurd hlt (Nat.not_lt_of_le hle)
    · have hmore := templateFrom_length_lt h
      rw [List.length_cons] at hle
      have hm : m < head.length := by omega
      have hcut := @escape_cut head _ _ _ htails (by rwa [hescape])
      have hhead : (head ++ tail').head? = (head ++ tail).head? := head?_drop_cut (n := 0) (Nat.zero_lt_of_lt hm)
      rw [List.drop_append_of_le_length (Nat.le_of_lt hm)] at h ih
      rw [List.cons_append, templateFrom, if_neg hc, hhead, if_neg hopen, if_pos rfl, hcut, hescape]
      simp only [List.drop_append_of_le_length (Nat.le_of_lt hm)]
      exact ih (by rw [List.length_drop]; omega) hmore rfl h
  | case6 malformed length c rest hc hopen hslash ih =>
    obtain ⟨rfl, rfl⟩ | ⟨head, rfl, rfl⟩ := List.append_eq_cons_iff.mp ht
    · exact absurd hlt (Nat.not_lt_of_le hle)
    · have hmore := templateFrom_length_lt h
      rw [List.length_cons] at hle
      have hhead : (head ++ tail').head? = (head ++ tail).head? := head?_drop_cut (n := 0) (by omega)
      rw [List.cons_append, templateFrom, if_neg hc, hhead, if_neg hopen, if_neg hslash]
      exact ih (by omega) hmore rfl h

/-! ## Names -/

theorem nameEscape_cut {first : Bool} {n : Nat} {d : Char} (h : nameEscape first (head ++ tail) = ⟨n, .ok d⟩)
    (hle : n ≤ head.length) : nameEscape first (head ++ tail') = ⟨n, .ok d⟩ := by
  generalize ht : head ++ tail = text at h
  revert h
  fun_cases nameEscape first text with
  | case1 | case3 | case4 =>
    intro h
    cases h
  | case2 rest m code hescape hadmits =>
    rintro ⟨⟩
    obtain ⟨rfl, rfl⟩ | ⟨head, rfl, rfl⟩ := List.append_eq_cons_iff.mp ht
    · rw [List.length_nil] at hle
      omega
    · rw [List.length_cons] at hle
      have hcut : unicodeEscape (head ++ tail') = ⟨m, .ok code⟩ :=
        (unicodeEscape_cut (.inr (by rw [hescape]; exact ⟨by simp only; omega, code, rfl⟩))).trans hescape
      simp only [List.cons_append, nameEscape, hcut, hadmits, if_true]

/-- A name ends before a character that no name goes on with. -/
theorem nameFrom_closed {before : List Char} {escaped : Bool} {length n : Nat} {name : Name}
    (h : nameFrom before escaped length (head ++ tail) = ⟨n, .ok name⟩) (hle : n ≤ length + head.length)
    (hs : n < length + head.length ∨ ∃ w more, tail' = w :: more ∧ w ≠ '\\' ∧ ∀ first, admits first w = false) :
    nameFrom before escaped length (head ++ tail') = ⟨n, .ok name⟩ := by
  have hstop {before : List Char} {escaped : Bool} {n length : Nat} (hlength : length = n)
      (hs : n < length + ([] : List Char).length ∨
        ∃ w more, tail' = w :: more ∧ w ≠ '\\' ∧ ∀ first, admits first w = false) :
      nameFrom before escaped length ([] ++ tail') = ⟨length, .ok ⟨before.reverse, escaped⟩⟩ := by
    obtain ⟨w, more, rfl, hescape, hadmits⟩ := hs.resolve_left (by rw [hlength]; exact Nat.lt_irrefl _)
    rw [List.nil_append, nameFrom, if_neg hescape, hadmits, if_neg Bool.false_ne_true]
  generalize ht : head ++ tail = text at h
  fun_induction nameFrom before escaped length text generalizing head with
  | case1 before escaped length =>
    obtain ⟨rfl, rfl⟩ := List.append_eq_nil_iff.mp ht
    exact (hstop (congrArg Reading.length h) hs).trans h
  | case2 before escaped length rest m d hread ih =>
    have hlength := congrArg Reading.length h ▸ le_length_nameFrom ..
    simp only at hlength
    obtain ⟨rfl, rfl⟩ | ⟨head, rfl, rfl⟩ := List.append_eq_cons_iff.mp ht
    · rw [List.length_nil] at hle
      omega
    · rw [List.length_cons] at hle hs
      have hm : m ≤ head.length := by omega
      rw [List.drop_append_of_le_length hm] at h ih
      rw [List.cons_append, nameFrom, if_pos rfl, nameEscape_cut hread hm]
      simp only [List.drop_append_of_le_length hm]
      exact ih (by rw [List.length_drop]; omega) (hs.imp_left fun hs => by rw [List.length_drop]; omega) rfl h
  | case3 => cases h
  | case4 before escaped length c rest hslash hc ih =>
    have hlength := congrArg Reading.length h ▸ le_length_nameFrom ..
    simp only at hlength
    obtain ⟨rfl, rfl⟩ | ⟨head, rfl, rfl⟩ := List.append_eq_cons_iff.mp ht
    · rw [List.length_nil] at hle
      omega
    · rw [List.cons_append, nameFrom, if_neg hslash, if_pos hc]
      rw [List.length_cons] at hle hs
      exact ih (by omega) (hs.imp_left fun hs => by omega) rfl h
  | case5 before escaped length c rest hslash hc =>
    obtain ⟨rfl, rfl⟩ | ⟨head, rfl, rfl⟩ := List.append_eq_cons_iff.mp ht
    · exact (hstop (congrArg Reading.length h) hs).trans h
    · rw [List.cons_append, nameFrom, if_neg hslash, if_neg hc, h]

/-- No name goes on where it ends. -/
theorem Determined.name {n : Nat} (h : Determined head tail n) :
    n < head.length ∨ ∃ w more, tail = w :: more ∧ w ≠ '\\' ∧ ∀ first, admits first w = false :=
  h.imp (fun h => by omega) fun ⟨w, more, htail, hw⟩ => ⟨w, more, htail, hw.escape, hw.admits⟩

/-! ## Regular expressions -/

theorem regExpBody_length_lt {inClass : Bool} {length n : Nat} {text : List Char}
    (h : regExpBody inClass length text = ⟨n, .ok ()⟩) : length < n := by
  fun_induction regExpBody inClass length text with
  | case1 | case2 | case3 | case4 => cases h
  | case5 _ _ _ _ _ _ ih => have := ih h; omega
  | case6 _ _ _ _ _ ih | case7 _ _ _ _ _ _ ih => exact Nat.lt_of_succ_lt (ih h)
  | case8 => cases h; exact Nat.lt_succ_self _
  | case9 _ _ _ _ _ _ _ _ _ ih => exact Nat.lt_of_succ_lt (ih h)

theorem regExpBody_cut {inClass : Bool} {length n : Nat} (h : regExpBody inClass length (head ++ tail) = ⟨n, .ok ()⟩)
    (hle : n ≤ length + head.length) : regExpBody inClass length (head ++ tail') = ⟨n, .ok ()⟩ := by
  have hlt := regExpBody_length_lt h
  generalize ht : head ++ tail = text at h
  fun_induction regExpBody inClass length text generalizing head with
  | case1 | case2 | case3 | case4 => cases h
  | case5 inClass length d more hd hline ih =>
    have hmore := regExpBody_length_lt h
    obtain ⟨rfl, rfl⟩ | ⟨head, rfl, hrest⟩ := List.append_eq_cons_iff.mp ht
    · exact absurd hlt (Nat.not_lt_of_le hle)
    obtain ⟨rfl, rfl⟩ | ⟨head, rfl, rfl⟩ := List.append_eq_cons_iff.mp hrest.symm
    · simp only [List.length_cons, List.length_nil] at hle
      omega
    · rw [List.length_cons, List.length_cons] at hle
      rw [List.cons_append, List.cons_append, regExpBody.eq_def]
      simp only [hline, hd, Bool.false_eq_true, if_true, if_false]
      exact ih (by omega) hmore rfl h
  | case6 inClass length rest hline hslash ih =>
    obtain ⟨rfl, rfl⟩ | ⟨head, rfl, rfl⟩ := List.append_eq_cons_iff.mp ht
    · exact absurd hlt (Nat.not_lt_of_le hle)
    · rw [List.length_cons] at hle
      rw [List.cons_append, regExpBody.eq_def]
      simp only [hline, hslash, Bool.false_eq_true, if_true, if_false]
      exact ih (by omega) (regExpBody_length_lt h) rfl h
  | case7 inClass length rest hline hslash hopen ih =>
    obtain ⟨rfl, rfl⟩ | ⟨head, rfl, rfl⟩ := List.append_eq_cons_iff.mp ht
    · exact absurd hlt (Nat.not_lt_of_le hle)
    · rw [List.length_cons] at hle
      rw [List.cons_append, regExpBody.eq_def]
      simp only [hline, hslash, hopen, Bool.false_eq_true, if_true, if_false]
      exact ih (by omega) (regExpBody_length_lt h) rfl h
  | case8 inClass length c rest hline hslash hopen hclose hend =>
    obtain ⟨rfl, rfl⟩ | ⟨head, rfl, rfl⟩ := List.append_eq_cons_iff.mp ht
    · exact absurd hlt (Nat.not_lt_of_le hle)
    · rw [List.cons_append, regExpBody.eq_def]
      simp only [hline, hslash, hopen, hclose, hend, Bool.false_eq_true, if_true, if_false, h]
  | case9 inClass length c rest hline hslash hopen hclose hend ih =>
    obtain ⟨rfl, rfl⟩ | ⟨head, rfl, rfl⟩ := List.append_eq_cons_iff.mp ht
    · exact absurd hlt (Nat.not_lt_of_le hle)
    · rw [List.length_cons] at hle
      rw [List.cons_append, regExpBody.eq_def]
      simp only [hline, hslash, hopen, hclose, hend, Bool.false_eq_true, if_false]
      exact ih (by omega) (regExpBody_length_lt h) rfl h

theorem le_length_regExpFlags (seen : List Char) (length : Nat) (text : List Char) :
    length ≤ (regExpFlags seen length text).length := by
  have hending (seen : List Char) : (regExpFlags.ending seen length).length = length := by
    unfold regExpFlags.ending
    split <;> rfl
  fun_induction regExpFlags seen length text with
  | case1 | case3 => exact Nat.le_of_eq (hending _).symm
  | case2 => exact Nat.le_refl _
  | case4 => exact Nat.le_succ _
  | case5 seen length c rest _ _ _ ih =>
    exact Nat.le_of_succ_le (ih fun seen => by unfold regExpFlags.ending; split <;> rfl)

theorem regExpFlags_closed {seen : List Char} {length n : Nat} {kind : TokenKind}
    (h : regExpFlags seen length (head ++ tail) = ⟨n, .ok kind⟩) (hle : n ≤ length + head.length)
    (hs : Determined head tail' (n - length)) : regExpFlags seen length (head ++ tail') = ⟨n, .ok kind⟩ := by
  have hstop {seen : List Char} {length n : Nat} (hs : Determined [] tail' n) :
      regExpFlags seen length ([] ++ tail') = regExpFlags.ending seen length := by
    obtain ⟨w, more, rfl, hw⟩ := hs.closes (Nat.zero_le _)
    rw [List.nil_append, regExpFlags, if_neg hw.escape, hw.part, Bool.not_false, if_pos rfl]
  generalize ht : head ++ tail = text at h
  fun_induction regExpFlags seen length text generalizing head with
  | case1 seen length =>
    obtain ⟨rfl, rfl⟩ := List.append_eq_nil_iff.mp ht
    exact (hstop hs).trans h
  | case2 => cases h
  | case3 seen length c rest hslash hpart =>
    obtain ⟨rfl, rfl⟩ | ⟨head, rfl, rfl⟩ := List.append_eq_cons_iff.mp ht
    · exact (hstop hs).trans h
    · rw [List.cons_append, regExpFlags, if_neg hslash, if_pos hpart, h]
  | case4 => cases h
  | case5 seen length c rest hslash hpart hflag ih =>
    have hmore := congrArg Reading.length h ▸ le_length_regExpFlags ..
    simp only at hmore
    obtain ⟨rfl, rfl⟩ | ⟨head, rfl, rfl⟩ := List.append_eq_cons_iff.mp ht
    · rw [List.length_nil] at hle
      omega
    · rw [List.length_cons] at hle
      rw [List.cons_append, regExpFlags, if_neg hslash, if_neg hpart, if_neg hflag]
      exact ih (by omega) (hs.within (by rw [List.length_cons]; omega)) rfl h

/-- A regular expression literal, after its opening slash. -/
theorem regExp_closed {n : Nat} {kind : TokenKind} {c : Char} (h : regExp (head ++ tail) = ⟨n, .ok kind⟩)
    (hle : n ≤ 1 + head.length) (hs : Determined (c :: head) tail' n) : regExp (head ++ tail') = ⟨n, .ok kind⟩ := by
  unfold regExp at h ⊢
  rcases hbody : regExpBody false 0 (head ++ tail) with ⟨m, e | _⟩
  · rw [hbody] at h
    cases h
  · rw [hbody] at h
    rcases hflags : regExpFlags [] 0 ((head ++ tail).drop m) with ⟨k, e | found⟩
    · simp only [hflags] at h
      cases h
    · simp only [hflags] at h
      cases h
      change 1 + m + k ≤ 1 + head.length at hle
      change Determined (c :: head) tail' (1 + m + k) at hs
      have hm : m ≤ head.length := by omega
      rw [List.drop_append_of_le_length hm] at hflags
      have hclosed := @regExpFlags_closed _ _ tail' _ _ _ _ hflags (by rw [List.length_drop]; omega)
        (hs.within (by rw [List.length_cons, List.length_drop]; omega))
      rw [regExpBody_cut hbody (by omega)]
      simp only [List.drop_append_of_le_length hm, hclosed]
      rfl

/-! ## Punctuators -/

/-- The point of `?.5` is the last of `head`. -/
def SplitsPoint (head tail : List Char) : Prop :=
  head = ['?', '.'] ∧ tail.head?.any isDecimalDigit = true

theorem prefix_closed {w : Char} (hw : Closes w) {p : Punctuator} {more : List Char} (hne : head ≠ [])
    (h : p.spelling <+: head ++ w :: more) : p.spelling <+: head := by
  obtain ⟨rest, hrest⟩ := h
  rcases List.append_eq_append_iff.mp hrest with ⟨after, rfl, _⟩ | ⟨after, hspelling, hafter⟩
  · exact List.prefix_append _ _
  obtain ⟨rfl, _⟩ | ⟨after, rfl, _⟩ := List.append_eq_cons_iff.mp hafter.symm
  · have hwhole : p.spelling = head := hspelling.trans (List.append_nil head)
    exact hwhole ▸ List.prefix_rfl
  · -- the character would be in the spelling, behind the first one
    obtain ⟨c, head, rfl⟩ := List.exists_cons_of_ne_nil hne
    refine absurd ?_ (hw.spelling p)
    rw [hspelling]
    exact List.mem_append_right head List.mem_cons_self

/-- What a punctuator of more characters than two begins with is one as well, but for an ellipsis. -/
theorem exists_punctuator_take : ∀ q ∈ Punctuator.all, q ≠ .ellipsis → ∀ n < q.spelling.length, 2 ≤ n →
    ∃ p ∈ Punctuator.all, p ≠ .optionalChain ∧ p.spelling = q.spelling.take n := by
  decide +kernel

/-- Of a text that begins with two points, only a point may be read that leaves one of them. -/
theorem eq_dot_of_points {p : Punctuator} (h : punctuator? ('.' :: '.' :: tail) = some p)
    (hlt : p.spelling.length < 2) : p = .dot := by
  have hone : ∀ p ∈ Punctuator.all, p.spelling.length < 2 → p.spelling.head? = some '.' → p = .dot := by decide +kernel
  refine hone p p.mem_all hlt ?_
  obtain ⟨c, more, hspelling⟩ := List.exists_cons_of_ne_nil (spelling_ne_nil p)
  have hprefix := prefix_of_punctuator? h
  rw [hspelling] at hprefix ⊢
  rw [(List.cons_prefix_cons.mp hprefix).1]
  rfl

/-- Where a punctuator ends, none reaches behind `head`. The first of two points has to leave more than the second one,
as it may be that of an ellipsis. -/
theorem prefix_of_determined {p q : Punctuator} (hne : head ≠ []) (hs : Determined head tail' p.spelling.length)
    (hdot : p = .dot → head[1]? = some '.' → Determined head tail' 2) (hp : punctuator? (head ++ tail) = some p)
    (hq : q.spelling <+: head ++ tail') : q.spelling <+: head := by
  by_cases hcloses : ∃ w more, tail' = w :: more ∧ Closes w
  · obtain ⟨w, more, rfl, hw⟩ := hcloses
    exact prefix_closed hw hne hq
  have hinside : p.spelling.length < head.length := hs.resolve_right hcloses
  refine List.prefix_of_prefix_length_le hq (List.prefix_append head tail') (Nat.le_of_not_lt fun hlt => ?_)
  have hpos := List.length_pos_iff.mpr (spelling_ne_nil p)
  have htake : head = q.spelling.take head.length :=
    List.prefix_iff_eq_take.mp (List.prefix_of_prefix_length_le (List.prefix_append head tail') hq (Nat.le_of_lt hlt))
  have hellipsis : q ≠ .ellipsis := by
    rintro rfl
    change head.length < 3 at hlt
    have htwo : head.length = 2 := by omega
    rw [htwo] at htake hinside
    subst htake
    exact absurd (hdot (eq_dot_of_points hp hinside) rfl) (not_or.mpr ⟨Nat.lt_irrefl 2, hcloses⟩)
  -- what of the longer one lies in `head` would have been read instead
  obtain ⟨r, _, hchain, hr⟩ := exists_punctuator_take q q.mem_all hellipsis head.length hlt (by omega)
  have hbegins : beginsWith r (head ++ tail) = true := by
    rw [beginsWith, hr.trans htake.symm, List.isPrefixOf_iff_prefix.mpr (List.prefix_append head tail),
      decide_eq_false hchain]
    rfl
  have hle := length_le_of_punctuator? hp hbegins
  rw [hr.trans htake.symm] at hle
  omega

section

variable {p : Punctuator} (hs : Determined head tail' p.spelling.length) (hp : punctuator? (head ++ tail) = some p)
  (hpoint : ¬ SplitsPoint head tail)

include hs hp hpoint

/-- Whether a digit follows `?.` does not depend on what comes behind `head`, as nothing shorter was read. -/
theorem any_head?_drop_two (h : Punctuator.optionalChain.spelling <+: head) :
    ((head ++ tail').drop 2).head?.any isDecimalDigit = ((head ++ tail).drop 2).head?.any isDecimalDigit := by
  obtain ⟨head, rfl⟩ := h
  cases head with
  | nil =>
    have htail : tail.head?.any isDecimalDigit = false := Bool.eq_false_iff.mpr fun h => hpoint ⟨rfl, h⟩
    have hbegins : beginsWith .optionalChain (Punctuator.optionalChain.spelling ++ [] ++ tail) = true := by
      change (true && !(true && tail.head?.any isDecimalDigit)) = true
      rw [htail]
      rfl
    obtain ⟨w, more, rfl, hw⟩ := hs.closes (length_le_of_punctuator? hp hbegins)
    exact hw.decimalDigit.trans htail.symm
  | cons c head => rfl

theorem beginsWith_closed {q : Punctuator} (h : q.spelling <+: head) :
    beginsWith q (head ++ tail') = beginsWith q (head ++ tail) := by
  have hprefix (rest : List Char) : q.spelling.isPrefixOf (head ++ rest) = true :=
    List.isPrefixOf_iff_prefix.mpr (List.prefix_append_of_prefix h)
  rw [beginsWith, beginsWith, hprefix, hprefix]
  by_cases hq : q = .optionalChain
  · subst hq
    rw [any_head?_drop_two hs hp hpoint h]
  · rw [decide_eq_false hq]
    rfl

theorem punctuator?_closed (hne : head ≠ []) (hle : p.spelling.length ≤ head.length)
    (hdot : p = .dot → head[1]? = some '.' → Determined head tail' 2) : punctuator? (head ++ tail') = some p := by
  have hprefix := List.prefix_of_prefix_length_le (prefix_of_punctuator? hp) (List.prefix_append head tail) hle
  obtain ⟨hfound, before, after, hall, hbefore⟩ := List.find?_eq_some_iff_append.mp hp
  refine List.find?_eq_some_iff_append.mpr ⟨?_, before, after, hall, fun q hq => ?_⟩
  · rw [beginsWith_closed hs hp hpoint hprefix, hfound]
  · cases hb : beginsWith q (head ++ tail') with
    | false => rfl
    | true =>
      have hq' := prefix_of_determined hne hs hdot hp (List.isPrefixOf_iff_prefix.mp (Bool.and_eq_true _ _ ▸ hb).1)
      rw [beginsWith_closed hs hp hpoint hq'] at hb
      have hnot := hbefore q hq
      rw [hb] at hnot
      cases hnot

end

/-! ## Elements -/

theorem of_reportedAt {α : Type} {r : Reading LexicalError α} {place n : Nat} {a : α}
    (h : r.reportedAt place = ⟨n, .ok a⟩) : r = ⟨n, .ok a⟩ := by
  obtain ⟨length, e | b⟩ := r
  · cases h
  · cases h
    rfl

theorem of_map {ε α β : Type} {f : α → β} {r : Reading ε α} {n : Nat} {b : β} (h : r.map f = ⟨n, .ok b⟩) :
    ∃ a, r = ⟨n, .ok a⟩ ∧ f a = b := by
  obtain ⟨length, e | a⟩ := r
  · cases h
  · cases h
    exact ⟨a, rfl, rfl⟩

/-- What of a character decides how the token that it begins is read. -/
theorem element_closed {sentinel : Bool} {goal : LexicalGoal} {n : Nat} {kind : TokenKind} (hne : head ≠ [])
    (htails : GoesOn sentinel tail tail') (hpoint : ¬ SplitsPoint head tail)
    (h : element sentinel goal (head ++ tail) = ⟨n, .ok kind⟩) (hpos : 0 < n) (hle : n ≤ head.length)
    (hs : Determined head tail' n) (hdot : kind = .punctuator .dot → head[1]? = some '.' → Determined head tail' 2) :
    element sentinel goal (head ++ tail') = ⟨n, .ok kind⟩ := by
  obtain ⟨c, head, rfl⟩ := List.exists_cons_of_ne_nil hne
  rw [List.length_cons, Nat.add_comm] at hle
  simp only [List.cons_append, element] at h ⊢
  by_cases htemplate : (decide (c = '}') && decide (goal = .templateTail)) = true
  · rw [if_pos htemplate] at h ⊢
    exact templateFrom_cut htails h hle
  rw [if_neg htemplate] at h ⊢
  by_cases hregExp : (decide (c = '/') && decide (goal = .regExp)) = true
  · rw [if_pos hregExp] at h ⊢
    exact regExp_closed h hle hs
  rw [if_neg hregExp] at h ⊢
  by_cases hquote : (decide (c = '"') || decide (c = '\'')) = true
  · rw [if_pos hquote] at h ⊢
    exact stringFrom_cut htails h hle
  rw [if_neg hquote] at h ⊢
  by_cases hspan : c = '\x60'
  · rw [if_pos hspan] at h ⊢
    exact templateFrom_cut htails h hle
  rw [if_neg hspan] at h ⊢
  by_cases hnumeral : (isDecimalDigit c || decide (c = '.') && (head ++ tail).head?.any isDecimalDigit) = true
  · rw [if_pos hnumeral] at h
    have hread := of_reportedAt h
    have hsame : (isDecimalDigit c || decide (c = '.') && (head ++ tail').head?.any isDecimalDigit) = true := by
      cases head with
      | nil =>
        by_cases hdigit : isDecimalDigit c = true
        · rw [hdigit, Bool.true_or]
        · rw [Bool.eq_false_iff.mpr hdigit, Bool.false_or, Bool.and_eq_true, decide_eq_true_eq] at hnumeral
          obtain ⟨rfl, hnext⟩ := hnumeral
          exact absurd hle (Nat.not_le_of_lt (two_le_numeral_point hnext hread))
      | cons d head => exact hnumeral
    have hclosed := @numeral_closed _ tail tail' hne n kind hread (by rwa [List.length_cons, Nat.add_comm]) hs
    rw [if_pos hsame, ← List.cons_append, Reading.reportedAt, hclosed]
    rfl
  have hsame : ¬ (isDecimalDigit c || decide (c = '.') && (head ++ tail').head?.any isDecimalDigit) = true := by
    cases head with
    | nil =>
      obtain ⟨w, more, rfl, hw⟩ := hs.closes hpos
      rw [List.nil_append, List.head?_cons, Option.any_some, hw.decimalDigit, Bool.and_false, Bool.or_false]
      exact fun hdigit => hnumeral (by rw [hdigit, Bool.true_or])
    | cons d head => exact hnumeral
  rw [if_neg hnumeral] at h
  rw [if_neg hsame]
  by_cases hsign : c = '#'
  · rw [if_pos hsign] at h ⊢
    cases head with
    | nil =>
      split at h
      · rename_i hnext
        obtain ⟨d, tail, rfl⟩ := List.exists_cons_of_ne_nil (l := tail) (by rintro rfl; cases hnext)
        have hlength : (nameFrom [] false 1 (d :: tail)).length = n := congrArg Reading.length h
        have hlt := lt_length_nameFrom 1 tail hnext
        rw [hlength] at hlt
        exact absurd hle (Nat.not_le_of_lt hlt)
      · cases h
    | cons d head =>
      split at h
      · rename_i hnext
        rw [if_pos (by exact hnext)]
        obtain ⟨name, hname, rfl⟩ := of_map h
        rw [Reading.map, nameFrom_closed hname hle (hs.name.imp_left fun h => by rwa [Nat.add_comm])]
        rfl
      · cases h
  rw [if_neg hsign] at h ⊢
  by_cases hname : beginsName c = true
  · rw [if_pos hname] at h ⊢
    obtain ⟨name, hname, rfl⟩ := of_map h
    have hle' : n ≤ 0 + (c :: head).length := by rwa [List.length_cons, Nat.zero_add, Nat.add_comm]
    rw [← List.cons_append] at hname ⊢
    rw [Reading.map, nameFrom_closed hname hle' (hs.name.imp_left fun h => by rwa [Nat.zero_add])]
    rfl
  rw [if_neg hname, punctuator_reading] at h ⊢
  cases hp : punctuator? (c :: (head ++ tail)) with
  | none => rw [hp] at h; cases h
  | some p =>
    rw [hp] at h
    cases h
    rw [← List.cons_append, punctuator?_closed hs hp hpoint hne (by rwa [List.length_cons, Nat.add_comm])
      fun h => hdot (congrArg _ h)]
    rfl

/-! ## Elements under another goal -/

variable {sentinel : Bool} {n m : Nat} {kind kind' : TokenKind} {text rest : List Char} {c : Char}

/-- The goals differ for a `/` only. -/
theorem element_regExp_eq (hc : c ≠ '/') :
    element sentinel .regExp (c :: rest) = element sentinel .division (c :: rest) := by
  simp only [element, hc, reduceCtorEq, decide_false, Bool.and_false, Bool.false_and, Bool.false_eq_true, if_false]

theorem element_slash_regExp : element sentinel .regExp ('/' :: rest) = regExp rest := rfl

theorem element_slash_division (h : element sentinel .division ('/' :: rest) = ⟨n, .ok kind⟩) :
    ∃ p, kind = .punctuator p ∧ (p = .slash ∨ p = .slashAssign) ∧ n = p.spelling.length := by
  have helement : element sentinel .division ('/' :: rest) =
      (punctuator? ('/' :: rest)).elim ⟨1, .error ⟨.unexpectedCharacter '/', 0⟩⟩
        fun p => ⟨p.spelling.length, .ok (.punctuator p)⟩ :=
    punctuator_reading '/' rest
  rw [helement] at h
  cases hp : punctuator? ('/' :: rest) with
  | none => rw [hp] at h; cases h
  | some p =>
    rw [hp] at h
    cases h
    have hfirst : p.spelling.head? = some '/' := by
      have hprefix := prefix_of_punctuator? hp
      obtain ⟨c, more, hspelling⟩ := List.exists_cons_of_ne_nil (spelling_ne_nil p)
      rw [hspelling] at hprefix ⊢
      rw [(List.cons_prefix_cons.mp hprefix).1]
      rfl
    refine ⟨p, rfl, ?_, rfl⟩
    revert hfirst
    cases p <;> decide

/-- A regular expression literal has two slashes. -/
theorem two_le_regExp (h : regExp rest = ⟨n, .ok kind⟩) : 2 ≤ n := by
  unfold regExp at h
  rcases hbody : regExpBody false 0 rest with ⟨k, e | _⟩
  · rw [hbody] at h
    cases h
  · have hlt := regExpBody_length_lt hbody
    rw [hbody] at h
    have hlength : 1 + k + _ = n := congrArg Reading.length h
    omega

theorem length_le_of_regExp (h : element sentinel .division text = ⟨n, .ok kind⟩)
    (h' : element sentinel .regExp text = ⟨m, .ok kind'⟩) : n ≤ m := by
  cases text with
  | nil => cases h; exact Nat.zero_le _
  | cons c rest =>
    by_cases hc : c = '/'
    · subst hc
      obtain ⟨p, _, hp, rfl⟩ := element_slash_division h
      refine Nat.le_trans ?_ (two_le_regExp h')
      rcases hp with rfl | rfl <;> decide
    · rw [element_regExp_eq hc, h] at h'
      cases h'
      exact Nat.le_refl _

/-- Where a regular expression or another token begins, a token is also read after an operand, which is no longer. It
is a point only if it is the same. -/
theorem exists_division_of_regExp (h : element sentinel .regExp text = ⟨m, .ok kind⟩) :
    ∃ n kind', element sentinel .division text = ⟨n, .ok kind'⟩ ∧ n ≤ m ∧
      (kind' = .punctuator .dot → n = m ∧ kind = kind') := by
  cases text with
  | nil => exact ⟨m, kind, h, Nat.le_refl m, fun _ => ⟨rfl, rfl⟩⟩
  | cons c rest =>
    by_cases hc : c = '/'
    · subst hc
      have hsome : (punctuator? ('/' :: rest)).isSome :=
        List.find?_isSome.mpr ⟨.slash, Punctuator.mem_all _, rfl⟩
      obtain ⟨p, hp⟩ := Option.isSome_iff_exists.mp hsome
      have hdivision : element sentinel .division ('/' :: rest) = ⟨p.spelling.length, .ok (.punctuator p)⟩ := by
        refine (punctuator_reading '/' rest).trans ?_
        rw [hp]
        rfl
      refine ⟨_, _, hdivision, length_le_of_regExp hdivision h, fun hdot => ?_⟩
      obtain ⟨q, hq, hslash, _⟩ := element_slash_division hdivision
      rw [hdot] at hq
      cases hq
      rcases hslash with h | h <;> cases h
    · rw [element_regExp_eq hc] at h
      exact ⟨m, kind, h, Nat.le_refl m, fun _ => ⟨rfl, rfl⟩⟩

theorem kind_of_regExp (h : regExp rest = ⟨n, .ok kind⟩) : kind = .regExp := by
  unfold regExp at h
  rcases hbody : regExpBody false 0 rest with ⟨k, e | _⟩
  · rw [hbody] at h
    cases h
  · rw [hbody] at h
    rcases hflags : regExpFlags [] 0 (rest.drop k) with ⟨m, e | flags⟩
    · simp only [hflags] at h
      cases h
    · simp only [hflags] at h
      cases h
      exact regExpFlags_ok (congrArg Reading.result hflags)

/-- What is no regular expression is read under both goals alike. -/
theorem element_division_eq (h : element sentinel .regExp text = ⟨n, .ok kind⟩) (hkind : kind ≠ .regExp) :
    element sentinel .division text = ⟨n, .ok kind⟩ := by
  cases text with
  | nil => exact h
  | cons c rest =>
    by_cases hc : c = '/'
    · subst hc
      exact absurd (kind_of_regExp h) hkind
    · rwa [← element_regExp_eq hc]

/-! ## Points before digits -/

/-- Before a digit, `?` is read by itself although a point follows it. -/
theorem element_question {sentinel : Bool} {goal : LexicalGoal} {rest : List Char}
    (h : rest.head?.any isDecimalDigit = true) :
    element sentinel goal ('?' :: '.' :: rest) = ⟨1, .ok (.punctuator .question)⟩ := by
  have helement : element sentinel goal ('?' :: '.' :: rest) =
      (punctuator? ('?' :: '.' :: rest)).elim ⟨1, .error ⟨.unexpectedCharacter '?', 0⟩⟩
        fun p => ⟨p.spelling.length, .ok (.punctuator p)⟩ :=
    punctuator_reading '?' ('.' :: rest)
  rw [helement, punctuator?_question ⟨rest, rfl, h⟩]
  rfl

/-- A point before a digit begins a numeral. -/
theorem two_le_of_element_point {sentinel : Bool} {goal : LexicalGoal} {rest : List Char} {n : Nat} {kind : TokenKind}
    (h : rest.head?.any isDecimalDigit = true) (hr : element sentinel goal ('.' :: rest) = ⟨n, .ok kind⟩) : 2 ≤ n := by
  have hnumeral : element sentinel goal ('.' :: rest) = (numeral ('.' :: rest)).reportedAt 0 := by
    refine if_pos (c := (isDecimalDigit '.' || (decide ('.' = '.') && rest.head?.any isDecimalDigit)) = true) ?_
    rw [h]
    rfl
  exact two_le_numeral_point h (of_reportedAt (hnumeral.symm.trans hr))
end EcmaCheck.Lexical
