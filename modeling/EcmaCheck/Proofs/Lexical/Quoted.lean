import EcmaCheck.Lexical.Quoted
import EcmaCheck.Proofs.Lexical.Reading

/-!
# Strings and templates with a sentinel

An escape does not see a sentinel (`escape_sentinel`) unless it begins where the text ends. Then it takes the sentinel,
and the literal around it fails just as it does without one (`stringFrom_reads`, `templateFrom_reads`).
-/

namespace EcmaCheck.Lexical

variable {text : List Char}

/-! ## Escapes -/

theorem hexDigits_length_le (e : LexicalError) (value length count : Nat) (text : List Char) :
    (hexDigits e value length count text).length ≤ length + text.length := by
  induction count generalizing value length text with
  | zero => exact Nat.le_add_right _ _
  | succ count ih =>
    cases text with
    | nil => exact Nat.le_add_right _ _
    | cons c text =>
      simp only [hexDigits]
      split
      · exact Nat.le_trans (ih _ _ text) (by simp only [List.length_cons]; omega)
      · exact Nat.le_add_right _ _

theorem hexDigits_sentinel (e : LexicalError) (value length count : Nat) (text : List Char) :
    hexDigits e value length count (text ++ ['\n']) = hexDigits e value length count text := by
  induction count generalizing value length text with
  | zero => rfl
  | succ count ih =>
    cases text with
    | nil => rfl
    | cons c text =>
      simp only [List.cons_append, hexDigits]
      split
      · exact ih _ _ text
      · rfl

theorem unicodeEscape_kept (text : List Char) : Kept (fun _ => True) unicodeEscape text := by
  by_cases hbrace : text.head? = some '{'
  · obtain ⟨rest, rfl⟩ := List.head?_eq_some_iff.mp hbrace
    have hle : (rest.takeWhile isHexDigit).length ≤ rest.length := (List.takeWhile_sublist _).length_le
    have hhead : ((rest ++ ['\n']).drop (rest.takeWhile isHexDigit).length).head? = some '}' ↔
        (rest.drop (rest.takeWhile isHexDigit).length).head? = some '}' := by
      rw [drop_sentinel hle]
      exact head?_sentinel (by decide)
    refine ⟨?_, ?_, fun _ => trivial⟩
    · simp only [unicodeEscape, List.length_cons]
      split
      · simp only; omega
      · rename_i hclosed
        have hne : rest.drop (rest.takeWhile isHexDigit).length ≠ [] := fun hnil => by simp [hnil] at hclosed
        have hlt : (rest.takeWhile isHexDigit).length < rest.length :=
          Nat.lt_of_not_le fun hge => hne (List.drop_eq_nil_of_le hge)
        split <;> simp only <;> omega
    · simp only [List.cons_append, unicodeEscape, takeWhile_sentinel (show isHexDigit '\n' = false from rfl), ne_eq,
        hhead]
  · have hplain {t : List Char} (ht : t.head? ≠ some '{') : unicodeEscape t = hexDigits .unicodeEscape 0 0 4 t := by
      unfold unicodeEscape
      split
      · exact absurd rfl ht
      · rfl
    have hsentinel : (text ++ ['\n']).head? ≠ some '{' := mt (head?_sentinel (by decide)).mp hbrace
    refine ⟨?_, by rw [hplain hbrace, hplain hsentinel, hexDigits_sentinel], fun _ => trivial⟩
    rw [hplain hbrace]
    exact Nat.zero_add text.length ▸ hexDigits_length_le _ _ _ _ _

theorem escape_length_le (text : List Char) : (escape false text).length ≤ text.length := by
  cases text with
  | nil => exact Nat.le_refl 0
  | cons c rest =>
    simp only [escape, List.length_cons]
    split
    · have := hexDigits_length_le .hexEscape 0 0 2 rest
      simp only [Reading.after, Reading.map]
      omega
    split
    · have := (unicodeEscape_kept rest).length_le
      simp only [Reading.after, Reading.map]
      omega
    split
    · exact Nat.le_add_left 1 _
    split
    · have hle : ((rest.take (if c ≤ '3' then 2 else 1)).takeWhile isOctalDigit).length ≤ rest.length :=
        Nat.le_trans (List.takeWhile_sublist _).length_le (List.length_take_le' _ _)
      simp only
      omega
    split
    · exact Nat.le_add_left 1 _
    split
    · rename_i hpair
      obtain ⟨more, rfl⟩ := List.head?_eq_some_iff.mp (startsWithPairedFeed_iff.mp (Bool.and_eq_true _ _ ▸ hpair).2)
      simp
    · exact Nat.le_add_left 1 _

/-- An escape does not see the sentinel, unless it begins where the text ends. -/
theorem escape_sentinel (h : text ≠ []) : escape true (text ++ ['\n']) = escape false text := by
  cases text with
  | nil => exact absurd rfl h
  | cons c rest =>
    simp only [List.cons_append, escape, hexDigits_sentinel, (unicodeEscape_kept _).sentinel,
      any_head?_sentinel (show isDecimalDigit '\n' = false from rfl),
      takeWhile_take_sentinel (show isOctalDigit '\n' = false from rfl), startsWithPairedFeed_sentinel]

/-- An escape stays in the text and does not see the sentinel, unless it begins at the end and takes the sentinel. -/
theorem escape_cases {n : Nat} {result : Except LexicalError Bool} (h : escape false text = ⟨n, result⟩) :
    text = [] ∧ n = 0 ∧ result = .ok false ∧ escape true (text ++ ['\n']) = ⟨1, .ok false⟩ ∨
      n ≤ text.length ∧ escape true (text ++ ['\n']) = ⟨n, result⟩ := by
  by_cases ht : text = []
  · subst ht
    obtain ⟨rfl, rfl⟩ := Reading.mk.inj (h.symm.trans (show escape false [] = ⟨0, .ok false⟩ from rfl))
    exact .inl ⟨rfl, rfl, rfl, rfl⟩
  · have hle := escape_length_le text
    rw [h] at hle
    exact .inr ⟨hle, (escape_sentinel ht).trans h⟩

/-! ## Strings -/

section

variable {whole : List Char} {first : Char} (hf : first ≠ '\n') (hw : whole[0]? = some first)

include hf hw

/-- A string literal, of which some characters have been read. -/
theorem stringFrom_reads (quote : Char) (legacy : Bool) (length : Nat) (text : List Char)
    (ht : whole.drop length = text) (hlen : length ≤ whole.length) :
    Reads whole length (fun _ kind => ∃ l, kind = .string l) (stringFrom false quote legacy length text)
      (stringFrom true quote legacy length (text ++ ['\n'])) := by
  fun_induction stringFrom false quote legacy length text with
  | case1 legacy length =>
    have hline : (decide ('\n' = '\n') || decide ('\n' = '\r')) = true := rfl
    rw [List.nil_append, stringFrom, if_pos hline]
    exact .of_error hw hf
  | case2 legacy length c rest hline =>
    rw [List.cons_append, stringFrom, if_pos hline]
    exact .of_error hw hf
  | case3 legacy length rest hline =>
    obtain ⟨_, hlt, _⟩ := drop_eq_cons ht
    rw [List.cons_append, stringFrom, if_neg hline, if_pos rfl]
    exact .of_ok (Nat.le_succ _) hlt ⟨legacy, rfl⟩
  | case4 legacy length rest n octal hescape hline hquote ih =>
    obtain ⟨_, hlt, rfl⟩ := drop_eq_cons ht
    rw [List.cons_append, stringFrom, if_neg hline, if_neg hquote, if_pos rfl]
    obtain ⟨hnil, rfl, _, hescape⟩ | ⟨hn, hescape⟩ := escape_cases hescape
    · -- the escape takes the sentinel, and the literal ends nowhere in both
      rw [hescape]
      simp only [hnil, List.nil_append, List.drop_one, List.tail_cons, List.drop_nil]
      rw [stringFrom, stringFrom]
      exact .of_error hw hf
    · simp only [hescape, drop_sentinel hn]
      rw [List.length_drop] at hn
      exact (ih (List.drop_drop ..).symm (by omega)).mono (by omega) fun _ _ _ _ h => h
  | case5 legacy length rest n e hescape hline hquote =>
    obtain ⟨hc, _, _⟩ := drop_eq_cons ht
    rw [List.cons_append, stringFrom, if_neg hline, if_neg hquote, if_pos rfl]
    obtain ⟨_, _, h, _⟩ | ⟨_, hescape⟩ := escape_cases hescape
    · cases h
    · rw [hescape]
      exact .of_error hc (by decide)
  | case6 legacy length c rest hline hquote hslash ih =>
    obtain ⟨_, hlt, hrest⟩ := drop_eq_cons ht
    rw [List.cons_append, stringFrom, if_neg hline, if_neg hquote, if_neg hslash]
    exact (ih hrest hlt).mono (Nat.le_succ _) fun _ _ _ _ h => h

/-! ## Templates -/

/-- A place among the first `n` characters at which an escape begins. -/
def MarksEscape (whole : List Char) (n : Nat) (malformed : Option Nat) : Prop :=
  ∀ k, malformed = some k → k < n ∧ whole[k]? = some '\\'

omit hf hw in
theorem MarksEscape.none (whole : List Char) (n : Nat) : MarksEscape whole n none := by
  intro k hk
  cases hk

omit hf hw in
theorem MarksEscape.mono {m n : Nat} {malformed : Option Nat} (h : MarksEscape whole m malformed) (hmn : m ≤ n) :
    MarksEscape whole n malformed :=
  fun k hk => ⟨Nat.lt_of_lt_of_le (h k hk).1 hmn, (h k hk).2⟩

omit hf hw in
theorem MarksEscape.or_some {m n : Nat} {malformed : Option Nat} (h : MarksEscape whole m malformed)
    (hc : whole[m]? = some '\\') (hmn : m < n) : MarksEscape whole n (malformed.or (some m)) := by
  cases malformed with
  | none => rintro _ ⟨⟩; exact ⟨hmn, hc⟩
  | some k => exact h.mono (Nat.le_of_lt hmn)

omit hf hw in
theorem opensSubstitution_sentinel (c : Char) (rest : List Char) :
    (decide (c = '$') && decide ((rest ++ ['\n']).head? = some '{')) =
      (decide (c = '$') && decide (rest.head? = some '{')) := by
  rw [decide_eq_decide.mpr (head?_sentinel (by decide))]

/-- A template span, of which some characters have been read. -/
theorem templateFrom_reads (opening : Bool) (malformed : Option Nat) (length : Nat) (text : List Char)
    (ht : whole.drop length = text) (hlen : length ≤ whole.length) (hm : MarksEscape whole length malformed) :
    Reads whole length (fun n kind => ∃ part marked, kind = .template part marked ∧ MarksEscape whole n marked)
      (templateFrom false opening malformed length text)
      (templateFrom true opening malformed length (text ++ ['\n'])) := by
  fun_induction templateFrom false opening malformed length text with
  | case1 malformed length =>
    rw [List.nil_append, templateFrom, if_neg (by decide), if_neg (by decide), if_neg (by decide), templateFrom]
    exact .of_error hw hf
  | case2 malformed length rest =>
    obtain ⟨_, hlt, _⟩ := drop_eq_cons ht
    rw [List.cons_append, templateFrom, if_pos rfl]
    exact .of_ok (Nat.le_succ _) hlt ⟨_, malformed, rfl, hm.mono (Nat.le_succ _)⟩
  | case3 malformed length c rest hc hopen =>
    obtain ⟨_, _, rfl⟩ := drop_eq_cons ht
    obtain ⟨more, hmore⟩ := List.head?_eq_some_iff.mp (of_decide_eq_true (Bool.and_eq_true _ _ ▸ hopen).2)
    obtain ⟨_, hlt, _⟩ := drop_eq_cons hmore
    rw [List.cons_append, templateFrom, if_neg hc, opensSubstitution_sentinel, if_pos hopen]
    exact .of_ok (Nat.le_add_right _ 2) hlt ⟨_, malformed, rfl, hm.mono (Nat.le_add_right _ 2)⟩
  | case4 malformed length rest n hescape hc hopen ih =>
    obtain ⟨_, hlt, rfl⟩ := drop_eq_cons ht
    rw [List.cons_append, templateFrom, if_neg hc, opensSubstitution_sentinel, if_neg hopen, if_pos rfl]
    obtain ⟨hnil, rfl, _, hescape⟩ | ⟨hn, hescape⟩ := escape_cases hescape
    · -- the escape takes the sentinel, and the literal ends nowhere in both
      rw [hescape]
      simp only [hnil, List.nil_append, List.drop_one, List.tail_cons, List.drop_nil]
      rw [templateFrom, templateFrom]
      exact .of_error hw hf
    · simp only [hescape, drop_sentinel hn]
      rw [List.length_drop] at hn
      exact (ih (List.drop_drop ..).symm (by omega) (hm.mono (by omega))).mono (by omega) fun _ _ _ _ h => h
  | case5 malformed length rest n result hresult hescape hc hopen ih =>
    obtain ⟨hslash, hlt, rfl⟩ := drop_eq_cons ht
    rw [List.cons_append, templateFrom, if_neg hc, opensSubstitution_sentinel, if_neg hopen, if_pos rfl]
    obtain ⟨_, _, h, _⟩ | ⟨hn, hescape⟩ := escape_cases hescape
    · exact absurd h hresult
    · simp only [hescape, drop_sentinel hn]
      rw [List.length_drop] at hn
      exact (ih (List.drop_drop ..).symm (by omega) (hm.or_some hslash (by omega))).mono (by omega) fun _ _ _ _ h => h
  | case6 malformed length c rest hc hopen hslash ih =>
    obtain ⟨_, hlt, hrest⟩ := drop_eq_cons ht
    rw [List.cons_append, templateFrom, if_neg hc, opensSubstitution_sentinel, if_neg hopen, if_neg hslash]
    exact (ih hrest hlt (hm.mono (Nat.le_succ _))).mono (Nat.le_succ _) fun _ _ _ _ h => h

end

end EcmaCheck.Lexical
