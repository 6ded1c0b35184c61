import EcmaCheck.Lexical.Element
import EcmaCheck.Proofs.Lexical.Numeral
import EcmaCheck.Proofs.Lexical.Punctuator
import EcmaCheck.Proofs.Lexical.Quoted

/-!
# Lexical elements with a sentinel

Names, regular expressions and punctuators do not see a sentinel, and so no token does (`element_reads`). What a token
tells of its spelling and its goal is `Fits`.
-/

namespace EcmaCheck.Lexical

variable {text whole : List Char}

/-! ## Names -/

theorem nameEscape_length_le (first : Bool) (text : List Char) : (nameEscape first text).length ≤ text.length := by
  fun_cases nameEscape first text with
  | case1 rest n e h | case2 rest n code h | case3 rest n code h =>
    have hle := (unicodeEscape_kept rest).length_le
    rw [h] at hle
    exact Nat.add_comm 1 n ▸ Nat.succ_le_succ hle
  | case4 => exact Nat.zero_le _

theorem nameEscape_sentinel (first : Bool) : nameEscape first (text ++ ['\n']) = nameEscape first text := by
  by_cases hu : text.head? = some 'u'
  · obtain ⟨rest, rfl⟩ := List.head?_eq_some_iff.mp hu
    simp only [List.cons_append, nameEscape, (unicodeEscape_kept _).sentinel]
  · have hplain {t : List Char} (ht : t.head? ≠ some 'u') : nameEscape first t = ⟨0, .error .unicodeEscape⟩ := by
      unfold nameEscape
      split
      · exact absurd rfl ht
      · rfl
    rw [hplain hu, hplain (mt (head?_sentinel (by decide)).mp hu)]

theorem admits_line (first : Bool) : admits first '\n' = false := by
  cases first <;> rfl

/-- A name, of which some characters have been read. -/
theorem nameFrom_reads (whole before : List Char) (escaped : Bool) (length : Nat) (text : List Char)
    (ht : whole.drop length = text) (hlen : length ≤ whole.length) :
    Reads whole length (fun _ _ => True) (nameFrom before escaped length text)
      (nameFrom before escaped length (text ++ ['\n'])) := by
  fun_induction nameFrom before escaped length text with
  | case1 before escaped length =>
    rw [List.nil_append, nameFrom, if_neg (by decide), admits_line, if_neg nofun]
    exact .of_ok (Nat.le_refl _) hlen trivial
  | case2 before escaped length rest n d hescape ih =>
    obtain ⟨_, hlt, rfl⟩ := drop_eq_cons ht
    have hn := nameEscape_length_le before.isEmpty (whole.drop (length + 1))
    rw [hescape] at hn
    rw [List.cons_append, nameFrom, if_pos rfl, nameEscape_sentinel, hescape]
    simp only [drop_sentinel hn]
    rw [List.length_drop] at hn
    simp only at hn
    exact (ih (List.drop_drop ..).symm (by omega)).mono (by omega) fun _ _ _ _ h => h
  | case3 before escaped length rest n e hescape =>
    obtain ⟨hc, _, rfl⟩ := drop_eq_cons ht
    rw [List.cons_append, nameFrom, if_pos rfl, nameEscape_sentinel, hescape]
    exact .of_error hc (by decide)
  | case4 before escaped length c rest hslash hadmits ih =>
    obtain ⟨_, hlt, hrest⟩ := drop_eq_cons ht
    rw [List.cons_append, nameFrom, if_neg hslash, if_pos hadmits]
    exact (ih hrest hlt).mono (Nat.le_succ _) fun _ _ _ _ h => h
  | case5 before escaped length c rest hslash hadmits =>
    rw [List.cons_append, nameFrom, if_neg hslash, if_neg hadmits]
    exact .of_ok (Nat.le_refl _) hlen trivial

theorem le_length_nameFrom (before : List Char) (escaped : Bool) (length : Nat) (text : List Char) :
    length ≤ (nameFrom before escaped length text).length := by
  fun_induction nameFrom before escaped length text with
  | case1 | case5 => exact Nat.le_refl _
  | case2 | case4 => omega
  | case3 => simp only; omega

/-- A name that begins here takes a character. -/
theorem lt_length_nameFrom {c : Char} (length : Nat) (rest : List Char) (h : beginsName c = true) :
    length < (nameFrom [] false length (c :: rest)).length := by
  by_cases hslash : c = '\\'
  · rw [nameFrom, if_pos hslash]
    split
    · exact Nat.lt_of_lt_of_le (by omega) (le_length_nameFrom ..)
    · simp only; omega
  · have hadmits : admits ([] : List Char).isEmpty c = true := by simpa [beginsName, hslash, admits] using h
    rw [nameFrom, if_neg hslash, if_pos hadmits]
    exact le_length_nameFrom ..

/-- A name, with its first character still to read. -/
theorem name_reads {c : Char} (rest : List Char) (h : beginsName c = true) :
    Reads (c :: rest) 1 (fun _ _ => True) (nameFrom [] false 0 (c :: rest))
      (nameFrom [] false 0 (c :: rest ++ ['\n'])) :=
  have hreads := nameFrom_reads (c :: rest) [] false 0 (c :: rest) rfl (Nat.zero_le _)
  { hreads with
    ok ha :=
      have ⟨hlen, _, hn, hfound⟩ := hreads.ok ha
      ⟨hlen, lt_length_nameFrom 0 rest h, hn, hfound⟩ }

theorem beginsName_of_isDecimalDigit {c : Char} (h : isDecimalDigit c = true) : beginsName c = false := by
  have hall : ∀ n < 128, isDecimalDigit (Char.ofNat n) = true → beginsName (Char.ofNat n) = false := by decide +kernel
  have hlt : c.toNat < 128 := by
    have hle : c ≤ '9' := of_decide_eq_true ((Bool.and_eq_true _ _).mp h).2
    exact Nat.lt_of_le_of_lt hle (by decide)
  rw [← Char.ofNat_toNat c] at h ⊢
  exact hall _ hlt h

/-- What cannot be the first character of a name. -/
theorem ne_of_beginsName {c d : Char} (hc : beginsName c = true) (hd : beginsName d = false) : c ≠ d := by
  rintro rfl
  exact absurd hc (Bool.eq_false_iff.mp hd)

/-- Where a name begins, it is read under every goal. -/
theorem element_of_beginsName (sentinel : Bool) (goal : LexicalGoal) {c : Char} {rest : List Char}
    (h : beginsName c = true) : element sentinel goal (c :: rest) = (nameFrom [] false 0 (c :: rest)).map nameKind := by
  have hne (e : Char) (he : beginsName e = false := by decide +kernel) : c ≠ e := ne_of_beginsName h he
  have hdigit : isDecimalDigit c = false :=
    Bool.eq_false_iff.mpr fun h' => Bool.eq_false_iff.mp (beginsName_of_isDecimalDigit h') h
  simp only [element, hne '}', hne '/', hne '"', hne '\'', hne '\x60', hne '#', hne '.', h, hdigit, decide_false,
    Bool.false_and, Bool.or_self, Bool.false_eq_true, if_false, if_true]

/-! ## Regular expressions -/

theorem regExpBody_length_le (inClass : Bool) (length : Nat) (text : List Char) :
    (regExpBody inClass length text).length ≤ length + text.length := by
  fun_induction regExpBody inClass length text <;> simp only [List.length_cons, List.length_nil] at * <;> omega

theorem regExpBody_sentinel (inClass : Bool) (length : Nat) (text : List Char) :
    regExpBody inClass length (text ++ ['\n']) = regExpBody inClass length text := by
  have hline : isLineTerminator '\n' = true := rfl
  fun_induction regExpBody inClass length text with
  | case1 => rfl
  | case3 => rfl
  | _ => rw [List.cons_append, regExpBody.eq_def]; simp_all

theorem regExpFlags_length_le (seen : List Char) (length : Nat) (text : List Char) :
    (regExpFlags seen length text).length ≤ length + text.length := by
  have hending (seen : List Char) (length n : Nat) : (regExpFlags.ending seen length).length ≤ length + n := by
    unfold regExpFlags.ending
    split <;> exact Nat.le_add_right _ _
  fun_induction regExpFlags seen length text with
  | case1 | case3 => exact hending _ _ _
  | case2 | case4 => simp only [List.length_cons]; omega
  | case5 seen length c rest _ _ _ ih => simp only [List.length_cons]; omega

theorem regExpFlags_sentinel (seen : List Char) (length : Nat) (text : List Char) :
    regExpFlags seen length (text ++ ['\n']) = regExpFlags seen length text := by
  have hline : isIdentifierPart '\n' = false := rfl
  fun_induction regExpFlags seen length text <;> simp_all [regExpFlags]

/-- If there is something wrong with the flags, the first of them does not end the line. -/
theorem regExpFlags_error {e : LexicalError} (h : (regExpFlags [] 0 text).result = .error e) :
    ∃ c, text.head? = some c ∧ c ≠ '\n' := by
  cases text with
  | nil => cases h
  | cons c rest =>
    refine ⟨c, rfl, ?_⟩
    rintro rfl
    cases h

/-- What is found of a regular expression literal is that it is one. -/
theorem regExpFlags_ok {seen : List Char} {length : Nat} {kind : TokenKind}
    (h : (regExpFlags seen length text).result = .ok kind) : kind = .regExp := by
  have hending {seen : List Char} {length : Nat} (h : (regExpFlags.ending seen length).result = .ok kind) :
      kind = .regExp := by
    unfold regExpFlags.ending at h
    split at h <;> cases h
    rfl
  fun_induction regExpFlags seen length text with
  | case1 | case3 => exact hending h
  | case2 | case4 => cases h
  | case5 seen length c rest _ _ _ ih => exact ih h

/-- A regular expression literal after its slash. -/
theorem regExp_reads (hw : whole = '/' :: text) :
    Reads whole 1 (fun _ kind => kind = .regExp) (regExp text) (regExp (text ++ ['\n'])) := by
  subst hw
  have hn := Nat.zero_add text.length ▸ regExpBody_length_le false 0 text
  unfold regExp
  rw [regExpBody_sentinel]
  rcases hbody : regExpBody false 0 text with ⟨n, e | _⟩
  · exact .of_error rfl (by decide)
  · rw [hbody] at hn
    simp only [drop_sentinel hn, regExpFlags_sentinel]
    have hlen := regExpFlags_length_le [] 0 (text.drop n)
    rcases hflags : regExpFlags [] 0 (text.drop n) with ⟨m, e | kind⟩
    · obtain ⟨c, hc, hline⟩ := regExpFlags_error (congrArg Reading.result hflags)
      refine .of_error ?_ hline
      rw [Nat.add_comm, List.getElem?_cons_succ, ← List.head?_drop]
      exact hc
    · rw [hflags, List.length_drop] at hlen
      simp only at hn hlen
      have hle : 1 + n + m ≤ ('/' :: text).length := by rw [List.length_cons]; omega
      exact .of_ok (Nat.le_trans (Nat.le_add_right 1 n) (Nat.le_add_right _ m)) hle
        (regExpFlags_ok (congrArg Reading.result hflags))

/-! ## Punctuators -/

theorem isPrefixOf_sentinel {spelling : List Char} (h : '\n' ∉ spelling) :
    spelling.isPrefixOf (text ++ ['\n']) = spelling.isPrefixOf text := by
  rw [Bool.eq_iff_iff, List.isPrefixOf_iff_prefix, List.isPrefixOf_iff_prefix, List.prefix_concat_iff]
  refine or_iff_right ?_
  rintro rfl
  exact h (List.mem_append_right _ (List.mem_singleton_self _))

theorem line_notMem_spelling (p : Punctuator) : '\n' ∉ p.spelling := by
  cases p <;> decide

theorem beginsWith_sentinel (p : Punctuator) : beginsWith p (text ++ ['\n']) = beginsWith p text := by
  have hdrop : ((text ++ ['\n']).drop 2).head?.any isDecimalDigit = (text.drop 2).head?.any isDecimalDigit := by
    match text with
    | [] | [_] => rfl
    | _ :: _ :: _ => exact any_head?_sentinel rfl
  rw [beginsWith, beginsWith, isPrefixOf_sentinel (line_notMem_spelling p), hdrop]

theorem punctuator?_sentinel : punctuator? (text ++ ['\n']) = punctuator? text := by
  simp only [punctuator?, beginsWith_sentinel]

/-! ## Elements -/

/-- What the kind of a token of `n` characters tells of the text that begins with it and of its goal. -/
structure Fits (goal : LexicalGoal) (text : List Char) (n : Nat) (kind : TokenKind) : Prop where
  goesOn : kind ≠ .endOfInput
  regExp : kind = .regExp → goal = .regExp
  spelling {p : Punctuator} : kind = .punctuator p → p.spelling <+: text
  length {p : Punctuator} : kind = .punctuator p → n = p.spelling.length
  slash {p : Punctuator} : kind = .punctuator p → text.head? = some '/' → goal ≠ .regExp
  escape {part : TemplatePart} {k : Nat} : kind = .template part (some k) → k < n ∧ text[k]? = some '\\'

/-- Whether tokens of the kind tell nothing of the text or of their goal. -/
def isPlain : TokenKind → Bool
  | .regExp | .punctuator _ | .template .. | .endOfInput => false
  | _ => true

theorem Fits.plain {goal : LexicalGoal} {n : Nat} {kind : TokenKind} (h : isPlain kind = true) :
    Fits goal text n kind := by
  cases kind with
  | regExp | punctuator | template | endOfInput => cases h
  | _ => exact ⟨nofun, nofun, nofun, nofun, nofun, nofun⟩

theorem Fits.regularExpression {goal : LexicalGoal} {n : Nat} (h : goal = .regExp) : Fits goal text n .regExp :=
  ⟨nofun, fun _ => h, nofun, nofun, nofun, nofun⟩

theorem Fits.punctuator {goal : LexicalGoal} {p : Punctuator} (hp : p.spelling <+: text)
    (hslash : text.head? = some '/' → goal ≠ .regExp) : Fits goal text p.spelling.length (.punctuator p) := by
  refine ⟨nofun, nofun, ?_, ?_, ?_, nofun⟩
  · rintro _ ⟨⟩
    exact hp
  · rintro _ ⟨⟩
    rfl
  · rintro _ ⟨⟩
    exact hslash

theorem Fits.template {goal : LexicalGoal} {n : Nat} {kind : TokenKind}
    (h : ∃ part marked, kind = .template part marked ∧ MarksEscape text n marked) : Fits goal text n kind := by
  obtain ⟨part, marked, rfl, hmarked⟩ := h
  exact ⟨nofun, nofun, nofun, nofun, nofun, fun h => hmarked _ (by cases h; rfl)⟩

/-- Where a regular expression may begin, nothing divides. -/
theorem Fits.not_division {n : Nat} {kind : TokenKind} (h : Fits .regExp text n kind) :
    kind ≠ .punctuator .slash ∧ kind ≠ .punctuator .slashAssign := by
  constructor
  · intro hkind
    obtain ⟨rest, rfl⟩ := h.spelling hkind
    exact h.slash hkind rfl rfl
  · intro hkind
    obtain ⟨rest, rfl⟩ := h.spelling hkind
    exact h.slash hkind rfl rfl

theorem Fits.name {goal : LexicalGoal} {n : Nat} (name : Name) : Fits goal text n (nameKind name) := by
  unfold nameKind
  split <;> exact .plain rfl

theorem numeral_reads {c : Char} {rest : List Char} (hc : c ≠ '\n')
    (h : c = '.' ∨ isDecimalDigit c = true) :
    Reads (c :: rest) 1 (fun _ => IsNumeric) ((numeral (c :: rest)).reportedAt 0)
      ((numeral (c :: rest ++ ['\n'])).reportedAt 0) := by
  have hkept := numeral_kept (List.cons_ne_nil c rest)
  rw [hkept.sentinel]
  have hlen := hkept.length_le
  rcases hr : numeral (c :: rest) with ⟨n, e | kind⟩
  · exact .of_error rfl hc
  · have hpos := numeral_length_pos (c :: rest) (h.imp (congrArg some) id) (congrArg Reading.result hr)
    rw [hr] at hlen hpos
    exact .of_ok hpos hlen (hkept.ok (congrArg Reading.result hr))

theorem Reads.ite {α : Type} {taken : Nat} {found : Nat → α → Prop} {p : Prop} [Decidable p]
    {r r' s s' : Reading Misreading α} (hr : p → Reads whole taken found r r')
    (hs : ¬ p → Reads whole taken found s s') :
    Reads whole taken found (if p then r else s) (if p then r' else s') := by
  split
  · exact hr ‹p›
  · exact hs ‹¬ p›

/-- The token that a text begins with, other than a line feed. -/
theorem element_reads (goal : LexicalGoal) {c : Char} {rest : List Char} (hc : c ≠ '\n') :
    Reads (c :: rest) 1 (Fits goal (c :: rest)) (element false goal (c :: rest))
      (element true goal (c :: rest ++ ['\n'])) := by
  have hdigit : (rest ++ ['\n']).head?.any isDecimalDigit = rest.head?.any isDecimalDigit := any_head?_sentinel rfl
  have hname : (rest ++ ['\n']).head?.any beginsName = rest.head?.any beginsName := any_head?_sentinel rfl
  have hpunctuator : punctuator? (c :: rest ++ ['\n']) = punctuator? (c :: rest) := punctuator?_sentinel
  rw [List.cons_append] at hpunctuator ⊢
  simp only [element, hdigit, hname, punctuator_reading, hpunctuator]
  refine .ite (fun _ => ?_) fun _ => ?_
  · exact (templateFrom_reads hc rfl false none 1 rest rfl (Nat.le_add_left _ _) (.none _ _)).mono (Nat.le_refl _)
      fun _ _ _ _ => .template
  refine .ite (fun hslash => ?_) fun hslash => ?_
  · simp only [Bool.and_eq_true, decide_eq_true_eq] at hslash
    refine (regExp_reads (by rw [hslash.1])).mono (Nat.le_refl _) ?_
    rintro n kind _ _ rfl
    exact .regularExpression hslash.2
  refine .ite (fun _ => ?_) fun _ => ?_
  · refine (stringFrom_reads hc rfl c false 1 rest rfl (Nat.le_add_left _ _)).mono (Nat.le_refl _) ?_
    rintro n kind _ _ ⟨legacy, rfl⟩
    exact .plain rfl
  refine .ite (fun _ => ?_) fun _ => ?_
  · exact (templateFrom_reads hc rfl true none 1 rest rfl (Nat.le_add_left _ _) (.none _ _)).mono (Nat.le_refl _)
      fun _ _ _ _ => .template
  refine .ite (fun hnumeral => ?_) fun _ => ?_
  · have hbegins : c = '.' ∨ isDecimalDigit c = true := by
      simp only [Bool.or_eq_true, Bool.and_eq_true, decide_eq_true_eq] at hnumeral
      exact hnumeral.symm.imp_left And.left
    refine (numeral_reads hc hbegins).mono (Nat.le_refl _) ?_
    rintro n kind _ _ (rfl | ⟨legacy, rfl⟩) <;> exact .plain rfl
  refine .ite (fun _ => ?_) fun _ => ?_
  · refine .ite (fun _ => ?_) fun _ => ?_
    · exact Reads.map (nameFrom_reads (c :: rest) [] false 1 rest rfl (Nat.le_add_left _ _)) fun _ _ _ => .plain rfl
    · exact .of_error rfl hc
  refine .ite (fun hbegins => ?_) fun _ => ?_
  · exact Reads.map (name_reads rest hbegins) fun n name _ => .name name
  · cases hp : punctuator? (c :: rest) with
    | some p =>
      have hprefix := prefix_of_punctuator? hp
      refine .of_ok (List.length_pos_iff.mpr (spelling_ne_nil p)) hprefix.length_le ?_
      refine .punctuator hprefix ?_
      rintro hhead rfl
      exact hslash (by rw [Option.some.inj hhead]; rfl)
    | none => exact .of_error rfl hc

end EcmaCheck.Lexical
