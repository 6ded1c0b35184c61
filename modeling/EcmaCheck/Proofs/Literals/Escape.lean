import EcmaCheck.Proofs.Lexical.Quoted

/-!
# Well-formed escapes

The escapes of strings and templates that name a code in hexadecimal digits (`CodeEscape`). Only such an escape may be
malformed (`escape_malformed`). Every other one is a single character, although a legacy octal escape takes the octal
digits behind it as well (`escape_plain`): they would be plain characters anyway, as is all that an escape takes behind
its first character (`escape_takes`).
-/

namespace EcmaCheck.Lexical

variable {sentinel : Bool} {text rest : List Char}

/-- The number that hexadecimal digits write. -/
def hexValue (digits : List Char) : Nat :=
  digits.foldl (fun value c => 16 * value + (hexDigit? c).getD 0) 0

/-- A text that begins, behind a backslash, with the hexadecimal code of a character, and what follows the code. -/
inductive CodeEscape : List Char → List Char → Prop
  | two {ds rest : List Char} (hlength : ds.length = 2) (hds : ∀ c ∈ ds, isHexDigit c = true) :
    CodeEscape ('x' :: (ds ++ rest)) rest
  | four {ds rest : List Char} (hlength : ds.length = 4) (hds : ∀ c ∈ ds, isHexDigit c = true) :
    CodeEscape ('u' :: (ds ++ rest)) rest
  | braced {ds rest : List Char} (hne : ds ≠ []) (hds : ∀ c ∈ ds, isHexDigit c = true)
    (hvalue : hexValue ds ≤ 0x10FFFF) : CodeEscape ('u' :: '{' :: (ds ++ '}' :: rest)) rest

/-- Behind a backslash, the text begins a code in hexadecimal digits but has none. -/
structure MalformedCode (text : List Char) : Prop where
  marked : text.head? = some 'x' ∨ text.head? = some 'u'
  missing : ∀ rest, ¬ CodeEscape text rest

/-! ## Codes -/

/-- The number does not matter beyond the largest code point. -/
theorem saturatedHexValue_eq (ds : List Char) : saturatedHexValue ds = saturate (hexValue ds) := by
  have hfrom (value : Nat) :
      ds.foldl (fun value c => saturate (saturate (16 * value) + (hexDigit? c).getD 0)) (saturate value) =
        saturate (ds.foldl (fun value c => 16 * value + (hexDigit? c).getD 0) value) := by
    induction ds generalizing value with
    | nil => rfl
    | cons c ds ih =>
      have hstep (digit : Nat) : saturate (saturate (16 * saturate value) + digit) = saturate (16 * value + digit) := by
        unfold saturate
        omega
      rw [List.foldl_cons, List.foldl_cons, hstep, ih]
  exact hfrom 0

theorem saturatedHexValue_of_le {ds : List Char} (h : hexValue ds ≤ 0x10FFFF) : saturatedHexValue ds = hexValue ds := by
  rw [saturatedHexValue_eq]
  exact Nat.min_eq_left (Nat.le_trans h (by decide))

theorem saturatedHexValue_le {ds : List Char} : saturatedHexValue ds ≤ 0x10FFFF ↔ hexValue ds ≤ 0x10FFFF := by
  rw [saturatedHexValue_eq]
  unfold saturate
  omega

theorem hexDigits_of_run (e : LexicalError) (value length : Nat) {ds : List Char} (hds : ∀ c ∈ ds, isHexDigit c = true)
    (rest : List Char) : hexDigits e value length ds.length (ds ++ rest) =
      ⟨length + ds.length, .ok (ds.foldl (fun value c => 16 * value + (hexDigit? c).getD 0) value)⟩ := by
  induction ds generalizing value length with
  | nil => rfl
  | cons c ds ih =>
    obtain ⟨digit, hdigit⟩ := Option.isSome_iff_exists.mp (hds c List.mem_cons_self)
    have hread := ih (16 * value + digit) (length + 1) fun d hd => hds d (List.mem_cons_of_mem c hd)
    simp only [List.cons_append, List.length_cons, hexDigits, hdigit, List.foldl_cons, Option.getD_some]
    rw [hread, Nat.add_assoc, Nat.add_comm 1]

/-- Digits are taken up to the number asked for. -/
theorem hexDigits_takes (e : LexicalError) (value length count : Nat) (text : List Char) :
    ∃ ds rest, text = ds ++ rest ∧ (∀ c ∈ ds, isHexDigit c = true) ∧
      (hexDigits e value length count text).length = length + ds.length ∧
      ∀ v, (hexDigits e value length count text).result = .ok v → ds.length = count := by
  induction count generalizing value length text with
  | zero => exact ⟨[], text, rfl, List.forall_mem_nil _, rfl, fun _ _ => rfl⟩
  | succ count ih =>
    cases text with
    | nil => exact ⟨[], [], rfl, List.forall_mem_nil _, rfl, by rintro v ⟨⟩⟩
    | cons c text =>
      cases hdigit : hexDigit? c with
      | none =>
        refine ⟨[], c :: text, rfl, List.forall_mem_nil _, ?_, fun v => ?_⟩ <;> simp only [hexDigits, hdigit]
        · rfl
        · rintro ⟨⟩
      | some digit =>
        obtain ⟨ds, rest, rfl, hds, hlength, hok⟩ := ih (16 * value + digit) (length + 1) text
        refine ⟨c :: ds, rest, rfl, List.forall_mem_cons.mpr ⟨?_, hds⟩, ?_, fun v => ?_⟩
        · exact Option.isSome_of_eq_some hdigit
        · simp only [hexDigits, hdigit, hlength, List.length_cons]
          omega
        · simp only [hexDigits, hdigit]
          exact fun h => congrArg Nat.succ (hok v h)

theorem takeWhile_of_run {test : Char → Bool} {ds : List Char} (hds : ∀ c ∈ ds, test c = true) {c : Char}
    (hc : test c = false) (rest : List Char) : (ds ++ c :: rest).takeWhile test = ds := by
  rw [List.takeWhile_append_of_pos hds, List.takeWhile_cons, if_neg (Bool.eq_false_iff.mp hc), List.append_nil]

theorem unicodeEscape_of_digits (h : text.head? ≠ some '{') :
    unicodeEscape text = hexDigits .unicodeEscape 0 0 4 text := by
  unfold unicodeEscape
  split
  · exact absurd rfl h
  · rfl

theorem unicodeEscape_four {ds : List Char} (hlength : ds.length = 4) (hds : ∀ c ∈ ds, isHexDigit c = true)
    (rest : List Char) : unicodeEscape (ds ++ rest) = ⟨4, .ok (hexValue ds)⟩ := by
  have hbrace : (ds ++ rest).head? ≠ some '{' := by
    cases ds with
    | nil => cases hlength
    | cons c ds =>
      rintro ⟨⟩
      exact absurd (hds _ List.mem_cons_self) (by decide)
  rw [unicodeEscape_of_digits hbrace]
  have hread := hexDigits_of_run .unicodeEscape 0 0 hds rest
  rwa [hlength] at hread

theorem unicodeEscape_braced {ds : List Char} (hne : ds ≠ []) (hds : ∀ c ∈ ds, isHexDigit c = true)
    (hvalue : hexValue ds ≤ 0x10FFFF) (rest : List Char) :
    unicodeEscape ('{' :: (ds ++ '}' :: rest)) = ⟨ds.length + 2, .ok (hexValue ds)⟩ := by
  have hrun := takeWhile_of_run hds (show isHexDigit '}' = false from rfl) rest
  rw [unicodeEscape]
  simp only [hrun, List.drop_left, List.head?_cons, ne_eq, not_true_eq_false, decide_false, Bool.or_false,
    List.isEmpty_eq_false_iff.mpr hne, Bool.false_eq_true, if_false,
    saturatedHexValue_of_le hvalue, if_neg (Nat.not_lt_of_le hvalue)]

/-- A code that is read is the number that its digits write. -/
theorem digits_of_unicodeEscape {n code : Nat} (h : unicodeEscape text = ⟨n, .ok code⟩) :
    ∃ ds rest, (∀ c ∈ ds, isHexDigit c = true) ∧ hexValue ds = code ∧
      (text = ds ++ rest ∧ ds.length = 4 ∧ n = 4 ∨
        text = '{' :: (ds ++ '}' :: rest) ∧ ds ≠ [] ∧ n = ds.length + 2) := by
  by_cases hbrace : text.head? = some '{'
  · obtain ⟨text, rfl⟩ := List.head?_eq_some_iff.mp hbrace
    have hds : ∀ c ∈ text.takeWhile isHexDigit, isHexDigit c = true := fun c =>
      List.all_eq_true.mp List.all_takeWhile c
    have hsplit : text = text.takeWhile isHexDigit ++ text.drop (text.takeWhile isHexDigit).length :=
      List.prefix_iff_eq_append.mp (List.takeWhile_prefix isHexDigit) |>.symm
    rw [unicodeEscape] at h
    generalize text.takeWhile isHexDigit = ds at h hds hsplit
    by_cases hclosed : (ds.isEmpty || (text.drop ds.length).head? ≠ some '}') = true
    · simp only [if_pos hclosed] at h
      cases h
    · simp only [if_neg hclosed] at h
      obtain ⟨hne, hhead⟩ : ds ≠ [] ∧ (text.drop ds.length).head? = some '}' := by simpa using hclosed
      obtain ⟨rest, hrest⟩ := List.head?_eq_some_iff.mp hhead
      by_cases hlarge : saturatedHexValue ds > 0x10FFFF
      · simp only [if_pos hlarge] at h
        cases h
      · simp only [if_neg hlarge] at h
        cases h
        refine ⟨ds, rest, hds, ?_, .inr ⟨?_, hne, rfl⟩⟩
        · exact (saturatedHexValue_of_le (saturatedHexValue_le.mp (Nat.le_of_not_lt hlarge))).symm
        · rw [← hrest, ← hsplit]
  · obtain ⟨ds, rest, rfl, hds, hlength, hok⟩ := hexDigits_takes .unicodeEscape 0 0 4 text
    rw [unicodeEscape_of_digits hbrace] at h
    have hfour := hok code (congrArg Reading.result h)
    have hread := hexDigits_of_run .unicodeEscape 0 0 hds rest
    rw [hfour, h] at hread
    cases hread
    exact ⟨ds, rest, hds, rfl, .inl ⟨rfl, hfour, rfl⟩⟩

theorem escape_x (rest : List Char) :
    escape sentinel ('x' :: rest) = ((hexDigits .hexEscape 0 0 2 rest).map fun _ => false).after 1 := rfl

theorem escape_u (rest : List Char) :
    escape sentinel ('u' :: rest) = ((unicodeEscape rest).map fun _ => false).after 1 := rfl

namespace CodeEscape

/-- A code is read up to what follows it. -/
theorem escape_eq (sentinel : Bool) (h : CodeEscape text rest) :
    ∃ taken, text = taken ++ rest ∧ escape sentinel text = ⟨taken.length, .ok false⟩ := by
  cases h with
  | @two ds _ hlength hds =>
    refine ⟨'x' :: ds, rfl, ?_⟩
    rw [escape_x, ← hlength, hexDigits_of_run .hexEscape 0 0 hds rest]
    simp only [Reading.map, Reading.after, Except.map, List.length_cons]
    congr 1
    omega
  | @four ds _ hlength hds =>
    refine ⟨'u' :: ds, rfl, ?_⟩
    rw [escape_u, unicodeEscape_four hlength hds, List.length_cons, hlength]
    rfl
  | @braced ds _ hne hds hvalue =>
    refine ⟨'u' :: '{' :: (ds ++ ['}']), by simp, ?_⟩
    rw [escape_u, unicodeEscape_braced hne hds hvalue]
    simp only [Reading.map, Reading.after, Except.map, List.length_cons, List.length_append, List.length_nil]
    congr 1
    omega

theorem marked (h : CodeEscape text rest) : text.head? = some 'x' ∨ text.head? = some 'u' := by
  cases h with
  | two => exact .inl rfl
  | four | braced => exact .inr rfl

theorem unique {rest' : List Char} (h : CodeEscape text rest) (h' : CodeEscape text rest') : rest' = rest := by
  obtain ⟨taken, rfl, heq⟩ := h.escape_eq false
  obtain ⟨taken', htext, heq'⟩ := h'.escape_eq false
  have hlength : taken.length = taken'.length := congrArg Reading.length (heq.symm.trans heq')
  exact (List.append_inj_right htext hlength).symm

end CodeEscape

/-! ## What an escape takes -/

/-- Whether a text behind a backslash begins a legacy octal escape: one of the digits but a zero that no digit
follows. -/
def beginsLegacyEscape (c : Char) (rest : List Char) : Bool :=
  isDecimalDigit c && (c ≠ '0' || rest.head?.any isDecimalDigit)

/-- A character with no meaning of its own in a template. -/
def IsInert (c : Char) : Prop :=
  c ≠ '\\' ∧ c ≠ '\x60' ∧ c ≠ '$'

theorem isInert_of_isHexDigit {c : Char} (h : isHexDigit c = true) : IsInert c := by
  refine ⟨?_, ?_, ?_⟩ <;> rintro rfl <;> cases h

theorem isInert_of_isOctalDigit {c : Char} (h : isOctalDigit c = true) : IsInert c := by
  refine ⟨?_, ?_, ?_⟩ <;> rintro rfl <;> cases h

/-- How the escape behind a backslash is read: what it takes and what it is. -/
inductive EscapeReads (sentinel : Bool) : List Char → Reading LexicalError Bool → Prop
  | code {c : Char} {more rest : List Char} (h : CodeEscape (c :: (more ++ rest)) rest)
    (hmore : ∀ d ∈ more, IsInert d) : EscapeReads sentinel (c :: (more ++ rest)) ⟨1 + more.length, .ok false⟩
  | malformed {c : Char} {more rest : List Char} (h : MalformedCode (c :: (more ++ rest)))
    (hmore : ∀ d ∈ more, IsInert d) (e : LexicalError) :
    EscapeReads sentinel (c :: (more ++ rest)) ⟨1 + more.length, .error e⟩
  | legacy {c : Char} {more rest : List Char} (h : beginsLegacyEscape c (more ++ rest) = true)
    (hmore : ∀ d ∈ more, isOctalDigit d = true) :
    EscapeReads sentinel (c :: (more ++ rest)) ⟨1 + more.length, .ok true⟩
  | pair {rest : List Char} (h : startsWithPairedFeed sentinel ('\n' :: rest) = true) :
    EscapeReads sentinel ('\r' :: '\n' :: rest) ⟨2, .ok false⟩
  | single {c : Char} {rest : List Char} (hx : c ≠ 'x') (hu : c ≠ 'u') (hlegacy : beginsLegacyEscape c rest = false)
    (hpair : c = '\r' → startsWithPairedFeed sentinel rest = false) : EscapeReads sentinel (c :: rest) ⟨1, .ok false⟩

section

variable {c : Char} {more : List Char}

theorem EscapeReads.of_code (h : CodeEscape (c :: (more ++ rest)) rest) (hmore : ∀ d ∈ more, IsInert d) :
    EscapeReads sentinel (c :: (more ++ rest)) (escape sentinel (c :: (more ++ rest))) := by
  obtain ⟨taken, htaken, heq⟩ := h.escape_eq sentinel
  obtain rfl : c :: more = taken := List.append_cancel_right htaken
  rw [heq, List.length_cons, Nat.add_comm]
  exact .code h hmore

/-- No code is read where reading fails. -/
theorem EscapeReads.of_error {e : LexicalError} (hmark : c = 'x' ∨ c = 'u') (hmore : ∀ d ∈ more, IsInert d)
    (h : escape sentinel (c :: (more ++ rest)) = ⟨1 + more.length, .error e⟩) :
    EscapeReads sentinel (c :: (more ++ rest)) (escape sentinel (c :: (more ++ rest))) := by
  rw [h]
  refine .malformed ⟨hmark.imp (congrArg some) (congrArg some), fun rest' hcode => ?_⟩ hmore e
  obtain ⟨taken, _, heq⟩ := hcode.escape_eq sentinel
  exact nomatch congrArg Reading.result (h.symm.trans heq)

end

/-- Behind an `x` there are two digits, or the escape is malformed. -/
theorem escape_reads_x (rest : List Char) : EscapeReads sentinel ('x' :: rest) (escape sentinel ('x' :: rest)) := by
  obtain ⟨ds, rest, rfl, hds, hlength, hok⟩ := hexDigits_takes .hexEscape 0 0 2 rest
  have hinert : ∀ d ∈ ds, IsInert d := fun d hd => isInert_of_isHexDigit (hds d hd)
  rcases hresult : hexDigits .hexEscape 0 0 2 (ds ++ rest) with ⟨n, e | v⟩ <;> rw [hresult] at hlength hok
  · refine .of_error (e := e) (.inl rfl) hinert ?_
    rw [escape_x, hresult, show n = ds.length from hlength.trans (Nat.zero_add _)]
    rfl
  · exact .of_code (.two (hok v rfl) hds) hinert

/-- Behind a `u` there are four digits or digits in braces, or the escape is malformed. -/
theorem escape_reads_u (rest : List Char) : EscapeReads sentinel ('u' :: rest) (escape sentinel ('u' :: rest)) := by
  by_cases hbrace : rest.head? = some '{'
  · obtain ⟨text, rfl⟩ := List.head?_eq_some_iff.mp hbrace
    obtain ⟨ds, rest, rfl, hds, hrest⟩ : ∃ ds rest, text = ds ++ rest ∧ (∀ c ∈ ds, isHexDigit c = true) ∧
        text.takeWhile isHexDigit = ds :=
      ⟨_, text.dropWhile isHexDigit, List.takeWhile_append_dropWhile.symm,
        fun c => List.all_eq_true.mp List.all_takeWhile c, rfl⟩
    have hopen : IsInert '{' := by unfold IsInert; decide
    have hclose : IsInert '}' := by unfold IsInert; decide
    have hinert : ∀ d ∈ ds, IsInert d := fun d hd => isInert_of_isHexDigit (hds d hd)
    by_cases hclosed : (ds.isEmpty || rest.head? ≠ some '}') = true
    · rw [← List.cons_append]
      refine .of_error (e := .unicodeEscape) (.inr rfl) (List.forall_mem_cons.mpr ⟨hopen, hinert⟩) ?_
      rw [List.cons_append, escape_u, unicodeEscape]
      simp only [hrest, List.drop_left, if_pos hclosed, List.length_cons, Nat.add_comm ds.length]
      rfl
    obtain ⟨hne, hhead⟩ : ds ≠ [] ∧ rest.head? = some '}' := by simpa using hclosed
    obtain ⟨rest, rfl⟩ := List.head?_eq_some_iff.mp hhead
    have htext : '{' :: (ds ++ '}' :: rest) = '{' :: (ds ++ ['}']) ++ rest := by simp
    have hmore : ∀ d ∈ '{' :: (ds ++ ['}']), IsInert d := by
      refine List.forall_mem_cons.mpr ⟨hopen, fun d hd => ?_⟩
      rcases List.mem_append.mp hd with hd | hd
      · exact hinert d hd
      · exact List.mem_singleton.mp hd ▸ hclose
    rw [htext]
    by_cases hvalue : hexValue ds ≤ 0x10FFFF
    · exact .of_code (htext ▸ .braced hne hds hvalue) hmore
    · refine .of_error (e := .codePointTooLarge) (.inr rfl) hmore ?_
      rw [← htext, escape_u, unicodeEscape]
      simp only [hrest, List.drop_left, if_neg hclosed, if_pos (Nat.lt_of_not_le (mt saturatedHexValue_le.mp hvalue))]
      simp only [Reading.map, Reading.after, Except.map, List.length_cons, List.length_append, List.length_nil]
  · obtain ⟨ds, rest, rfl, hds, hlength, hok⟩ := hexDigits_takes .unicodeEscape 0 0 4 rest
    have hinert : ∀ d ∈ ds, IsInert d := fun d hd => isInert_of_isHexDigit (hds d hd)
    rcases hresult : hexDigits .unicodeEscape 0 0 4 (ds ++ rest) with ⟨n, e | v⟩ <;> rw [hresult] at hlength hok
    · refine .of_error (e := e) (.inr rfl) hinert ?_
      rw [escape_u, unicodeEscape_of_digits hbrace, hresult, show n = ds.length from hlength.trans (Nat.zero_add _)]
      rfl
    · exact .of_code (.four (hok v rfl) hds) hinert

theorem escape_reads (sentinel : Bool) (c : Char) (rest : List Char) :
    EscapeReads sentinel (c :: rest) (escape sentinel (c :: rest)) := by
  by_cases hx : c = 'x'
  · subst hx
    exact escape_reads_x rest
  by_cases hu : c = 'u'
  · subst hu
    exact escape_reads_u rest
  rw [escape, if_neg hx, if_neg hu]
  by_cases hzero : (c = '0' && !(rest.head?.any isDecimalDigit)) = true
  · rw [if_pos hzero]
    obtain ⟨rfl, hrest⟩ : c = '0' ∧ rest.head?.any isDecimalDigit = false := by simpa using hzero
    refine .single hx hu ?_ (by rintro ⟨⟩)
    rw [beginsLegacyEscape, hrest]
    rfl
  rw [if_neg hzero]
  have hlegacy (hdigit : isDecimalDigit c = true) : beginsLegacyEscape c rest = true := by
    rw [beginsLegacyEscape, hdigit, Bool.true_and]
    by_cases hc : c = '0'
    · simpa [hc] using hzero
    · simp [hc]
  by_cases hoctal : isOctalDigit c = true
  · rw [if_pos hoctal]
    obtain ⟨more, behind, hmore, hsplit, hrest⟩ : ∃ more behind, (∀ d ∈ more, isOctalDigit d = true) ∧
        rest = more ++ behind ∧ (rest.take (if c ≤ '3' then 2 else 1)).takeWhile isOctalDigit = more := by
      obtain ⟨behind, hbehind⟩ :=
        (List.takeWhile_prefix isOctalDigit).trans (List.take_prefix (if c ≤ '3' then 2 else 1) rest)
      exact ⟨_, behind, fun d => List.all_eq_true.mp List.all_takeWhile d, hbehind.symm, rfl⟩
    rw [hrest]
    have h := hlegacy (isDecimalDigit_of_isOctalDigit hoctal)
    rw [hsplit] at h ⊢
    exact .legacy h hmore
  rw [if_neg hoctal]
  by_cases height : (c = '8' || c = '9') = true
  · rw [if_pos height]
    have hdigit : isDecimalDigit c = true := by
      obtain rfl | rfl : c = '8' ∨ c = '9' := by simpa using height
      · rfl
      · rfl
    have hempty : beginsLegacyEscape c ([] ++ rest) = true := hlegacy hdigit
    exact .legacy hempty (List.forall_mem_nil _)
  rw [if_neg height]
  have hplain : beginsLegacyEscape c rest = false := by
    rw [beginsLegacyEscape, Bool.and_eq_false_iff]
    exact .inl (Bool.eq_false_iff.mpr fun h => hoctal (isOctalDigit_of_isDecimalDigit h (by simpa using height)))
  by_cases hpair : (c = '\r' && startsWithPairedFeed sentinel rest) = true
  · rw [if_pos hpair]
    obtain ⟨rfl, hfeed⟩ : c = '\r' ∧ startsWithPairedFeed sentinel rest = true := by simpa using hpair
    cases rest with
    | nil => cases hfeed
    | cons d rest =>
      obtain rfl : d = '\n' := by
        unfold startsWithPairedFeed at hfeed
        split at hfeed
        · rename_i h
          exact (List.cons.inj h).1
        · cases hfeed
      exact .pair hfeed
  · rw [if_neg hpair]
    exact .single hx hu hplain fun hc => by simpa [hc] using hpair

/-- Only a code may be malformed. -/
theorem malformed_of_escape {n : Nat} {e : LexicalError} (h : escape sentinel text = ⟨n, .error e⟩) :
    MalformedCode text := by
  cases text with
  | nil => exact nomatch congrArg Reading.result h
  | cons c rest =>
    have hreads := escape_reads sentinel c rest
    rw [h] at hreads
    generalize c :: rest = text at hreads
    cases hreads with
    | malformed hmalformed => exact hmalformed

end EcmaCheck.Lexical
