import EcmaCheck.Proofs.Literals.NumericReading

/-!
# The longest numeric literal

Where a numeric literal begins, the longest one is read, unless the character behind it runs on
(`numeral_takes_longest`). So the next token is that literal, or the text is malformed where it begins
(`Scanner.next_numeral`).
-/

namespace EcmaCheck

namespace Lexical

open Lexer

/-! ## The longest literal -/

/-- The whole part of a decimal literal, legacy ones included. -/
def AnyWhole (text : List Char) : Prop :=
  WholePart text ∨ LegacyDecimal text

theorem isDigitOf_ten_eq (c : Char) : isDigitOf 10 c = isDecimalDigit c := by
  by_cases h : isDecimalDigit c = true
  · rw [h, isDigitOf_ten h]
  · rw [Bool.eq_false_iff.mpr h]
    unfold isDigitOf hexDigit?
    rw [if_neg (show ¬ (decide ('0' ≤ c) && decide (c ≤ '9')) = true from h)]
    split
    · simp
    · split <;> simp

theorem any_isDigitOf_ten (rest : List Char) : rest.head?.any (isDigitOf 10) = rest.head?.any isDecimalDigit := by
  rw [funext isDigitOf_ten_eq]

theorem RadixMark.radixMark? {mark : Char} {radix : Nat} (h : RadixMark mark radix) : radixMark? mark = some radix := by
  rcases h with (rfl | rfl) | (rfl | rfl) | (rfl | rfl) <;> rfl

theorem radixMark_of_eq {mark : Char} {radix : Nat} (h : radixMark? mark = some radix) : RadixMark mark radix := by
  unfold Lexical.radixMark? at h
  split at h
  · rename_i hmark
    cases h
    exact .hexadecimal (by simpa using hmark)
  split at h
  · rename_i hmark
    cases h
    exact .octal (by simpa using hmark)
  split at h
  · rename_i hmark
    cases h
    exact .binary (by simpa using hmark)
  · cases h

/-- A mark is neither a digit nor any other character that may follow a zero in a literal. -/
theorem RadixMark.ne {mark : Char} {radix : Nat} (h : RadixMark mark radix) :
    isDecimalDigit mark = false ∧ mark ≠ '.' ∧ ¬ IsPowerMark mark ∧ mark ≠ 'n' ∧ mark ≠ '_' ∧ runsOn mark = true := by
  unfold IsPowerMark
  rcases h with (rfl | rfl) | (rfl | rfl) | (rfl | rfl) <;> decide +kernel

/-- Digits that a text begins with belong to all digits it begins with. -/
theorem mem_of_digits {test : Char → Bool} {other behind ds rest : List Char} (htext : other ++ behind = ds ++ rest)
    (hother : ∀ c ∈ other, test c = true) (hrest : rest.head?.any test = false) :
    ∃ more, ds = other ++ more := by
  induction other generalizing ds with
  | nil => exact ⟨ds, rfl⟩
  | cons c other ih =>
    cases ds with
    | nil =>
      rw [show rest = c :: (other ++ behind) from htext.symm] at hrest
      exact absurd (hother c List.mem_cons_self) (Bool.eq_false_iff.mp hrest)
    | cons d ds =>
      obtain ⟨rfl, hmore⟩ := List.cons.inj htext
      obtain ⟨more, rfl⟩ := ih hmore fun e he => hother e (List.mem_cons_of_mem c he)
      exact ⟨more, rfl⟩

namespace AnyWhole

variable {whole rest ds : List Char}

theorem head (h : AnyWhole whole) : ∃ c more, whole = c :: more ∧ isDecimalDigit c = true := by
  obtain (_ | ⟨hds, _⟩) | ⟨_, _⟩ := h
  · exact ⟨'0', [], rfl, rfl⟩
  · obtain ⟨c, more, rfl, hc⟩ := hds.exists_cons
    exact ⟨c, more, rfl, isDigitOf_ten_eq c ▸ hc⟩
  · exact ⟨'0', _, rfl, rfl⟩

/-- A zero that no legacy decimal begins with. -/
theorem maximal_zero (hlegacy : ∀ ds behind, LegacyDecimal ('0' :: ds) → ds ++ behind ≠ rest) :
    Maximal WithinDigits AnyWhole ['0'] rest where
  holds := .inl .zero
  others {other behind} htext hother := by
    obtain (_ | ⟨hds, hzero⟩) | @⟨ds, hds, height⟩ := hother
    · exact .inl rfl
    · obtain ⟨c, more, rfl, _⟩ := hds.exists_cons
      exact absurd (congrArg some (List.cons.inj htext).1) hzero
    · exact absurd (List.cons.inj htext).2 (hlegacy ds behind ⟨hds, height⟩)

theorem maximal_digits (hds : DigitRun 10 ds) (hzero : ds.head? ≠ some '0') (hrest : Ended 10 rest) :
    Maximal WithinDigits AnyWhole ds rest where
  holds := .inl (.digits hds hzero)
  others {other behind} htext hother := by
    obtain ⟨c, more, rfl, _⟩ := hds.exists_cons
    obtain (_ | ⟨hother, _⟩) | ⟨_, _⟩ := hother
    · exact absurd (congrArg some (List.cons.inj htext).1.symm) hzero
    · exact (hds.maximal hrest).others htext hother
    · exact absurd (congrArg some (List.cons.inj htext).1.symm) hzero

theorem maximal_legacy (hds : ∀ c ∈ ds, isDecimalDigit c = true) (height : ∃ c ∈ ds, c = '8' ∨ c = '9')
    (hrest : rest.head?.any isDecimalDigit = false) : Maximal WithinDigits AnyWhole ('0' :: ds) rest where
  holds := .inr ⟨hds, height⟩
  others {other behind} htext hother := by
    have hinner {c : Char} {more : List Char} (h : ∀ d ∈ c :: more, isDecimalDigit d = true) : WithinDigits c :=
      .inl ((isDigitOf_ten_eq c).trans (h c List.mem_cons_self))
    obtain (_ | ⟨hother, hzero⟩) | @⟨ds', hother, _⟩ := hother
    · obtain ⟨c, hc, _⟩ := height
      obtain ⟨d, more, rfl⟩ := List.exists_cons_of_ne_nil (List.ne_nil_of_mem hc)
      exact .inr ⟨d, more, rfl, hinner hds⟩
    · obtain ⟨c, more, rfl, _⟩ := hother.exists_cons
      exact absurd (congrArg some (List.cons.inj htext).1) hzero
    · obtain ⟨_ | ⟨c, more⟩, rfl⟩ := mem_of_digits (List.cons.inj htext).2 hother hrest
      · exact .inl (by rw [List.append_nil])
      · exact .inr ⟨c, more, rfl, hinner fun d hd => hds d (List.mem_append_right _ hd)⟩

end AnyWhole

section

variable {whole fraction power rest : List Char}

/-- The parts that a text begins with make up the longest decimal literal. -/
theorem decimal_length_le (hwhole : Maximal WithinDigits AnyWhole whole (fraction ++ (power ++ rest)))
    (h : TailBefore fraction power rest) {whole' fraction' power' behind : List Char} (hwhole' : AnyWhole whole')
    (hfraction' : FractionPart fraction') (hpower' : ExponentPart power')
    (htext : whole' ++ fraction' ++ power' ++ behind = whole ++ (fraction ++ (power ++ rest))) :
    (whole' ++ fraction' ++ power').length ≤ (whole ++ (fraction ++ power)).length := by
  have hfirst : Maximal (fun c => WithinDigits c ∨ c = '.' ∨ WithinDigits c) (Joined AnyWhole FractionPart)
      (whole ++ fraction) (power ++ rest) := by
    refine hwhole.append h.fraction.maximal fun c more hpart hc => ?_
    have hpoint : c = '.' := by cases hpart <;> rfl
    subst hpoint
    exact absurd hc (by unfold WithinDigits; decide)
  have hall := hfirst.append h.power.maximal fun c more hpart hc => by
    have hmark : IsPowerMark c := by cases hpart <;> assumption
    obtain rfl | rfl := hmark <;> exact absurd hc (by unfold WithinDigits; decide)
  rw [← List.append_assoc whole fraction power]
  have hsame : whole' ++ fraction' ++ power' ++ behind = whole ++ fraction ++ power ++ rest := by
    rw [htext]
    simp only [List.append_assoc]
  exact hall.length_le hsame ⟨_, _, rfl, ⟨_, _, rfl, hwhole', hfraction'⟩, hpower'⟩

/-- The suffix of a big integer stands behind the whole part. -/
theorem whole_of_big (hwhole : Maximal WithinDigits AnyWhole whole rest) {whole' behind : List Char}
    (hwhole' : WholePart whole') (htext : whole' ++ ['n'] ++ behind = whole ++ rest) :
    whole' = whole ∧ rest.head? = some 'n' := by
  rw [List.append_assoc] at htext
  obtain rfl | ⟨c, more, rfl, hc⟩ := hwhole.others htext (.inl hwhole')
  · exact ⟨rfl, by rw [← List.append_cancel_left htext]; rfl⟩
  · rw [List.append_assoc] at htext
    obtain rfl : 'n' = c := (List.cons.inj (List.append_cancel_left htext)).1
    exact absurd hc (by unfold WithinDigits; decide)

/-- What makes a literal the longest that a text beginning with a digit begins with. -/
theorem longest_of_whole {found text : List Char} (htext : text = whole ++ (fraction ++ (power ++ rest)))
    (hwhole : Maximal WithinDigits AnyWhole whole (fraction ++ (power ++ rest))) (h : TailBefore fraction power rest)
    (hbegins : found <+: text) (hfound : NumericLiteral found)
    (hdecimal : (whole ++ (fraction ++ power)).length ≤ found.length)
    (hbig : WholePart whole → (fraction ++ (power ++ rest)).head? = some 'n' → whole.length + 1 ≤ found.length)
    (hradix : ∀ mark radix ds behind, RadixMark mark radix → DigitRun radix ds → '0' :: mark :: ds ++ behind = text →
      ds.length + 2 ≤ found.length ∧ (behind.head? = some 'n' → ds.length + 3 ≤ found.length))
    (hoctal : ∀ ds behind, ds ≠ [] → (∀ c ∈ ds, isOctalDigit c = true) → '0' :: ds ++ behind = text →
      ds.length + 1 ≤ found.length) : LongestPrefix NumericLiteral text found where
  isPrefix := hbegins
  holds := hfound
  longest := by
    rintro other ⟨behind, hother⟩ hliteral
    cases hliteral with
    | decimal hwhole' hfraction' hpower' =>
      exact Nat.le_trans (decimal_length_le hwhole h hwhole' hfraction' hpower' (hother.trans htext)) hdecimal
    | point =>
      obtain ⟨c, more, rfl, hc⟩ := AnyWhole.head hwhole.holds
      obtain rfl : '.' = c := (List.cons.inj (hother.trans htext)).1
      cases hc
    | big hwhole' =>
      obtain ⟨rfl, hhead⟩ := whole_of_big hwhole hwhole' (hother.trans htext)
      rw [List.length_append]
      exact hbig hwhole' hhead
    | radix hmark hds => exact (hradix _ _ _ behind hmark hds hother).1
    | bigRadix hmark hds =>
      rw [List.append_assoc] at hother
      refine Nat.le_trans (Nat.le_of_eq ?_) ((hradix _ _ _ _ hmark hds hother).2 rfl)
      simp
    | legacyOctal hne hds => exact hoctal _ behind hne hds hother

end

/-! ## Kinds -/

theorem ne_suffix_of_isDigitOf {radix : Nat} {c : Char} (h : isDigitOf radix c = true) : c ≠ 'n' := by
  rintro rfl
  cases h

namespace DigitRun

theorem suffix_not_mem {radix : Nat} {ds : List Char} (h : DigitRun radix ds) : 'n' ∉ ds := by
  induction h with
  | last hc => exact fun hmem => ne_suffix_of_isDigitOf hc (List.mem_singleton.mp hmem).symm
  | more hc _ ih =>
    rintro (_ | ⟨_, hmem⟩)
    · cases hc
    · exact ih hmem
  | separated hc _ ih =>
    rintro (_ | ⟨_, _ | ⟨_, hmem⟩⟩)
    · cases hc
    · exact ih hmem

end DigitRun

theorem FractionPart.suffix_not_mem {fraction : List Char} (h : FractionPart fraction) : 'n' ∉ fraction := by
  cases h with
  | missing => exact List.not_mem_nil
  | point => decide
  | digits hds =>
    rintro (_ | ⟨_, hmem⟩)
    exact hds.suffix_not_mem hmem

theorem ExponentPart.suffix_not_mem {power : List Char} (h : ExponentPart power) : 'n' ∉ power := by
  cases h with
  | missing => exact List.not_mem_nil
  | plain hmark hds =>
    rintro (_ | ⟨_, hmem⟩)
    · obtain hmark | hmark := hmark <;> exact absurd hmark (by decide)
    · exact hds.suffix_not_mem hmem
  | signed hmark hsign hds =>
    rintro (_ | ⟨_, _ | ⟨_, hmem⟩⟩)
    · obtain hmark | hmark := hmark <;> exact absurd hmark (by decide)
    · obtain hsign | hsign := hsign <;> exact absurd hsign (by decide)
    · exact hds.suffix_not_mem hmem

theorem digits_suffix_not_mem {ds : List Char} (h : ∀ c ∈ ds, isDecimalDigit c = true) : 'n' ∉ ds :=
  fun hmem => absurd (h 'n' hmem) (by decide)

theorem numericKind_of_not_mem {found : List Char} (h : 'n' ∉ found) :
    numericKind found = .number (found.head? = some '0' && found.tail.head?.any isDecimalDigit) :=
  if_neg fun hlast => h (List.mem_of_getLast? hlast)

theorem numericKind_big (found : List Char) : numericKind (found ++ ['n']) = .bigInt :=
  if_pos List.getLast?_concat

/-! ## Reading the longest literal -/

/-- The longest literal that the text begins with is read, unless what is behind it runs on. -/
def ReadsLongest (text : List Char) : Prop :=
  ∃ found rest, text = found ++ rest ∧ LongestPrefix NumericLiteral text found ∧
    Completes numeral found rest (numericKind found)

section

variable {whole fraction power rest : List Char}

theorem TailBefore.suffix_not_mem (h : TailBefore fraction power rest) : 'n' ∉ fraction ++ power :=
  List.not_mem_append h.fraction.maximal.holds.suffix_not_mem h.power.maximal.holds.suffix_not_mem

/-- The tail of a literal does not begin with a digit. -/
theorem TailBefore.digit_eq_false (h : TailBefore fraction power rest) :
    (fraction ++ power).head?.any isDecimalDigit = false := by
  rw [List.head?_append]
  cases h.fraction.maximal.holds with
  | missing =>
    cases h.power.maximal.holds with
    | missing => rfl
    | plain hmark | signed hmark => obtain rfl | rfl := hmark <;> rfl
  | point | digits => rfl

/-- A decimal literal that is no legacy one. -/
theorem decimal_reads {text : List Char} (htext : text = whole ++ (fraction ++ (power ++ rest)))
    (hwhole : WholePart whole) (hds : DigitsBefore 10 whole (fraction ++ (power ++ rest)))
    (hmaximal : Maximal WithinDigits AnyWhole whole (fraction ++ (power ++ rest))) (h : TailBefore fraction power rest)
    (hnumeral : numeral text = decimalNumeral text)
    (hfirst : (whole ++ (fraction ++ power)).head? = some '0' →
      (whole ++ (fraction ++ power)).tail.head?.any isDecimalDigit = false)
    (hradix : ∀ mark radix behind, RadixMark mark radix → '0' :: mark :: behind ≠ text)
    (hoctal : ∀ c behind, isOctalDigit c = true → '0' :: c :: behind ≠ text) : ReadsLongest text := by
  have hnoRadix (mark : Char) (radix : Nat) (ds behind found : List Char) (hmark : RadixMark mark radix)
      (_ : DigitRun radix ds) (heq : '0' :: mark :: ds ++ behind = text) :
      ds.length + 2 ≤ found.length ∧ (behind.head? = some 'n' → ds.length + 3 ≤ found.length) :=
    absurd heq (hradix mark radix _ hmark)
  have hnoOctal (ds behind found : List Char) (hne : ds ≠ []) (hds : ∀ c ∈ ds, isOctalDigit c = true)
      (heq : '0' :: ds ++ behind = text) : ds.length + 1 ≤ found.length := by
    obtain ⟨c, more, rfl⟩ := List.exists_cons_of_ne_nil hne
    exact absurd heq (hoctal c _ (hds c List.mem_cons_self))
  by_cases hbig : (fraction ++ (power ++ rest)).head? = some 'n'
  · obtain ⟨rfl, rfl⟩ := h.eq_nil (by decide) (by unfold IsPowerMark; decide) hbig
    obtain ⟨rest, rfl⟩ := List.head?_eq_some_iff.mp hbig
    have hsplit : text = whole ++ ['n'] ++ rest := by
      rw [htext, List.append_assoc]
      rfl
    refine ⟨whole ++ ['n'], rest, hsplit, ?_, ?_⟩
    · refine longest_of_whole htext hmaximal h ⟨rest, hsplit.symm⟩ (.big hwhole) ?_ ?_ ?_ ?_
      · simp
      · simp
      · exact fun mark radix ds behind => hnoRadix mark radix ds behind _
      · exact fun ds behind => hnoOctal ds behind _
    · exact (decimalNumeral_completes_big hds).of_eq (hsplit ▸ hnumeral) (numericKind_big whole)
  · have hsplit : text = whole ++ (fraction ++ power) ++ rest := by
      rw [htext]
      simp only [List.append_assoc]
    have hnone : 'n' ∉ whole ++ (fraction ++ power) := by
      refine List.not_mem_append ?_ h.suffix_not_mem
      cases hwhole with
      | zero => decide
      | digits hds => exact hds.suffix_not_mem
    refine ⟨whole ++ (fraction ++ power), rest, hsplit, ?_, ?_⟩
    · refine longest_of_whole htext hmaximal h ⟨rest, hsplit.symm⟩ ?_ (Nat.le_refl _) (fun _ hn => absurd hn hbig) ?_ ?_
      · rw [← List.append_assoc]
        exact .decimal (.inl hwhole) h.fraction.maximal.holds h.power.maximal.holds
      · exact fun mark radix ds behind => hnoRadix mark radix ds behind _
      · exact fun ds behind => hnoOctal ds behind _
    · refine (decimalNumeral_completes hds h fun hnil hn => hbig ?_).of_eq (hsplit ▸ hnumeral) ?_
      · rw [← List.append_assoc, hnil]
        exact hn
      · rw [numericKind_of_not_mem hnone]
        congr 1
        by_cases hzero : (whole ++ (fraction ++ power)).head? = some '0'
        · rw [hfirst hzero, Bool.and_false]
        · rw [decide_eq_false hzero, Bool.false_and]

end

section

variable {rest : List Char}

theorem tail_of_separator (h : rest.head? = some '_') : TailBefore [] [] rest where
  fraction := .missing fun hpoint => absurd (hpoint.symm.trans h) (by decide)
  power := .missing fun c hc => by
    obtain rfl : '_' = c := Option.some.inj (h.symm.trans hc)
    unfold IsPowerMark
    decide

/-- Digits of which the first is not zero. -/
theorem reads_digits {c : Char} (hc : isDecimalDigit c = true) (hzero : c ≠ '0') : ReadsLongest (c :: rest) := by
  have hdigit : (c :: rest).head?.any (isDigitOf 10) = true := isDigitOf_ten hc
  obtain ⟨ds, tail, htext, hds, htail⟩ := DigitRun.exists_split hdigit
  obtain ⟨fraction, power, rest', rfl, h⟩ := TailBefore.exists_split tail
  obtain ⟨d, more, rfl, _⟩ := hds.exists_cons
  obtain rfl : c = d := (List.cons.inj htext).1
  have hhead : (c :: more).head? ≠ some '0' := fun h => hzero (Option.some.inj h)
  have hpoint : c ≠ '.' := by
    rintro rfl
    cases hc
  refine decimal_reads htext (.digits hds hhead) (.run hds htail) (AnyWhole.maximal_digits hds hhead htail)
    h ?_ ?_ ?_ ?_
  · simp [numeral, hpoint, hzero]
  · exact fun h => absurd (Option.some.inj h) hzero
  · exact fun mark radix behind _ heq => hzero (List.cons.inj heq).1.symm
  · exact fun d behind _ heq => hzero (List.cons.inj heq).1.symm

/-- A zero before what is neither a digit nor the mark of a radix. -/
theorem reads_zero (hdigit : rest.head?.any isDecimalDigit = false) (hmark : ∀ c ∈ rest.head?, radixMark? c = none) :
    ReadsLongest ('0' :: rest) := by
  have hlegacy (ds behind : List Char) (h : LegacyDecimal ('0' :: ds)) : ds ++ behind ≠ rest := by
    rintro rfl
    obtain ⟨hds, c, hc, _⟩ := h
    obtain ⟨d, more, rfl⟩ := List.exists_cons_of_ne_nil (List.ne_nil_of_mem hc)
    exact Bool.eq_false_iff.mp hdigit (hds d List.mem_cons_self)
  have hmaximal := AnyWhole.maximal_zero hlegacy
  have hradix (mark : Char) (radix : Nat) (behind : List Char) (hmark' : RadixMark mark radix) :
      '0' :: mark :: behind ≠ '0' :: rest := by
    intro heq
    rw [← (List.cons.inj heq).2] at hmark
    cases (hmark mark rfl).symm.trans hmark'.radixMark?
  have hoctal (c : Char) (behind : List Char) (hc : isOctalDigit c = true) : '0' :: c :: behind ≠ '0' :: rest := by
    intro heq
    rw [← (List.cons.inj heq).2] at hdigit
    exact absurd (isDecimalDigit_of_isOctalDigit hc) (Bool.eq_false_iff.mp hdigit)
  by_cases hseparator : rest.head? = some '_'
  · have htail := tail_of_separator hseparator
    refine ⟨['0'], rest, rfl, ?_, fun _ => ?_, fun hrest => absurd (runsOn_separator hseparator) hrest⟩
    · have hsplit : '0' :: rest = ['0'] ++ ([] ++ ([] ++ rest)) := rfl
      refine longest_of_whole hsplit hmaximal htail ⟨rest, rfl⟩ (.decimal (.inl .zero) .missing .missing)
        (Nat.le_refl 1) ?_ ?_ ?_
      · exact fun _ hn => absurd (hseparator.symm.trans hn) (by decide)
      · exact fun mark radix ds behind hmark _ heq => absurd heq (hradix mark radix _ hmark)
      · intro ds behind hne hds heq
        obtain ⟨c, more, rfl⟩ := List.exists_cons_of_ne_nil hne
        exact absurd heq (hoctal c _ (hds c List.mem_cons_self))
    · obtain ⟨tail, rfl⟩ := List.head?_eq_some_iff.mp hseparator
      exact ⟨0, .separatorAfterLeadingZero, rfl⟩
  · obtain ⟨fraction, power, rest', rfl, h⟩ := TailBefore.exists_split rest
    have hended : Ended 10 (fraction ++ (power ++ rest')) := 
      ⟨any_isDigitOf_ten _ ▸ hdigit, fun h => absurd h hseparator⟩
    refine decimal_reads rfl .zero (.run (.last rfl) hended) hmaximal h ?_ (fun _ => h.digit_eq_false) hradix hoctal
    rcases htail : fraction ++ (power ++ rest') with _ | ⟨c, more⟩
    · rfl
    · rw [htail] at hdigit hmark hseparator
      have hc : ¬ c = '_' := fun h => hseparator (congrArg some h)
      have hnot : isDecimalDigit c = false := hdigit
      simp [numeral, hmark c rfl, hnot, hc]

/-- A zero and the mark of a radix. -/
theorem reads_radix {mark : Char} {radix : Nat} (hmark : RadixMark mark radix) :
    ReadsLongest ('0' :: mark :: rest) := by
  obtain ⟨hdigit, hpoint, hpower, hbig, hseparator, hruns⟩ := hmark.ne
  have heq : numeral ('0' :: mark :: rest) = radixNumeral radix ('0' :: mark :: rest) := by
    simp [numeral, hmark.radixMark?]
  have hlegacy (ds behind : List Char) (h : LegacyDecimal ('0' :: ds)) : ds ++ behind ≠ mark :: rest := by
    obtain ⟨hds, c, hc, _⟩ := h
    obtain ⟨d, more, rfl⟩ := List.exists_cons_of_ne_nil (List.ne_nil_of_mem hc)
    rintro htext
    obtain rfl : d = mark := (List.cons.inj htext).1
    exact Bool.eq_false_iff.mp hdigit (hds d List.mem_cons_self)
  have hmaximal := AnyWhole.maximal_zero hlegacy
  have htail : TailBefore [] [] (mark :: rest) := by
    refine ⟨.missing fun h => hpoint (Option.some.inj h), .missing fun c hc => ?_⟩
    obtain rfl : mark = c := Option.some.inj hc
    exact hpower
  have hn {n : Nat} (_ : WholePart ['0']) : ([] ++ ([] ++ mark :: rest)).head? = some 'n' → 2 ≤ n :=
    fun h => absurd (Option.some.inj h) hbig
  have hzero : '0' :: mark :: rest = ['0'] ++ ([] ++ ([] ++ mark :: rest)) := rfl
  have hoctal (n : Nat) (ds behind : List Char) (hne : ds ≠ []) (hds : ∀ c ∈ ds, isOctalDigit c = true)
      (htext : '0' :: ds ++ behind = '0' :: mark :: rest) : ds.length + 1 ≤ n := by
    obtain ⟨c, more, rfl⟩ := List.exists_cons_of_ne_nil hne
    obtain rfl : c = mark := (List.cons.inj (List.cons.inj htext).2).1
    exact absurd (isDecimalDigit_of_isOctalDigit (hds c List.mem_cons_self)) (Bool.eq_false_iff.mp hdigit)
  have hsame {mark' : Char} {radix' : Nat} {more : List Char} (hmark' : RadixMark mark' radix')
      (htext : '0' :: mark' :: more = '0' :: mark :: rest) : radix' = radix ∧ more = rest := by
    obtain ⟨rfl, hmore⟩ := List.cons.inj (List.cons.inj htext).2
    exact ⟨Option.some.inj (hmark'.radixMark?.symm.trans hmark.radixMark?), hmore⟩
  by_cases hdigits : rest.head?.any (isDigitOf radix) = true
  · obtain ⟨ds, rest', rfl, hds, hrest⟩ := DigitRun.exists_split hdigits
    have hothers {mark' : Char} {radix' : Nat} {ds' behind : List Char} (hmark' : RadixMark mark' radix')
        (hds' : DigitRun radix' ds') (htext : '0' :: mark' :: ds' ++ behind = '0' :: mark :: (ds ++ rest')) :
        ds'.length ≤ ds.length ∧ (behind.head? = some 'n' → ds' = ds ∧ rest'.head? = some 'n') := by
      obtain ⟨rfl, hmore⟩ := hsame hmark' htext
      obtain rfl | ⟨c, more, rfl, hc⟩ := (hds.maximal hrest).others hmore hds'
      · refine ⟨Nat.le_refl _, fun hbehind => ⟨rfl, ?_⟩⟩
        rw [← List.append_cancel_left hmore, hbehind]
      · refine ⟨by simp, fun hbehind => ?_⟩
        rw [List.append_assoc] at hmore
        rw [List.append_cancel_left hmore] at hbehind
        obtain rfl : c = 'n' := Option.some.inj hbehind
        obtain hc | hc := hc <;> cases hc
    by_cases hsuffix : rest'.head? = some 'n'
    · obtain ⟨rest', rfl⟩ := List.head?_eq_some_iff.mp hsuffix
      have hsplit : '0' :: mark :: (ds ++ 'n' :: rest') = '0' :: mark :: ds ++ ['n'] ++ rest' := by simp
      refine ⟨'0' :: mark :: ds ++ ['n'], rest', hsplit, ?_, ?_⟩
      · refine longest_of_whole hzero hmaximal htail ⟨rest', hsplit.symm⟩ (.bigRadix hmark hds) (by simp) hn ?_
          (hoctal _)
        intro mark' radix' ds' behind hmark' hds' htext
        have hle := (hothers hmark' hds' htext).1
        simp only [List.length_append, List.length_cons, List.length_nil]
        omega
      · exact (radixNumeral_completes_big hds hrest).of_eq (hsplit ▸ heq) (numericKind_big _)
    · refine ⟨'0' :: mark :: ds, rest', rfl, ?_, ?_⟩
      · refine longest_of_whole hzero hmaximal htail ⟨rest', rfl⟩ (.radix hmark hds) (by simp) hn ?_ (hoctal _)
        intro mark' radix' ds' behind hmark' hds' htext
        obtain ⟨hle, hbehind⟩ := hothers hmark' hds' htext
        exact ⟨Nat.add_le_add_right hle 2, fun h => absurd (hbehind h).2 hsuffix⟩
      · refine (radixNumeral_completes hds hrest hsuffix).of_eq heq ?_
        have hnone : 'n' ∉ '0' :: mark :: ds := by
          rintro (_ | ⟨_, _ | ⟨_, hmem⟩⟩)
          · exact hbig rfl
          · exact hds.suffix_not_mem hmem
        rw [numericKind_of_not_mem hnone]
        simp [hdigit]
  · have hnone := Bool.eq_false_iff.mpr hdigits
    refine ⟨['0'], mark :: rest, rfl, ?_, fun _ => ?_, fun hrest => absurd hruns hrest⟩
    · refine longest_of_whole hzero hmaximal htail ⟨mark :: rest, rfl⟩ (.decimal (.inl .zero) .missing .missing)
        (Nat.le_refl 1) hn ?_ (hoctal _)
      intro mark' radix' ds behind hmark' hds htext
      obtain ⟨rfl, rfl⟩ := hsame hmark' htext
      obtain ⟨c, more, rfl, hc⟩ := hds.exists_cons
      exact absurd hc (Bool.eq_false_iff.mp hnone)
    · rw [show ['0'] ++ mark :: rest = '0' :: mark :: rest from rfl, heq]
      exact radixNumeral_fails hnone

/-- A zero and another digit. -/
theorem reads_legacy {d : Char} (hd : isDecimalDigit d = true) : ReadsLongest ('0' :: d :: rest) := by
  have hradix : radixMark? d = none := by
    cases hradix : radixMark? d with
    | none => rfl
    | some radix => exact absurd hd (Bool.eq_false_iff.mp (radixMark_of_eq hradix).ne.1)
  have heq : numeral ('0' :: d :: rest) = legacyNumeral ('0' :: d :: rest) := by
    simp [numeral, hradix, hd]
  have hnoRadix (found : List Char) (mark : Char) (radix : Nat) (ds behind : List Char) (hmark : RadixMark mark radix)
      (_ : DigitRun radix ds) (htext : '0' :: mark :: ds ++ behind = '0' :: d :: rest) :
      ds.length + 2 ≤ found.length ∧ (behind.head? = some 'n' → ds.length + 3 ≤ found.length) := by
    obtain rfl : mark = d := (List.cons.inj (List.cons.inj htext).2).1
    exact absurd hd (Bool.eq_false_iff.mp hmark.ne.1)
  obtain ⟨ds, tail, htail, hne, hds, hbehind⟩ : ∃ ds tail, d :: rest = ds ++ tail ∧ ds ≠ [] ∧
      (∀ c ∈ ds, isDecimalDigit c = true) ∧ tail.head?.any isDecimalDigit = false := by
    refine ⟨d :: rest.takeWhile isDecimalDigit, rest.dropWhile isDecimalDigit, ?_, List.cons_ne_nil _ _, ?_, ?_⟩
    · rw [List.cons_append, List.takeWhile_append_dropWhile]
    · rintro c (_ | ⟨_, hc⟩)
      · exact hd
      · exact List.all_eq_true.mp List.all_takeWhile c hc
    · have := List.head?_dropWhile_not isDecimalDigit rest
      cases hdrop : (rest.dropWhile isDecimalDigit).head? with
      | none => rfl
      | some c =>
        rw [hdrop] at this
        simpa using this
  rw [htail] at heq hnoRadix ⊢
  have hoctals (other behind : List Char) (hother : ∀ c ∈ other, isOctalDigit c = true)
      (htext : '0' :: other ++ behind = '0' :: (ds ++ tail)) : other.length ≤ ds.length := by
    obtain ⟨more, rfl⟩ := mem_of_digits (List.cons.inj htext).2
      (fun c hc => isDecimalDigit_of_isOctalDigit (hother c hc)) hbehind
    rw [List.length_append]
    exact Nat.le_add_right _ _
  have hkind (found : List Char) (hnone : 'n' ∉ found) : numericKind ('0' :: (ds ++ found)) = .number true := by
    obtain ⟨c, more, rfl⟩ := List.exists_cons_of_ne_nil hne
    rw [numericKind_of_not_mem]
    · simp [hds c List.mem_cons_self]
    · rintro (_ | ⟨_, hmem⟩)
      exact List.not_mem_append (digits_suffix_not_mem hds) hnone hmem
  have hzero : ∀ c ∈ '0' :: ds, isDecimalDigit c = true := List.forall_mem_cons.mpr ⟨rfl, hds⟩
  by_cases height : ∃ c ∈ ds, c = '8' ∨ c = '9'
  · obtain ⟨fraction, power, rest', rfl, h⟩ := TailBefore.exists_split tail
    have hmaximal := AnyWhole.maximal_legacy hds height hbehind
    have hsplit : '0' :: (ds ++ (fraction ++ (power ++ rest'))) = '0' :: ds ++ (fraction ++ power) ++ rest' := by simp
    refine ⟨'0' :: ds ++ (fraction ++ power), rest', hsplit, ?_, ?_⟩
    · refine longest_of_whole rfl hmaximal h ⟨rest', hsplit.symm⟩ ?_ (Nat.le_refl _) ?_ (hnoRadix _) ?_
      · rw [← List.append_assoc]
        exact .decimal (.inr ⟨hds, height⟩) h.fraction.maximal.holds h.power.maximal.holds
      · intro hwhole
        cases hwhole with
        | zero => exact absurd rfl hne
        | digits _ h => exact absurd rfl h
      · intro other behind _ hother htext
        refine Nat.le_trans (Nat.succ_le_succ (hoctals other behind hother htext)) ?_
        rw [List.length_append]
        exact Nat.le_add_right _ _
    · obtain ⟨c, hc, height⟩ := height
      exact (legacyNumeral_completes hzero ⟨c, List.mem_cons_of_mem _ hc, height⟩ hbehind h).of_eq (hsplit ▸ heq)
        (hkind _ h.suffix_not_mem)
  · have hoctal : ∀ c ∈ ds, isOctalDigit c = true := fun c hc =>
      isOctalDigit_of_isDecimalDigit (hds c hc) fun h => height ⟨c, hc, h⟩
    have hmaximal : Maximal WithinDigits AnyWhole ['0'] (ds ++ tail) := by
      refine AnyWhole.maximal_zero fun other behind hother htext => ?_
      obtain ⟨hother, c, hc, hheight⟩ := hother
      obtain ⟨more, rfl⟩ := mem_of_digits htext hother hbehind
      exact height ⟨c, List.mem_append_left _ hc, hheight⟩
    have hhead {c : Char} (hc : isDecimalDigit c = false) : (ds ++ tail).head? ≠ some c := by
      obtain ⟨e, more, rfl⟩ := List.exists_cons_of_ne_nil hne
      rintro ⟨⟩
      exact absurd (hds _ List.mem_cons_self) (Bool.eq_false_iff.mp hc)
    have htail : TailBefore [] [] (ds ++ tail) := by
      refine ⟨.missing (hhead rfl), .missing fun c hc => ?_⟩
      rintro (rfl | rfl) <;> exact hhead rfl hc
    refine ⟨'0' :: ds, tail, rfl, ?_, ?_⟩
    · refine longest_of_whole rfl hmaximal htail ⟨tail, rfl⟩ (.legacyOctal hne hoctal) (by simp) ?_
        (hnoRadix _) ?_
      · exact fun _ hn => absurd hn (hhead rfl)
      · exact fun other behind _ hother htext => Nat.succ_le_succ (hoctals other behind hother htext)
    · refine (legacyNumeral_completes_octal hzero (List.forall_mem_cons.mpr ⟨rfl, hoctal⟩) hbehind).of_eq heq ?_
      rw [← List.append_nil ds]
      exact hkind [] List.not_mem_nil

/-- A point and a digit. -/
theorem reads_point (hdigit : rest.head?.any isDecimalDigit = true) : ReadsLongest ('.' :: rest) := by
  rw [← any_isDigitOf_ten] at hdigit
  obtain ⟨ds, tail, rfl, hds, hrest⟩ := DigitRun.exists_split hdigit
  obtain ⟨power, rest', rfl, hpower⟩ := PowerBefore.exists_split tail
  have hsplit : '.' :: (ds ++ (power ++ rest')) = '.' :: ds ++ power ++ rest' := by simp
  have hmaximal : Maximal (fun c => (isDigitOf 10 c = true ∨ c = '_') ∨ IsPowerMark c ∨ WithinDigits c)
      (Joined (DigitRun 10) ExponentPart) (ds ++ power) rest' := by
    refine (hds.maximal hrest).append hpower.maximal fun c more hpart hc => ?_
    have hmark : IsPowerMark c := by cases hpart <;> assumption
    obtain rfl | rfl := hmark <;> exact absurd hc (by decide)
  refine ⟨'.' :: ds ++ power, rest', hsplit, ⟨⟨rest', hsplit.symm⟩, .point hds hpower.maximal.holds, ?_⟩, ?_⟩
  · rintro other ⟨behind, hother⟩ hliteral
    have hnot {c : Char} {more : List Char} (h : c :: more = '.' :: (ds ++ (power ++ rest'))) :
        isDecimalDigit c = false := by
      rw [(List.cons.inj h).1]
      rfl
    cases hliteral with
    | point hds' hpower' =>
      rw [List.append_assoc, List.cons_append] at hother
      have hmore := (List.cons.inj hother).2
      rw [← List.append_assoc, ← List.append_assoc] at hmore
      have hle := hmaximal.length_le hmore ⟨_, _, rfl, hds', hpower'⟩
      simp only [List.cons_append, List.length_cons]
      exact Nat.succ_le_succ hle
    | decimal hwhole =>
      obtain ⟨c, more, rfl, hc⟩ := AnyWhole.head hwhole
      exact absurd hc (Bool.eq_false_iff.mp (hnot hother))
    | big hwhole =>
      obtain ⟨c, more, rfl, hc⟩ := AnyWhole.head (.inl hwhole)
      exact absurd hc (Bool.eq_false_iff.mp (hnot hother))
    | radix | bigRadix | legacyOctal => exact absurd (hnot hother) (by decide)
  · refine (pointNumeral_completes (.run hds hrest) hpower).of_eq rfl ?_
    rw [numericKind_of_not_mem]
    · rfl
    · rintro (_ | ⟨_, hmem⟩)
      exact List.not_mem_append hds.suffix_not_mem hpower.maximal.holds.suffix_not_mem hmem

end

/-- Where a numeric literal begins, the longest one is read, unless what is behind it runs on. -/
theorem numeral_takes_longest {text : List Char} (h : beginsNumeral text = true) : ReadsLongest text := by
  match text, h with
  | c :: rest, h =>
    by_cases hpoint : c = '.'
    · subst hpoint
      refine reads_point ?_
      rw [beginsNumeral, show isDecimalDigit '.' = false from rfl, Bool.false_or] at h
      simpa using h
    have hc : isDecimalDigit c = true := by simpa [beginsNumeral, hpoint] using h
    by_cases hzero : c = '0'
    · subst hzero
      rcases rest with _ | ⟨d, rest⟩
      · exact reads_zero rfl nofun
      by_cases hd : isDecimalDigit d = true
      · exact reads_legacy hd
      cases hmark : radixMark? d with
      | none => exact reads_zero (Bool.eq_false_iff.mpr hd) fun e he => by rwa [← Option.some.inj he]
      | some radix => exact reads_radix (radixMark_of_eq hmark)
    · exact reads_digits hc hzero

/-- A digit, or a point before one, is read as a numeric literal under every goal. -/
theorem element_of_beginsNumeral (sentinel : Bool) (goal : LexicalGoal) {text : List Char}
    (h : beginsNumeral text = true) : element sentinel goal text = (numeral text).reportedAt 0 := by
  match text, h with
  | c :: rest, h =>
    have hnot {d : Char} (hdigit : isDecimalDigit d = false) (hpoint : d ≠ '.') : c ≠ d := by
      rintro rfl
      simp [beginsNumeral, hdigit, hpoint] at h
    have hclose : c ≠ '}' := hnot rfl (by decide)
    have hslash : c ≠ '/' := hnot rfl (by decide)
    have hdouble : c ≠ '"' := hnot rfl (by decide)
    have hsingle : c ≠ '\'' := hnot rfl (by decide)
    have hgrave : c ≠ '\x60' := hnot rfl (by decide)
    have hnumeral : (isDecimalDigit c || (c = '.' && rest.head?.any isDecimalDigit)) = true := h
    simp only [element, hclose, hslash, hdouble, hsingle, hgrave, decide_false, Bool.false_and, Bool.or_self,
      Bool.false_eq_true, if_false, if_pos hnumeral]

end Lexical

open Lexical

/-- Where a numeric literal begins, the next token is the longest one. If a name, a digit or an escape runs on behind
it, the text is malformed where it begins. -/
theorem Scanner.next_numeral {goal : LexicalGoal} {s : Scanner} {n : Nat} {newline : Bool}
    (hgap : s.skipGap goal = ⟨n, .ok newline⟩) (hbegins : beginsNumeral (s.advance n).rest = true) :
    ∃ literal rest, (s.advance n).rest = literal ++ rest ∧ LongestPrefix NumericLiteral (s.advance n).rest literal ∧
      (RunsOn rest → ∃ e, (s.next goal).1 = .error (.lexical e (s.advance n).position)) ∧
      (¬ RunsOn rest → s.next goal = (.ok ⟨numericKind literal, (s.advance n).position,
        ((s.advance n).advance literal.length).position, String.ofList literal, newline⟩,
        (s.advance n).advance literal.length)) := by
  obtain ⟨literal, rest, hrest, hlongest, hruns, hends⟩ := numeral_takes_longest hbegins
  refine ⟨literal, rest, hrest, hlongest, fun h => ?_, fun h => ?_⟩
  all_goals
    have hne : (s.advance n).rest ≠ [] := by
      intro hnil
      rw [hnil] at hbegins
      cases hbegins
    have helement := element_of_beginsNumeral s.source.sentinel goal hbegins
  · obtain ⟨k, e, heq⟩ := hruns h
    rw [hrest, heq] at helement
    exact ⟨e, next_misread hgap hne (hrest ▸ helement)⟩
  · rw [hrest, hends h] at helement
    rw [next_token hgap hne (hrest ▸ helement), hrest, List.take_left]

/-- A big integer in radix sixteen, behind a blank. -/
theorem Scanner.next_numeral_hexadecimal :
    let s := Scanner.ofSource (.ofText " 0xF_Fn;".toList)
    s.skipGap .division = ⟨1, .ok false⟩ ∧ beginsNumeral (s.advance 1).rest = true ∧
      ∃ literal rest, (s.advance 1).rest = literal ++ rest ∧ LongestPrefix NumericLiteral (s.advance 1).rest literal ∧
        (RunsOn rest → ∃ e, (s.next .division).1 = .error (.lexical e (s.advance 1).position)) ∧
        (¬ RunsOn rest → s.next .division = (.ok ⟨numericKind literal, (s.advance 1).position,
          ((s.advance 1).advance literal.length).position, String.ofList literal, false⟩,
          (s.advance 1).advance literal.length)) := by
  intro s
  have hgap : s.skipGap .division = ⟨1, .ok false⟩ :=
    (gapFrom_space (by decide +kernel) (by decide +kernel)).trans
      (gapFrom_other (by decide +kernel) (by decide +kernel) (by decide))
  have hbegins : beginsNumeral (s.advance 1).rest = true := by decide
  exact ⟨hgap, hbegins, next_numeral hgap hbegins⟩

end EcmaCheck
