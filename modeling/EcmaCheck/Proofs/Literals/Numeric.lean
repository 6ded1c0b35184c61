import EcmaCheck.Proofs.Lexical.Numeral

/-!
# The grammar of numeric literals

Which texts are numeric literals (`NumericLiteral`), and how far each part of one goes in a text that begins with it
(`DigitsBefore`, `FractionBefore`, `PowerBefore`).

A literal is made of parts, each of which may stop early. A part that is as long as it can be is only stopped early
before characters that no later part begins with (`Maximal`), so parts as long as they can be make up a literal that is
(`Maximal.append`).
-/

namespace EcmaCheck

namespace Lexical

open Lexer

/-! ## Literals -/

/-- Digits of the radix, with single underscores between them. -/
inductive DigitRun (radix : Nat) : List Char → Prop
  | last {c : Char} (hc : isDigitOf radix c = true) : DigitRun radix [c]
  | more {c : Char} {ds : List Char} (hc : isDigitOf radix c = true) (hds : DigitRun radix ds) :
    DigitRun radix (c :: ds)
  | separated {c : Char} {ds : List Char} (hc : isDigitOf radix c = true) (hds : DigitRun radix ds) :
    DigitRun radix (c :: '_' :: ds)

/-- What a decimal literal and a big integer begin with: a zero, or digits of which the first is none. -/
inductive WholePart : List Char → Prop
  | zero : WholePart ['0']
  | digits {ds : List Char} (hds : DigitRun 10 ds) (hzero : ds.head? ≠ some '0') : WholePart ds

/-- A zero and digits without underscores, some of which is eight or nine. -/
inductive LegacyDecimal : List Char → Prop
  | intro {ds : List Char} (hds : ∀ c ∈ ds, isDecimalDigit c = true) (height : ∃ c ∈ ds, c = '8' ∨ c = '9') :
    LegacyDecimal ('0' :: ds)

/-- The point of a decimal literal and the digits after it, all of which may be missing. -/
inductive FractionPart : List Char → Prop
  | missing : FractionPart []
  | point : FractionPart ['.']
  | digits {ds : List Char} (hds : DigitRun 10 ds) : FractionPart ('.' :: ds)

/-- The exponent of a decimal literal, which may be missing. -/
inductive ExponentPart : List Char → Prop
  | missing : ExponentPart []
  | plain {mark : Char} {ds : List Char} (hmark : mark = 'e' ∨ mark = 'E') (hds : DigitRun 10 ds) :
    ExponentPart (mark :: ds)
  | signed {mark sign : Char} {ds : List Char} (hmark : mark = 'e' ∨ mark = 'E') (hsign : sign = '+' ∨ sign = '-')
    (hds : DigitRun 10 ds) : ExponentPart (mark :: sign :: ds)

/-- The letters that mark a radix. -/
inductive RadixMark : Char → Nat → Prop
  | hexadecimal {mark : Char} (h : mark = 'x' ∨ mark = 'X') : RadixMark mark 16
  | octal {mark : Char} (h : mark = 'o' ∨ mark = 'O') : RadixMark mark 8
  | binary {mark : Char} (h : mark = 'b' ∨ mark = 'B') : RadixMark mark 2

/-- The numeric literals, with the legacy ones. -/
inductive NumericLiteral : List Char → Prop
  | decimal {whole fraction power : List Char} (hwhole : WholePart whole ∨ LegacyDecimal whole)
    (hfraction : FractionPart fraction) (hpower : ExponentPart power) : NumericLiteral (whole ++ fraction ++ power)
  | point {ds power : List Char} (hds : DigitRun 10 ds) (hpower : ExponentPart power) :
    NumericLiteral ('.' :: ds ++ power)
  | big {whole : List Char} (hwhole : WholePart whole) : NumericLiteral (whole ++ ['n'])
  | radix {mark : Char} {radix : Nat} {ds : List Char} (hmark : RadixMark mark radix) (hds : DigitRun radix ds) :
    NumericLiteral ('0' :: mark :: ds)
  | bigRadix {mark : Char} {radix : Nat} {ds : List Char} (hmark : RadixMark mark radix) (hds : DigitRun radix ds) :
    NumericLiteral ('0' :: mark :: ds ++ ['n'])
  | legacyOctal {ds : List Char} (hne : ds ≠ []) (hds : ∀ c ∈ ds, isOctalDigit c = true) : NumericLiteral ('0' :: ds)

/-- The kind of token that a numeric literal is. -/
def numericKind (literal : List Char) : TokenKind :=
  if literal.getLast? = some 'n' then .bigInt
  else .number (literal.head? = some '0' && literal.tail.head?.any isDecimalDigit)

/-- A numeric literal does not end before the character. -/
def runsOn (c : Char) : Bool :=
  c = '\\' || isDecimalDigit c || isIdentifierStart c

/-- A numeric literal begins where a digit stands, or a point with a digit behind it. -/
def beginsNumeral : List Char → Bool
  | c :: rest => isDecimalDigit c || c = '.' && rest.head?.any isDecimalDigit
  | [] => false

/-- The longest of the beginnings of a text that are as required. -/
structure LongestPrefix (required : List Char → Prop) (text found : List Char) : Prop where
  isPrefix : found <+: text
  holds : required found
  longest : ∀ other, other <+: text → required other → other.length ≤ found.length

/-! ## Parts as long as they can be -/

/-- Any other part that a text begins with stops early, before a character within the one found. -/
structure Maximal (inner : Char → Prop) (part : List Char → Prop) (found rest : List Char) : Prop where
  holds : part found
  others {other behind : List Char} : other ++ behind = found ++ rest → part other →
    other = found ∨ ∃ c more, found = other ++ c :: more ∧ inner c

/-- A part followed by another. -/
def Joined (first second : List Char → Prop) (text : List Char) : Prop :=
  ∃ a b, text = a ++ b ∧ first a ∧ second b

namespace Maximal

variable {inner inner' : Char → Prop} {part part' : List Char → Prop} {found found' rest : List Char}

theorem length_le (h : Maximal inner part found rest) {other behind : List Char}
    (htext : other ++ behind = found ++ rest) (hother : part other) : other.length ≤ found.length := by
  obtain rfl | ⟨c, more, rfl, _⟩ := h.others htext hother
  · exact Nat.le_refl _
  · rw [List.length_append]
    exact Nat.le_add_right _ _

/-- What follows a part that stopped early does not begin the next one. -/
theorem append (h : Maximal inner part found (found' ++ rest)) (h' : Maximal inner' part' found' rest)
    (hfirst : ∀ c more, part' (c :: more) → ¬ inner c) :
    Maximal (fun c => inner c ∨ inner' c) (Joined part part') (found ++ found') rest where
  holds := ⟨found, found', rfl, h.holds, h'.holds⟩
  others := by
    rintro _ behind htext ⟨a, b, rfl, ha, hb⟩
    rw [List.append_assoc, List.append_assoc] at htext
    obtain rfl | ⟨c, more, rfl, hc⟩ := h.others htext ha
    · obtain rfl | ⟨c, more, rfl, hc⟩ := h'.others (List.append_cancel_left htext) hb
      · exact .inl rfl
      · exact .inr ⟨c, more, by rw [List.append_assoc], .inr hc⟩
    · rw [List.append_assoc] at htext
      cases b with
      | nil => exact .inr ⟨c, more ++ found', by simp, .inl hc⟩
      | cons d b =>
        obtain rfl : d = c := (List.cons.inj (List.append_cancel_left htext)).1
        exact absurd hc (hfirst d b hb)

/-- Where no part begins, a part that may be missing is. -/
theorem missing (hmissing : part []) (hnone : ∀ c more behind, rest = c :: more ++ behind → ¬ part (c :: more)) :
    Maximal inner part [] rest where
  holds := hmissing
  others {other behind} htext hother := by
    cases other with
    | nil => exact .inl rfl
    | cons c more => exact absurd hother (hnone c more behind htext.symm)

end Maximal

/-! ## Digits -/

/-- No digit follows, also not behind an underscore. -/
structure Ended (radix : Nat) (rest : List Char) : Prop where
  digit : rest.head?.any (isDigitOf radix) = false
  separator : rest.head? = some '_' → rest.tail.head?.any (isDigitOf radix) = false

theorem ne_underscore_of_isDigitOf {radix : Nat} {c : Char} (h : isDigitOf radix c = true) : c ≠ '_' := by
  rintro rfl
  cases h

namespace DigitRun

variable {radix : Nat} {ds rest : List Char}

theorem exists_cons (h : DigitRun radix ds) : ∃ c more, ds = c :: more ∧ isDigitOf radix c = true := by
  cases h with
  | last hc | more hc _ | separated hc _ => exact ⟨_, _, rfl, hc⟩

theorem maximal (h : DigitRun radix ds) (hrest : Ended radix rest) :
    Maximal (fun c => isDigitOf radix c = true ∨ c = '_') (DigitRun radix) ds rest where
  holds := h
  others {other behind} htext hother := by
    induction hother generalizing ds rest with
    | last hc =>
      cases h with
      | last => exact .inl (by rw [(List.cons.inj htext).1])
      | more _ hds =>
        obtain ⟨d, more, rfl, hd⟩ := hds.exists_cons
        exact .inr ⟨d, more, by rw [(List.cons.inj htext).1]; rfl, .inl hd⟩
      | separated _ hds => exact .inr ⟨'_', _, by rw [(List.cons.inj htext).1]; rfl, .inr rfl⟩
    | more hc hother ih =>
      obtain ⟨d, more, rfl, hd⟩ := hother.exists_cons
      cases h with
      | last =>
        have hdigit := hrest.digit
        rw [show rest = d :: (more ++ behind) from (List.cons.inj htext).2.symm] at hdigit
        exact absurd hd (Bool.eq_false_iff.mp hdigit)
      | more _ hds =>
        obtain ⟨rfl, hmore⟩ := List.cons.inj htext
        obtain heq | ⟨e, tail, rfl, he⟩ := ih hds hrest hmore
        · exact .inl (by rw [heq])
        · exact .inr ⟨e, tail, rfl, he⟩
      | separated _ hds =>
        exact absurd (List.cons.inj (List.cons.inj htext).2).1 (ne_underscore_of_isDigitOf hd)
    | separated hc hother ih =>
      obtain ⟨d, more, rfl, hd⟩ := hother.exists_cons
      cases h with
      | last =>
        have hseparator := hrest.separator
        rw [show rest = '_' :: d :: (more ++ behind) from (List.cons.inj htext).2.symm] at hseparator
        exact absurd hd (Bool.eq_false_iff.mp (hseparator rfl))
      | more _ hds =>
        obtain ⟨e, tail, rfl, he⟩ := hds.exists_cons
        exact absurd (List.cons.inj (List.cons.inj htext).2).1.symm (ne_underscore_of_isDigitOf he)
      | separated _ hds =>
        obtain ⟨rfl, hmore⟩ := List.cons.inj htext
        obtain heq | ⟨e, tail, heq, he⟩ := ih hds hrest (List.cons.inj hmore).2
        · exact .inl (by rw [heq])
        · exact .inr ⟨e, tail, by rw [heq]; rfl, he⟩

/-- Digits can be taken as far as they go. -/
theorem exists_split {text : List Char} (h : text.head?.any (isDigitOf radix) = true) :
    ∃ ds rest, text = ds ++ rest ∧ DigitRun radix ds ∧ Ended radix rest := by
  match text, h with
  | c :: rest, hc =>
    by_cases hdigit : rest.head?.any (isDigitOf radix) = true
    · obtain ⟨ds, rest', rfl, hds, hrest⟩ := exists_split hdigit
      exact ⟨c :: ds, rest', rfl, .more hc hds, hrest⟩
    by_cases hseparator : rest.head? = some '_' ∧ rest.tail.head?.any (isDigitOf radix) = true
    · obtain ⟨tail, rfl⟩ := List.head?_eq_some_iff.mp hseparator.1
      obtain ⟨ds, rest', rfl, hds, hrest⟩ := exists_split hseparator.2
      exact ⟨c :: '_' :: ds, rest', rfl, .separated hc hds, hrest⟩
    · refine ⟨[c], rest, rfl, .last hc, Bool.eq_false_iff.mpr hdigit, fun hhead => ?_⟩
      exact Bool.eq_false_iff.mpr fun htail => hseparator ⟨hhead, htail⟩

/-- The digits are taken, whatever was taken before them. -/
theorem digitsFrom_append (h : DigitRun radix ds) (count length : Nat) (separated : Bool) (rest : List Char) :
    ∃ count', 0 < count' ∧ digitsFrom radix count separated length (ds ++ rest) =
      digitsFrom radix count' false (length + ds.length) rest := by
  induction h generalizing count length separated with
  | last hc =>
    refine ⟨count + 1, Nat.succ_pos count, ?_⟩
    rw [List.singleton_append, digitsFrom, if_neg (ne_underscore_of_isDigitOf hc), if_pos hc]
    rfl
  | more hc _ ih =>
    obtain ⟨count', hcount, heq⟩ := ih (count + 1) (length + 1) false
    refine ⟨count', hcount, ?_⟩
    rw [List.cons_append, digitsFrom, if_neg (ne_underscore_of_isDigitOf hc), if_pos hc, heq, List.length_cons,
      Nat.add_assoc, Nat.add_comm 1]
  | separated hc _ ih =>
    obtain ⟨count', hcount, heq⟩ := ih (count + 1) (length + 1 + 1) true
    refine ⟨count', hcount, ?_⟩
    rw [List.cons_append, digitsFrom, if_neg (ne_underscore_of_isDigitOf hc), if_pos hc, List.cons_append, digitsFrom,
      if_pos rfl, if_neg (by simp), heq, List.length_cons, List.length_cons]
    simp only [Nat.add_assoc, Nat.add_comm 1]

end DigitRun

theorem digitsFrom_of_other {radix count length : Nat} {rest : List Char}
    (hdigit : rest.head?.any (isDigitOf radix) = false) (hseparator : rest.head? ≠ some '_') :
    digitsFrom radix count false length rest = ⟨length, .ok count⟩ := by
  cases rest with
  | nil => rfl
  | cons c rest =>
    have hc : c ≠ '_' := fun h => hseparator (congrArg some h)
    have hnot : ¬ isDigitOf radix c = true := Bool.eq_false_iff.mp hdigit
    rw [digitsFrom, if_neg hc, if_neg hnot, if_neg Bool.false_ne_true]

theorem digitsFrom_of_separator {radix count length : Nat} {rest : List Char} (h : Ended radix rest)
    (hseparator : rest.head? = some '_') : ∃ n e, digitsFrom radix count false length rest = ⟨n, .error e⟩ := by
  obtain ⟨tail, rfl⟩ := List.head?_eq_some_iff.mp hseparator
  rw [digitsFrom, if_pos rfl]
  split
  · exact ⟨_, _, rfl⟩
  cases tail with
  | nil => exact ⟨_, _, rfl⟩
  | cons c tail =>
    have hnot : ¬ isDigitOf radix c = true := Bool.eq_false_iff.mp (h.separator rfl)
    rw [digitsFrom, if_neg hnot, if_pos rfl]
    split
    · rw [if_pos (by rw [Bool.or_true])]
      exact ⟨_, _, rfl⟩
    · exact ⟨_, _, rfl⟩

/-- The digits there are before the rest, which may be none. -/
inductive DigitsBefore (radix : Nat) : List Char → List Char → Prop
  | none {rest : List Char} (hrest : rest.head?.any (isDigitOf radix) = false) : DigitsBefore radix [] rest
  | run {ds rest : List Char} (hds : DigitRun radix ds) (hrest : Ended radix rest) : DigitsBefore radix ds rest

namespace DigitsBefore

variable {radix : Nat} {ds rest : List Char}

theorem exists_split (radix : Nat) (text : List Char) : ∃ ds rest, text = ds ++ rest ∧ DigitsBefore radix ds rest := by
  by_cases h : text.head?.any (isDigitOf radix) = true
  · obtain ⟨ds, rest, rfl, hds, hrest⟩ := DigitRun.exists_split h
    exact ⟨ds, rest, rfl, .run hds hrest⟩
  · exact ⟨[], text, rfl, .none (Bool.eq_false_iff.mpr h)⟩

theorem digits_ok (h : DigitsBefore radix ds rest) (hseparator : rest.head? ≠ some '_') :
    ∃ count, (count = 0 ↔ ds = []) ∧ digits radix (ds ++ rest) = ⟨ds.length, .ok count⟩ := by
  cases h with
  | none hrest => exact ⟨0, by simp, digitsFrom_of_other hrest hseparator⟩
  | run hds hrest =>
    obtain ⟨count, hcount, heq⟩ := hds.digitsFrom_append 0 0 false rest
    obtain ⟨c, more, rfl, _⟩ := hds.exists_cons
    refine ⟨count, iff_of_false (Nat.ne_of_gt hcount) (List.cons_ne_nil _ _), heq.trans ?_⟩
    rw [digitsFrom_of_other hrest.digit hseparator, Nat.zero_add]

theorem digits_fails (h : DigitsBefore radix ds rest) (hseparator : rest.head? = some '_') :
    ∃ n e, digits radix (ds ++ rest) = ⟨n, .error e⟩ := by
  cases h with
  | none hrest =>
    obtain ⟨tail, rfl⟩ := List.head?_eq_some_iff.mp hseparator
    exact ⟨0, .misplacedSeparator, rfl⟩
  | run hds hrest =>
    obtain ⟨count, _, heq⟩ := hds.digitsFrom_append 0 0 false rest
    unfold digits
    rw [heq]
    exact digitsFrom_of_separator hrest hseparator

end DigitsBefore

/-! ## Fractions and exponents -/

/-- Characters within the digits of a decimal literal. -/
def WithinDigits (c : Char) : Prop :=
  isDigitOf 10 c = true ∨ c = '_'

/-- The fraction that a text begins with. -/
inductive FractionBefore : List Char → List Char → Prop
  | missing {rest : List Char} (h : rest.head? ≠ some '.') : FractionBefore [] rest
  | point {ds rest : List Char} (hds : DigitsBefore 10 ds rest) : FractionBefore ('.' :: ds) rest

namespace FractionBefore

variable {fraction rest : List Char}

theorem exists_split (text : List Char) : ∃ fraction rest, text = fraction ++ rest ∧ FractionBefore fraction rest := by
  by_cases h : text.head? = some '.'
  · obtain ⟨tail, rfl⟩ := List.head?_eq_some_iff.mp h
    obtain ⟨ds, rest, rfl, hds⟩ := DigitsBefore.exists_split 10 tail
    exact ⟨'.' :: ds, rest, rfl, .point hds⟩
  · exact ⟨[], text, rfl, .missing h⟩

theorem maximal (h : FractionBefore fraction rest) :
    Maximal (fun c => c = '.' ∨ WithinDigits c) FractionPart fraction rest := by
  cases h with
  | missing h =>
    refine .missing .missing fun c more behind hrest hpart => h ?_
    rw [hrest]
    cases hpart <;> rfl
  | @point ds _ hds =>
    refine ⟨?_, fun {other behind} htext hother => ?_⟩
    · cases hds with
      | none => exact .point
      | run hds => exact .digits hds
    · cases hother with
      | missing => exact .inr ⟨'.', ds, rfl, .inl rfl⟩
      | point =>
        cases hds with
        | none => exact .inl rfl
        | run hds =>
          obtain ⟨c, more, rfl, hc⟩ := hds.exists_cons
          exact .inr ⟨c, more, rfl, .inr (.inl hc)⟩
      | digits hother =>
        have hmore := (List.cons.inj htext).2
        cases hds with
        | none hrest =>
          obtain ⟨c, more, rfl, hc⟩ := hother.exists_cons
          rw [show rest = c :: (more ++ behind) from hmore.symm] at hrest
          exact absurd hc (Bool.eq_false_iff.mp hrest)
        | run hds hrest =>
          obtain rfl | ⟨c, more, rfl, hc⟩ := (hds.maximal hrest).others hmore hother
          · exact .inl rfl
          · exact .inr ⟨c, more, rfl, .inr hc⟩

end FractionBefore

/-- Whether an exponent may begin with the character. -/
def IsPowerMark (c : Char) : Prop :=
  c = 'e' ∨ c = 'E'

/-- Whether the character is a sign. -/
def IsSign (c : Char) : Prop :=
  c = '+' ∨ c = '-'

/-- The exponent that a text begins with. -/
inductive PowerBefore : List Char → List Char → Prop
  | missing {rest : List Char} (h : ∀ c ∈ rest.head?, ¬ IsPowerMark c) : PowerBefore [] rest
  | plain {mark : Char} {ds rest : List Char} (hmark : IsPowerMark mark) (hds : DigitRun 10 ds)
    (hrest : Ended 10 rest) :
    PowerBefore (mark :: ds) rest
  | signed {mark sign : Char} {ds rest : List Char} (hmark : IsPowerMark mark) (hsign : IsSign sign)
    (hds : DigitRun 10 ds) (hrest : Ended 10 rest) : PowerBefore (mark :: sign :: ds) rest
  /-- A mark without digits is no exponent. -/
  | empty {mark : Char} {rest : List Char} (hmark : IsPowerMark mark) (hrest : rest.head?.any (isDigitOf 10) = false)
    (hsign : ∀ c ∈ rest.head?, ¬ IsSign c) : PowerBefore [] (mark :: rest)
  | signedEmpty {mark sign : Char} {rest : List Char} (hmark : IsPowerMark mark) (hsign : IsSign sign)
    (hrest : rest.head?.any (isDigitOf 10) = false) : PowerBefore [] (mark :: sign :: rest)

theorem isDigitOf_sign {c : Char} (h : IsSign c) (radix : Nat) : isDigitOf radix c = false := by
  obtain rfl | rfl := h <;> rfl

namespace PowerBefore

variable {power rest : List Char}

theorem exists_split (text : List Char) : ∃ power rest, text = power ++ rest ∧ PowerBefore power rest := by
  by_cases hmark : ∀ c ∈ text.head?, ¬ IsPowerMark c
  · exact ⟨[], text, rfl, .missing hmark⟩
  obtain _ | ⟨mark, text⟩ := text
  · exact absurd nofun hmark
  replace hmark : IsPowerMark mark := by simpa using hmark
  by_cases hsign : ∀ c ∈ text.head?, ¬ IsSign c
  · by_cases hdigit : text.head?.any (isDigitOf 10) = true
    · obtain ⟨ds, rest, rfl, hds, hrest⟩ := DigitRun.exists_split hdigit
      exact ⟨mark :: ds, rest, rfl, .plain hmark hds hrest⟩
    · exact ⟨[], mark :: text, rfl, .empty hmark (Bool.eq_false_iff.mpr hdigit) hsign⟩
  obtain _ | ⟨sign, text⟩ := text
  · exact absurd nofun hsign
  replace hsign : IsSign sign := by simpa using hsign
  by_cases hdigit : text.head?.any (isDigitOf 10) = true
  · obtain ⟨ds, rest, rfl, hds, hrest⟩ := DigitRun.exists_split hdigit
    exact ⟨mark :: sign :: ds, rest, rfl, .signed hmark hsign hds hrest⟩
  · exact ⟨[], mark :: sign :: text, rfl, .signedEmpty hmark hsign (Bool.eq_false_iff.mpr hdigit)⟩

/-- Whatever else a text with a mark begins with is digits behind the mark. -/
theorem others_of_mark {mark : Char} {text other behind : List Char} (hother : ExponentPart other)
    (htext : other ++ behind = mark :: text) : other = [] ∨ ∃ more, other = mark :: more ∧
      (DigitRun 10 more ∨ ∃ sign ds, more = sign :: ds ∧ IsSign sign ∧ DigitRun 10 ds) ∧ more ++ behind = text := by
  cases hother with
  | missing => exact .inl rfl
  | plain _ hds =>
    obtain ⟨rfl, hmore⟩ := List.cons.inj htext
    exact .inr ⟨_, rfl, .inl hds, hmore⟩
  | signed _ hsign hds =>
    obtain ⟨rfl, hmore⟩ := List.cons.inj htext
    exact .inr ⟨_, rfl, .inr ⟨_, _, rfl, hsign, hds⟩, hmore⟩

theorem maximal (h : PowerBefore power rest) :
    Maximal (fun c => IsPowerMark c ∨ WithinDigits c) ExponentPart power rest := by
  cases h with
  | missing h =>
    refine .missing .missing fun c more behind hrest hpart => ?_
    have hmark := h c (by rw [hrest]; rfl)
    cases hpart with
    | plain hc | signed hc => exact hmark hc
  | @plain mark ds _ hmark hds hrest =>
    refine ⟨.plain hmark hds, fun {other behind} htext hother => ?_⟩
    obtain rfl | ⟨more, rfl, hother | ⟨sign, ds', rfl, hsign, _⟩, hmore⟩ := others_of_mark hother htext
    · exact .inr ⟨mark, ds, rfl, .inl hmark⟩
    · obtain rfl | ⟨c, tail, rfl, hc⟩ := (hds.maximal hrest).others hmore hother
      · exact .inl rfl
      · exact .inr ⟨c, tail, rfl, .inr hc⟩
    · obtain ⟨c, tail, rfl, hc⟩ := hds.exists_cons
      obtain rfl : sign = c := (List.cons.inj hmore).1
      exact absurd hc (Bool.eq_false_iff.mp (isDigitOf_sign hsign 10))
  | @signed mark sign ds _ hmark hsign hds hrest =>
    refine ⟨.signed hmark hsign hds, fun {other behind} htext hother => ?_⟩
    obtain rfl | ⟨more, rfl, hother | ⟨sign', ds', rfl, _, hother⟩, hmore⟩ :=
      others_of_mark hother htext
    · exact .inr ⟨mark, sign :: ds, rfl, .inl hmark⟩
    · obtain ⟨c, tail, rfl, hc⟩ := hother.exists_cons
      obtain rfl : c = sign := (List.cons.inj hmore).1
      exact absurd hc (Bool.eq_false_iff.mp (isDigitOf_sign hsign 10))
    · obtain ⟨rfl, htail⟩ := List.cons.inj hmore
      obtain rfl | ⟨c, tail, rfl, hc⟩ := (hds.maximal hrest).others htail hother
      · exact .inl rfl
      · exact .inr ⟨c, tail, rfl, .inr hc⟩
  | @empty mark rest hmark hrest hsign =>
    refine ⟨.missing, fun {other behind} htext hother => .inl ?_⟩
    obtain rfl | ⟨more, rfl, hother | ⟨sign, ds', rfl, hother, _⟩, hmore⟩ := others_of_mark hother htext
    · rfl
    · obtain ⟨c, tail, rfl, hc⟩ := hother.exists_cons
      rw [show rest = c :: (tail ++ behind) from hmore.symm] at hrest
      exact absurd hc (Bool.eq_false_iff.mp hrest)
    · refine absurd hother (hsign sign ?_)
      rw [show rest = sign :: (ds' ++ behind) from hmore.symm]
      rfl
  | @signedEmpty mark sign rest hmark hsign hrest =>
    refine ⟨.missing, fun {other behind} htext hother => .inl ?_⟩
    obtain rfl | ⟨more, rfl, hother | ⟨sign', ds', rfl, _, hother⟩, hmore⟩ :=
      others_of_mark hother htext
    · rfl
    · obtain ⟨c, tail, rfl, hc⟩ := hother.exists_cons
      obtain rfl : c = sign := (List.cons.inj hmore).1
      exact absurd hc (Bool.eq_false_iff.mp (isDigitOf_sign hsign 10))
    · obtain ⟨c, tail, rfl, hc⟩ := hother.exists_cons
      rw [show rest = c :: (tail ++ behind) from (List.cons.inj hmore).2.symm] at hrest
      exact absurd hc (Bool.eq_false_iff.mp hrest)

end PowerBefore

end Lexical

end EcmaCheck
