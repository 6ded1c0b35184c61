import EcmaCheck.Proofs.Literals.Numeric
import EcmaCheck.Proofs.Scanning

/-!
# Reading the parts of a numeric literal

Parts that go as far as they can are what the reader of numeric literals takes, unless the literal runs on behind them
(`Completes`): it has no other reason to fail, because a part it gives up on begins with a character that runs on.
-/

namespace EcmaCheck

namespace Lexical

open Lexer

/-! ## Reading -/

/-- A text runs on if its first character does. -/
def RunsOn (rest : List Char) : Prop :=
  rest.head?.any runsOn = true

theorem runsOn_separator {rest : List Char} (h : rest.head? = some '_') : RunsOn rest := by
  unfold RunsOn
  rw [h]
  decide +kernel

theorem runsOn_mark {mark : Char} {rest : List Char} (h : IsPowerMark mark) : RunsOn (mark :: rest) := by
  obtain rfl | rfl := h
  · exact (by decide +kernel : runsOn 'e' = true)
  · exact (by decide +kernel : runsOn 'E' = true)

/-- What was found is read as the kind, unless what is behind it runs on. -/
def Completes (l : Lexer LexicalError TokenKind) (found rest : List Char) (kind : TokenKind) : Prop :=
  (RunsOn rest → ∃ n e, l (found ++ rest) = ⟨n, .error e⟩) ∧
    (¬ RunsOn rest → l (found ++ rest) = ⟨found.length, .ok kind⟩)

theorem skip_cons (c : Char) (rest : List Char) : (skip : Lexer LexicalError Unit) (c :: rest) = ⟨1, .ok ()⟩ := by
  simp [skip]

namespace Completes

variable {α : Type} {l : Lexer LexicalError α} {k : α → Lexer LexicalError TokenKind} {p f rest : List Char}
  {kind : TokenKind}

/-- A part of the literal is read before the others. -/
protected theorem bind {a : α} (h : l (p ++ (f ++ rest)) = ⟨p.length, .ok a⟩) (hk : Completes (k a) f rest kind) :
    Completes (l >>= k) (p ++ f) rest kind := by
  unfold Completes
  rw [List.append_assoc, reading_bind_ok h, List.drop_left, List.length_append]
  refine ⟨fun hrest => ?_, fun hrest => ?_⟩
  · obtain ⟨n, e, heq⟩ := hk.1 hrest
    rw [heq]
    exact ⟨_, _, rfl⟩
  · rw [hk.2 hrest]
    rfl

/-- The last part of the literal. -/
theorem last {a : α} (h : l (p ++ rest) = ⟨p.length, .ok a⟩) (hk : Completes (k a) [] rest kind) :
    Completes (l >>= k) p rest kind := by
  have hbind : Completes (l >>= k) (p ++ []) rest kind := .bind h hk
  rwa [List.append_nil] at hbind

/-- What is looked at is not taken. -/
theorem look {a : α} (h : l (f ++ rest) = ⟨0, .ok a⟩) (hk : Completes (k a) f rest kind) :
    Completes (l >>= k) f rest kind :=
  Completes.bind (p := []) h hk

theorem fails (hrest : RunsOn rest) {n : Nat} {e : LexicalError} (h : l (f ++ rest) = ⟨n, .error e⟩) :
    Completes (l >>= k) f rest kind :=
  ⟨fun _ => ⟨n, e, reading_bind_error h⟩, fun hnot => absurd hrest hnot⟩

theorem endingHere (kind : TokenKind) (rest : List Char) : Completes (Lexical.endingHere kind) [] rest kind := by
  have heq : Lexical.endingHere kind rest =
      if rest.head?.any runsOn = true then ⟨0, .error .numberRunsOn⟩ else ⟨0, .ok kind⟩ := by
    unfold Lexical.endingHere
    rw [reading_bind_ok (show peek rest = ⟨0, .ok rest.head?⟩ from rfl)]
    unfold runsOn
    split <;> rfl
  exact ⟨fun hrest => ⟨0, _, heq.trans (if_pos hrest)⟩, fun hrest => heq.trans (if_neg hrest)⟩

theorem skip {c : Char} {k : Unit → Lexer LexicalError TokenKind} (hk : Completes (k ()) f rest kind) :
    Completes (Lexer.skip >>= k) (c :: f) rest kind :=
  Completes.bind (p := [c]) (skip_cons c _) hk

/-- The character is not there. -/
theorem refuse {c : Char} {k : Bool → Lexer LexicalError TokenKind} (h : (f ++ rest).head? ≠ some c)
    (hk : Completes (k false) f rest kind) : Completes (accept c >>= k) f rest kind :=
  .look (if_neg h) hk

theorem accept {c : Char} {k : Bool → Lexer LexicalError TokenKind} (hk : Completes (k true) f rest kind) :
    Completes (Lexer.accept c >>= k) (c :: f) rest kind :=
  Completes.bind (p := [c]) (if_pos rfl) hk

theorem discarding {k : Unit → Lexer LexicalError TokenKind} (h : Completes (l >>= fun _ => k ()) f rest kind) :
    Completes (discard l >>= k) f rest kind := by
  have heq : (discard l >>= k) (f ++ rest) = (l >>= fun _ => k ()) (f ++ rest) := by
    change ((l >>= fun _ => pure ()) >>= k) (f ++ rest) = _
    rcases hl : l (f ++ rest) with ⟨n, e | a⟩
    · rw [reading_bind_error hl, reading_bind_error (reading_bind_error hl)]
    · rw [reading_bind_ok hl, reading_bind_ok (reading_bind_ok hl)]
      rfl
  unfold Completes
  rw [heq]
  exact h

theorem of_eq {l l' : Lexer LexicalError TokenKind} {kind' : TokenKind} (h : Completes l f rest kind)
    (hl : l' (f ++ rest) = l (f ++ rest)) (hkind : kind' = kind) : Completes l' f rest kind' := by
  unfold Completes
  rw [hl, hkind]
  exact h

/-- The digits there are. -/
theorem digits {radix : Nat} {k : Nat → Lexer LexicalError TokenKind} {ds : List Char}
    (hds : DigitsBefore radix ds (f ++ rest)) (hsplit : (f ++ rest).head? = some '_' → f = [])
    (hk : ∀ count, (count = 0 ↔ ds = []) → Completes (k count) f rest kind) :
    Completes (Lexical.digits radix >>= k) (ds ++ f) rest kind := by
  by_cases hseparator : (f ++ rest).head? = some '_'
  · obtain rfl := hsplit hseparator
    obtain ⟨n, e, heq⟩ := hds.digits_fails hseparator
    rw [List.append_nil]
    exact fails (runsOn_separator hseparator) heq
  · obtain ⟨count, hcount, heq⟩ := hds.digits_ok hseparator
    exact .bind heq (hk count hcount)

/-- The fraction there is. -/
theorem fraction {k : Bool → Lexer LexicalError TokenKind} (hp : FractionBefore p (f ++ rest))
    (hsplit : (f ++ rest).head? = some '_' → f = []) (hk : Completes (k (!p.isEmpty)) f rest kind) :
    Completes (do
      let point ← Lexer.accept '.'
      if point then discard (Lexical.digits 10)
      k point) (p ++ f) rest kind := by
  cases hp with
  | missing h => exact .refuse h hk
  | point hds =>
    refine .accept ?_
    rw [if_pos rfl]
    exact .discarding (k := fun _ => k true) (.digits hds hsplit fun _ _ => hk)

end Completes

/-- The digits of an exponent, of which there must be some. -/
def powerDigits : Lexer LexicalError Bool := do
  let count ← digits 10
  if count = 0 then fail .emptyExponent
  return true

theorem powerDigits_of_none {rest : List Char} (h : rest.head?.any (isDigitOf 10) = false) :
    ∃ n e, powerDigits rest = ⟨n, .error e⟩ := by
  have hnone : DigitsBefore 10 [] rest := .none h
  unfold powerDigits
  by_cases hseparator : rest.head? = some '_'
  · obtain ⟨n, e, heq⟩ := hnone.digits_fails hseparator
    exact ⟨n, e, reading_bind_error heq⟩
  · obtain ⟨count, hcount, heq⟩ := hnone.digits_ok hseparator
    rw [List.nil_append] at heq
    rw [reading_bind_ok heq, hcount.mpr rfl]
    exact ⟨_, _, rfl⟩

theorem powerDigits_of_run {ds rest : List Char} (hds : DigitRun 10 ds) (hrest : Ended 10 rest) :
    RunsOn rest ∧ (∃ n e, powerDigits (ds ++ rest) = ⟨n, .error e⟩) ∨
      powerDigits (ds ++ rest) = ⟨ds.length, .ok true⟩ := by
  have hrun : DigitsBefore 10 ds rest := .run hds hrest
  obtain ⟨c, more, hcons, _⟩ := hds.exists_cons
  unfold powerDigits
  by_cases hseparator : rest.head? = some '_'
  · obtain ⟨n, e, heq⟩ := hrun.digits_fails hseparator
    exact .inl ⟨runsOn_separator hseparator, n, e, reading_bind_error heq⟩
  · obtain ⟨count, hcount, heq⟩ := hrun.digits_ok hseparator
    have hpos : count ≠ 0 := fun h => List.cons_ne_nil c more (hcons ▸ hcount.mp h)
    rw [reading_bind_ok heq, if_neg hpos]
    exact .inr rfl

theorem exponent_of_mark {mark : Char} (h : IsPowerMark mark) {rest : List Char}
    (hsign : ∀ c ∈ rest.head?, ¬ IsSign c) :
    exponent (mark :: rest) = (powerDigits rest).after 1 := by
  have hmark : (decide ((mark :: rest).head? = some 'e') || decide ((mark :: rest).head? = some 'E')) = true := by
    simpa [IsPowerMark] using h
  have hnot : ¬ (decide (rest.head? = some '+') || decide (rest.head? = some '-')) = true := by
    rw [Bool.or_eq_true, decide_eq_true_eq, decide_eq_true_eq]
    rintro (hhead | hhead)
    · exact hsign '+' hhead (.inl rfl)
    · exact hsign '-' hhead (.inr rfl)
  unfold exponent
  rw [reading_bind_ok (show peek (mark :: rest) = ⟨0, .ok (mark :: rest).head?⟩ from rfl), List.drop_zero, if_pos hmark,
    reading_bind_ok (skip_cons mark rest), List.drop_one, List.tail_cons,
    reading_bind_ok (show peek rest = ⟨0, .ok rest.head?⟩ from rfl), List.drop_zero, if_neg hnot]
  simp only [Reading.after, Nat.zero_add]
  rfl

theorem exponent_of_sign {mark sign : Char} (h : IsPowerMark mark) (hsign : IsSign sign) (rest : List Char) :
    exponent (mark :: sign :: rest) = (powerDigits rest).after 2 := by
  have hmark : (decide ((mark :: sign :: rest).head? = some 'e') ||
      decide ((mark :: sign :: rest).head? = some 'E')) = true := by
    simpa [IsPowerMark] using h
  have hsign : (decide ((sign :: rest).head? = some '+') || decide ((sign :: rest).head? = some '-')) = true := by
    simpa [IsSign] using hsign
  unfold exponent
  rw [reading_bind_ok (show peek (mark :: sign :: rest) = ⟨0, .ok (mark :: sign :: rest).head?⟩ from rfl),
    List.drop_zero, if_pos hmark, reading_bind_ok (skip_cons mark (sign :: rest)), List.drop_one, List.tail_cons,
    reading_bind_ok (show peek (sign :: rest) = ⟨0, .ok (sign :: rest).head?⟩ from rfl), List.drop_zero, if_pos hsign,
    reading_bind_ok (skip_cons sign rest), List.drop_one, List.tail_cons]
  simp only [Reading.after, Nat.zero_add, ← Nat.add_assoc]
  rfl

/-- The exponent that a text begins with is read, unless what is behind it runs on. -/
theorem PowerBefore.exponent_eq {power rest : List Char} (h : PowerBefore power rest) :
    RunsOn rest ∧ (∃ n e, exponent (power ++ rest) = ⟨n, .error e⟩) ∨
      exponent (power ++ rest) = ⟨power.length, .ok (!power.isEmpty)⟩ := by
  have hafter {r : Reading LexicalError Bool} {k : Nat} (h : ∃ n e, r = ⟨n, .error e⟩) :
      ∃ n e, r.after k = ⟨n, .error e⟩ := by
    obtain ⟨n, e, rfl⟩ := h
    exact ⟨k + n, e, rfl⟩
  cases h with
  | missing h =>
    have hmark : ¬ (decide (rest.head? = some 'e') || decide (rest.head? = some 'E')) = true := by
      rw [Bool.or_eq_true, decide_eq_true_eq, decide_eq_true_eq]
      rintro (hhead | hhead)
      · exact h 'e' hhead (.inl rfl)
      · exact h 'E' hhead (.inr rfl)
    refine .inr ?_
    unfold exponent
    rw [List.nil_append, reading_bind_ok (show peek rest = ⟨0, .ok rest.head?⟩ from rfl), if_neg hmark]
    rfl
  | plain hmark hds hrest =>
    obtain ⟨c, more, rfl, hc⟩ := hds.exists_cons
    have hsign : ∀ d ∈ (c :: more ++ rest).head?, ¬ IsSign d := by
      rintro d ⟨⟩ hd
      exact absurd hc (Bool.eq_false_iff.mp (isDigitOf_sign hd 10))
    rw [List.cons_append, exponent_of_mark hmark hsign]
    refine (powerDigits_of_run hds hrest).imp (fun h => ⟨h.1, hafter h.2⟩) fun h => ?_
    rw [h]
    simp only [Reading.after, List.length_cons, Nat.add_comm 1]
    rfl
  | signed hmark hsign hds hrest =>
    rw [List.cons_append, List.cons_append, exponent_of_sign hmark hsign]
    refine (powerDigits_of_run hds hrest).imp (fun h => ⟨h.1, hafter h.2⟩) fun h => ?_
    rw [h]
    simp only [Reading.after, List.length_cons, Nat.add_comm 2]
    rfl
  | empty hmark hrest hsign =>
    rw [List.nil_append, exponent_of_mark hmark hsign]
    exact .inl ⟨runsOn_mark hmark, hafter (powerDigits_of_none hrest)⟩
  | signedEmpty hmark hsign hrest =>
    rw [List.nil_append, exponent_of_sign hmark hsign]
    exact .inl ⟨runsOn_mark hmark, hafter (powerDigits_of_none hrest)⟩

/-- The exponent there is. -/
theorem Completes.exponent {k : Bool → Lexer LexicalError TokenKind} {p rest : List Char} {kind : TokenKind}
    (hp : PowerBefore p rest) (hk : Completes (k (!p.isEmpty)) [] rest kind) :
    Completes (Lexical.exponent >>= k) p rest kind := by
  obtain ⟨hrest, n, e, heq⟩ | heq := hp.exponent_eq
  · exact fails hrest heq
  · exact .last heq hk

/-! ## Literals by their beginnings -/

theorem FractionBefore.eq_nil {fraction rest : List Char} (h : FractionBefore fraction rest) {c : Char} (hc : c ≠ '.')
    (hhead : (fraction ++ rest).head? = some c) : fraction = [] := by
  cases h with
  | missing => rfl
  | point => exact absurd (Option.some.inj hhead).symm hc

theorem PowerBefore.eq_nil {power rest : List Char} (h : PowerBefore power rest) {c : Char} (hc : ¬ IsPowerMark c)
    (hhead : (power ++ rest).head? = some c) : power = [] := by
  cases h with
  | plain hmark | signed hmark =>
    cases hhead
    exact absurd hmark hc
  | missing | empty | signedEmpty => rfl

/-- The parts of a decimal literal behind its whole part. -/
structure TailBefore (fraction power rest : List Char) : Prop where
  fraction : FractionBefore fraction (power ++ rest)
  power : PowerBefore power rest

namespace TailBefore

variable {fraction power rest : List Char}

theorem exists_split (text : List Char) : ∃ fraction power rest, text = fraction ++ (power ++ rest) ∧
    TailBefore fraction power rest := by
  obtain ⟨fraction, tail, rfl, hfraction⟩ := FractionBefore.exists_split text
  obtain ⟨power, rest, rfl, hpower⟩ := PowerBefore.exists_split tail
  exact ⟨fraction, power, rest, rfl, hfraction, hpower⟩

/-- Before any other character there is neither a fraction nor an exponent. -/
theorem eq_nil (h : TailBefore fraction power rest) {c : Char} (hpoint : c ≠ '.') (hmark : ¬ IsPowerMark c)
    (hhead : (fraction ++ (power ++ rest)).head? = some c) : fraction = [] ∧ power = [] := by
  obtain rfl := h.fraction.eq_nil hpoint hhead
  exact ⟨rfl, h.power.eq_nil hmark hhead⟩

theorem eq_nil_of_separator (h : TailBefore fraction power rest)
    (hhead : (fraction ++ (power ++ rest)).head? = some '_') : fraction ++ power = [] := by
  obtain ⟨rfl, rfl⟩ := h.eq_nil (by decide) (by unfold IsPowerMark; decide) hhead
  rfl

end TailBefore

section

variable {whole fraction power ds rest : List Char}

theorem decimalNumeral_completes (hwhole : DigitsBefore 10 whole (fraction ++ (power ++ rest)))
    (h : TailBefore fraction power rest) (hbig : fraction ++ power = [] → rest.head? ≠ some 'n') :
    Completes decimalNumeral (whole ++ (fraction ++ power)) rest (.number false) := by
  rw [← List.append_assoc] at hwhole
  have hseparator : (power ++ rest).head? = some '_' → power = [] := by
    intro hhead
    exact h.power.eq_nil (by unfold IsPowerMark; decide) hhead
  refine .discarding (.digits hwhole (fun hhead => h.eq_nil_of_separator (by rwa [← List.append_assoc])) fun _ _ => ?_)
  refine .fraction h.fraction hseparator (.exponent h.power ?_)
  dsimp only
  split
  · exact .look (l := pure false) rfl (.endingHere _ rest)
  · rename_i hempty
    have hnil : fraction ++ power = [] := by
      simpa using hempty
    exact .refuse (hbig hnil) (.endingHere _ rest)

theorem decimalNumeral_completes_big (hwhole : DigitsBefore 10 whole ('n' :: rest)) :
    Completes decimalNumeral (whole ++ ['n']) rest .bigInt := by
  have hhead {c : Char} (hc : 'n' ≠ c) : (['n'] ++ rest).head? ≠ some c := fun h => hc (Option.some.inj h)
  refine .discarding (.digits (f := ['n']) hwhole (fun h => absurd h (hhead (by decide))) fun _ _ => ?_)
  refine .fraction (.missing (hhead (by decide))) (fun h => absurd h (hhead (by decide))) ?_
  exact .look (a := false) rfl (.accept (.endingHere _ rest))

theorem pointNumeral_completes (hds : DigitsBefore 10 ds (power ++ rest)) (hpower : PowerBefore power rest) :
    Completes pointNumeral ('.' :: ds ++ power) rest (.number false) := by
  refine .skip (.discarding (.digits hds (hpower.eq_nil (by unfold IsPowerMark; decide)) fun _ _ => ?_))
  exact .discarding (.exponent hpower (.endingHere _ rest))

theorem radixNumeral_completes {radix : Nat} {mark : Char} (hds : DigitRun radix ds) (hrest : Ended radix rest)
    (hbig : rest.head? ≠ some 'n') : Completes (radixNumeral radix) ('0' :: mark :: ds) rest (.number false) := by
  obtain ⟨c, more, rfl, _⟩ := hds.exists_cons
  refine .skip (.skip ?_)
  rw [← List.append_nil (c :: more)]
  refine .digits (.run hds hrest) (fun _ => rfl) fun count hcount => ?_
  rw [if_neg (fun h => absurd (hcount.mp h) (List.cons_ne_nil c more))]
  exact .refuse hbig (.endingHere _ rest)

theorem radixNumeral_completes_big {radix : Nat} {mark : Char} (hds : DigitRun radix ds)
    (hrest : Ended radix ('n' :: rest)) : Completes (radixNumeral radix) ('0' :: mark :: ds ++ ['n']) rest .bigInt := by
  obtain ⟨c, more, rfl, _⟩ := hds.exists_cons
  have hend : 'n' ≠ '_' := by decide
  refine .skip (.skip (.digits (.run hds hrest) (fun h => absurd (Option.some.inj h) hend) fun count hcount => ?_))
  rw [if_neg (fun h => absurd (hcount.mp h) (List.cons_ne_nil c more))]
  exact .accept (.endingHere _ rest)

/-- A mark without digits is no part of a literal. -/
theorem radixNumeral_fails {radix : Nat} {mark : Char} (hrest : rest.head?.any (isDigitOf radix) = false) :
    ∃ n e, radixNumeral radix ('0' :: mark :: rest) = ⟨n, .error e⟩ := by
  have hnone : DigitsBefore radix [] rest := .none hrest
  unfold radixNumeral
  rw [reading_bind_ok (skip_cons '0' _), List.drop_one, List.tail_cons,
    reading_bind_ok (skip_cons mark _), List.drop_one, List.tail_cons]
  by_cases hseparator : rest.head? = some '_'
  · obtain ⟨n, e, heq⟩ := hnone.digits_fails hseparator
    rw [List.nil_append] at heq
    rw [reading_bind_error heq]
    exact ⟨_, _, rfl⟩
  · obtain ⟨count, hcount, heq⟩ := hnone.digits_ok hseparator
    rw [List.nil_append] at heq
    rw [reading_bind_ok heq, hcount.mpr rfl]
    exact ⟨_, _, rfl⟩

/-- The end of a legacy literal. -/
theorem legacyEnd_completes (rest : List Char) : Completes (do
    let next ← peek
    if next = some '_' || next = some 'n' then fail .legacyOctalSuffix
    endingHere (.number true)) [] rest (.number true) := by
  refine .look (a := rest.head?) rfl ?_
  split
  · rename_i h
    have hrest : RunsOn rest := by
      rw [Bool.or_eq_true, decide_eq_true_eq, decide_eq_true_eq] at h
      rcases h with h | h
      · exact runsOn_separator h
      · unfold RunsOn
        rw [h]
        decide +kernel
    exact .fails (n := 0) (e := .legacyOctalSuffix) hrest rfl
  · exact .endingHere _ rest

theorem takeWhile_append_of_all {test : Char → Bool} (hds : ∀ c ∈ ds, test c = true)
    (hrest : rest.head?.any test = false) : (ds ++ rest).takeWhile test = ds := by
  rw [List.takeWhile_append_of_pos hds]
  cases rest with
  | nil => rw [List.takeWhile_nil, List.append_nil]
  | cons c rest =>
    have hc : ¬ test c = true := Bool.eq_false_iff.mp hrest
    rw [List.takeWhile_cons, if_neg hc, List.append_nil]

theorem run_digits (hds : ∀ c ∈ ds, isDecimalDigit c = true) (hrest : rest.head?.any isDecimalDigit = false) :
    (run isDecimalDigit : Lexer LexicalError (List Char)) (ds ++ rest) = ⟨ds.length, .ok ds⟩ := by
  unfold run
  rw [takeWhile_append_of_all hds hrest]

theorem legacyNumeral_completes_octal (hds : ∀ c ∈ ds, isDecimalDigit c = true)
    (hoctal : ∀ c ∈ ds, isOctalDigit c = true) (hrest : rest.head?.any isDecimalDigit = false) :
    Completes legacyNumeral ds rest (.number true) := by
  refine .last (run_digits hds hrest) ?_
  have hall : ds.all isOctalDigit = true := List.all_eq_true.mpr hoctal
  rw [hall]
  exact legacyEnd_completes rest

theorem legacyNumeral_completes (hds : ∀ c ∈ ds, isDecimalDigit c = true) (hdecimal : ∃ c ∈ ds, c = '8' ∨ c = '9')
    (hrest : (fraction ++ (power ++ rest)).head?.any isDecimalDigit = false) (h : TailBefore fraction power rest) :
    Completes legacyNumeral (ds ++ (fraction ++ power)) rest (.number true) := by
  rw [← List.append_assoc] at hrest
  refine .bind (run_digits hds hrest) ?_
  have hall : ds.all isOctalDigit = false := by
    obtain ⟨c, hc, rfl | rfl⟩ := hdecimal <;> exact List.all_eq_false.mpr ⟨_, hc, by decide⟩
  rw [hall]
  refine .fraction h.fraction (h.power.eq_nil (by unfold IsPowerMark; decide)) ?_
  exact .discarding (.exponent h.power (legacyEnd_completes rest))

end

end Lexical

end EcmaCheck
