import EcmaCheck.Proofs.Lexical.Element
import EcmaCheck.Proofs.Lexical.Gap

/-!
# Errors on one line

A lexical error is told on one line (`LexicalError.oneLine_message`), as long as it names no flag that ends a line
(`LexicalError.Printable`). The readers of text find no such error: flags are parts of identifiers, and the other errors
name no character as it is.
-/

namespace EcmaCheck

set_option synthInstance.maxSize 20000

/-- The text has neither a line feed nor a carriage return. -/
def OneLine (text : List Char) : Prop :=
  ∀ c ∈ text, c ≠ '\n' ∧ c ≠ '\r'

namespace OneLine

instance (text : List Char) : Decidable (OneLine text) :=
  List.decidableBAll (fun c => c ≠ '\n' ∧ c ≠ '\r') text

@[simp] theorem nil : OneLine [] :=
  List.forall_mem_nil _

@[simp] theorem cons_iff {c : Char} {text : List Char} : OneLine (c :: text) ↔ (c ≠ '\n' ∧ c ≠ '\r') ∧ OneLine text :=
  List.forall_mem_cons

@[simp] theorem append_iff {text more : List Char} : OneLine (text ++ more) ↔ OneLine text ∧ OneLine more :=
  List.forall_mem_append

theorem strings_iff {text more : String} :
    OneLine (text ++ more).toList ↔ OneLine text.toList ∧ OneLine more.toList := by
  rw [String.toList_append, append_iff]

/-- Characters that pass a test which no end of a line passes. -/
theorem of_all {test : Char → Bool} {text : List Char} (h : ∀ c ∈ text, test c = true)
    (hfeed : test '\n' = false) (hreturn : test '\r' = false) : OneLine text := by
  intro c hc
  have hpasses := h c hc
  constructor
  · rintro rfl
    exact Bool.false_ne_true (hfeed.symm.trans hpasses)
  · rintro rfl
    exact Bool.false_ne_true (hreturn.symm.trans hpasses)

end OneLine

/-! ## The wording of errors -/

theorem oneLine_toDigits (base n : Nat) : OneLine (Nat.toDigits base n) := by
  have hdigit (d : Nat) : d.digitChar ≠ '\n' ∧ d.digitChar ≠ '\r' :=
    ⟨Nat.digitChar_ne _ (by decide), Nat.digitChar_ne _ (by decide)⟩
  have hcore (fuel n : Nat) (ds : List Char) (h : OneLine ds) : OneLine (Nat.toDigitsCore base fuel n ds) := by
    induction fuel generalizing n ds with
    | zero => exact h
    | succ fuel ih =>
      have hds : OneLine ((n % base).digitChar :: ds) := OneLine.cons_iff.mpr ⟨hdigit _, h⟩
      unfold Nat.toDigitsCore
      dsimp only
      split
      · exact hds
      · exact ih _ _ hds
  exact hcore _ _ _ .nil

theorem oneLine_toString (n : Nat) : OneLine (toString n).toList := by
  have h : (toString n).toList = Nat.toDigits 10 n := String.toList_ofList
  rw [h]
  exact oneLine_toDigits 10 n

theorem oneLine_quoteChar (c : Char) : OneLine (quoteChar c).toList := by
  unfold quoteChar
  split
  · decide
  split
  · decide
  split
  · decide
  split
  · rename_i hquote
    obtain (rfl | rfl) | rfl : (c = '\'' ∨ c = '"') ∨ c = '\\' := by simpa using hquote
    all_goals decide
  split
  · rename_i hfeed hquote hprint
    simp_all
  · simp only [String.toList_append, String.toList_ofList]
    exact OneLine.append_iff.mpr ⟨OneLine.append_iff.mpr ⟨by simp, oneLine_toDigits _ _⟩, by simp⟩

/-- The error names no character that ends a line. -/
def LexicalError.Printable (e : LexicalError) : Prop :=
  ∀ c, e = .regExpFlag c → c ≠ '\n' ∧ c ≠ '\r'

theorem LexicalError.oneLine_message {e : LexicalError} (h : e.Printable) : OneLine e.message.toList := by
  cases e with
  | unexpectedCharacter c =>
    change OneLine ("Invalid or unexpected token '" ++ quoteChar c ++ "'").toList
    rw [OneLine.strings_iff, OneLine.strings_iff]
    exact ⟨⟨by simp, oneLine_quoteChar c⟩, by simp⟩
  | regExpFlag c =>
    change OneLine ("Invalid regular expression flag '" ++ c.toString ++ "'").toList
    rw [OneLine.strings_iff, OneLine.strings_iff]
    refine ⟨⟨by simp, ?_⟩, by simp⟩
    simpa using h c rfl
  | radixWithoutDigits radix =>
    change OneLine ("Expected digits after radix " ++ toString radix ++ " prefix").toList
    rw [OneLine.strings_iff, OneLine.strings_iff]
    exact ⟨⟨by simp, oneLine_toString radix⟩, by simp⟩
  | _ => decide +kernel

namespace Lexical

open Lexer

/-- The errors of a lexer are printable. -/
class PrintableErrors {α : Type} (l : Lexer LexicalError α) : Prop where
  printable {text : List Char} {e : LexicalError} (h : (l text).result = .error e) : e.Printable

section

variable {α β : Type}

instance (a : α) : PrintableErrors (pure a : Lexer LexicalError α) :=
  ⟨nofun⟩

instance (first : Lexer LexicalError α) (next : α → Lexer LexicalError β) [hfirst : PrintableErrors first]
    [hnext : ∀ a, PrintableErrors (next a)] : PrintableErrors (first >>= next) := by
  refine ⟨fun {text e} h => ?_⟩
  rcases hr : first text with ⟨n, e' | a⟩
  · rw [reading_bind_error hr] at h
    cases h
    exact hfirst.printable (congrArg Reading.result hr)
  · rw [reading_bind_ok hr] at h
    exact (hnext a).printable h

instance (p : Prop) [Decidable p] (l l' : Lexer LexicalError α) [PrintableErrors l] [PrintableErrors l'] :
    PrintableErrors (if p then l else l') := by
  split <;> infer_instance

instance (l : Lexer LexicalError α) [PrintableErrors l] : PrintableErrors (discard l : Lexer LexicalError Unit) :=
  inferInstanceAs (PrintableErrors (l >>= fun _ => pure ()))

instance : PrintableErrors (peek : Lexer LexicalError (Option Char)) :=
  ⟨nofun⟩

instance : PrintableErrors (skip : Lexer LexicalError Unit) :=
  ⟨nofun⟩

instance (test : Char → Bool) : PrintableErrors (run test : Lexer LexicalError (List Char)) :=
  ⟨nofun⟩

instance (c : Char) : PrintableErrors (accept c : Lexer LexicalError Bool) := by
  refine ⟨fun {text e} h => ?_⟩
  unfold accept at h
  split at h <;> cases h

theorem printable_fail {e : LexicalError} (he : e.Printable) : PrintableErrors (fail e : Lexer LexicalError α) :=
  ⟨by rintro _ _ ⟨⟩; exact he⟩

instance : PrintableErrors (fail .emptyExponent : Lexer LexicalError α) :=
  printable_fail nofun

instance : PrintableErrors (fail .numberRunsOn : Lexer LexicalError α) :=
  printable_fail nofun

instance : PrintableErrors (fail .legacyOctalSuffix : Lexer LexicalError α) :=
  printable_fail nofun

instance (radix : Nat) : PrintableErrors (fail (.radixWithoutDigits radix) : Lexer LexicalError α) :=
  printable_fail nofun

end

theorem printable_digitsFrom {radix count length : Nat} {separated : Bool} {text : List Char} {e : LexicalError}
    (h : (digitsFrom radix count separated length text).result = .error e) : e.Printable := by
  fun_induction digitsFrom radix count separated length text with
  | case1 | case3 | case6 => cases h; rintro _ ⟨⟩
  | case2 | case7 => cases h
  | case4 _ _ _ _ _ ih | case5 _ _ _ _ _ _ _ ih => exact ih h

instance (radix : Nat) : PrintableErrors (digits radix) :=
  ⟨printable_digitsFrom⟩

instance : PrintableErrors exponent := by
  unfold exponent
  dsimp only
  infer_instance

instance (kind : TokenKind) : PrintableErrors (endingHere kind) := by
  unfold endingHere
  infer_instance

theorem printable_numeral {text : List Char} {e : LexicalError} (h : (numeral text).result = .error e) :
    e.Printable := by
  have hpoint : PrintableErrors pointNumeral := by
    unfold pointNumeral
    infer_instance
  have hradix (radix : Nat) : PrintableErrors (radixNumeral radix) := by
    unfold radixNumeral
    infer_instance
  have hlegacy : PrintableErrors legacyNumeral := by
    unfold legacyNumeral
    dsimp only
    infer_instance
  have hdecimal : PrintableErrors decimalNumeral := by
    unfold decimalNumeral
    infer_instance
  unfold numeral at h
  split at h
  · exact hpoint.printable h
  · split at h
    · exact (hradix _).printable h
    · split at h
      · exact hlegacy.printable h
      · split at h
        · cases h; rintro _ ⟨⟩
        · exact hdecimal.printable h
  · exact hdecimal.printable h

theorem printable_hexDigits {e : LexicalError} (he : e.Printable) {value length count : Nat} {text : List Char}
    {e' : LexicalError} (h : (hexDigits e value length count text).result = .error e') : e'.Printable := by
  fun_induction hexDigits e value length count text with
  | case1 => cases h
  | case2 | case4 => cases h; exact he
  | case3 _ _ _ _ _ _ _ ih => exact ih h

theorem printable_unicodeEscape {text : List Char} {e : LexicalError} (h : (unicodeEscape text).result = .error e) :
    e.Printable := by
  unfold unicodeEscape at h
  split at h
  · dsimp only at h
    repeat' split at h
    all_goals cases h <;> rintro _ ⟨⟩
  · exact printable_hexDigits (by rintro _ ⟨⟩) h

theorem printable_of_map {α β : Type} {f : α → β} {n : Nat} {r : Reading LexicalError α} {e : LexicalError}
    (hr : ∀ {e}, r.result = .error e → e.Printable) (h : ((r.map f).after n).result = .error e) : e.Printable := by
  obtain ⟨_, e' | a⟩ := r <;> cases h
  exact hr rfl

theorem printable_escape {sentinel : Bool} {text : List Char} {e : LexicalError}
    (h : (escape sentinel text).result = .error e) : e.Printable := by
  unfold escape at h
  split at h
  · cases h
  split at h
  · exact printable_of_map (printable_hexDigits (by rintro _ ⟨⟩)) h
  split at h
  · exact printable_of_map printable_unicodeEscape h
  repeat' split at h
  all_goals cases h

theorem printable_nameEscape {first : Bool} {text : List Char} {e : LexicalError}
    (h : (nameEscape first text).result = .error e) : e.Printable := by
  unfold nameEscape at h
  split at h
  · split at h
    · rename_i hr
      cases h
      exact printable_unicodeEscape (congrArg Reading.result hr)
    · split at h <;> cases h
      rintro _ ⟨⟩
  · cases h; rintro _ ⟨⟩

/-! ## Misreadings -/

theorem printable_reportedAt {α : Type} {place : Nat} {r : Reading LexicalError α} {m : Misreading}
    (hr : ∀ {e}, r.result = .error e → e.Printable) (h : (r.reportedAt place).result = .error m) :
    m.error.Printable := by
  obtain ⟨_, e | a⟩ := r <;> cases h
  exact hr rfl

theorem printable_nameFrom {before : List Char} {escaped : Bool} {length : Nat} {text : List Char} {m : Misreading}
    (h : (nameFrom before escaped length text).result = .error m) : m.error.Printable := by
  fun_induction nameFrom before escaped length text with
  | case1 | case5 => cases h
  | case2 _ _ _ _ _ _ _ ih => exact ih h
  | case3 _ _ _ _ _ _ hr => cases h; exact printable_nameEscape (congrArg Reading.result hr)
  | case4 _ _ _ _ _ _ _ ih => exact ih h

theorem printable_stringFrom {sentinel : Bool} {quote : Char} {legacy : Bool} {length : Nat} {text : List Char}
    {m : Misreading} (h : (stringFrom sentinel quote legacy length text).result = .error m) : m.error.Printable := by
  fun_induction stringFrom sentinel quote legacy length text with
  | case1 | case2 => cases h; rintro _ ⟨⟩
  | case3 => cases h
  | case4 _ _ _ _ _ _ _ _ ih => exact ih h
  | case5 _ _ _ _ _ hr => cases h; exact printable_escape (congrArg Reading.result hr)
  | case6 _ _ _ _ _ _ _ ih => exact ih h

theorem printable_templateFrom {sentinel opening : Bool} {malformed : Option Nat} {length : Nat} {text : List Char}
    {m : Misreading} (h : (templateFrom sentinel opening malformed length text).result = .error m) :
    m.error.Printable := by
  fun_induction templateFrom sentinel opening malformed length text with
  | case1 => cases h; rintro _ ⟨⟩
  | case2 | case3 => cases h
  | case4 | case5 | case6 => rename_i ih; exact ih h

theorem printable_regExpFlags {seen : List Char} {length : Nat} {text : List Char} {e : LexicalError}
    (h : (regExpFlags seen length text).result = .error e) : e.Printable := by
  have hending {seen : List Char} {length : Nat} (h : (regExpFlags.ending seen length).result = .error e) :
      e.Printable := by
    unfold regExpFlags.ending at h
    split at h <;> cases h
    rintro _ ⟨⟩
  fun_induction regExpFlags seen length text with
  | case1 | case3 => exact hending h
  | case2 => cases h; rintro _ ⟨⟩
  | case4 seen length c rest _ hpart _ =>
    cases h
    rintro _ ⟨⟩
    constructor <;> rintro rfl <;> exact hpart rfl
  | case5 _ _ _ _ _ _ _ ih => exact ih h

theorem printable_regExp {text : List Char} {m : Misreading} (h : (regExp text).result = .error m) :
    m.error.Printable := by
  have hbody {inClass : Bool} {length : Nat} {text : List Char} {e : LexicalError}
      (h : (regExpBody inClass length text).result = .error e) : e.Printable := by
    fun_induction regExpBody inClass length text with
    | case1 | case2 | case3 | case4 => cases h; rintro _ ⟨⟩
    | case5 | case6 | case7 | case9 => rename_i ih; exact ih h
    | case8 => cases h
  unfold regExp at h
  split at h
  · rename_i hr
    cases h
    exact hbody (congrArg Reading.result hr)
  · exact printable_reportedAt printable_regExpFlags h

theorem printable_gapFrom {length : Nat} {newline : Bool} {text : List Char} {m : Misreading}
    (h : (gapFrom length newline text).result = .error m) : m.error.Printable := by
  have hcomment {length : Nat} {newline : Bool} {text : List Char} {e : LexicalError}
      (h : (blockComment length newline text).result = .error e) : e.Printable := by
    fun_induction blockComment length newline text with
    | case1 => cases h; rintro _ ⟨⟩
    | case2 => cases h
    | case3 => rename_i ih; exact ih h
  fun_induction gapFrom length newline text with
  | case1 => cases h
  | case2 | case3 | case4 | case5 => rename_i ih; exact ih h
  | case6 _ _ _ _ _ hr => cases h; exact hcomment (congrArg Reading.result hr)
  | case7 | case8 => cases h

theorem printable_gap {atStart : Bool} {text : List Char} {m : Misreading}
    (h : (gap atStart text).result = .error m) : m.error.Printable := by
  unfold gap at h
  split at h
  · split at h
    · exact printable_gapFrom h
    · cases h
  · exact printable_gapFrom h

theorem printable_map {α β : Type} {f : α → β} {r : Reading Misreading α} {m : Misreading}
    (hr : ∀ {m}, r.result = .error m → m.error.Printable) (h : (r.map f).result = .error m) : m.error.Printable := by
  obtain ⟨_, m' | a⟩ := r <;> cases h
  exact hr rfl

/-- Where a text does not begin with a token, what is wrong is printable. -/
theorem printable_element {sentinel : Bool} {goal : LexicalGoal} {text : List Char} {m : Misreading}
    (h : (element sentinel goal text).result = .error m) : m.error.Printable := by
  cases text with
  | nil => cases h
  | cons c rest =>
    rw [element] at h
    split at h
    · exact printable_templateFrom h
    split at h
    · exact printable_regExp h
    split at h
    · exact printable_stringFrom h
    split at h
    · exact printable_templateFrom h
    split at h
    · exact printable_reportedAt printable_numeral h
    split at h
    · split at h
      · exact printable_map printable_nameFrom h
      · cases h; rintro _ ⟨⟩
    split at h
    · exact printable_map printable_nameFrom h
    · rw [punctuator_reading] at h
      cases hp : punctuator? (c :: rest) <;> rw [hp] at h <;> cases h
      rintro _ ⟨⟩

end Lexical

end EcmaCheck
