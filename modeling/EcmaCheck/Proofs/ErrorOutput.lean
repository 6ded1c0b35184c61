import EcmaCheck.CommandLine
import EcmaCheck.Proofs.Verdict

/-!
# Failures on one line

What the program prints of a file that it read and found to be no program is one line, unless the error quotes a string
or a template that spans several lines (`errorOutput_lines`). Such a literal is quoted as it is written: in a string a
line may end behind a backslash, in a template anywhere. Nothing else that an error tells ends a line: lexemes of the
other kinds, names and flags do not (`Token.WasRead`, `LexicalError.Printable`), and the rest of its wording is fixed.
-/

namespace EcmaCheck

variable {text : List Char}

/-- The error is that a string or a template of the text that spans several lines cannot stand where it does. -/
def Fault.QuotesLines (text : List Char) (f : Fault) : Prop :=
  ∃ t : Token, t.Of text ∧ (t.isString = true ∨ t.isTemplate = true) ∧ ¬ OneLine t.lexeme.toList ∧
    (f = .grammatical (.unexpectedToken t.describe) t.start ∨
      f = .grammatical (.expectedIdentifier t.describe) t.start)

/-! ## Messages -/

/-- Wording around a text is on one line if the text is. -/
theorem oneLine_wrapped {before quoted after : String} (hbefore : OneLine before.toList) (h : OneLine quoted.toList)
    (hafter : OneLine after.toList) :
    OneLine (before ++ quoted ++ after).toList :=
  OneLine.strings_iff.mpr ⟨OneLine.strings_iff.mpr ⟨hbefore, h⟩, hafter⟩

theorem Token.oneLine_describe {t : Token} (h : OneLine t.lexeme.toList) : OneLine t.describe.toList := by
  unfold describe
  split
  · simp
  · exact oneLine_wrapped (by simp) h (by simp)

theorem Token.oneLine_of_describe {t : Token} (hend : t.isEnd = false) (h : OneLine t.describe.toList) :
    OneLine t.lexeme.toList := by
  rw [describe, hend, if_neg Bool.false_ne_true] at h
  exact (OneLine.strings_iff.mp (OneLine.strings_iff.mp h).1).2

namespace GrammarError

variable {e : GrammarError} {t : Token}

theorem oneLine_of_isFixed (h : e.isFixed = true) : OneLine e.message.toList := by
  cases e with
  | unexpectedToken | expectedIdentifier | undefinedLabel | repeatedLabel | continueTarget | undeclaredPrivate =>
    cases h
  | fieldName name =>
    have hname : name = "constructor" ∨ name = "prototype" := by simpa [isFixed] using h
    rcases hname with rfl | rfl <;> decide +kernel
  | functionStatement strict => cases strict <;> decide +kernel
  | loopBindingCount loop | loopBindingInitializer loop => cases loop <;> decide +kernel
  | _ => decide +kernel

/-- An error that quotes a token is on one line, unless it describes a literal that is not. -/
theorem Quotes.oneLine_or (h : e.Quotes t) (ht : t.WasRead) : OneLine e.message.toList ∨
    (t.isString = true ∨ t.isTemplate = true) ∧ ¬ OneLine t.lexeme.toList ∧
      (e = .unexpectedToken t.describe ∨ e = .expectedIdentifier t.describe) := by
  have hliteral (hlexeme : ¬ OneLine t.lexeme.toList) : t.isString = true ∨ t.isTemplate = true := by
    refine Classical.byContradiction fun hnot => hlexeme ?_
    simp only [not_or, Bool.not_eq_true] at hnot
    exact ht.oneLine_lexeme hnot.1 hnot.2
  cases h with
  | unexpectedToken =>
    by_cases hlexeme : OneLine t.lexeme.toList
    · exact .inl (OneLine.strings_iff.mpr ⟨by simp, Token.oneLine_describe hlexeme⟩)
    · exact .inr ⟨hliteral hlexeme, hlexeme, .inl rfl⟩
  | expectedIdentifier =>
    by_cases hlexeme : OneLine t.lexeme.toList
    · exact .inl (OneLine.strings_iff.mpr ⟨by simp, Token.oneLine_describe hlexeme⟩)
    · exact .inr ⟨hliteral hlexeme, hlexeme, .inr rfl⟩
  | undeclaredPrivate hkind =>
    have hlexeme : OneLine t.lexeme.toList :=
      ht.oneLine_lexeme (by rw [Token.isString, hkind]) (by rw [Token.isTemplate, hkind])
    exact .inl (oneLine_wrapped (by simp) hlexeme (by simp))
  | undefinedLabel hi | repeatedLabel hi | continueTarget hi =>
    exact .inl (oneLine_wrapped (by simp) (ht.oneLine_name hi) (by simp))

end GrammarError

theorem Token.isEnd_of_literal {t : Token} (h : t.isString = true ∨ t.isTemplate = true) : t.isEnd = false := by
  unfold isString isTemplate at h
  unfold isEnd
  split <;> simp_all

theorem Fault.QuotesLines.not_oneLine {f : Fault} (h : f.QuotesLines text) : ¬ OneLine f.diagnostic.message.toList := by
  rintro hline
  obtain ⟨t, _, hliteral, hlexeme, rfl | rfl⟩ := h <;>
    exact hlexeme (t.oneLine_of_describe (Token.isEnd_of_literal hliteral) (OneLine.strings_iff.mp hline).2)

/-- What a fault of a text tells is on one line, unless it quotes a literal that is not. -/
theorem Fault.In.oneLine_or {f : Fault} (h : f.In text) :
    OneLine f.diagnostic.message.toList ∨ f.QuotesLines text := by
  cases f with
  | lexical e p => exact .inl (e.oneLine_message h.tells)
  | grammatical e p =>
    rcases h.tells with hfixed | ⟨t, ht, rfl, hquotes⟩
    · exact .inl (GrammarError.oneLine_of_isFixed hfixed)
    · rcases hquotes.oneLine_or ht.wasRead with hline | ⟨hliteral, hlexeme, rfl | rfl⟩
      · exact .inl hline
      · exact .inr ⟨t, ht, hliteral, hlexeme, .inl rfl⟩
      · exact .inr ⟨t, ht, hliteral, hlexeme, .inr rfl⟩
  | tooDeep limit p =>
    left
    change OneLine ("Maximum nesting depth of " ++ toString limit ++ " exceeded").toList
    exact oneLine_wrapped (by simp) (oneLine_toString limit) (by simp)
  | stalled p | labelsMissing p => exact absurd rfl h.kind

/-- The same of a buffer, whose text the fault is about unless it is not UTF-8. -/
theorem bufferFault_oneLine_iff {options : Options} {buffer : List UInt8} {f : Fault}
    (h : bufferFault? options (buffer ++ sentinel) = some f) :
    OneLine f.diagnostic.message.toList ↔ ¬ ∃ text, Utf8.encode text = buffer ∧ f.QuotesLines text := by
  constructor
  · rintro hline ⟨text, _, hquotes⟩
    exact hquotes.not_oneLine hline
  · intro hnot
    obtain ⟨p, rfl, _⟩ | ⟨text, htext, hin⟩ := bufferFault_cases h
    · exact LexicalError.oneLine_message (e := .invalidUtf8) nofun
    · exact hin.oneLine_or.resolve_right fun hquotes => hnot ⟨text, htext, hquotes⟩

/-! ## Output -/

theorem ErrorRecord.oneLine_display_iff {r : ErrorRecord} : OneLine r.display.toList ↔ OneLine r.message.toList := by
  have hplace : OneLine (toString r.line ++ ":" ++ toString r.column ++ ": ").toList := by
    simp only [OneLine.strings_iff, oneLine_toString, true_and]
    simp
  rw [display, OneLine.strings_iff]
  exact and_iff_right hplace

namespace CommandLine

variable {path : String} {bytes : List UInt8} {failure : Failure}

/-- A failure to check a file that was read is a fault of its bytes, told with the path. -/
theorem exists_fault_of_validate (h : validate path (.ok bytes) = .error failure) :
    ∃ f, bufferFault? { sourceType := .ofPath path } (bytes ++ sentinel) = some f ∧
      failure = if f.diagnostic.kind = .tooDeep then .tooDeep path (.ofDiagnostic f.diagnostic)
        else .invalid path (.ofDiagnostic f.diagnostic) := by
  rw [validate, checkBuffer] at h
  cases hfault : bufferFault? { sourceType := .ofPath path } (bytes ++ sentinel) with
  | none =>
    rw [hfault] at h
    cases h
  | some f =>
    refine ⟨f, rfl, ?_⟩
    have hkind := (bufferFault_in hfault).1
    rw [hfault] at h
    cases f with
    | lexical | grammatical | tooDeep =>
      cases h
      rfl
    | stalled | labelsMissing => exact absurd rfl hkind

theorem oneLine_located_iff {r : ErrorRecord} (hpath : OneLine path.toList) :
    OneLine (Failure.located path r).toList ↔ OneLine r.message.toList := by
  rw [Failure.located, OneLine.strings_iff, ErrorRecord.oneLine_display_iff]
  exact and_iff_right (OneLine.strings_iff.mpr ⟨hpath, by simp⟩)

/-- Words before the place in a file. -/
theorem oneLine_before_located_iff {r : ErrorRecord} (before : String) (hpath : OneLine path.toList)
    (hbefore : OneLine before.toList) :
    OneLine (before ++ Failure.located path r).toList ↔ OneLine r.message.toList := by
  rw [OneLine.strings_iff, oneLine_located_iff hpath]
  exact and_iff_right hbefore

theorem oneLine_invalid_iff {r : ErrorRecord} (hpath : OneLine path.toList) :
    OneLine (Failure.invalid path r).message.toList ↔ OneLine r.message.toList :=
  oneLine_before_located_iff "Syntax error at " hpath (by simp)

theorem oneLine_tooDeep_iff {r : ErrorRecord} (hpath : OneLine path.toList) :
    OneLine (Failure.tooDeep path r).message.toList ↔ OneLine r.message.toList :=
  oneLine_before_located_iff "Nesting too deep at " hpath (by simp)

/-- For a file that was read and is no program, the program prints what the failure tells and ends the line. With a path
on one line that is all on one line exactly if the failure is not that a string or a template that spans several lines
cannot stand where it does. -/
theorem errorOutput_lines (path : String) (bytes : List UInt8) (failure : Failure) (hpath : OneLine path.toList)
    (h : validate path (.ok bytes) = .error failure) :
    (complete (validate path (.ok bytes))).errorOutput = failure.message ++ "\n" ∧
      (OneLine failure.message.toList ↔
        ¬ ∃ (text : List Char) (f : Fault), Utf8.encode text = bytes ∧ f.QuotesLines text ∧
          failure = .invalid path (.ofDiagnostic f.diagnostic)) := by
  refine ⟨by rw [h]; rfl, fun hline => ?_, fun hnot => ?_⟩
  · rintro ⟨text, f, _, hquotes, rfl⟩
    exact hquotes.not_oneLine ((oneLine_invalid_iff hpath).mp hline)
  · obtain ⟨f, hf, hfailure⟩ := exists_fault_of_validate h
    have hline := bufferFault_oneLine_iff hf
    by_cases hdeep : f.diagnostic.kind = .tooDeep
    · rw [if_pos hdeep] at hfailure
      rw [hfailure, oneLine_tooDeep_iff hpath]
      refine hline.mpr ?_
      rintro ⟨_, _, t, _, _, _, rfl | rfl⟩ <;> cases hdeep
    · rw [if_neg hdeep] at hfailure
      rw [hfailure, oneLine_invalid_iff hpath]
      exact hline.mpr fun ⟨text, htext, hquotes⟩ => hnot ⟨text, f, htext, hquotes, hfailure⟩

/-- The file holds `if 'b'`: a string that is unexpected, on one line. -/
theorem errorOutput_lines_of_string :
    let bytes : List UInt8 := [0x69, 0x66, 0x20, 0x27, 0x62, 0x27]
    let failure : Failure := .invalid "a.js" ⟨.grammatical, 1, 4, 3, "Unexpected token ''b''"⟩
    OneLine "a.js".toList ∧ validate "a.js" (.ok bytes) = .error failure ∧
      (complete (validate "a.js" (.ok bytes))).errorOutput = failure.message ++ "\n" ∧
      (OneLine failure.message.toList ↔
        ¬ ∃ (text : List Char) (f : Fault), Utf8.encode text = bytes ∧ f.QuotesLines text ∧
          failure = .invalid "a.js" (.ofDiagnostic f.diagnostic)) := by
  have hcheck : validate "a.js" (.ok [0x69, 0x66, 0x20, 0x27, 0x62, 0x27]) =
      .error (.invalid "a.js" ⟨.grammatical, 1, 4, 3, "Unexpected token ''b''"⟩) := by decide +kernel
  exact ⟨by decide, hcheck, errorOutput_lines "a.js" _ _ (by decide) hcheck⟩

/-- The file holds `if` and a template with nothing but a line feed in it. The template is quoted on two lines. -/
theorem errorOutput_on_two_lines :
    let result := validate "a.js" (.ok [0x69, 0x66, 0x20, 0x60, 0x0A, 0x60])
    OneLine "a.js".toList ∧
      result = .error (.invalid "a.js" ⟨.grammatical, 1, 4, 3, "Unexpected token '\x60\n\x60'"⟩) ∧
      (complete result).errorOutput = "Syntax error at a.js:1:4: Unexpected token '\x60\n\x60'\n" ∧
      ∀ failure, result = .error failure → ¬ OneLine failure.message.toList := by
  have hcheck : validate "a.js" (.ok [0x69, 0x66, 0x20, 0x60, 0x0A, 0x60]) =
      .error (.invalid "a.js" ⟨.grammatical, 1, 4, 3, "Unexpected token '\x60\n\x60'"⟩) := by decide +kernel
  refine ⟨by decide, hcheck, by decide +kernel, ?_⟩
  intro failure h
  cases hcheck.symm.trans h
  rw [oneLine_invalid_iff (by decide)]
  simp

end CommandLine

end EcmaCheck
