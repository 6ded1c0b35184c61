import EcmaCheck.Proofs.Lexical.Printable
import EcmaCheck.Proofs.Literals.LongestNumeral
import EcmaCheck.Proofs.Literals.NameSpelling
import EcmaCheck.Proofs.Literals.RegExpLiteral
import EcmaCheck.Proofs.Quoting

/-!
# Tokens on one line

Only strings and templates may span several lines: every other token that a scanner reads is written without a line feed
and a carriage return (`Token.WasRead.oneLine_lexeme`), and so are names. This follows for each kind of token from the
texts that are read as one: numeric literals, spellings of names, regular expression literals and punctuators.
-/

namespace EcmaCheck

namespace Lexical

/-! ## Numbers -/

theorem DigitRun.oneLine {radix : Nat} {ds : List Char} (h : DigitRun radix ds) : OneLine ds := by
  have hdigit {c : Char} (hc : isDigitOf radix c = true) : c ≠ '\n' ∧ c ≠ '\r' := by
    constructor <;> rintro rfl <;> cases hc
  induction h with
  | last hc => exact OneLine.cons_iff.mpr ⟨hdigit hc, .nil⟩
  | more hc _ ih => exact OneLine.cons_iff.mpr ⟨hdigit hc, ih⟩
  | separated hc _ ih => exact OneLine.cons_iff.mpr ⟨hdigit hc, OneLine.cons_iff.mpr ⟨by decide, ih⟩⟩

theorem WholePart.oneLine {whole : List Char} (h : WholePart whole ∨ LegacyDecimal whole) : OneLine whole := by
  obtain (_ | ⟨hds, _⟩) | ⟨hds, _⟩ := h
  · decide
  · exact hds.oneLine
  · exact OneLine.cons_iff.mpr ⟨by decide, .of_all hds rfl rfl⟩

theorem FractionPart.oneLine {fraction : List Char} (h : FractionPart fraction) : OneLine fraction := by
  cases h with
  | missing => exact .nil
  | point => decide
  | digits hds => exact OneLine.cons_iff.mpr ⟨by decide, hds.oneLine⟩

theorem ExponentPart.oneLine {power : List Char} (h : ExponentPart power) : OneLine power := by
  cases h with
  | missing => exact .nil
  | plain hmark hds =>
    refine OneLine.cons_iff.mpr ⟨?_, hds.oneLine⟩
    rcases hmark with rfl | rfl <;> decide
  | signed hmark hsign hds =>
    refine OneLine.cons_iff.mpr ⟨?_, OneLine.cons_iff.mpr ⟨?_, hds.oneLine⟩⟩
    · rcases hmark with rfl | rfl <;> decide
    · rcases hsign with rfl | rfl <;> decide

theorem RadixMark.oneLine {mark : Char} {radix : Nat} (h : RadixMark mark radix) : mark ≠ '\n' ∧ mark ≠ '\r' := by
  cases h with
  | hexadecimal h | octal h | binary h => rcases h with rfl | rfl <;> decide

theorem NumericLiteral.oneLine {literal : List Char} (h : NumericLiteral literal) : OneLine literal := by
  cases h with
  | decimal hwhole hfraction hpower =>
    exact OneLine.append_iff.mpr
      ⟨OneLine.append_iff.mpr ⟨WholePart.oneLine hwhole, hfraction.oneLine⟩, hpower.oneLine⟩
  | point hds hpower =>
    exact OneLine.append_iff.mpr ⟨OneLine.cons_iff.mpr ⟨by decide, hds.oneLine⟩, hpower.oneLine⟩
  | big hwhole => exact OneLine.append_iff.mpr ⟨WholePart.oneLine (.inl hwhole), by decide⟩
  | radix hmark hds => exact OneLine.cons_iff.mpr ⟨by decide, OneLine.cons_iff.mpr ⟨hmark.oneLine, hds.oneLine⟩⟩
  | bigRadix hmark hds =>
    exact OneLine.append_iff.mpr
      ⟨OneLine.cons_iff.mpr ⟨by decide, OneLine.cons_iff.mpr ⟨hmark.oneLine, hds.oneLine⟩⟩, by decide⟩
  | legacyOctal _ hds => exact OneLine.cons_iff.mpr ⟨by decide, .of_all hds rfl rfl⟩

/-! ## Names -/

theorem CharacterEscape.oneLine {c : Char} {escape : List Char} (h : CharacterEscape c escape) : OneLine escape := by
  cases h with
  | four _ hds => exact OneLine.cons_iff.mpr ⟨by decide, .of_all hds rfl rfl⟩
  | braced _ hds =>
    have hclosed := OneLine.append_iff.mpr ⟨.of_all hds rfl rfl, (by decide : OneLine ['}'])⟩
    exact OneLine.cons_iff.mpr ⟨by decide, OneLine.cons_iff.mpr ⟨by decide, hclosed⟩⟩

theorem IsName.oneLine {name : List Char} (h : IsName name) : OneLine name := by
  cases name with
  | nil => exact h.elim
  | cons c rest =>
    exact OneLine.of_all (List.forall_mem_cons.mpr ⟨isIdentifierPart_of_isIdentifierStart h.1, h.2⟩) rfl rfl

theorem NameSpelling.oneLine {name spelling : List Char} (h : NameSpelling name spelling) (hname : OneLine name) :
    OneLine spelling := by
  induction h with
  | nil => exact .nil
  | raw _ ih =>
    obtain ⟨hc, hrest⟩ := OneLine.cons_iff.mp hname
    exact OneLine.cons_iff.mpr ⟨hc, ih hrest⟩
  | escaped hc _ ih =>
    exact OneLine.cons_iff.mpr
      ⟨by decide, OneLine.append_iff.mpr ⟨hc.oneLine, ih (OneLine.cons_iff.mp hname).2⟩⟩

/-! ## Regular expressions -/

theorem IsRegExpEnd.oneLine {text : List Char} {k : Nat} (h : IsRegExpEnd text k) : OneLine (text.take (k + 1)) := by
  rw [List.take_add_one, h.closes.1.1]
  refine OneLine.append_iff.mpr ⟨fun c hc => ?_, by decide⟩
  have hline := h.line c hc
  constructor <;> rintro rfl <;> cases hline

/-- What is read of a regular expression literal, with its opening slash. -/
theorem regExp_oneLine {text : List Char} {n : Nat} {kind : TokenKind} (h : regExp text = ⟨n, .ok kind⟩) :
    OneLine (('/' :: text).take n) := by
  have hbody := regExpBody_takes false 0 text rfl .start
  unfold regExp at h
  generalize regExpBody false 0 text = r at h hbody
  cases hbody with
  | leftOpen => cases h
  | @closes k hend =>
    have hflags := regExpFlags_takes [] 0 (text.drop (k + 1)) (List.forall_mem_nil _) .nil
    dsimp only at h
    generalize regExpFlags [] 0 (text.drop (k + 1)) = r at h hflags
    cases hflags with
    | malformed => cases h
    | @flags run rest hrun _ =>
      have hlength : n = (k + 1 + run.length) + 1 := by
        have := congrArg Reading.length h
        simp only [Reading.after, Reading.reportedAt] at this
        omega
      rw [hlength, List.take_succ_cons, List.take_add, hrun.eq, List.take_left]
      exact OneLine.cons_iff.mpr ⟨by decide, OneLine.append_iff.mpr ⟨hend.oneLine, .of_all hrun.parts rfl rfl⟩⟩

/-! ## Punctuators -/

theorem oneLine_spelling (p : Punctuator) : OneLine p.spelling := by
  cases p <;> decide

/-- The reading of a punctuator takes its spelling. -/
theorem punctuator_oneLine {c : Char} {rest : List Char} {n : Nat} {kind : TokenKind}
    (h : (((punctuatorFrom c rest).map TokenKind.punctuator).after 1).reportedAt 0 = ⟨n, .ok kind⟩) :
    OneLine ((c :: rest).take n) := by
  rw [punctuator_reading] at h
  cases hp : punctuator? (c :: rest) with
  | none => rw [hp] at h; cases h
  | some p =>
    obtain ⟨more, hmore⟩ := prefix_of_punctuator? hp
    rw [hp] at h
    cases h
    rw [← hmore, List.take_left]
    exact oneLine_spelling p

/-! ## Tokens -/

/-- Whether tokens of the kind may span several lines. -/
def spansLines : TokenKind → Bool
  | .string _ | .template .. => true
  | _ => false

theorem spansLines_template {text : List Char} {opening : Bool} {r : Reading Misreading TokenKind} {kind : TokenKind}
    (h : TemplateReads text opening r) (hr : r.result = .ok kind) : spansLines kind = true := by
  cases h with
  | closes => cases hr; rfl
  | leftOpen => cases hr

theorem spansLines_string {sentinel legacy : Bool} {quote : Char} {length : Nat} {text : List Char}
    {r : Reading Misreading TokenKind} {kind : TokenKind} (h : StringReads sentinel quote legacy length text r)
    (hr : r.result = .ok kind) : spansLines kind = true := by
  cases h with
  | closes => cases hr; rfl
  | malformed | leftOpen => cases hr

theorem numeral_oneLine {text : List Char} {n : Nat} {kind : TokenKind} (hbegins : beginsNumeral text = true)
    (h : (numeral text).reportedAt 0 = ⟨n, .ok kind⟩) : OneLine (text.take n) := by
  obtain ⟨literal, rest, hrest, hlongest, hruns, hends⟩ := numeral_takes_longest hbegins
  by_cases hrun : RunsOn rest
  · obtain ⟨k, e, heq⟩ := hruns hrun
    rw [hrest, heq] at h
    cases h
  · rw [hrest, hends hrun] at h
    cases h
    rw [hrest, List.take_left]
    exact hlongest.holds.oneLine

theorem nameKind_oneLine {text : List Char} {sentinel : Bool} {goal : LexicalGoal} {n : Nat} {kind : TokenKind}
    (h : element sentinel goal text = ⟨n, .ok kind⟩) (hkind : isNameKind kind = true) :
    OneLine (text.take n) ∧ ∀ {name escaped}, kind = .identifier name escaped → OneLine name.toList := by
  obtain ⟨name, spelling, rest, hname, hspelling, ⟨rfl, rfl, rfl⟩ | ⟨rfl, rfl, rfl⟩⟩ := spelling_of_element h hkind
  · refine ⟨by rw [List.take_left]; exact hspelling.oneLine hname.oneLine, fun {found escaped} h => ?_⟩
    rcases nameKind_cases name (decide ('\\' ∈ spelling)) with hk | ⟨k, _, _, hk⟩ <;> rw [hk] at h <;> cases h
    rw [String.toList_ofList]
    exact hname.oneLine
  · refine ⟨?_, nofun⟩
    rw [List.take_succ_cons, List.take_left]
    exact OneLine.cons_iff.mpr ⟨by decide, hspelling.oneLine hname.oneLine⟩

/-- Of the tokens a text may begin with, only strings and templates span lines. -/
theorem element_oneLine {sentinel : Bool} {goal : LexicalGoal} {text : List Char} {n : Nat} {kind : TokenKind}
    (h : element sentinel goal text = ⟨n, .ok kind⟩) (hkind : spansLines kind = false) : OneLine (text.take n) := by
  cases hname : isNameKind kind with
  | true => exact (nameKind_oneLine h hname).1
  | false =>
    cases text with
    | nil => rw [List.take_nil]; exact .nil
    | cons c rest =>
      have hspans (h : spansLines kind = true) : OneLine ((c :: rest).take n) :=
        absurd h (Bool.eq_false_iff.mp hkind)
      rw [element] at h
      split at h
      case isTrue htail =>
        have hc : c ≠ '\\' := by
          rintro rfl
          exact Bool.false_ne_true htail
        exact hspans (spansLines_template (templateFrom_takes false none 1 rest rfl (.start hc rest))
          (congrArg Reading.result h))
      split at h
      case isTrue hslash =>
        obtain ⟨rfl, _⟩ : c = '/' ∧ goal = .regExp := by simpa using hslash
        exact regExp_oneLine h
      split at h
      case isTrue hquote =>
        have hc : c = '"' ∨ c = '\'' := by simpa using hquote
        exact hspans (spansLines_string (stringFrom_takes hc false 1 rest) (congrArg Reading.result h))
      split at h
      case isTrue hgrave =>
        have hc : c ≠ '\\' := by
          rintro rfl
          exact absurd hgrave (by decide)
        exact hspans (spansLines_template (templateFrom_takes true none 1 rest rfl (.start hc rest))
          (congrArg Reading.result h))
      split at h
      case isTrue hbegins => exact numeral_oneLine hbegins h
      split at h
      case isTrue hsign =>
        split at h
        case isTrue =>
          obtain ⟨found, _, rfl⟩ := of_map h
          cases hname
        case isFalse => cases h
      split at h
      case isTrue =>
        obtain ⟨found, _, rfl⟩ := of_map h
        unfold nameKind at hname
        split at hname <;> cases hname
      case isFalse => exact punctuator_oneLine h

end Lexical

/-! ## Tokens of a scanner -/

/-- The token was read from a text as what it is, or stands where one ends. -/
inductive Token.WasRead (t : Token) : Prop
  | atEnd (hkind : t.kind = .endOfInput) (hlexeme : t.lexeme = "")
  | element {sentinel : Bool} {goal : LexicalGoal} {text : List Char} {n : Nat}
      (h : Lexical.element sentinel goal text = ⟨n, .ok t.kind⟩) (hlexeme : t.lexeme = String.ofList (text.take n))

namespace Token.WasRead

variable {t : Token}

/-- A token spans lines only if it is a string or a template. -/
theorem oneLine_lexeme (h : t.WasRead) (hstring : t.isString = false) (htemplate : t.isTemplate = false) :
    OneLine t.lexeme.toList := by
  cases h with
  | atEnd _ hlexeme =>
    rw [hlexeme]
    decide
  | element helement hlexeme =>
    rw [hlexeme, String.toList_ofList]
    refine Lexical.element_oneLine helement ?_
    unfold isString at hstring
    unfold isTemplate at htemplate
    unfold Lexical.spansLines
    split <;> simp_all

theorem oneLine_name {i : Grammar.Identifier} (h : t.WasRead) (hi : Grammar.identifier? t = some i) :
    OneLine i.name.toList := by
  unfold Grammar.identifier? at hi
  split at hi <;> cases hi
  rename_i hkind
  cases h with
  | atEnd hend => cases hkind.symm.trans hend
  | element helement =>
    rw [hkind] at helement
    exact (Lexical.nameKind_oneLine helement rfl).2 rfl

end Token.WasRead

namespace Scanner

variable {s : Scanner} {goal : LexicalGoal}

/-- A scanner gives tokens that were read, and errors that are printable. -/
theorem next_reads (s : Scanner) (goal : LexicalGoal) :
    match (s.next goal).1 with
    | .ok t => t.WasRead
    | .error f => ∃ e p, f = .lexical e p ∧ e.Printable := by
  rcases hgap : s.skipGap goal with ⟨k, m | newline⟩
  · rw [next_fails hgap]
    refine ⟨_, _, rfl, ?_⟩
    unfold skipGap at hgap
    split at hgap
    · cases hgap
    · exact Lexical.printable_gap (congrArg Reading.result hgap)
  by_cases hrest : (s.advance k).rest = []
  · rw [next_ends hgap hrest]
    exact .atEnd rfl rfl
  rcases helement : Lexical.element s.source.sentinel goal (s.advance k).rest with ⟨n, m | kind⟩
  · rw [next_misread hgap hrest helement]
    exact ⟨_, _, rfl, Lexical.printable_element (congrArg Reading.result helement)⟩
  · rw [next_token hgap hrest helement]
    exact .element helement rfl

theorem wasRead_of_next {t : Token} (h : (s.next goal).1 = .ok t) : t.WasRead := by
  have hreads := s.next_reads goal
  rwa [h] at hreads

theorem printable_of_next {f : Fault} (h : (s.next goal).1 = .error f) : ∃ e p, f = .lexical e p ∧ e.Printable := by
  have hreads := s.next_reads goal
  rwa [h] at hreads

theorem wasRead_of_rescan {old t : Token} (h : (s.rescan goal old).1 = .ok t) : t.WasRead := by
  unfold rescan at h
  rcases hr : (s.moveTo old.start).next goal with ⟨_ | again, after⟩ <;> rw [hr] at h <;> cases h
  cases wasRead_of_next (congrArg Prod.fst hr) with
  | atEnd hkind hlexeme => exact .atEnd hkind hlexeme
  | element helement hlexeme => exact .element helement hlexeme

theorem printable_of_rescan {old : Token} {f : Fault} (h : (s.rescan goal old).1 = .error f) :
    ∃ e p, f = .lexical e p ∧ e.Printable := by
  unfold rescan at h
  rcases hr : (s.moveTo old.start).next goal with ⟨_ | again, after⟩ <;> rw [hr] at h <;> cases h
  exact printable_of_next (congrArg Prod.fst hr)

end Scanner

end EcmaCheck
