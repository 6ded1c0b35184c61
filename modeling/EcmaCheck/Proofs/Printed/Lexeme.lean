import EcmaCheck.Proofs.Scanning
import EcmaCheck.Proofs.Lexical.ClosedElement

/-!
# Printed lexemes

A tree is printed as pieces: lexemes, and the spaces between them. A lexeme is read back as what it is if what follows
it does not go on with it (`Lexeme.reads`); the pieces of a tree are printed so that this holds of all of them
(`Sound`). Then a text with a sentinel behind it spells the lexemes one after the other (`spells_text`).
-/

namespace EcmaCheck

open Lexical

/-! ## Lexemes -/

/-- A word as it is spelled; keywords are words too. -/
structure Word where
  spelling : List Char
  /-- What the spelling stands for. -/
  value : Lexical.Name
  nonempty : spelling ≠ []
  reads : nameFrom [] false 0 spelling = ⟨spelling.length, .ok value⟩

/-- A number or a string as it is spelled, of the given kind. -/
structure Literal (kind : TokenKind) where
  spelling : List Char
  opens : spelling.head?.any (fun c => isDecimalDigit c || c = '.' || c = '"' || c = '\'') = true
  reads : element true .division (spelling ++ [' ']) = ⟨spelling.length, .ok kind⟩

/-- What a tree is printed of. -/
inductive Lexeme where
  | punctuator (p : Punctuator)
  | word (w : Word)
  | literal {kind : TokenKind} (l : Literal kind)

/-- The kind of token that the word is. -/
def Word.kind (w : Word) : TokenKind :=
  nameKind w.value

namespace Lexeme

/-- The text of the lexeme. -/
def spelling : Lexeme → List Char
  | punctuator p => p.spelling
  | word w => w.spelling
  | literal l => l.spelling

/-- The kind of token that the lexeme is. -/
def kind : Lexeme → TokenKind
  | punctuator p => .punctuator p
  | word w => w.kind
  | @literal k _ => k

end Lexeme

/-! ## Words -/

namespace Word

/-- Whether a text is a word without escapes. -/
def isPlain : List Char → Bool
  | [] => false
  | c :: rest => isIdentifierStart c && rest.all isIdentifierPart

theorem nameFrom_plain {before : List Char} (hbefore : before ≠ []) (length : Nat) {text : List Char}
    (h : ∀ c ∈ text, isIdentifierPart c = true) :
    nameFrom before false length text = ⟨length + text.length, .ok ⟨before.reverse ++ text, false⟩⟩ := by
  induction text generalizing before length with
  | nil => rw [nameFrom, List.append_nil, List.length_nil, Nat.add_zero]
  | cons c text ih =>
    have hc := h c List.mem_cons_self
    have hslash : c ≠ '\\' := by
      rintro rfl
      exact absurd hc (by decide +kernel)
    have hadmits : admits before.isEmpty c = true := by
      rw [List.isEmpty_eq_false_iff.mpr hbefore]
      exact hc
    rw [nameFrom, if_neg hslash, if_pos hadmits, ih (List.cons_ne_nil c before) (length + 1) fun d hd =>
      h d (List.mem_cons_of_mem c hd)]
    simp only [List.reverse_cons, List.append_assoc, List.cons_append, List.nil_append, List.length_cons,
      Nat.add_assoc, Nat.add_comm 1]

/-- A word that is spelled without escapes. -/
def plain (text : List Char) (h : isPlain text = true) : Word where
  spelling := text
  value := ⟨text, false⟩
  nonempty := by
    rintro rfl
    cases h
  reads := by
    cases text with
    | nil => cases h
    | cons c rest =>
      obtain ⟨hc, hrest⟩ := (Bool.and_eq_true _ _).mp h
      have hslash : c ≠ '\\' := by
        rintro rfl
        exact absurd hc (by decide +kernel)
      rw [nameFrom, if_neg hslash, if_pos (show admits [].isEmpty c = true from hc),
        nameFrom_plain (List.cons_ne_nil c []) _ (List.all_eq_true.mp hrest),
        List.length_cons, Nat.zero_add, Nat.add_comm]
      rfl

end Word

/-- The word that a keyword is. -/
def Keyword.word (k : Keyword) : Word :=
  .plain k.spelling.toList (by cases k <;> decide +kernel)

theorem Keyword.kind_word (k : Keyword) : k.word.kind = .keyword k := by
  unfold Word.kind nameKind Keyword.word Word.plain
  rw [String.ofList_toList, ofName?_spelling]

/-- A word that can be the name of a variable, as it is not reserved. -/
structure Variable extends Word where
  free : Keyword.ofName? (String.ofList value.characters) = none

namespace Variable

/-- A variable that is spelled without escapes. -/
def plain (text : List Char) (h : Word.isPlain text = true) (hfree : Keyword.ofName? (String.ofList text) = none) :
    Variable where
  toWord := .plain text h
  free := hfree

/-- The name. -/
def name (v : Variable) : String :=
  String.ofList v.value.characters

theorem kind_eq (v : Variable) : v.kind = .identifier v.name v.value.escaped := by
  unfold Word.kind nameKind
  rw [v.free]
  cases v.value.escaped <;> rfl

end Variable

/-- A name that is nowhere reserved. -/
def nameA : Variable :=
  .plain ['a'] (by decide +kernel) (by decide)

/-- Another name that is nowhere reserved. -/
def nameX : Variable :=
  .plain ['x'] (by decide +kernel) (by decide)

/-- A name for functions. -/
def nameF : Variable :=
  .plain ['f'] (by decide +kernel) (by decide)

/-! ## What may follow a lexeme -/

/-- Whether the punctuator is read whatever follows it. -/
def Punctuator.isWhole : Punctuator → Bool
  | openParen | closeParen | openBrace | closeBrace | openBracket | closeBracket | semicolon | comma | colon
  | ellipsis | arrow => true
  | _ => false

/-- A lexeme or a space. -/
inductive Piece where
  | space
  | lexeme (l : Lexeme)

/-- Whether a literal ends before the punctuator. -/
def Punctuator.isClosing (p : Punctuator) : Bool :=
  p.isWhole && p ≠ .ellipsis && p ≠ .arrow

/-- Whether the lexeme can be told from the piece that is printed next to it. -/
def Lexeme.precedes : Lexeme → Piece → Bool
  | punctuator p, .space => p ≠ .slash && p ≠ .slashAssign
  | _, .space => true
  | punctuator p, .lexeme (word _) => p.isWhole || p = .dot
  | punctuator p, .lexeme _ => p.isWhole
  | word _, .lexeme (punctuator _) => true
  | literal _, .lexeme (punctuator p) => p.isClosing
  | _, _ => false

/-- The lexeme is read before the text, whatever is expected. -/
def Lexeme.ReadsBefore (l : Lexeme) (rest : List Char) : Prop :=
  ∀ goal, goal ≠ .templateTail → element true goal (l.spelling ++ rest) = ⟨l.spelling.length, .ok l.kind⟩

/-- What the reading of a punctuator depends on in its first character. -/
theorem Punctuator.first {p : Punctuator} (h : p ≠ .slash ∧ p ≠ .slashAssign) : ∃ c rest, p.spelling = c :: rest ∧
    c ≠ '/' ∧ c ≠ '"' ∧ c ≠ '\'' ∧ c ≠ '\x60' ∧ isDecimalDigit c = false ∧ c ≠ '#' ∧ beginsName c = false ∧
    (c = '.' → p ≠ .dot → rest.head? = some '.') ∧ isLineTerminator c = false ∧ isWhiteSpace c = false := by
  cases p <;> first
    | exact absurd rfl h.1
    | exact absurd rfl h.2
    | exact ⟨_, _, rfl, by decide +kernel⟩

theorem reads_punctuator {p : Punctuator} (h : p ≠ .slash ∧ p ≠ .slashAssign) {rest : List Char}
    (hdot : p = .dot → rest.head?.any isDecimalDigit = false) (hp : punctuator? (p.spelling ++ rest) = some p) :
    (Lexeme.punctuator p).ReadsBefore rest := by
  intro goal hgoal
  obtain ⟨c, more, hc, hslash, hquote, hsingle, htick, hdigit, hsign, hname, hpoint, _, _⟩ := p.first h
  have hnumber : (isDecimalDigit c || (decide (c = '.') && (more ++ rest).head?.any isDecimalDigit)) = false := by
    by_cases hc' : c = '.'
    · subst hc'
      by_cases hp' : p = .dot
      · subst hp'
        obtain rfl : more = [] := (List.cons.inj hc).2.symm
        exact hdot rfl
      · rw [List.head?_append, hpoint rfl hp']
        rfl
    · rw [hdigit, decide_eq_false hc']
      rfl
  change element true goal (p.spelling ++ rest) = ⟨p.spelling.length, .ok (.punctuator p)⟩
  rw [hc, List.cons_append] at hp ⊢
  simp only [element, hgoal, hslash, hquote, hsingle, htick, hsign, hname, hnumber, punctuator_reading, hp]
  simp [hc]

/-- A word begins like a name. -/
theorem Word.first (w : Word) : ∃ c rest, w.spelling = c :: rest ∧ beginsName c = true := by
  obtain ⟨c, rest, hc⟩ := List.exists_cons_of_ne_nil w.nonempty
  refine ⟨c, rest, hc, ?_⟩
  have hreads := w.reads
  rw [hc, nameFrom] at hreads
  unfold beginsName
  by_cases hslash : c = '\\'
  · rw [decide_eq_true hslash]
    rfl
  · by_cases hstart : isIdentifierStart c = true
    · rw [hstart, Bool.or_true]
    · rw [if_neg hslash, if_neg (show ¬ admits [].isEmpty c = true from hstart)] at hreads
      cases hreads

theorem reads_word {w : Word} {c : Char} {rest : List Char} (hescape : c ≠ '\\') (hpart : isIdentifierPart c = false) :
    (Lexeme.word w).ReadsBefore (c :: rest) := by
  intro goal _
  have hadmits (first : Bool) : admits first c = false := by
    cases first with
    | false => exact hpart
    | true =>
      exact Bool.eq_false_iff.mpr fun h => Bool.eq_false_iff.mp hpart (isIdentifierPart_of_isIdentifierStart h)
  have hreads := w.reads
  rw [← List.append_nil w.spelling] at hreads
  have hname := nameFrom_closed hreads (by simp) (.inr ⟨c, rest, rfl, hescape, hadmits⟩)
  obtain ⟨d, more, hd, hbegins⟩ := w.first
  change element true goal (w.spelling ++ c :: rest) = ⟨w.spelling.length, .ok w.kind⟩
  rw [List.append_nil, hd, List.cons_append] at hname
  rw [hd, List.cons_append, element_of_beginsName true goal hbegins, hname]
  rfl

theorem reads_literal {kind : TokenKind} {l : Literal kind} {c : Char} {rest : List Char} (hc : Closes c) :
    (Lexeme.literal l).ReadsBefore (c :: rest) := by
  intro goal hgoal
  obtain ⟨spelling, hopens, hreads⟩ := l
  change element true goal (spelling ++ c :: rest) = ⟨spelling.length, .ok kind⟩
  obtain _ | ⟨d, more⟩ := spelling
  · cases hopens
  have hclosed := element_closed (List.cons_ne_nil d more) (fun _ => ⟨List.cons_ne_nil _ _, List.cons_ne_nil _ _⟩)
    (fun h => absurd h.2 (by decide)) hreads (Nat.succ_pos _) (Nat.le_refl _) (.inr ⟨c, rest, rfl, hc⟩)
    fun _ _ => .inr ⟨c, rest, rfl, hc⟩
  have hslash : d ≠ '/' := by
    rintro rfl
    cases hopens
  cases goal with
  | regExp => exact (element_regExp_eq hslash).trans hclosed
  | division => exact hclosed
  | templateTail => exact absurd rfl hgoal

/-- Whether no gap begins with the character. -/
def opensToken (c : Char) : Bool :=
  !isLineTerminator c && !isWhiteSpace c && c ≠ '/' && c ≠ '#'

theorem opensToken_of_isIdentifierPart {c : Char} (h : isIdentifierPart c = true) : opensToken c = true := by
  have hne {d : Char} (hd : isIdentifierPart d = false) : c ≠ d := by
    rintro rfl
    exact absurd h (Bool.eq_false_iff.mp hd)
  have hline : isLineTerminator c = false := by
    refine Bool.eq_false_iff.mpr fun hc => ?_
    simp only [isLineTerminator, Bool.or_eq_true, decide_eq_true_eq] at hc
    rcases hc with ((rfl | rfl) | rfl) | rfl <;> exact absurd h (by decide +kernel)
  have hspace : isWhiteSpace c = false :=
    Bool.eq_false_iff.mpr fun hc => (closes_of_isWhiteSpace hc).ne_of_part h rfl
  have hslash : c ≠ '/' := hne (by decide +kernel)
  have hsign : c ≠ '#' := hne (by decide +kernel)
  unfold opensToken
  rw [hline, hspace, decide_eq_true hslash, decide_eq_true hsign]
  rfl

/-- A lexeme does not begin like a gap. -/
theorem Lexeme.first {l : Lexeme} {q : Piece} (h : l.precedes q = true) :
    ∃ c rest, l.spelling = c :: rest ∧ opensToken c = true := by
  cases l with
  | punctuator p =>
    have hslash : p ≠ .slash ∧ p ≠ .slashAssign := by
      constructor <;> rintro rfl <;> rcases q with _ | _ | _ | _ <;> cases h
    obtain ⟨c, rest, hc, hslash, _, _, _, _, hsign, _, _, hline, hspace⟩ := p.first hslash
    refine ⟨c, rest, hc, ?_⟩
    unfold opensToken
    rw [hline, hspace, decide_eq_true hslash, decide_eq_true hsign]
    rfl
  | word w =>
    obtain ⟨c, rest, hc, hbegins⟩ := w.first
    refine ⟨c, rest, hc, ?_⟩
    rcases (Bool.or_eq_true _ _).mp hbegins with hslash | hstart
    · obtain rfl := of_decide_eq_true hslash
      decide +kernel
    · exact opensToken_of_isIdentifierPart (isIdentifierPart_of_isIdentifierStart hstart)
  | literal l =>
    obtain ⟨spelling, hopens, _⟩ := l
    obtain _ | ⟨c, rest⟩ := spelling
    · cases hopens
    refine ⟨c, rest, rfl, ?_⟩
    rw [List.head?_cons, Option.any_some, Bool.or_eq_true, Bool.or_eq_true, Bool.or_eq_true] at hopens
    rcases hopens with ((hdigit | hpoint) | hquote) | hquote
    · exact opensToken_of_isIdentifierPart (isIdentifierPart_of_isHexDigit (isHexDigit_of_isDecimalDigit hdigit))
    all_goals
      obtain rfl := of_decide_eq_true ‹_›
      decide +kernel

/-! ## Printing -/

namespace Piece

/-- The text of the piece. -/
def text : Piece → List Char
  | space => [' ']
  | lexeme l => l.spelling

/-- The lexeme that the piece is. -/
def lexeme? : Piece → Option Lexeme
  | space => none
  | lexeme l => some l

end Piece

/-- The text that is printed. -/
def printed (ps : List Piece) : List Char :=
  ps.flatMap Piece.text

/-- The lexemes that are printed. -/
def lexemes (ps : List Piece) : List Lexeme :=
  ps.filterMap Piece.lexeme?

theorem printed_append (ps qs : List Piece) : printed (ps ++ qs) = printed ps ++ printed qs :=
  List.flatMap_append

theorem lexemes_append (ps qs : List Piece) : lexemes (ps ++ qs) = lexemes ps ++ lexemes qs :=
  List.filterMap_append

/-- A punctuator as a piece. -/
def Punctuator.piece (p : Punctuator) : Piece :=
  .lexeme (.punctuator p)

/-- A word as a piece. -/
def Word.piece (w : Word) : Piece :=
  .lexeme (.word w)

/-- Whether every lexeme can be told from what is printed next. -/
def Sound : List Piece → Bool
  | [] => true
  | .space :: ps => Sound ps
  | .lexeme l :: ps => l.precedes (ps.head?.getD .space) && Sound ps

/-- A whole punctuator can be told from anything. -/
theorem sound_whole {p : Punctuator} (h : p.isWhole = true) (ps : List Piece) :
    Sound (p.piece :: ps) = Sound ps := by
  have hprecedes (q : Piece) : (Lexeme.punctuator p).precedes q = true := by
    cases q with
    | space => cases p <;> first | rfl | cases h
    | lexeme l => cases l <;> simp [Lexeme.precedes, h]
  rw [Punctuator.piece, Sound, hprecedes, Bool.true_and]

/-- The text with its sentinel spells the lexemes, with spaces between them. -/
inductive Spells : List Lexeme → List Char → Prop
  | done : Spells [] ['\n']
  | space {ls : List Lexeme} {rest : List Char} : Spells ls rest → Spells ls (' ' :: rest)
  | lexeme {l : Lexeme} {ls : List Lexeme} {rest : List Char} :
      l.spelling.head?.any opensToken = true → l.ReadsBefore rest → Spells ls rest →
      Spells (l :: ls) (l.spelling ++ rest)

theorem reads_whole {p : Punctuator} (h : p.isWhole = true) (rest : List Char) :
    (Lexeme.punctuator p).ReadsBefore rest := by
  refine reads_punctuator ?_ ?_ ?_
  · constructor <;> rintro rfl <;> cases h
  · rintro rfl
    cases h
  · cases p <;> first
      | rfl
      | cases h

/-- A point before a word. -/
theorem reads_dot (w : Word) (rest : List Char) : (Lexeme.punctuator .dot).ReadsBefore (w.spelling ++ rest) := by
  obtain ⟨c, more, hc, hbegins⟩ := w.first
  have hpoint : c ≠ '.' := ne_of_beginsName hbegins (by decide +kernel)
  have hdigit : isDecimalDigit c = false :=
    Bool.eq_false_iff.mpr fun h => Bool.eq_false_iff.mp (beginsName_of_isDecimalDigit h) hbegins
  rw [hc, List.cons_append]
  refine reads_punctuator (by decide) (fun _ => hdigit) ?_
  simp [punctuator?, Punctuator.all, beginsWith, Punctuator.spelling, hpoint.symm]

/-- The lexeme is read before a space and at the end of the text. -/
theorem Lexeme.readsBefore_gap {l : Lexeme} (h : l.precedes .space = true) {c : Char} (hc : c = ' ' ∨ c = '\n')
    (rest : List Char) : l.ReadsBefore (c :: rest) := by
  cases l with
  | punctuator p =>
    obtain ⟨hslash, hassign⟩ := (Bool.and_eq_true _ _).mp h
    refine reads_punctuator ⟨of_decide_eq_true hslash, of_decide_eq_true hassign⟩ (fun _ => ?_) ?_
    · rcases hc with rfl | rfl <;> rfl
    · rcases hc with rfl | rfl <;> cases p <;> rfl
  | word w => rcases hc with rfl | rfl <;> exact reads_word (by decide) (by decide +kernel)
  | literal l => rcases hc with rfl | rfl <;> exact reads_literal (by decide +kernel)

/-- The lexeme is read before the piece. -/
theorem Lexeme.readsBefore_piece {l : Lexeme} {q : Piece} (h : l.precedes q = true) (rest : List Char) :
    l.ReadsBefore (q.text ++ rest) := by
  cases q with
  | space => exact l.readsBefore_gap h (.inl rfl) rest
  | lexeme next =>
    cases l with
    | punctuator p =>
      cases next with
      | word w =>
        rcases (Bool.or_eq_true _ _).mp h with hwhole | hdot
        · exact reads_whole hwhole _
        · obtain rfl := of_decide_eq_true hdot
          exact reads_dot w rest
      | punctuator q => exact reads_whole h _
      | literal l => exact reads_whole h _
    | word w =>
      cases next with
      | punctuator q =>
        have hfirst : ∃ c more, q.spelling = c :: more ∧ c ≠ '\\' ∧ isIdentifierPart c = false := by
          cases q <;> exact ⟨_, _, rfl, by decide +kernel⟩
        obtain ⟨c, more, hc, hescape, hpart⟩ := hfirst
        change (word w).ReadsBefore (q.spelling ++ rest)
        rw [hc]
        exact reads_word hescape hpart
      | word v => cases h
      | literal l => cases h
    | literal l =>
      cases next with
      | punctuator q =>
        have hfirst : ∃ c more, q.spelling = c :: more ∧ Closes c := by
          cases q <;> first
            | exact ⟨_, _, rfl, by decide +kernel⟩
            | cases h
        obtain ⟨c, more, hc, hcloses⟩ := hfirst
        change (literal l).ReadsBefore (q.spelling ++ rest)
        rw [hc]
        exact reads_literal hcloses
      | word v => cases h
      | literal l => cases h

theorem spells_printed {ps : List Piece} (h : Sound ps = true) : Spells (lexemes ps) (printed ps ++ ['\n']) := by
  induction ps with
  | nil => exact .done
  | cons q ps ih =>
    cases q with
    | space => exact .space (ih h)
    | lexeme l =>
      obtain ⟨hl, hps⟩ := (Bool.and_eq_true _ _).mp h
      have hreads : l.ReadsBefore (printed ps ++ ['\n']) := by
        cases ps with
        | nil => exact l.readsBefore_gap hl (.inr rfl) []
        | cons q ps =>
          change l.ReadsBefore (q.text ++ printed ps ++ ['\n'])
          rw [List.append_assoc]
          exact l.readsBefore_piece hl _
      have htext : printed (.lexeme l :: ps) ++ ['\n'] = l.spelling ++ (printed ps ++ ['\n']) :=
        List.append_assoc l.spelling (printed ps) ['\n']
      rw [htext]
      obtain ⟨c, rest, hc, hopens⟩ := l.first hl
      exact .lexeme (by rw [hc]; exact hopens) hreads (ih hps)

/-! ## Reading what is printed -/

namespace Scanner

theorem source_bump (s : Scanner) : s.bump.source = s.source := by
  unfold bump
  split <;> rfl

theorem source_advance (n : Nat) (s : Scanner) : (s.advance n).source = s.source := by
  induction n generalizing s with
  | zero => rfl
  | succ n ih => exact (ih s.bump).trans s.source_bump

end Scanner

/-- The spaces before what is no gap are one. -/
theorem gapFrom_spaces {text : List Char} (h : ∀ length, gapFrom length false text = ⟨length, .ok false⟩)
    (length n : Nat) :
    gapFrom length false (List.replicate n ' ' ++ text) = ⟨length + n, .ok false⟩ := by
  induction n generalizing length with
  | zero => exact h length
  | succ n ih =>
    rw [List.replicate_succ, List.cons_append, gapFrom_space (by decide) (by decide), ih, Nat.add_assoc, Nat.add_comm 1]

theorem gapFrom_opens {c : Char} (hc : opensToken c = true) (length : Nat) (rest : List Char) :
    gapFrom length false (c :: rest) = ⟨length, .ok false⟩ := by
  obtain ⟨hc, hsign⟩ := (Bool.and_eq_true _ _).mp hc
  obtain ⟨hc, hslash⟩ := (Bool.and_eq_true _ _).mp hc
  obtain ⟨hline, hspace⟩ := (Bool.and_eq_true _ _).mp hc
  exact gapFrom_other (by simpa using hline) (by simpa using hspace) (of_decide_eq_true hslash)

theorem gap_eq_gapFrom {text : List Char} (atStart : Bool) (h : text.head? ≠ some '#') :
    gap atStart text = gapFrom 0 false text := by
  unfold gap
  split
  · exact absurd rfl h
  · rfl

theorem gap_spaces {text : List Char} (atStart : Bool) (h : ∀ length, gapFrom length false text = ⟨length, .ok false⟩)
    (hsign : text.head? ≠ some '#') (n : Nat) : gap atStart (List.replicate n ' ' ++ text) = ⟨n, .ok false⟩ := by
  rw [gap_eq_gapFrom, gapFrom_spaces h, Nat.zero_add]
  cases n with
  | zero => exact hsign
  | succ n =>
    rw [List.replicate_succ]
    exact fun h => absurd (Option.some.inj h) (by decide)

/-- The spaces before a lexeme are its gap. -/
theorem gap_opens {c : Char} (atStart : Bool) (hc : opensToken c = true) (n : Nat) (rest : List Char) :
    gap atStart (List.replicate n ' ' ++ c :: rest) = ⟨n, .ok false⟩ := by
  have hsign : c ≠ '#' := of_decide_eq_true ((Bool.and_eq_true _ _).mp hc).2
  exact gap_spaces atStart (fun length => gapFrom_opens hc length rest) (fun h => hsign (Option.some.inj h)) n

/-- The sentinel ends the last gap. -/
theorem gap_line (atStart : Bool) (n : Nat) : gap atStart (List.replicate n ' ' ++ ['\n']) = ⟨n + 1, .ok true⟩ := by
  have hline (length : Nat) : gapFrom length false (List.replicate n ' ' ++ ['\n']) = ⟨length + (n + 1), .ok true⟩ := by
    induction n generalizing length with
    | zero => rw [List.replicate_zero, List.nil_append, gapFrom_terminator (by decide), gapFrom_nil]
    | succ n ih =>
      rw [List.replicate_succ, List.cons_append, gapFrom_space (by decide) (by decide), ih]
      simp only [Nat.add_assoc, Nat.add_comm 1]
  rw [gap_eq_gapFrom, hline, Nat.zero_add]
  cases n with
  | zero => decide
  | succ n =>
    rw [List.replicate_succ]
    exact fun h => absurd (Option.some.inj h) (by decide)

theorem Spells.cons_iff {l : Lexeme} {ls : List Lexeme} {text : List Char} (h : Spells (l :: ls) text) :
    ∃ n c more rest, l.spelling = c :: more ∧ opensToken c = true ∧
      text = List.replicate n ' ' ++ (l.spelling ++ rest) ∧
      l.ReadsBefore rest ∧ Spells ls rest := by
  generalize hls : l :: ls = all at h
  induction h with
  | done => cases hls
  | space _ ih =>
    obtain ⟨n, c, more, rest, hc, hopens, rfl, hreads, hrest⟩ := ih hls
    exact ⟨n + 1, c, more, rest, hc, hopens, rfl, hreads, hrest⟩
  | @lexeme l' ls' rest hfirst hreads hrest =>
    cases hls
    cases hc : l.spelling with
    | nil => rw [hc] at hfirst; cases hfirst
    | cons c more =>
      rw [hc] at hfirst
      exact ⟨0, c, more, rest, rfl, hfirst, rfl, hreads, hrest⟩

theorem Spells.nil_iff {text : List Char} (h : Spells [] text) : ∃ n, text = List.replicate n ' ' ++ ['\n'] := by
  generalize hls : ([] : List Lexeme) = all at h
  induction h with
  | done => exact ⟨0, rfl⟩
  | space _ ih =>
    obtain ⟨n, rfl⟩ := ih hls
    exact ⟨n + 1, rfl⟩
  | lexeme => cases hls

theorem spells_spaces (n : Nat) : Spells [] (List.replicate n ' ' ++ ['\n']) := by
  induction n with
  | zero => exact .done
  | succ n ih => exact .space ih

/-- Whatever is expected, the next lexeme is read. -/
theorem Spells.next {s : Scanner} {l : Lexeme} {ls : List Lexeme} (hsentinel : s.source.sentinel = true)
    (h : Spells (l :: ls) s.rest) : ∃ start stop after, after.source = s.source ∧ Spells ls after.rest ∧
      ∀ goal, goal ≠ .templateTail →
        s.next goal = (.ok ⟨l.kind, start, stop, String.ofList l.spelling, false⟩, after) := by
  obtain ⟨n, c, more, rest, hc, hopens, htext, hreads, hrest⟩ := h.cons_iff
  have hbefore : (s.advance n).rest = l.spelling ++ rest := by
    rw [Scanner.rest_advance, htext, List.drop_left' List.length_replicate]
  have hafter : ((s.advance n).advance l.spelling.length).rest = rest := by
    rw [Scanner.rest_advance, hbefore, List.drop_left]
  refine ⟨(s.advance n).position, ((s.advance n).advance l.spelling.length).position,
    (s.advance n).advance l.spelling.length, ?_, by rwa [hafter], ?_⟩
  · rw [Scanner.source_advance, Scanner.source_advance]
  · intro goal hgoal
    have hgap : s.skipGap goal = ⟨n, .ok false⟩ := by
      rw [Scanner.skipGap, if_neg hgoal, htext, hc, List.cons_append]
      exact gap_opens _ hopens n _
    have hne : (s.advance n).rest ≠ [] := by
      rw [hbefore, hc]
      exact List.cons_ne_nil _ _
    rw [Scanner.next_token hgap hne (by rw [hbefore, hsentinel]; exact hreads goal hgoal), hbefore, List.take_left]

/-- Behind the last lexeme the text ends. -/
theorem Spells.next_end {s : Scanner} (h : Spells [] s.rest) : ∃ place newline after, after.source = s.source ∧
    ∀ goal, goal ≠ .templateTail → s.next goal = (.ok ⟨.endOfInput, place, place, "", newline⟩, after) := by
  obtain ⟨n, htext⟩ := h.nil_iff
  have hrest : (s.advance (n + 1)).rest = [] := by
    rw [Scanner.rest_advance, htext]
    exact List.drop_eq_nil_of_le (by simp)
  refine ⟨(s.advance (n + 1)).textEnd?.getD (s.advance (n + 1)).position, true, s.advance (n + 1),
    Scanner.source_advance _ s, ?_⟩
  intro goal hgoal
  have hgap : s.skipGap goal = ⟨n + 1, .ok true⟩ := by
    rw [Scanner.skipGap, if_neg hgoal, htext]
    exact gap_line _ n
  exact Prod.ext (Scanner.next_ends hgap hrest) (Scanner.scanner_next_ends hgap hrest)

end EcmaCheck
