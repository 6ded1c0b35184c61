import EcmaCheck.Unicode.Alphabetic
import EcmaCheck.Unicode.Numeric

/-!
# Character classes of source text

Line terminators, white space, the characters of identifiers and the digits of a radix. Among the ASCII characters
only letters, digits, `$` and `_` belong to identifiers (`isIdentifierStart_of_ascii`); above them the Unicode
properties decide. Every identifier start may also continue an identifier (`isIdentifierPart_of_isIdentifierStart`).
-/

namespace EcmaCheck

/-- The characters that end a line: LF, CR, LINE SEPARATOR and PARAGRAPH SEPARATOR. -/
def isLineTerminator (c : Char) : Bool :=
  c = '\n' || c = '\r' || c = '\u2028' || c = '\u2029'

/-- White space within a line: TAB, VT, FF, the byte order mark and the space separators. -/
def isWhiteSpace (c : Char) : Bool :=
  c = '\t' || c = '\x0b' || c = '\x0c' || c = ' ' || c = '\u00a0' || c = '\ufeff' || c = '\u1680' ||
    ('\u2000' ≤ c && c ≤ '\u200a') || c = '\u202f' || c = '\u205f' || c = '\u3000'

/-- An ASCII letter, `$` or `_`. -/
def isAsciiIdentifierStart (c : Char) : Bool :=
  c.isAlpha || c = '$' || c = '_'

/-- Whether an identifier may begin with the character. -/
def isIdentifierStart (c : Char) : Bool :=
  if c.toNat < 0x80 then isAsciiIdentifierStart c else Unicode.isAlphabetic c

/-- Combining marks and connecting punctuation admitted inside identifiers. -/
def identifierMarks : List (Nat × Nat) :=
  [(0x0300, 0x036F), (0x0483, 0x0487), (0x0591, 0x05C7), (0x0610, 0x061A), (0x064B, 0x065F), (0x0670, 0x0670),
   (0x06D6, 0x06ED), (0x0900, 0x0903), (0x093A, 0x094F), (0x0951, 0x0957), (0x0962, 0x0963), (0x0E31, 0x0E3A),
   (0x0E47, 0x0E4E), (0x1AB0, 0x1AFF), (0x1DC0, 0x1DFF), (0x203F, 0x2040), (0x2054, 0x2054), (0x20D0, 0x20FF),
   (0x302A, 0x302F), (0x3099, 0x309A), (0xFE00, 0xFE0F), (0xFE20, 0xFE2F), (0xFE33, 0xFE34), (0xFE4D, 0xFE4F),
   (0xFF3F, 0xFF3F), (0xE0100, 0xE01EF)]

/-- Whether an identifier may hold the character after its first: above ASCII these are the letters, the numbers,
the two joiners and `identifierMarks`. -/
def isIdentifierPart (c : Char) : Bool :=
  if c.toNat < 0x80 then isAsciiIdentifierStart c || c.isDigit
  else c = '\u200c' || c = '\u200d' || Unicode.isAlphabetic c || Unicode.isNumeric c ||
    Unicode.inRanges identifierMarks c

theorem isIdentifierStart_of_ascii {c : Char} (h : c.toNat < 0x80) :
    isIdentifierStart c = isAsciiIdentifierStart c := by
  simp [isIdentifierStart, h]

theorem isIdentifierPart_of_isIdentifierStart {c : Char} (h : isIdentifierStart c = true) :
    isIdentifierPart c = true := by
  unfold isIdentifierStart at h
  unfold isIdentifierPart
  split <;> simp_all

/-! ## Digits -/

/-- The value of an ASCII hexadecimal digit. -/
def hexDigit? (c : Char) : Option Nat :=
  if '0' ≤ c && c ≤ '9' then some (c.toNat - '0'.toNat)
  else if 'a' ≤ c && c ≤ 'f' then some (c.toNat - 'a'.toNat + 10)
  else if 'A' ≤ c && c ≤ 'F' then some (c.toNat - 'A'.toNat + 10)
  else none

/-- Whether the character is a digit of the radix, which is at most sixteen. -/
def isDigitOf (radix : Nat) (c : Char) : Bool :=
  (hexDigit? c).any (· < radix)

/-- Whether the character is a decimal digit. -/
def isDecimalDigit (c : Char) : Bool :=
  '0' ≤ c && c ≤ '9'

/-- Whether the character is an octal digit. -/
def isOctalDigit (c : Char) : Bool :=
  '0' ≤ c && c ≤ '7'

theorem isDecimalDigit_of_isOctalDigit {c : Char} (h : isOctalDigit c = true) : isDecimalDigit c = true := by
  simp only [isOctalDigit, isDecimalDigit, Bool.and_eq_true, decide_eq_true_eq] at h ⊢
  exact ⟨h.1, Char.le_trans h.2 (by decide)⟩

theorem isOctalDigit_of_isDecimalDigit {c : Char} (h : isDecimalDigit c = true) (height : ¬ (c = '8' ∨ c = '9')) :
    isOctalDigit c = true := by
  simp only [isOctalDigit, isDecimalDigit, Bool.and_eq_true, decide_eq_true_eq, not_or] at h height ⊢
  obtain ⟨hzero, hnine⟩ := h
  obtain ⟨h8, h9⟩ := height
  refine ⟨hzero, ?_⟩
  rw [Char.le_def, UInt32.le_iff_toNat_le] at hnine ⊢
  rw [Char.ext_iff, ← UInt32.toNat_inj] at h8 h9
  simp only [Char.reduceVal, UInt32.reduceToNat] at hnine h8 h9 ⊢
  omega

end EcmaCheck
