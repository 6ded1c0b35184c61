import EcmaCheck.Lexical.Reading
import EcmaCheck.Token

/-!
# Numeric literals

Decimal literals with a fraction and an exponent, literals in radix two, eight and sixteen, the suffix `n` of big
integers, and the two legacy forms that begin with a zero and another digit. Underscores may stand between digits, but
not in the legacy forms. A literal ends where neither a name nor a digit follows.
-/

namespace EcmaCheck.Lexical

open Lexer

/-- Reads digits after `count` others; `separated` tells whether the character before was an underscore. The result
is the number of digits. -/
def digitsFrom (radix count : Nat) (separated : Bool) (length : Nat) : List Char → Reading LexicalError Nat
  | [] => if separated then ⟨length, .error .trailingSeparator⟩ else ⟨length, .ok count⟩
  | c :: rest =>
    if c = '_' then
      if count = 0 || separated then ⟨length, .error .misplacedSeparator⟩
      else digitsFrom radix count true (length + 1) rest
    else if isDigitOf radix c then digitsFrom radix (count + 1) false (length + 1) rest
    else if separated then ⟨length, .error .trailingSeparator⟩
    else ⟨length, .ok count⟩

/-- Reads digits with single underscores between them, and counts them. -/
def digits (radix : Nat) : Lexer LexicalError Nat :=
  digitsFrom radix 0 false 0

/-- Reads an exponent if there is one, and tells whether there is. -/
def exponent : Lexer LexicalError Bool := do
  let mark ← peek
  if mark = some 'e' || mark = some 'E' then
    skip
    let sign ← peek
    if sign = some '+' || sign = some '-' then skip
    let count ← digits 10
    if count = 0 then fail .emptyExponent
    return true
  else return false

/-- The literal, provided that it ends here. -/
def endingHere (kind : TokenKind) : Lexer LexicalError TokenKind := do
  let next ← peek
  if next.any fun c => c = '\\' || isDecimalDigit c || isIdentifierStart c then fail .numberRunsOn
  return kind

/-- A literal that begins with its decimal point. -/
def pointNumeral : Lexer LexicalError TokenKind := do
  skip
  discard (digits 10)
  discard exponent
  endingHere (.number false)

/-- A literal with a radix mark. -/
def radixNumeral (radix : Nat) : Lexer LexicalError TokenKind := do
  skip
  skip
  let count ← digits radix
  if count = 0 then fail (.radixWithoutDigits radix)
  let big ← accept 'n'
  endingHere (if big then .bigInt else .number false)

/-- A literal that begins with a zero and another digit. With a digit above seven it is decimal and may have a
fraction and an exponent. -/
def legacyNumeral : Lexer LexicalError TokenKind := do
  let integer ← run isDecimalDigit
  if !(integer.all isOctalDigit) then
    let point ← accept '.'
    if point then discard (digits 10)
    discard exponent
  let next ← peek
  if next = some '_' || next = some 'n' then fail .legacyOctalSuffix
  endingHere (.number true)

/-- A decimal literal that begins with a digit. -/
def decimalNumeral : Lexer LexicalError TokenKind := do
  discard (digits 10)
  let point ← accept '.'
  if point then discard (digits 10)
  let power ← exponent
  let big ← if point || power then pure false else accept 'n'
  endingHere (if big then .bigInt else .number false)

/-- The radix that a letter after a leading zero stands for. -/
def radixMark? (c : Char) : Option Nat :=
  if c = 'x' || c = 'X' then some 16
  else if c = 'o' || c = 'O' then some 8
  else if c = 'b' || c = 'B' then some 2
  else none

/-- A numeric literal. -/
def numeral : Lexer LexicalError TokenKind := fun text =>
  match text with
  | '.' :: _ => pointNumeral text
  | '0' :: c :: _ =>
    match radixMark? c with
    | some radix => radixNumeral radix text
    | none =>
      if isDecimalDigit c then legacyNumeral text
      else if c = '_' then ⟨0, .error .separatorAfterLeadingZero⟩
      else decimalNumeral text
  | _ => decimalNumeral text

end EcmaCheck.Lexical
