import EcmaCheck.Lexical.Reading

/-!
# Escape sequences

What may follow a backslash in string literals, templates and names. The value of a `u` escape is a code point number;
in braces it may be written with any number of digits, which are summed up in 32 bits (`saturatedHexValue`).
-/

namespace EcmaCheck.Lexical

/-- The number, or the largest one of 32 bits if that is less. -/
def saturate (n : Nat) : Nat :=
  min n 0xFFFFFFFF

/-- The number that hexadecimal digits write, as far as 32 bits hold it. -/
def saturatedHexValue (digits : List Char) : Nat :=
  digits.foldl (fun value c => saturate (saturate (16 * value) + (hexDigit? c).getD 0)) 0

/-- Whether the character is a hexadecimal digit. -/
def isHexDigit (c : Char) : Bool :=
  (hexDigit? c).isSome

/-- Reads exactly `count` hexadecimal digits, after digits that write `value`. -/
def hexDigits (e : LexicalError) (value length : Nat) : Nat → List Char → Reading LexicalError Nat
  | 0, _ => ⟨length, .ok value⟩
  | _ + 1, [] => ⟨length, .error e⟩
  | count + 1, c :: rest =>
    match hexDigit? c with
    | some digit => hexDigits e (16 * value + digit) (length + 1) count rest
    | none => ⟨length, .error e⟩

/-- The code point number after a backslash and `u`: four digits, or any number of digits in braces. -/
def unicodeEscape : Lexer LexicalError Nat := fun text =>
  match text with
  | '{' :: rest =>
    let digits := rest.takeWhile isHexDigit
    if digits.isEmpty || (rest.drop digits.length).head? ≠ some '}' then
      ⟨1 + digits.length, .error .unicodeEscape⟩
    else if saturatedHexValue digits > 0x10FFFF then ⟨digits.length + 2, .error .codePointTooLarge⟩
    else ⟨digits.length + 2, .ok (saturatedHexValue digits)⟩
  | _ => hexDigits .unicodeEscape 0 0 4 text

/-- The escape after a backslash in a string or a template. Tells whether it is one of the digit escapes that strict
code and templates do not have. A CR LF pair after the backslash is one character; the end of the text is left for
the literal to notice. -/
def escape (sentinel : Bool) : Lexer LexicalError Bool := fun text =>
  match text with
  | [] => ⟨0, .ok false⟩
  | c :: rest =>
    if c = 'x' then ((hexDigits .hexEscape 0 0 2 rest).map fun _ => false).after 1
    else if c = 'u' then ((unicodeEscape rest).map fun _ => false).after 1
    else if c = '0' && !(rest.head?.any isDecimalDigit) then ⟨1, .ok false⟩
    else if isOctalDigit c then
      ⟨1 + ((rest.take (if c ≤ '3' then 2 else 1)).takeWhile isOctalDigit).length, .ok true⟩
    else if c = '8' || c = '9' then ⟨1, .ok true⟩
    else if c = '\r' && startsWithPairedFeed sentinel rest then ⟨2, .ok false⟩
    else ⟨1, .ok false⟩

end EcmaCheck.Lexical
