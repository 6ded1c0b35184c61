import EcmaCheck.Lexical.Reading
import EcmaCheck.Token

/-!
# Regular expression literals

The body runs up to the first `/` that is neither escaped nor in a class, on one line. The flags are the letters
`dgimsuvy`, each at most once, and not both `u` and `v`.
-/

namespace EcmaCheck.Lexical

/-- Reads the rest of a body of which `length` characters have been taken, and its closing slash; `inClass` tells
whether a class is open. -/
def regExpBody (inClass : Bool) (length : Nat) : List Char → Reading LexicalError Unit
  | [] => ⟨length, .error .unterminatedRegExp⟩
  | c :: rest =>
    if isLineTerminator c then ⟨length, .error .unterminatedRegExp⟩
    else if c = '\\' then
      match rest with
      | [] => ⟨length + 1, .error .unterminatedRegExp⟩
      | d :: more =>
        if isLineTerminator d then ⟨length + 1, .error .unterminatedRegExp⟩ else regExpBody inClass (length + 2) more
    else if c = '[' then regExpBody true (length + 1) rest
    else if c = ']' then regExpBody false (length + 1) rest
    else if c = '/' && !inClass then ⟨length + 1, .ok ()⟩
    else regExpBody inClass (length + 1) rest

/-- The flags there are. -/
def regExpFlagLetters : List Char := ['d', 'g', 'i', 'm', 's', 'u', 'v', 'y']

/-- Reads the flags after those in `seen`. -/
def regExpFlags (seen : List Char) (length : Nat) : List Char → Reading LexicalError TokenKind
  | [] => ending
  | c :: rest =>
    if c = '\\' then ⟨length, .error .regExpFlags⟩
    else if !isIdentifierPart c then ending
    else if !(regExpFlagLetters.contains c) || seen.contains c then ⟨length + 1, .error (.regExpFlag c)⟩
    else regExpFlags (c :: seen) (length + 1) rest
where
  ending : Reading LexicalError TokenKind :=
    if seen.contains 'u' && seen.contains 'v' then ⟨length, .error .regExpFlags⟩ else ⟨length, .ok .regExp⟩

/-- A regular expression literal, after its opening slash. Errors of the body are reported at the opening slash, those
of the flags at the first flag. -/
def regExp : Lexer Misreading TokenKind := fun text =>
  match regExpBody false 0 text with
  | ⟨n, .error e⟩ => ⟨1 + n, .error ⟨e, 0⟩⟩
  | ⟨n, .ok ()⟩ => ((regExpFlags [] 0 (text.drop n)).after (1 + n)).reportedAt (1 + n)

end EcmaCheck.Lexical
