import EcmaCheck.Lexical.Escape

/-!
# Identifier names

A name is an identifier start followed by identifier parts, each written as it is or as a `u` escape. The name that a
spelling stands for is the list of the characters written.
-/

namespace EcmaCheck.Lexical

/-- A name as it was read. -/
structure Name where
  /-- The characters it stands for. -/
  characters : List Char
  /-- Whether some character is written as an escape. -/
  escaped : Bool
  deriving DecidableEq, Repr

/-- Whether a name may have the character as its first, or else as a later one. -/
def admits (first : Bool) (c : Char) : Bool :=
  if first then isIdentifierStart c else isIdentifierPart c

/-- The character that an escape in a name stands for, after the backslash. -/
def nameEscape (first : Bool) : Lexer LexicalError Char := fun text =>
  match text with
  | 'u' :: rest =>
    match unicodeEscape rest with
    | ⟨n, .error e⟩ => ⟨1 + n, .error e⟩
    | ⟨n, .ok code⟩ =>
      if code.isValidChar && admits first (Char.ofNat code) then ⟨1 + n, .ok (Char.ofNat code)⟩
      else ⟨1 + n, .error .unicodeEscape⟩
  | _ => ⟨0, .error .unicodeEscape⟩

/-- Reads the rest of a name. The characters before, `length` of them written, stand for `before`, the last one
first. -/
def nameFrom (before : List Char) (escaped : Bool) (length : Nat) (text : List Char) : Reading Misreading Name :=
  match text with
  | [] => ⟨length, .ok ⟨before.reverse, escaped⟩⟩
  | c :: rest =>
    if c = '\\' then
      match nameEscape before.isEmpty rest with
      | ⟨n, .ok d⟩ => nameFrom (d :: before) true (length + 1 + n) (rest.drop n)
      | ⟨n, .error e⟩ => ⟨length + 1 + n, .error ⟨e, length⟩⟩
    else if admits before.isEmpty c then nameFrom (c :: before) escaped (length + 1) rest
    else ⟨length, .ok ⟨before.reverse, escaped⟩⟩
termination_by text.length
decreasing_by all_goals simp only [List.length_cons, List.length_drop]; omega

/-- Whether a name may be spelled beginning with the character. -/
def beginsName (c : Char) : Bool :=
  c = '\\' || isIdentifierStart c

end EcmaCheck.Lexical
