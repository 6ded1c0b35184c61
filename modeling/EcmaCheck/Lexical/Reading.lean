import EcmaCheck.Fault

/-!
# Readings

A lexer looks at the text before it and answers with a reading: how many characters it takes, and what they are or why
they are malformed. An error does not undo what was taken before it. Lexers run one after the other as a monad;
`reading_bind_ok` and `reading_bind_error` say what the second one sees and what the lengths add up to.

A `Misreading` adds to an error the place it is reported at, as the number of characters read before that place.
-/

namespace EcmaCheck

/-- What was found in a text. -/
structure Reading (ε α : Type) where
  /-- The number of characters taken. -/
  length : Nat
  /-- What they are, or why the reading stopped. -/
  result : Except ε α

/-- A reader of text. -/
def Lexer (ε α : Type) : Type := List Char → Reading ε α

/-- A lexical error with the number of characters read before the place it is reported at. -/
structure Misreading where
  error : LexicalError
  place : Nat
  deriving DecidableEq, Repr

namespace Reading

variable {ε ε' α β : Type}

/-- The reading that took `n` characters more, before its own. -/
def after (n : Nat) (r : Reading ε α) : Reading ε α :=
  ⟨n + r.length, r.result⟩

/-- The reading with its result changed. -/
def map (f : α → β) (r : Reading ε α) : Reading ε β :=
  ⟨r.length, r.result.map f⟩

/-- The reading with its error reported at the given place. -/
def reportedAt (place : Nat) (r : Reading LexicalError α) : Reading Misreading α :=
  ⟨r.length, r.result.mapError (⟨·, place⟩)⟩

end Reading

namespace Lexer

variable {ε α β : Type}

instance : Monad (Lexer ε) where
  pure a := fun _ => ⟨0, .ok a⟩
  bind first next := fun text =>
    match first text with
    | ⟨n, .ok a⟩ => (next a (text.drop n)).after n
    | ⟨n, .error e⟩ => ⟨n, .error e⟩

theorem reading_bind_ok {first : Lexer ε α} {next : α → Lexer ε β} {text : List Char} {n : Nat} {a : α}
    (h : first text = ⟨n, .ok a⟩) : (first >>= next) text = (next a (text.drop n)).after n := by
  simp [bind, h]

theorem reading_bind_error {first : Lexer ε α} {next : α → Lexer ε β} {text : List Char} {n : Nat} {e : ε}
    (h : first text = ⟨n, .error e⟩) : (first >>= next) text = ⟨n, .error e⟩ := by
  simp [bind, h]

/-- Stops with the error. -/
def fail (e : ε) : Lexer ε α := fun _ => ⟨0, .error e⟩

/-- The next character, which is not taken. -/
def peek : Lexer ε (Option Char) := fun text => ⟨0, .ok text.head?⟩

/-- Takes the next character. -/
def skip : Lexer ε Unit := fun text => ⟨min 1 text.length, .ok ()⟩

/-- Takes the next character if it is `c`, and says whether it was. -/
def accept (c : Char) : Lexer ε Bool := fun text =>
  if text.head? = some c then ⟨1, .ok true⟩ else ⟨0, .ok false⟩

/-- Takes the longest run of characters that pass the test. -/
def run (test : Char → Bool) : Lexer ε (List Char) := fun text =>
  ⟨(text.takeWhile test).length, .ok (text.takeWhile test)⟩

end Lexer

end EcmaCheck
