import EcmaCheck.Lexical.Element

/-!
# The scanner

A scanner stands somewhere in a source text and gives one token after the other, each under the goal it is asked with.
It can be moved back to the start of a token, and a scanner kept from before can be taken up again, since a scanner is a
value.

The source may end in a line feed and a NUL (`Source.ofText`). Then the NUL is not scanned, the line feed is a sentinel
that only shows as the end of the last line, and the end of input is reported at the place before the sentinel.
-/

namespace EcmaCheck

/-- A text to scan. -/
structure Source where
  /-- The characters to scan. -/
  text : List Char
  /-- Whether the last of them is a sentinel. -/
  sentinel : Bool
  deriving DecidableEq, Repr

/-- The source that a text is: one that ends in a line feed and a NUL carries a sentinel. -/
def Source.ofText (text : List Char) : Source :=
  match text.reverse with
  | '\x00' :: '\n' :: _ => ⟨text.dropLast, true⟩
  | _ => ⟨text, false⟩

/-- The rest of the text after its first `n` bytes of UTF-8; nothing if they end inside a character or reach beyond the
text. -/
def dropBytes : Nat → List Char → List Char
  | 0, text => text
  | _ + 1, [] => []
  | n + 1, c :: rest => if c.utf8Size ≤ n + 1 then dropBytes (n + 1 - c.utf8Size) rest else []

/-- A place in a source from which tokens are read. -/
structure Scanner where
  source : Source
  /-- The characters still to scan. -/
  rest : List Char
  position : Position
  /-- The place before the sentinel, once it has been reached. -/
  textEnd? : Option Position
  deriving DecidableEq, Repr

namespace Scanner

/-- A scanner at the start of the source. -/
def ofSource (source : Source) : Scanner :=
  ⟨source, source.text, .start, none⟩

/-- Moves over the next character. -/
def bump (s : Scanner) : Scanner :=
  match s.rest with
  | [] => s
  | c :: rest =>
    { s with
      rest
      position := s.position.step s.source.sentinel c rest
      textEnd? := if s.source.sentinel && rest.isEmpty then s.textEnd?.or (some s.position) else s.textEnd? }

/-- Moves over the next `n` characters. -/
def advance : Nat → Scanner → Scanner
  | 0, s => s
  | n + 1, s => advance n s.bump

/-- Skips the gap before the next token, except where template text goes on, which has none. Tells whether a line ends
in it. -/
def skipGap (goal : LexicalGoal) (s : Scanner) : Reading Misreading Bool :=
  if goal = .templateTail then ⟨0, .ok false⟩ else Lexical.gap (s.position.offset = 0) s.rest

/-- Reads the next token. The scanner stands after it, or where the reading stopped. -/
def next (goal : LexicalGoal) (s : Scanner) : Except Fault Token × Scanner :=
  let gap := s.skipGap goal
  let before := s.advance gap.length
  match gap.result with
  | .error m => (.error (.lexical m.error (s.advance m.place).position), before)
  | .ok newlineBefore =>
    if before.rest.isEmpty then
      let place := before.textEnd?.getD before.position
      (.ok ⟨.endOfInput, place, place, "", newlineBefore⟩, before)
    else
      let reading := Lexical.element s.source.sentinel goal before.rest
      let after := before.advance reading.length
      match reading.result with
      | .error m => (.error (.lexical m.error (before.advance m.place).position), after)
      | .ok kind =>
        let lexeme := String.ofList (before.rest.take reading.length)
        (.ok ⟨kind, before.position, after.position, lexeme, newlineBefore⟩, after)

/-- Moves to a place, wherever it lies. -/
def moveTo (place : Position) (s : Scanner) : Scanner :=
  { s with rest := dropBytes place.offset s.source.text, position := place }

/-- Reads again from the start of a token, under another goal. What was known of the gap before the token stays
known. -/
def rescan (goal : LexicalGoal) (token : Token) (s : Scanner) : Except Fault Token × Scanner :=
  let (result, after) := (s.moveTo token.start).next goal
  (result.map fun again => { again with newlineBefore := token.newlineBefore }, after)

end Scanner

/-- The place of a byte offset in a text; for an offset inside a character the place after it, for one beyond the text
the place where scanning it ends. -/
def positionAt (text : List Char) (offset : Nat) : Position :=
  let source := Source.ofText text
  Position.start.seek source.sentinel offset source.text

end EcmaCheck
