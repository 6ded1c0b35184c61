import EcmaCheck.Lexical.Reading

/-!
# Gaps between tokens

A gap is white space, line terminators and comments; a line that begins the text with `#!` counts as a comment. The
lexer `gap` takes all of it and tells whether a line ends in it, also inside a block comment.
-/

namespace EcmaCheck.Lexical

/-- The number of characters before the next line terminator. -/
def lineLength (text : List Char) : Nat :=
  (text.takeWhile fun c => !isLineTerminator c).length

theorem lineLength_le (text : List Char) : lineLength text ≤ text.length :=
  (List.takeWhile_sublist _).length_le

/-- Reads a block comment up to its end, after `/*`. Tells whether a line ends in it. -/
def blockComment (length : Nat) (newline : Bool) : List Char → Reading LexicalError Bool
  | [] => ⟨length, .error .unterminatedComment⟩
  | '*' :: '/' :: _ => ⟨length + 2, .ok newline⟩
  | c :: rest => blockComment (length + 1) (newline || isLineTerminator c) rest

/-- Reads the rest of a gap of which `length` characters have been taken; `newline` tells whether a line ended in
them. -/
def gapFrom (length : Nat) (newline : Bool) (text : List Char) : Reading Misreading Bool :=
  match text with
  | [] => ⟨length, .ok newline⟩
  | c :: rest =>
    if isLineTerminator c then gapFrom (length + 1) true rest
    else if isWhiteSpace c then gapFrom (length + 1) newline rest
    else if c = '/' then
      match rest with
      | '/' :: line => gapFrom (length + 2 + lineLength line) newline (line.drop (lineLength line))
      | '*' :: body =>
        match blockComment 0 false body with
        | ⟨n, .ok ended⟩ => gapFrom (length + 2 + n) (newline || ended) (body.drop n)
        | ⟨n, .error e⟩ => ⟨length + 2 + n, .error ⟨e, length⟩⟩
      | _ => ⟨length, .ok newline⟩
    else ⟨length, .ok newline⟩
termination_by text.length
decreasing_by all_goals simp only [List.length_cons, List.length_drop]; omega

/-- Reads a gap. With `atStart`, the text begins here, and a `#!` line belongs to the gap. Tells whether a line ends
in it. -/
def gap (atStart : Bool) : Lexer Misreading Bool := fun text =>
  match text with
  | '#' :: '!' :: line =>
    if atStart then gapFrom (2 + lineLength line) false (line.drop (lineLength line)) else ⟨0, .ok false⟩
  | _ => gapFrom 0 false text

end EcmaCheck.Lexical
