import EcmaCheck.Lexical.Reading
import EcmaCheck.Token

/-!
# Punctuators

A punctuator is read one character at a time. Its first character begins a few punctuators at most, and each character
behind that decides between those that go on with it and those that end before it. Further ahead look only two: the
points of `...` are taken together, and `?.` is not read before a digit, so that `a?.5:b` is a conditional.
-/

namespace EcmaCheck.Lexical

open Lexer

/-- Takes the character if it comes next and goes on with `taken`, or else with `left`. -/
def ifNext {α : Type} (c : Char) (taken left : Lexer LexicalError α) : Lexer LexicalError α := do
  if ← accept c then taken else left

/-- What begins with a point. -/
def pointPunctuator : Lexer LexicalError Punctuator := fun text =>
  if ['.', '.'].isPrefixOf text then ⟨2, .ok .ellipsis⟩ else ⟨0, .ok .dot⟩

/-- What begins with one question mark. -/
def questionPunctuator : Lexer LexicalError Punctuator := fun text =>
  if text.head? = some '.' && !((text.drop 1).head?.any isDecimalDigit) then ⟨1, .ok .optionalChain⟩
  else ⟨0, .ok .question⟩

/-- The punctuator that begins with the character, from behind that on. -/
def punctuatorFrom (c : Char) : Lexer LexicalError Punctuator :=
  match c with
  | '(' => pure .openParen
  | ')' => pure .closeParen
  | '{' => pure .openBrace
  | '}' => pure .closeBrace
  | '[' => pure .openBracket
  | ']' => pure .closeBracket
  | ';' => pure .semicolon
  | ',' => pure .comma
  | ':' => pure .colon
  | '~' => pure .bitNot
  | '.' => pointPunctuator
  | '?' => ifNext '?' (ifNext '=' (pure .coalesceAssign) (pure .coalesce)) questionPunctuator
  | '=' => ifNext '>' (pure .arrow) (ifNext '=' (ifNext '=' (pure .strictEqual) (pure .equal)) (pure .assign))
  | '!' => ifNext '=' (ifNext '=' (pure .strictNotEqual) (pure .notEqual)) (pure .not)
  | '+' => ifNext '+' (pure .increment) (ifNext '=' (pure .plusAssign) (pure .plus))
  | '-' => ifNext '-' (pure .decrement) (ifNext '=' (pure .minusAssign) (pure .minus))
  | '*' => ifNext '*' (ifNext '=' (pure .powerAssign) (pure .power)) (ifNext '=' (pure .starAssign) (pure .star))
  | '/' => ifNext '=' (pure .slashAssign) (pure .slash)
  | '%' => ifNext '=' (pure .percentAssign) (pure .percent)
  | '<' =>
    ifNext '<' (ifNext '=' (pure .shiftLeftAssign) (pure .shiftLeft)) (ifNext '=' (pure .lessEqual) (pure .less))
  | '>' =>
    ifNext '>'
      (ifNext '>' (ifNext '=' (pure .shiftRightUnsignedAssign) (pure .shiftRightUnsigned))
        (ifNext '=' (pure .shiftRightAssign) (pure .shiftRight)))
      (ifNext '=' (pure .greaterEqual) (pure .greater))
  | '&' =>
    ifNext '&' (ifNext '=' (pure .logicalAndAssign) (pure .logicalAnd)) (ifNext '=' (pure .bitAndAssign) (pure .bitAnd))
  | '|' =>
    ifNext '|' (ifNext '=' (pure .logicalOrAssign) (pure .logicalOr)) (ifNext '=' (pure .bitOrAssign) (pure .bitOr))
  | '^' => ifNext '=' (pure .bitXorAssign) (pure .bitXor)
  | _ => fail (.unexpectedCharacter c)

end EcmaCheck.Lexical
