import EcmaCheck.Lexical.Gap
import EcmaCheck.Lexical.Name
import EcmaCheck.Lexical.Numeral
import EcmaCheck.Lexical.Punctuator
import EcmaCheck.Lexical.Quoted
import EcmaCheck.Lexical.RegExp

/-!
# Lexical elements

The token that begins a text, under a goal that tells how `/` and `}` are read.
-/

namespace EcmaCheck.Lexical

/-- The kind of token that a name is: a keyword if it is spelled without escapes. -/
def nameKind (name : Name) : TokenKind :=
  match name.escaped, Keyword.ofName? (String.ofList name.characters) with
  | false, some k => .keyword k
  | _, _ => .identifier (String.ofList name.characters) name.escaped

/-- The first token of a text that does not begin with a gap. -/
def element (sentinel : Bool) (goal : LexicalGoal) : Lexer Misreading TokenKind := fun text =>
  match text with
  | [] => ⟨0, .ok .endOfInput⟩
  | c :: rest =>
    if c = '}' && goal = .templateTail then templateFrom sentinel false none 1 rest
    else if c = '/' && goal = .regExp then regExp rest
    else if c = '"' || c = '\'' then stringFrom sentinel c false 1 rest
    else if c = '\x60' then templateFrom sentinel true none 1 rest
    else if isDecimalDigit c || (c = '.' && rest.head?.any isDecimalDigit) then (numeral text).reportedAt 0
    else if c = '#' then
      if rest.head?.any beginsName then
        (nameFrom [] false 1 rest).map fun name => .privateName (String.ofList name.characters)
      else ⟨1, .error ⟨.bareNumberSign, 0⟩⟩
    else if beginsName c then (nameFrom [] false 0 text).map nameKind
    else (((punctuatorFrom c rest).map TokenKind.punctuator).after 1).reportedAt 0

end EcmaCheck.Lexical
