import EcmaCheck.Lexical.Escape
import EcmaCheck.Token

/-!
# String literals and templates

Both are characters and escapes up to a closing mark. A string ends at its quote and must not run over a line; a
template span ends at a backtick or at the `${` of a substitution. A malformed escape stops a string, but is only
remembered in a template.
-/

namespace EcmaCheck.Lexical

/-- Reads the rest of a string literal of which `length` characters have been taken; `legacy` tells whether a legacy
octal escape was among them. -/
def stringFrom (sentinel : Bool) (quote : Char) (legacy : Bool) (length : Nat) (text : List Char) :
    Reading Misreading TokenKind :=
  match text with
  | [] => ⟨length, .error ⟨.unterminatedString, 0⟩⟩
  | c :: rest =>
    if c = '\n' || c = '\r' then ⟨length, .error ⟨.unterminatedString, 0⟩⟩
    else if c = quote then ⟨length + 1, .ok (.string legacy)⟩
    else if c = '\\' then
      match escape sentinel rest with
      | ⟨n, .ok octal⟩ => stringFrom sentinel quote (legacy || octal) (length + 1 + n) (rest.drop n)
      | ⟨n, .error e⟩ => ⟨length + 1 + n, .error ⟨e, length⟩⟩
    else stringFrom sentinel quote legacy (length + 1) rest
termination_by text.length
decreasing_by all_goals simp only [List.length_cons, List.length_drop]; omega

/-- The part of a template that a span covers: `opening` tells whether it begins the literal, `closing` whether it
ends it. -/
def templatePart (opening closing : Bool) : TemplatePart :=
  match opening, closing with
  | true, true => .whole
  | true, false => .head
  | false, true => .tail
  | false, false => .middle

/-- Reads the rest of a template span of which `length` characters have been taken; `malformed` is the place of the
first malformed escape among them. -/
def templateFrom (sentinel opening : Bool) (malformed : Option Nat) (length : Nat) (text : List Char) :
    Reading Misreading TokenKind :=
  match text with
  | [] => ⟨length, .error ⟨.unterminatedTemplate, 0⟩⟩
  | c :: rest =>
    if c = '\x60' then ⟨length + 1, .ok (.template (templatePart opening true) malformed)⟩
    else if c = '$' && rest.head? = some '{' then
      ⟨length + 2, .ok (.template (templatePart opening false) malformed)⟩
    else if c = '\\' then
      match escape sentinel rest with
      | ⟨n, .ok false⟩ => templateFrom sentinel opening malformed (length + 1 + n) (rest.drop n)
      | ⟨n, _⟩ => templateFrom sentinel opening (malformed.or (some length)) (length + 1 + n) (rest.drop n)
    else templateFrom sentinel opening malformed (length + 1) rest
termination_by text.length
decreasing_by all_goals simp only [List.length_cons, List.length_drop]; omega

end EcmaCheck.Lexical
