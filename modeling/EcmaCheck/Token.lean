import EcmaCheck.Position

/-!
# Tokens

The tokens of ECMAScript: keywords and punctuators with their spellings, template spans, and the literals. A token keeps
the text it covers. Whether a `/` after it divides or begins a regular expression is `Token.goalAfter`. The table of
keywords is complete and free of repetition (`Keyword.ofName?_spelling`).
-/

namespace EcmaCheck

/-- What the grammar expects where the next token is read. -/
inductive LexicalGoal where
  /-- An operand may begin here, so `/` begins a regular expression. -/
  | regExp
  /-- An operand has just ended, so `/` divides. -/
  | division
  /-- A `}` ends a substitution and template text goes on. -/
  | templateTail
  deriving DecidableEq, Repr

/-- The reserved words. Words that are reserved only in some places are identifiers. -/
inductive Keyword where
  | «break» | case | «catch» | «class» | const | «continue» | debugger | default | delete | «do» | «else» | enum
  | «export» | «extends» | false | «finally» | «for» | function | «if» | «import» | «in» | instanceof | new | null
  | «return» | super | switch | this | throw | true | «try» | typeof | var | void | «while» | «with»
  deriving DecidableEq, Repr

namespace Keyword

/-- The keyword as it is written. -/
def spelling : Keyword → String
  | «break» => "break" | case => "case" | «catch» => "catch" | «class» => "class" | const => "const"
  | «continue» => "continue" | debugger => "debugger" | default => "default" | delete => "delete" | «do» => "do"
  | «else» => "else" | enum => "enum" | «export» => "export" | «extends» => "extends" | false => "false"
  | «finally» => "finally" | «for» => "for" | function => "function" | «if» => "if" | «import» => "import"
  | «in» => "in" | instanceof => "instanceof" | new => "new" | null => "null" | «return» => "return"
  | super => "super" | switch => "switch" | this => "this" | throw => "throw" | true => "true" | «try» => "try"
  | typeof => "typeof" | var => "var" | void => "void" | «while» => "while" | «with» => "with"

/-- Every keyword once. -/
def all : List Keyword :=
  [«break», case, «catch», «class», const, «continue», debugger, default, delete, «do», «else», enum, «export»,
   «extends», false, «finally», «for», function, «if», «import», «in», instanceof, new, null, «return», super, switch,
   this, throw, true, «try», typeof, var, void, «while», «with»]

/-- The keyword with the given spelling. -/
def ofName? (name : String) : Option Keyword :=
  all.find? (·.spelling = name)

theorem ofName?_spelling (k : Keyword) : ofName? k.spelling = some k := by
  cases k <;> decide

end Keyword

/-- The operators and the punctuation. -/
inductive Punctuator where
  | openParen | closeParen | openBrace | closeBrace | openBracket | closeBracket
  | semicolon | comma | colon | dot | ellipsis | optionalChain | question | arrow
  | plus | minus | star | slash | percent | power | increment | decrement
  | equal | strictEqual | notEqual | strictNotEqual | less | lessEqual | greater | greaterEqual
  | logicalAnd | logicalOr | coalesce | not
  | bitAnd | bitOr | bitXor | bitNot | shiftLeft | shiftRight | shiftRightUnsigned
  | assign | plusAssign | minusAssign | starAssign | slashAssign | percentAssign | powerAssign
  | bitAndAssign | bitOrAssign | bitXorAssign | shiftLeftAssign | shiftRightAssign | shiftRightUnsignedAssign
  | logicalAndAssign | logicalOrAssign | coalesceAssign
  deriving DecidableEq, Repr

namespace Punctuator

/-- The punctuator as it is written. -/
def spelling : Punctuator → List Char
  | openParen => ['('] | closeParen => [')'] | openBrace => ['{'] | closeBrace => ['}']
  | openBracket => ['['] | closeBracket => [']']
  | semicolon => [';'] | comma => [','] | colon => [':'] | dot => ['.'] | ellipsis => ['.', '.', '.']
  | optionalChain => ['?', '.'] | question => ['?'] | arrow => ['=', '>']
  | plus => ['+'] | minus => ['-'] | star => ['*'] | slash => ['/'] | percent => ['%'] | power => ['*', '*']
  | increment => ['+', '+'] | decrement => ['-', '-']
  | equal => ['=', '='] | strictEqual => ['=', '=', '='] | notEqual => ['!', '='] | strictNotEqual => ['!', '=', '=']
  | less => ['<'] | lessEqual => ['<', '='] | greater => ['>'] | greaterEqual => ['>', '=']
  | logicalAnd => ['&', '&'] | logicalOr => ['|', '|'] | coalesce => ['?', '?'] | not => ['!']
  | bitAnd => ['&'] | bitOr => ['|'] | bitXor => ['^'] | bitNot => ['~']
  | shiftLeft => ['<', '<'] | shiftRight => ['>', '>'] | shiftRightUnsigned => ['>', '>', '>']
  | assign => ['='] | plusAssign => ['+', '='] | minusAssign => ['-', '='] | starAssign => ['*', '=']
  | slashAssign => ['/', '='] | percentAssign => ['%', '='] | powerAssign => ['*', '*', '=']
  | bitAndAssign => ['&', '='] | bitOrAssign => ['|', '='] | bitXorAssign => ['^', '=']
  | shiftLeftAssign => ['<', '<', '='] | shiftRightAssign => ['>', '>', '=']
  | shiftRightUnsignedAssign => ['>', '>', '>', '=']
  | logicalAndAssign => ['&', '&', '='] | logicalOrAssign => ['|', '|', '='] | coalesceAssign => ['?', '?', '=']

/-- Every punctuator once, the longer spellings first. -/
def all : List Punctuator :=
  [shiftRightUnsignedAssign,
   ellipsis, strictEqual, strictNotEqual, shiftRightUnsigned, powerAssign, shiftLeftAssign, shiftRightAssign,
   logicalAndAssign, logicalOrAssign, coalesceAssign,
   optionalChain, arrow, power, increment, decrement, equal, notEqual, lessEqual, greaterEqual, logicalAnd, logicalOr,
   coalesce, shiftLeft, shiftRight, plusAssign, minusAssign, starAssign, slashAssign, percentAssign, bitAndAssign,
   bitOrAssign, bitXorAssign,
   openParen, closeParen, openBrace, closeBrace, openBracket, closeBracket, semicolon, comma, colon, dot, question,
   plus, minus, star, slash, percent, less, greater, not, bitAnd, bitOr, bitXor, bitNot, assign]

theorem mem_all (p : Punctuator) : p ∈ all := by
  cases p <;> decide

/-- Whether the punctuator assigns. -/
def isAssignment : Punctuator → Bool
  | assign | plusAssign | minusAssign | starAssign | slashAssign | percentAssign | powerAssign | bitAndAssign
  | bitOrAssign | bitXorAssign | shiftLeftAssign | shiftRightAssign | shiftRightUnsignedAssign | logicalAndAssign
  | logicalOrAssign | coalesceAssign => true
  | _ => false

end Punctuator

/-- Which span of a template literal a token covers. -/
inductive TemplatePart where
  /-- The whole literal. -/
  | whole
  /-- From the opening backtick to the first substitution. -/
  | head
  /-- Between two substitutions. -/
  | middle
  /-- From the last substitution to the closing backtick. -/
  | tail
  deriving DecidableEq, Repr

/-- Whether the literal ends with the span. -/
def TemplatePart.isLast : TemplatePart → Bool
  | whole | tail => true
  | head | middle => false

/-- The kinds of token. -/
inductive TokenKind where
  /-- An identifier by its name, and whether it is spelled with escapes. -/
  | identifier (name : String) (escaped : Bool)
  /-- A private name without its number sign. -/
  | privateName (name : String)
  | keyword (keyword : Keyword)
  | punctuator (punctuator : Punctuator)
  /-- A number; `legacyOctal` marks those that begin with a zero and another digit. -/
  | number (legacyOctal : Bool)
  | bigInt
  /-- A string; `legacyOctalEscape` marks those with an escape that strict code forbids. -/
  | string (legacyOctalEscape : Bool)
  /-- A template span, and how many characters of it precede its first malformed escape, if it has one. -/
  | template (part : TemplatePart) (malformedEscape : Option Nat)
  | regExp
  | endOfInput
  deriving DecidableEq, Repr

/-- A token with its place in the text. -/
structure Token where
  kind : TokenKind
  /-- The place before its first character. -/
  start : Position
  /-- The place after its last character. -/
  stop : Position
  /-- The text it covers. -/
  lexeme : String
  /-- Whether a line ends between the token before and this one. -/
  newlineBefore : Bool
  deriving DecidableEq, Repr

namespace Token

/-- Whether the token is the punctuator. -/
def isPunctuator (t : Token) (p : Punctuator) : Bool :=
  match t.kind with
  | .punctuator q => q = p
  | _ => false

/-- Whether the token is the keyword. -/
def isKeyword (t : Token) (k : Keyword) : Bool :=
  match t.kind with
  | .keyword l => l = k
  | _ => false

/-- Whether the token is the word, as an identifier without escapes. -/
def isWord (t : Token) (word : String) : Bool :=
  match t.kind with
  | .identifier name escaped => !escaped && name = word
  | _ => false

/-- Whether the token is an identifier. -/
def isIdentifier (t : Token) : Bool :=
  match t.kind with
  | .identifier .. => true
  | _ => false

/-- Whether the token is a string. -/
def isString (t : Token) : Bool :=
  match t.kind with
  | .string _ => true
  | _ => false

/-- Whether the token is a template span. -/
def isTemplate (t : Token) : Bool :=
  match t.kind with
  | .template .. => true
  | _ => false

/-- Whether the text has ended. -/
def isEnd (t : Token) : Bool :=
  match t.kind with
  | .endOfInput => true
  | _ => false

/-- Whether an operand can end with the token. -/
def endsOperand (t : Token) : Bool :=
  match t.kind with
  | .identifier .. | .privateName _ | .number _ | .bigInt | .string _ | .regExp => true
  | .template part _ => part.isLast
  | .keyword k => k = .this || k = .super || k = .null || k = .true || k = .false
  | .punctuator p => p = .closeParen || p = .closeBracket || p = .closeBrace || p = .increment || p = .decrement
  | .endOfInput => false

/-- The goal for the token that follows, as far as this one tells. -/
def goalAfter (t : Token) : LexicalGoal :=
  if t.endsOperand then .division else .regExp

/-- The token as messages name it. -/
def describe (t : Token) : String :=
  if t.isEnd then "end of input" else "'" ++ t.lexeme ++ "'"

/-- The place of the first malformed escape of a template span. -/
def malformedEscape? (t : Token) : Option Position :=
  match t.kind with
  | .template _ (some n) => some (t.start.advance false n t.lexeme.toList)
  | _ => none

end Token

end EcmaCheck
