import EcmaCheck.Grammar.Context
import EcmaCheck.Grammar.Summary
import EcmaCheck.Scanner

/-!
# The state of a recognition

A recognizer reads tokens and stops at the first fault. Its state holds the scanner, the current token, what has been
read and what the surrounding productions have set up; it is kept at a fault, where it tells how far the recognition
came. Tokens are consumed one at a time (`advance`), and one token can be looked at beyond the current one (`peek`),
which leaves the state as it is (`peek_state`). What has been read includes where expressions began and ended
(`noteOperandStart`, `notingOperandEnd`).

Repetitions run through `loop`, which grants them as many turns as the text could fill.
-/

namespace EcmaCheck.Grammar

/-- A label around the current statement. -/
structure Label where
  name : String
  /-- Whether it labels a loop. -/
  iteration : Bool
  deriving DecidableEq, Repr

/-- The state of a recognition. -/
structure State where
  /-- The scanner, which stands after the current token. -/
  scanner : Scanner
  /-- The current token, which is not consumed yet. -/
  token : Token
  /-- The tokens consumed, the last first. -/
  consumed : List Token
  /-- The places where a statement ended without its semicolon, the last first. -/
  omitted : List Position
  /-- The tokens that primary expressions began with, the last first. -/
  operandStarts : List Token
  /-- The places where expressions ended, each with the token that followed, the last first. -/
  operandEnds : List (Position × Token)
  /-- The turns of repetitions after which another was taken, the last first: the token that each found and the one that
  it left. -/
  repeated : List (Token × Token)
  /-- Whether the text is a module. -/
  isModule : Bool
  /-- The number of nesting levels that are open. -/
  depth : Nat
  context : Context
  /-- The labels of the current function, the innermost first. -/
  labels : List Label
  /-- How many of the innermost labels label the next statement directly. -/
  attachedLabels : Nat
  /-- The number of class bodies around the current token. -/
  classDepth : Nat
  /-- The number of turns granted to each repetition. -/
  turns : Nat
  deriving DecidableEq, Repr

/-- The end of the token consumed last. -/
def State.previousEnd (s : State) : Position :=
  (s.consumed.head?.map Token.stop).getD .start

/-- A recognizer, which stops at the first fault. -/
abbrev Recognizer := EStateM Fault State

variable {α β : Type}

/-- One recognizer after the other succeeds just if both do. -/
theorem bind_eq_ok {first : Recognizer α} {next : α → Recognizer β} {s t : State} {b : β} :
    (first >>= next) s = .ok b t ↔ ∃ a u, first s = .ok a u ∧ next a u = .ok b t := by
  change EStateM.bind first next s = _ ↔ _
  unfold EStateM.bind
  cases first s with
  | ok a u => exact ⟨fun h => ⟨a, u, rfl, h⟩, fun ⟨_, _, h, k⟩ => by cases h; exact k⟩
  | error f u => exact ⟨nofun, fun ⟨_, _, h, _⟩ => nomatch h⟩

/-- One recognizer after the other fails where the first fails, or else where the second does. -/
theorem bind_eq_error {first : Recognizer α} {next : α → Recognizer β} {s t : State} {f : Fault} :
    (first >>= next) s = .error f t ↔
      first s = .error f t ∨ ∃ a u, first s = .ok a u ∧ next a u = .error f t := by
  change EStateM.bind first next s = _ ↔ _
  unfold EStateM.bind
  cases first s with
  | ok a u =>
    refine ⟨fun h => .inr ⟨a, u, rfl, h⟩, ?_⟩
    rintro (h | ⟨_, _, h, k⟩)
    · cases h
    · cases h; exact k
  | error g u =>
    refine ⟨fun h => .inl (by cases h; rfl), ?_⟩
    rintro (h | ⟨_, _, h, _⟩)
    · cases h; rfl
    · cases h

/-! ## Failing -/

/-- Stops with an error of the grammar at a place. -/
def fail (e : GrammarError) (p : Position) : Recognizer α :=
  throw (.grammatical e p)

/-- The fault that a token is where it cannot stand. -/
def unexpectedFault (t : Token) : Fault :=
  .grammatical (if t.isEnd then .unexpectedEnd else .unexpectedToken t.describe) t.start

/-- The current token. -/
def token : Recognizer Token := do
  return (← get).token

/-- The current context. -/
def context : Recognizer Context := do
  return (← get).context

/-- Stops since the current token cannot stand here. -/
def unexpected : Recognizer α := do
  throw (unexpectedFault (← token))

/-- Stops since an identifier must stand here. -/
def expectedIdentifier : Recognizer α := do
  let t ← token
  fail (if t.isEnd then .unexpectedEnd else .expectedIdentifier t.describe) t.start

/-- Stops if there is an error. -/
def failIf (e : Option GrammarError) (p : Position) : Recognizer Unit :=
  match e with
  | some e => fail e p
  | none => pure ()

/-! ## Tokens -/

/-- Makes the token that the scanner gave the current one. -/
def State.receive (s : State) : Except Fault Token × Scanner → EStateM.Result Fault State Unit
  | (.ok t, scanner) => .ok () { s with scanner, token := t }
  | (.error f, scanner) => .error f { s with scanner }

/-- Reads the first token. -/
def start : Recognizer Unit := fun s =>
  s.receive (s.scanner.next .regExp)

/-- Consumes the current token. The next one is read under the goal. -/
def advanceWith (goal : LexicalGoal) : Recognizer Unit := fun s =>
  { s with consumed := s.token :: s.consumed }.receive (s.scanner.next goal)

/-- Consumes the current token. The next one is read under the goal that the consumed token implies. -/
def advance : Recognizer Unit := do
  advanceWith (← token).goalAfter

/-- Reads the current token again under another goal. -/
def rescan (goal : LexicalGoal) : Recognizer Unit := fun s =>
  s.receive (s.scanner.rescan goal s.token)

/-- The token after the current one. -/
def peek : Recognizer Token := fun s =>
  match s.scanner.next s.token.goalAfter with
  | (.ok t, _) => .ok t s
  | (.error f, _) => .error f s

theorem peek_state {s s' : State} {t : Token} (h : peek s = .ok t s') : s' = s := by
  unfold peek at h
  split at h
  · cases h; rfl
  · cases h

/-- Whether the current token is the punctuator. -/
def isAt (p : Punctuator) : Recognizer Bool := do
  return (← token).isPunctuator p

/-- Whether the current token is the keyword. -/
def isAtKeyword (k : Keyword) : Recognizer Bool := do
  return (← token).isKeyword k

/-- Whether the current token is the word, which is no keyword. -/
def isAtWord (word : String) : Recognizer Bool := do
  return (← token).isWord word

/-- Consumes the punctuator if it is the current token, and tells whether it was. -/
def eat (p : Punctuator) : Recognizer Bool := do
  if ← isAt p then
    advance
    return true
  else return false

/-- Consumes the punctuator, which must be the current token. The next token is read under the goal. -/
def expectWith (p : Punctuator) (goal : LexicalGoal) : Recognizer Unit := do
  if ← isAt p then advanceWith goal else unexpected

/-- Consumes the punctuator, which must be the current token. -/
def expect (p : Punctuator) : Recognizer Unit := do
  expectWith p (← token).goalAfter

/-- Consumes the word, which must be the current token. -/
def expectWord (word : String) : Recognizer Unit := do
  if ← isAtWord word then advance else unexpected

/-- Whether `async` comes next and `function` after it on the same line. -/
def isAtAsyncFunction : Recognizer Bool := do
  if ← isAtWord "async" then
    let next ← peek
    return next.isKeyword .function && !next.newlineBefore
  else return false

/-- Ends a statement without its semicolon. -/
def omitSemicolon : Recognizer Unit :=
  modify fun s => { s with omitted := s.previousEnd :: s.omitted }

/-- Ends a statement: with a semicolon, or without one before a line break, a closing brace or the end of the text. -/
def consumeSemicolon : Recognizer Unit := do
  let t ← token
  if t.isPunctuator .semicolon then advanceWith .regExp
  else if t.newlineBefore || t.isPunctuator .closeBrace || t.isEnd then omitSemicolon
  else unexpected

/-! ## Operands -/

/-- Notes that a primary expression begins with the current token. -/
def noteOperandStart : Recognizer Unit :=
  modify fun s => { s with operandStarts := s.token :: s.operandStarts }

/-- Runs a recognizer of expressions and notes where the expression ended. -/
def notingOperandEnd (body : Recognizer Summary) : Recognizer Summary := do
  let e ← body
  modify fun s => { s with operandEnds := (s.previousEnd, s.token) :: s.operandEnds }
  return e

/-! ## Repetition -/

/-- What one turn of a repetition decides. -/
inductive Turn (α β : Type) where
  | again (value : α)
  | done (result : β)

/-- Notes that a turn which found the token is followed by another. -/
def noteTurn (found : Token) : Recognizer Unit :=
  modify fun s => { s with repeated := (found, s.token) :: s.repeated }

/-- Takes turns until one is the last, at most the given number. -/
def repeatTurns (turn : α → Recognizer (Turn α β)) : Nat → α → Recognizer β
  | 0, _ => do throw (.stalled (← token).start)
  | n + 1, value => do
    let found ← token
    match ← turn value with
    | .again next =>
      noteTurn found
      repeatTurns turn n next
    | .done result => return result

/-- Takes turns until one is the last. -/
def loop (first : α) (turn : α → Recognizer (Turn α β)) : Recognizer β := do
  repeatTurns turn (← get).turns first

/-- Items with commas between them, up to the closing punctuator, which is not consumed. A comma may follow the last
item. -/
def itemsUntil (close : Punctuator) (first : α) (item : α → Recognizer α) : Recognizer α :=
  loop first fun value => do
    if ← isAt close then return .done value
    let next ← item value
    unless ← isAt close do expect .comma
    return .again next

/-! ## Surroundings -/

/-- Runs a recognizer in the context of a function of its own. Labels do not reach into functions. -/
def inFunctionContext (inner : Context) (body : Recognizer α) : Recognizer α := do
  let outer ← get
  set { outer with context := inner, labels := [], attachedLabels := 0 }
  let result ← body
  modify fun s =>
    { s with context := outer.context, labels := outer.labels, attachedLabels := outer.attachedLabels }
  return result

/-- Checks an identifier that is referred to. -/
def checkReference (i : Identifier) : Recognizer Unit := do
  failIf ((← context).identifierError? false i) i.position

/-- Checks an identifier that is bound. -/
def checkBinding (lexical : Bool) (i : Identifier) : Recognizer Unit := do
  failIf ((← context).bindingError? lexical i) i.position

/-- Refuses an expression with a shorthand initializer, as it is no pattern. -/
def rejectShorthand (e : Summary) : Recognizer Unit :=
  match e.shorthand? with
  | some p => fail .shorthandInitializer p
  | none => pure ()

/-- Refuses an expression that cannot be the operand of an operator. -/
def requireOperand (e : Summary) : Recognizer Unit := do
  rejectShorthand e
  if e.shape = .arrow then fail .arrowParameters e.start

end EcmaCheck.Grammar
