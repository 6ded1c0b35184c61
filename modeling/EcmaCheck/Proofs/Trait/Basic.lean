import EcmaCheck.Proofs.Lockstep.Input

/-!
# Traits of recognizers

A trait is a property that a recognizer inherits from what it consists of: the recognizers that pass over tokens have
it, and it is kept by sequence (`Trait.holds_bind`), and with it by branches and repetitions. So a recognizer has it
because of its text alone, and instance search finds the reason (`Has`).
-/

namespace EcmaCheck.Grammar

/-- Tokens are read under the goal where no template goes on. -/
class Ordinary (goal : LexicalGoal) : Prop where
  ne : goal ≠ .templateTail

instance : Ordinary .regExp := ⟨by decide⟩

instance : Ordinary .division := ⟨by decide⟩

instance (t : Token) : Ordinary t.goalAfter := by
  unfold Token.goalAfter
  split <;> infer_instance

instance (p : Prop) [Decidable p] (goal goal' : LexicalGoal) [Ordinary goal] [Ordinary goal'] :
    Ordinary (if p then goal else goal') := by
  split <;> infer_instance

/-- A property that recognizers inherit from what they consist of. -/
structure Trait where
  Holds {α : Type} : Recognizer α → Prop
  holds_pure {α : Type} (a : α) : Holds (pure a)
  holds_bind {α β : Type} {x : Recognizer α} {f : α → Recognizer β} : Holds x → (∀ a, Holds (f a)) → Holds (x >>= f)
  holds_throw {α : Type} (f : Fault) : Holds (throw f : Recognizer α)
  holds_get : Holds (get : Recognizer State)
  holds_advanceWith {goal : LexicalGoal} : goal ≠ .templateTail → Holds (advanceWith goal)
  holds_peek : Holds peek
  /-- A division is read again as a regular expression. -/
  holds_rereadDivision {α : Type} {body : Recognizer α} : Holds body → Holds (do
    if (← isAt .slash) || (← isAt .slashAssign) then rescan .regExp
    body : Recognizer α)
  /-- A closing brace is read again as template text. -/
  holds_rereadBrace : Holds (do
    unless ← isAt .closeBrace do unexpected
    rescan .templateTail
    return .again () : Recognizer (Turn Unit Unit))
  holds_omitSemicolon : Holds omitSemicolon
  holds_noteOperandStart : Holds noteOperandStart
  holds_noteOperandEnd (e : Summary) : Holds (do
    modify fun s => { s with operandEnds := (s.previousEnd, s.token) :: s.operandEnds }
    return e : Recognizer Summary)
  holds_noteTurn (found : Token) : Holds (noteTurn found)

/-- The recognizer has the trait. -/
class Has {α : Type} (T : Trait) (x : Recognizer α) : Prop where
  holds : T.Holds x

variable {T : Trait} {α β : Type}

/-! ## Recognizers in general -/

instance (a : α) : Has T (pure a : Recognizer α) :=
  ⟨T.holds_pure a⟩

instance (f : Fault) : Has T (throw f : Recognizer α) :=
  ⟨T.holds_throw f⟩

instance : Has T (get : Recognizer State) :=
  ⟨T.holds_get⟩

protected theorem Has.bind {x : Recognizer α} {f : α → Recognizer β} (hx : Has T x) (hf : ∀ a, Has T (f a)) :
    Has T (x >>= f) :=
  ⟨T.holds_bind hx.holds fun a => (hf a).holds⟩

instance (x : Recognizer α) (f : α → Recognizer β) [hx : Has T x] [hf : ∀ a, Has T (f a)] : Has T (x >>= f) :=
  hx.bind hf

instance (p : Prop) [Decidable p] (x y : Recognizer α) [Has T x] [Has T y] : Has T (if p then x else y) := by
  split <;> infer_instance

instance (x y : Recognizer α) [h : Has T x] : Has T (if true = true then x else y) := by
  rwa [if_pos rfl]

instance (x : Recognizer α) [Has T x] : Has T (discard x : Recognizer Unit) :=
  inferInstanceAs (Has T (x >>= fun _ => pure ()))

/-! ## Reading the state and failing -/

instance : Has T token := by
  unfold token
  infer_instance

instance : Has T context := by
  unfold context
  infer_instance

instance (e : GrammarError) (p : Position) : Has T (fail e p : Recognizer α) := by
  unfold fail
  infer_instance

instance : Has T (unexpected : Recognizer α) := by
  unfold unexpected
  infer_instance

instance : Has T (expectedIdentifier : Recognizer α) := by
  unfold expectedIdentifier
  infer_instance

instance (e : Option GrammarError) (p : Position) : Has T (failIf e p) := by
  unfold failIf
  split <;> infer_instance

/-! ## Tokens -/

instance (goal : LexicalGoal) [h : Ordinary goal] : Has T (advanceWith goal) :=
  ⟨T.holds_advanceWith h.ne⟩

instance : Has T advance := by
  unfold advance
  infer_instance

instance : Has T peek :=
  ⟨T.holds_peek⟩

instance (p : Punctuator) : Has T (isAt p) := by
  unfold isAt
  infer_instance

instance (w : Keyword) : Has T (isAtKeyword w) := by
  unfold isAtKeyword
  infer_instance

instance (w : String) : Has T (isAtWord w) := by
  unfold isAtWord
  infer_instance

instance (p : Punctuator) : Has T (eat p) := by
  unfold eat
  infer_instance

instance (p : Punctuator) (goal : LexicalGoal) [Ordinary goal] : Has T (expectWith p goal) := by
  unfold expectWith
  infer_instance

instance (p : Punctuator) : Has T (expect p) := by
  unfold expect
  infer_instance

instance (w : String) : Has T (expectWord w) := by
  unfold expectWord
  infer_instance

instance : Has T isAtAsyncFunction := by
  unfold isAtAsyncFunction
  infer_instance

instance : Has T omitSemicolon :=
  ⟨T.holds_omitSemicolon⟩

instance : Has T consumeSemicolon := by
  unfold consumeSemicolon
  infer_instance

/-! ## Operands -/

instance : Has T noteOperandStart :=
  ⟨T.holds_noteOperandStart⟩

instance (e : Summary) : Has T (do
    modify fun s => { s with operandEnds := (s.previousEnd, s.token) :: s.operandEnds }
    return e : Recognizer Summary) :=
  ⟨T.holds_noteOperandEnd e⟩

protected theorem Has.notingOperandEnd {body : Recognizer Summary} (h : Has T body) :
    Has T (notingOperandEnd body) := by
  unfold notingOperandEnd
  infer_instance

instance (body : Recognizer Summary) [h : Has T body] : Has T (notingOperandEnd body) :=
  h.notingOperandEnd

instance (i : Identifier) : Has T (checkReference i) := by
  unfold checkReference
  infer_instance

instance (lexical : Bool) (i : Identifier) : Has T (checkBinding lexical i) := by
  unfold checkBinding
  infer_instance

instance (e : Summary) : Has T (rejectShorthand e) := by
  unfold rejectShorthand
  split <;> infer_instance

instance (e : Summary) : Has T (requireOperand e) := by
  unfold requireOperand
  infer_instance

/-! ## Repetition -/

instance (found : Token) : Has T (noteTurn found) :=
  ⟨T.holds_noteTurn found⟩

instance (turn : α → Recognizer (Turn α β)) [∀ a, Has T (turn a)] (n : Nat) (a : α) :
    Has T (repeatTurns turn n a) := by
  induction n generalizing a with
  | zero =>
    unfold repeatTurns
    infer_instance
  | succ n ih =>
    unfold repeatTurns
    exact .bind inferInstance fun _ => .bind inferInstance fun _ => by split <;> infer_instance

protected theorem Has.loop {a : α} {turn : α → Recognizer (Turn α β)} (h : ∀ a, Has T (turn a)) :
    Has T (loop a turn) := by
  unfold loop
  infer_instance

instance (a : α) (turn : α → Recognizer (Turn α β)) [h : ∀ a, Has T (turn a)] : Has T (loop a turn) :=
  .loop h

instance (close : Punctuator) (a : α) (item : α → Recognizer α) [∀ a, Has T (item a)] :
    Has T (itemsUntil close a item) := by
  unfold itemsUntil
  infer_instance

end EcmaCheck.Grammar
