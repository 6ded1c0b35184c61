import EcmaCheck.Proofs.Lockstep.Moves
import EcmaCheck.Proofs.Quoting
import Mathlib.Data.Option.Defs

/-!
# Recognitions in lockstep

Two recognitions of the same grammar are in lockstep when they take the same branches from token to token. A
`Simulation` says how their texts are related: which places and which faults correspond, and that reading a token keeps
the scanners related. All that the grammar adds to it, the rest of the state, is equal in both (`Simulation.At`).

The two are compared by their results (`Simulation.Outcome`), as long as the first may still get where it is meant to
finish; a fault of the first that is `cut` ends the comparison, and so does one of the second if it has an `excuse`. So
a place from which the first will not finish may be left out of account, and as recognizers only move along (`Moves`),
it need not be followed further. The rules follow the constructs of recognizers: sequence (`Outcome.bind`), branches
(`Outcome.ite`, `Outcome.when`, `Outcome.whenNot`) and repetition (`At.loop`).

A state is credited with three nesting levels and with those that the consumed tokens are worth (`At.credit`), less what
has been `spent` of them before. Every level that is opened costs one, so that the depth stays in proportion to what has
been read, and every turn of a repetition earns some, so that it consumes a token and the turns granted to it suffice.
-/

namespace EcmaCheck.Grammar

set_option synthInstance.maxSize 20000

/-! ## Simulations -/

/-- Both succeed with related values or both fail with related faults. -/
def Agree {α β : Type} (fault : Fault → Fault → Prop) (value : α → β → Prop) :
    Except Fault α → Except Fault β → Prop
  | .ok a, .ok b => value a b
  | .error f, .error g => fault f g
  | _, _ => False

/-- As `Agree`, but after a fault of the first that is `cut` the second may succeed, and with `excuse` the second may
fail where the first succeeds. -/
def AgreeUpTo {α β : Type} (cut : Fault → Prop) (excuse : Prop) (fault : Fault → Fault → Prop) (value : α → β → Prop) :
    Except Fault α → Except Fault β → Prop
  | .ok a, .ok b => value a b
  | .error f, .error g => fault f g
  | .error f, .ok _ => cut f
  | .ok _, .error _ => excuse

theorem AgreeUpTo.of_agree {α β : Type} {cut : Fault → Prop} {excuse : Prop} {fault : Fault → Fault → Prop}
    {value : α → β → Prop} {x : Except Fault α} {y : Except Fault β} (h : Agree fault value x y) :
    AgreeUpTo cut excuse fault value x y := by
  cases x <;> cases y <;> first | exact h | exact h.elim

/-- Tokens of one kind. With `breaks`, the second may see a line break that the first does not, but only where the text
ends. -/
structure AlikeKinds (breaks : Prop) (t₁ t₂ : Token) : Prop where
  kind : t₂.kind = t₁.kind
  newlineBefore : t₂.newlineBefore = t₁.newlineBefore ∨ breaks ∧ t₁.isEnd = true ∧ t₁.newlineBefore = false

/-- Tokens that the grammar does not tell apart, of which the first is `known`. -/
structure AlikeTokens (known : Token → Prop) (place stop : Position → Position → Prop) (breaks : Prop)
    (t₁ t₂ : Token) : Prop extends AlikeKinds breaks t₁ t₂ where
  lexeme : t₂.lexeme = t₁.lexeme
  start : place t₁.start t₂.start
  stop : t₁.isEnd = false → stop t₁.stop t₂.stop
  malformedEscape? : Option.Rel place t₁.malformedEscape? t₂.malformedEscape?
  known : known t₁

/-- Places that are the same are as far along. -/
theorem offset_eq_iff_of_eq {p₁ p₂ q₁ q₂ : Position} (hp : p₁ = p₂) (hq : q₁ = q₂) :
    p₁.offset = q₁.offset ↔ p₂.offset = q₂.offset := by
  rw [hp, hq]

/-- How two texts correspond, and what reading them keeps. -/
structure Simulation where
  /-- What is known of the tokens of the first. -/
  known : Token → Prop
  /-- Places at which the two report the same thing. -/
  place : Position → Position → Prop
  /-- Ends of corresponding tokens. -/
  stop : Position → Position → Prop
  /-- Whether the second sees a line break where the text ends. -/
  breaks : Prop
  /-- Faults with which the two may fail. -/
  fault : Fault → Fault → Prop
  /-- Faults of the first after which the second may go on. -/
  cut : Fault → Prop
  /-- Whether the second may fail where the first goes on, after which nothing is said of either. -/
  excuse : Prop := False
  /-- Where the first is meant to finish: at the end with `true`, or else with a fault. -/
  finish : Bool → Input → Prop
  /-- Where the two stand; with `true` an operand has just ended in both. -/
  input : Bool → Input → Input → Prop
  /-- What is known of the tokens that the first has passed, wherever its scanner stands. -/
  history : Input → Prop
  /-- The turns that the first grants to a repetition. -/
  turns₁ : Nat
  /-- The turns that the second grants to a repetition. -/
  turns₂ : Nat
  /-- The nesting levels that tokens have been spent on before. -/
  spent : Nat := 0
  fault_of_cut {f g : Fault} : cut f → fault f g
  fault_of_excuse : excuse → ∀ f g, fault f g := by rintro ⟨⟩
  history_of_excuse : excuse → ∀ i, history i := by rintro ⟨⟩
  fault_of_place {e : GrammarError} {p q : Position} : e.isFixed = true → place p q →
    fault (.grammatical e p) (.grammatical e q)
  fault_of_token {e : GrammarError} {t₁ t₂ : Token} : AlikeTokens known place stop breaks t₁ t₂ → e.Quotes t₁ →
    fault (.grammatical e t₁.start) (.grammatical e t₂.start)
  fault_of_escape {p q : Position} : place p q → fault (.lexical .templateEscape p) (.lexical .templateEscape q)
  fault_of_throw {f g : Fault} {p q : Position} : breaks → place p q → f.position = p → fault f g →
    fault f (.grammatical .newlineAfterThrow q)
  offset_eq_iff {p₁ p₂ q₁ q₂ : Position} : stop p₁ p₂ → stop q₁ q₂ → (p₁.offset = q₁.offset ↔ p₂.offset = q₂.offset)
  weaken {i j : Input} : input true i j → input false i j
  token_of_input {b : Bool} {i j : Input} : input b i j → AlikeTokens known place stop breaks i.token j.token
  stop_of_input {b : Bool} {i j : Input} : input b i j → stop i.previousEnd j.previousEnd
  history_of_input {b : Bool} {i j : Input} (scanner : Scanner) : input b i j → history { i with scanner }
  history_of_consume {b : Bool} {i j : Input} (scanner : Scanner) : input b i j → i.token.isEnd = false →
    history { i.consume with scanner }
  turns_of_input {b : Bool} {i j : Input} : input b i j →
    i.consumed.length + 2 ≤ turns₁ ∧ i.consumed.length + 2 ≤ turns₂
  protected advance {b : Bool} {i j : Input} {goal : LexicalGoal} : input b i j → i.token.isEnd = false →
    goal ≠ .templateTail → i.consume.MayFinish finish (i.advance goal) →
    AgreeUpTo cut excuse fault (input (goal = .division)) (i.advance goal) (j.advance goal)
  protected peek {b : Bool} {i j : Input} : input b i j → i.token.isName = true →
    i.MayPeek finish → AgreeUpTo cut excuse fault (AlikeKinds breaks) (i.scanner.next i.token.goalAfter).1
      (j.scanner.next i.token.goalAfter).1
  protected isEnd_next_eq {b : Bool} {i j : Input} {goal goal' : LexicalGoal} {t t' : Token} : input b i j →
    i.token.isEnd = false → goal ≠ .templateTail → goal' ≠ .templateTail → (i.scanner.next goal).1 = .ok t →
    (i.scanner.next goal').1 = .ok t' → t.isEnd = t'.isEnd
  protected rescanRegExp {b : Bool} {i j : Input} : input b i j → isDivision i.token = true →
    i.MayFinish finish (i.rescan .regExp) →
    AgreeUpTo cut excuse fault (fun i j => input false i j ∧ isDivision i.token = false) (i.rescan .regExp)
      (j.rescan .regExp)
  protected rescanTemplate {b : Bool} {i j : Input} : input b i j → i.token.isPunctuator .closeBrace = true →
    i.MayFinish finish (i.rescan .templateTail) →
    AgreeUpTo cut excuse fault (input false) (i.rescan .templateTail) (j.rescan .templateTail)
  protected noteOmission {b : Bool} {i j : Input} : input b i j → input false i.noteOmission j.noteOmission
  protected noteStart {b : Bool} {i j : Input} : input b i j → isDivision i.token = false →
    input b i.noteStart j.noteStart
  protected noteEnd {i j : Input} : input true i j → input true i.noteEnd j.noteEnd
  protected noteTurn {b b' : Bool} {i j i' j' : Input} : input b i j → input b' i' j' → i.Leads true i' →
    i.consumed.length < i'.consumed.length → input b' (i'.noteTurn i.token) (j'.noteTurn j.token)

namespace Simulation

variable (sim : Simulation)

/-- Tokens that correspond. -/
abbrev Tokens : Token → Token → Prop :=
  AlikeTokens sim.known sim.place sim.stop sim.breaks

/-- The two states correspond. The first has consumed enough tokens for `credit` more nesting levels, and with `ended`
an operand has just ended. -/
structure At (ended : Bool) (depth credit : Nat) (s₁ s₂ : State) : Prop where
  input : sim.input ended s₁.input s₂.input
  isModule : s₂.isModule = s₁.isModule
  context : s₂.context = s₁.context
  labels : s₂.labels = s₁.labels
  attachedLabels : s₂.attachedLabels = s₁.attachedLabels
  attached : s₁.attachedLabels ≤ s₁.labels.length
  classDepth : s₂.classDepth = s₁.classDepth
  depth₁ : s₁.depth = depth
  depth₂ : s₂.depth = depth
  turns₁ : s₁.turns = sim.turns₁
  turns₂ : s₂.turns = sim.turns₂
  credit : credit + depth + sim.spent ≤ s₁.input.earned + 3

variable {α β : Type}

/-- The result is one from which the first may finish. -/
def Reaches : EStateM.Result Fault State α → Prop
  | .ok _ t => t.input.CanFinish sim.finish
  | .error _ t => sim.finish false t.input

/-- A recognizer that began in the state failed there or consumed the token, under the goal that it implies, if it may
finish from the result. -/
def Opens (s : State) (r : EStateM.Result Fault State α) : Prop :=
  sim.Reaches r → s.input.MayOpen sim.finish

/-- Both recognizers succeed as `post` says, or both fail with corresponding faults, or the first was cut off, or the
second is excused. -/
def Corresponds (post : α → α → State → State → Prop) :
    EStateM.Result Fault State α → EStateM.Result Fault State α → Prop
  | .ok a₁ t₁, .ok a₂ t₂ => post a₁ a₂ t₁ t₂
  | .error f₁ t₁, .error f₂ _ => sim.fault f₁ f₂ ∧ sim.history t₁.input
  | .error f₁ t₁, .ok .. => sim.cut f₁ ∧ sim.history t₁.input
  | .ok .., .error .. => sim.excuse

/-- The results correspond if the first may finish. -/
def Outcome (post : α → α → State → State → Prop) (r₁ r₂ : EStateM.Result Fault State α) : Prop :=
  sim.Reaches r₁ → sim.Corresponds post r₁ r₂

/-- The results correspond, and recognizers that succeed give related values in corresponding states. -/
abbrev Yields (value : α → α → Prop) (ended : Bool) (depth credit : Nat) :
    EStateM.Result Fault State α → EStateM.Result Fault State α → Prop :=
  sim.Outcome fun a₁ a₂ t₁ t₂ => value a₁ a₂ ∧ sim.At ended depth credit t₁ t₂

/-- Summaries of corresponding expressions. -/
structure Summaries (e₁ e₂ : Summary) : Prop where
  shape : e₂.shape = e₁.shape
  start : sim.place e₁.start e₂.start
  shorthand? : Option.Rel sim.place e₁.shorthand? e₂.shorthand?

variable {sim} {value : α → α → Prop} {b : Bool} {k c : Nat} {s₁ s₂ : State}

/-! ## Weakening -/

namespace At

theorem tokens (h : sim.At b k c s₁ s₂) : sim.Tokens s₁.token s₂.token :=
  sim.token_of_input h.input

theorem history (h : sim.At b k c s₁ s₂) : sim.history s₁.input :=
  sim.history_of_input _ h.input

theorem mono {c' : Nat} (h : sim.At b k c s₁ s₂) (hc : c' ≤ c) : sim.At b k c' s₁ s₂ :=
  { h with credit := by have := h.credit; omega }

/-- Where an operand has ended, nothing less holds than elsewhere. -/
theorem weaken (h : sim.At b k c s₁ s₂) : sim.At false k c s₁ s₂ :=
  { h with
    input := by
      cases b with
      | true => exact sim.weaken h.input
      | false => exact h.input }

theorem weaken_to {b' : Bool} {c' : Nat} (h : sim.At b k c s₁ s₂) (hb : b' = true → b = true) (hc : c' ≤ c) :
    sim.At b' k c' s₁ s₂ := by
  cases b' with
  | true => exact (hb rfl ▸ h).mono hc
  | false => exact h.weaken.mono hc

/-- The context may be changed in both alike. -/
theorem withContext (g : Context → Context) (h : sim.At b k c s₁ s₂) :
    sim.At b k c { s₁ with context := g s₁.context } { s₂ with context := g s₂.context } :=
  { h with context := congrArg g h.context }

end At

namespace Outcome

variable {post : α → α → State → State → Prop} {post' : β → β → State → State → Prop}

protected theorem ok {a₁ a₂ : α} {t₁ t₂ : State} (h : post a₁ a₂ t₁ t₂) :
    sim.Outcome post (.ok a₁ t₁) (.ok a₂ t₂) :=
  fun _ => h

protected theorem error {f₁ f₂ : Fault} {t₁ t₂ : State} (hf : sim.fault f₁ f₂)
    (hh : sim.history t₁.input) : sim.Outcome post (.error f₁ t₁) (.error f₂ t₂) :=
  fun _ => ⟨hf, hh⟩

theorem mono {post₁ post₂ : α → α → State → State → Prop} {r₁ r₂ : EStateM.Result Fault State α}
    (h : sim.Outcome post₁ r₁ r₂) (hp : ∀ a₁ a₂ t₁ t₂, post₁ a₁ a₂ t₁ t₂ → post₂ a₁ a₂ t₁ t₂) :
    sim.Outcome post₂ r₁ r₂ := by
  intro hreach
  specialize h hreach
  cases r₁ with
  | ok a₁ t₁ =>
    cases r₂ with
    | ok a₂ t₂ => exact hp _ _ _ _ h
    | error => exact h
  | error f₁ t₁ => cases r₂ <;> exact h

/-- What the first recognizer alone guarantees may be added. -/
theorem and_left {q : α → State → Prop} {r₁ r₂ : EStateM.Result Fault State α} (h : sim.Outcome post r₁ r₂)
    (hq : ∀ a t, r₁ = .ok a t → q a t) : sim.Outcome (fun a₁ a₂ t₁ t₂ => post a₁ a₂ t₁ t₂ ∧ q a₁ t₁) r₁ r₂ := by
  intro hreach
  specialize h hreach
  cases r₁ with
  | ok a₁ t₁ =>
    cases r₂ with
    | ok a₂ t₂ => exact ⟨h, hq _ _ rfl⟩
    | error => exact h
  | error f₁ t₁ => cases r₂ <;> exact h

theorem errors {r₁ r₂ : EStateM.Result Fault State α} {f₁ f₂ : Fault} {t₁ t₂ : State} (h₁ : r₁ = .error f₁ t₁)
    (h₂ : r₂ = .error f₂ t₂)
    (h : sim.finish false t₁.input → sim.fault f₁ f₂ ∧ sim.history t₁.input) :
    sim.Outcome post r₁ r₂ := by
  subst h₁ h₂
  exact h

/-! ## Sequence -/

/-- What may finish in the end may finish on the way. -/
theorem reaches_of_moves {x : Recognizer α} {s : State} (hx : Moves x) (h : sim.Reaches (x s)) :
    s.input.CanFinish sim.finish := by
  have hmoved := hx.moved s
  cases hr : x s with
  | ok a t =>
    rw [hr] at h hmoved
    exact .of_leads hmoved.1 h
  | error f t =>
    rw [hr] at h hmoved
    exact ⟨false, t.input, hmoved, h⟩

/-- Sequence, where it is not obvious how the second part moves. -/
theorem bindMoving {x₁ x₂ : Recognizer α} {f₁ f₂ : α → Recognizer β} (h : sim.Outcome post (x₁ s₁) (x₂ s₂))
    (hmoves : ∀ a, Moves (f₁ a))
    (hf : ∀ a₁ a₂ t₁ t₂, post a₁ a₂ t₁ t₂ → sim.Outcome post' (f₁ a₁ t₁) (f₂ a₂ t₂)) :
    sim.Outcome post' ((x₁ >>= f₁) s₁) ((x₂ >>= f₂) s₂) := by
  intro hreach
  change sim.Corresponds post' (EStateM.bind x₁ f₁ s₁) (EStateM.bind x₂ f₂ s₂)
  change sim.Reaches (EStateM.bind x₁ f₁ s₁) at hreach
  unfold EStateM.bind at hreach ⊢
  cases h₁ : x₁ s₁ with
  | ok a₁ t₁ =>
    rw [h₁] at h hreach
    have hbetween := h (reaches_of_moves (hmoves a₁) hreach)
    cases h₂ : x₂ s₂ with
    | ok a₂ t₂ => rw [h₂] at hbetween; exact hf a₁ a₂ t₁ t₂ hbetween hreach
    | error f₂ t₂ =>
      rw [h₂] at hbetween
      change sim.Corresponds post' (f₁ a₁ t₁) (.error f₂ t₂)
      cases f₁ a₁ t₁ with
      | ok => exact hbetween
      | error => exact ⟨sim.fault_of_excuse hbetween _ _, sim.history_of_excuse hbetween _⟩
  | error f₁ t₁ =>
    rw [h₁] at h hreach
    specialize h hreach
    cases h₂ : x₂ s₂ with
    | ok a₂ t₂ =>
      -- the first was cut off, so that it does not matter how the second goes on
      rw [h₂] at h
      change sim.Corresponds post' (.error f₁ t₁) (f₂ a₂ t₂)
      cases f₂ a₂ t₂ with
      | ok => exact h
      | error => exact ⟨sim.fault_of_cut h.1, h.2⟩
    | error f₂ t₂ => rw [h₂] at h; exact h

theorem bind {x₁ x₂ : Recognizer α} {f₁ f₂ : α → Recognizer β} (h : sim.Outcome post (x₁ s₁) (x₂ s₂))
    (hf : ∀ a₁ a₂ t₁ t₂, post a₁ a₂ t₁ t₂ → sim.Outcome post' (f₁ a₁ t₁) (f₂ a₂ t₂)) [hmoves : ∀ a, Moves (f₁ a)] :
    sim.Outcome post' ((x₁ >>= f₁) s₁) ((x₂ >>= f₂) s₂) :=
  h.bindMoving hmoves hf

/-- Sequence, with what holds between the two parts. -/
theorem seq (between : α → α → State → State → Prop) {x₁ x₂ : Recognizer α} {f₁ f₂ : α → Recognizer β}
    (h : sim.Outcome between (x₁ s₁) (x₂ s₂))
    (hf : ∀ a₁ a₂ t₁ t₂, between a₁ a₂ t₁ t₂ → sim.Outcome post' (f₁ a₁ t₁) (f₂ a₂ t₂))
    [hmoves : ∀ a, Moves (f₁ a)] :
    sim.Outcome post' ((x₁ >>= f₁) s₁) ((x₂ >>= f₂) s₂) :=
  h.bind hf

end Outcome

namespace Yields

variable {post : β → β → State → State → Prop}

/-- Sequence behind a recognizer that succeeds in corresponding states, where it is not obvious how the second part
moves. -/
theorem bindMoving {x₁ x₂ : Recognizer α} {f₁ f₂ : α → Recognizer β} (h : sim.Yields value b k c (x₁ s₁) (x₂ s₂))
    (hmoves : ∀ a, Moves (f₁ a))
    (hf : ∀ a₁ a₂ t₁ t₂, value a₁ a₂ → sim.At b k c t₁ t₂ → sim.Outcome post (f₁ a₁ t₁) (f₂ a₂ t₂)) :
    sim.Outcome post ((x₁ >>= f₁) s₁) ((x₂ >>= f₂) s₂) :=
  Outcome.bindMoving h hmoves fun a₁ a₂ t₁ t₂ h => hf a₁ a₂ t₁ t₂ h.1 h.2

theorem bind {x₁ x₂ : Recognizer α} {f₁ f₂ : α → Recognizer β} (h : sim.Yields value b k c (x₁ s₁) (x₂ s₂))
    (hf : ∀ a₁ a₂ t₁ t₂, value a₁ a₂ → sim.At b k c t₁ t₂ → sim.Outcome post (f₁ a₁ t₁) (f₂ a₂ t₂))
    [hmoves : ∀ a, Moves (f₁ a)] :
    sim.Outcome post ((x₁ >>= f₁) s₁) ((x₂ >>= f₂) s₂) :=
  h.bindMoving hmoves hf

end Yields

namespace Outcome

variable {post : α → α → State → State → Prop} {post' : β → β → State → State → Prop}

/-! ## Reading the state -/

theorem bind_token {f₁ f₂ : Token → Recognizer α} (h : sim.Outcome post (f₁ s₁.token s₁) (f₂ s₂.token s₂)) :
    sim.Outcome post ((token >>= f₁) s₁) ((token >>= f₂) s₂) :=
  h

theorem bind_context {f₁ f₂ : Context → Recognizer α} (h : sim.Outcome post (f₁ s₁.context s₁) (f₂ s₂.context s₂)) :
    sim.Outcome post ((context >>= f₁) s₁) ((context >>= f₂) s₂) :=
  h

theorem bind_get {f₁ f₂ : State → Recognizer α} (h : sim.Outcome post (f₁ s₁ s₁) (f₂ s₂ s₂)) :
    sim.Outcome post ((get >>= f₁) s₁) ((get >>= f₂) s₂) :=
  h

theorem bind_modify {g₁ g₂ : State → State} {f₁ f₂ : Unit → Recognizer α}
    (h : sim.Outcome post (f₁ () (g₁ s₁)) (f₂ () (g₂ s₂))) :
    sim.Outcome post (((modify g₁ : Recognizer Unit) >>= f₁) s₁)
      (((modify g₂ : Recognizer Unit) >>= f₂) s₂) :=
  h

theorem bind_set {u₁ u₂ : State} {f₁ f₂ : PUnit → Recognizer α} (h : sim.Outcome post (f₁ () u₁) (f₂ () u₂)) :
    sim.Outcome post (((set u₁ : Recognizer PUnit) >>= f₁) s₁) (((set u₂ : Recognizer PUnit) >>= f₂) s₂) :=
  h

theorem bind_isAt {p : Punctuator} {f₁ f₂ : Bool → Recognizer α}
    (h : sim.Outcome post (f₁ (s₁.token.isPunctuator p) s₁) (f₂ (s₂.token.isPunctuator p) s₂)) :
    sim.Outcome post ((isAt p >>= f₁) s₁) ((isAt p >>= f₂) s₂) :=
  h

theorem bind_isAtKeyword {w : Keyword} {f₁ f₂ : Bool → Recognizer α}
    (h : sim.Outcome post (f₁ (s₁.token.isKeyword w) s₁) (f₂ (s₂.token.isKeyword w) s₂)) :
    sim.Outcome post ((isAtKeyword w >>= f₁) s₁) ((isAtKeyword w >>= f₂) s₂) :=
  h

theorem bind_isAtWord {w : String} {f₁ f₂ : Bool → Recognizer α}
    (h : sim.Outcome post (f₁ (s₁.token.isWord w) s₁) (f₂ (s₂.token.isWord w) s₂)) :
    sim.Outcome post ((isAtWord w >>= f₁) s₁) ((isAtWord w >>= f₂) s₂) :=
  h

end Outcome

/-- The context is the same in both. -/
theorem At.sameContext {f₁ f₂ : Context → Recognizer α} {post : α → α → State → State → Prop}
    (hs : sim.At b k c s₁ s₂) (h : sim.Outcome post (f₁ s₁.context s₁) (f₂ s₁.context s₂)) :
    sim.Outcome post ((Grammar.context >>= f₁) s₁) ((Grammar.context >>= f₂) s₂) :=
  Outcome.bind_context (hs.context ▸ h)

namespace Outcome

variable {post : α → α → State → State → Prop}

/-! ## Branches -/

theorem branch {p₁ p₂ : Prop} [Decidable p₁] [Decidable p₂] {x₁ x₂ y₁ y₂ : Recognizer α} (hp : p₁ ↔ p₂)
    (ht : p₁ → sim.Outcome post (x₁ s₁) (x₂ s₂)) (hf : ¬ p₁ → sim.Outcome post (y₁ s₁) (y₂ s₂)) :
    sim.Outcome post ((if p₁ then x₁ else y₁) s₁) ((if p₂ then x₂ else y₂) s₂) := by
  by_cases h : p₁
  · rw [if_pos h, if_pos (hp.mp h)]
    exact ht h
  · rw [if_neg h, if_neg (mt hp.mpr h)]
    exact hf h

theorem ite {b₁ b₂ : Bool} {x₁ x₂ y₁ y₂ : Recognizer α} (hb : b₂ = b₁)
    (ht : b₁ = true → sim.Outcome post (x₁ s₁) (x₂ s₂)) (hf : b₁ = false → sim.Outcome post (y₁ s₁) (y₂ s₂)) :
    sim.Outcome post ((if b₁ = true then x₁ else y₁) s₁) ((if b₂ = true then x₂ else y₂) s₂) :=
  branch (by rw [hb]) ht fun h => hf (Bool.eq_false_iff.mpr h)

/-- A step that is only taken under a condition. -/
theorem when (between : State → State → Prop) {b₁ b₂ : Bool} {x₁ x₂ : Recognizer Unit} {f₁ f₂ : Unit → Recognizer α}
    (hb : b₂ = b₁) (hmoves : ∀ a, Moves (f₁ a))
    (ht : b₁ = true → sim.Outcome (fun _ _ => between) (x₁ s₁) (x₂ s₂)) (hf : b₁ = false → between s₁ s₂)
    (hn : ∀ t₁ t₂, between t₁ t₂ → sim.Outcome post (f₁ () t₁) (f₂ () t₂)) :
    sim.Outcome post ((if b₁ = true then x₁ >>= f₁ else f₁ ()) s₁) ((if b₂ = true then x₂ >>= f₂ else f₂ ()) s₂) :=
  ite hb (fun h => (ht h).bind (fun _ _ t₁ t₂ => hn t₁ t₂)) fun h => hn s₁ s₂ (hf h)

/-- A step that is not taken under a condition. -/
theorem whenNot (between : State → State → Prop) {b₁ b₂ : Bool} {x₁ x₂ : Recognizer Unit}
    {f₁ f₂ : Unit → Recognizer α} (hb : b₂ = b₁) (ht : b₁ = true → between s₁ s₂)
    (hf : b₁ = false → sim.Outcome (fun _ _ => between) (x₁ s₁) (x₂ s₂))
    (hn : ∀ t₁ t₂, between t₁ t₂ → sim.Outcome post (f₁ () t₁) (f₂ () t₂)) [hmoves : ∀ a, Moves (f₁ a)] :
    sim.Outcome post ((if b₁ = true then f₁ () else x₁ >>= f₁) s₁) ((if b₂ = true then f₂ () else x₂ >>= f₂) s₂) :=
  ite hb (fun h => hn s₁ s₂ (ht h)) fun h => (hf h).bind (fun _ _ t₁ t₂ => hn t₁ t₂)

end Outcome

/-! ## Repetition -/

/-- What holds after a turn: `again` if another one follows, `done` if it was the last. -/
def AfterTurn (again : α → α → State → State → Prop) (done : β → β → State → State → Prop) :
    Turn α β → Turn α β → State → State → Prop
  | .again a₁, .again a₂, t₁, t₂ => again a₁ a₂ t₁ t₂
  | .done b₁, .done b₂, t₁, t₂ => done b₁ b₂ t₁ t₂
  | _, _, _, _ => False

theorem length_lt_of_earned {i j : Input} (h : i.Leads true j) (hearned : i.earned < j.earned) :
    i.consumed.length < j.consumed.length := by
  have hsuffix := h.consumed_suffix
  refine Nat.lt_of_le_of_ne hsuffix.length_le fun hlength => ?_
  rw [Input.earned, Input.earned, hsuffix.eq_of_length hlength] at hearned
  exact Nat.lt_irrefl _ hearned

/-- A turn that earns credit wherever it begins consumes a token. -/
theorem At.turnConsumes {value : α → α → Prop} {turn₁ turn₂ : α → Recognizer (Turn α β)}
    {post : β → β → State → State → Prop} {a₁ a₂ : α} {t₁ t₂ : State} (ht : sim.At b k c t₁ t₂)
    (hmoves : Moves (turn₁ a₁))
    (hturn : ∀ c', c ≤ c' → sim.At b k c' t₁ t₂ →
      sim.Outcome (AfterTurn (fun a₁ a₂ u₁ u₂ => value a₁ a₂ ∧ sim.At b k (c' + 1) u₁ u₂) post)
        (turn₁ a₁ t₁) (turn₂ a₂ t₂)) :
    sim.Outcome (AfterTurn (fun a₁ a₂ u₁ u₂ => value a₁ a₂ ∧ sim.At b k (c + 1) u₁ u₂ ∧
      t₁.input.Leads true u₁.input ∧ t₁.consumed.length < u₁.consumed.length) post) (turn₁ a₁ t₁) (turn₂ a₂ t₂) := by
  -- with all the credit that its state has, the turn has nothing to earn but from a token
  have hcredit := ht.credit
  have hall : sim.At b k (t₁.input.earned + 3 - k - sim.spent) t₁ t₂ := { ht with credit := by omega }
  refine ((hturn _ (by omega) hall).and_left fun r u h => (hmoves.moved_of_ok h)).mono fun r₁ r₂ u₁ u₂ hr => ?_
  obtain ⟨hr, hleads⟩ := hr
  cases r₁ with
  | again =>
    cases r₂ with
    | again =>
      have hafter := hr.2.credit
      exact ⟨hr.1, hr.2.mono (by omega), hleads, length_lt_of_earned hleads (by omega)⟩
    | done => exact hr
  | done =>
    cases r₂ with
    | again => exact hr
    | done => exact hr

/-- Every turn consumes a token, and there are no more of them than turns. So the turns do not run out. -/
theorem At.loopMoving (value : α → α → Prop) {turn₁ turn₂ : α → Recognizer (Turn α β)}
    {post : β → β → State → State → Prop} {a₁ a₂ : α}
    (hs : sim.At b k c s₁ s₂) (ha : value a₁ a₂) (hmoves : ∀ a, Moves (turn₁ a))
    (hturn : ∀ c' a₁ a₂ t₁ t₂, c ≤ c' → value a₁ a₂ → sim.At b k c' t₁ t₂ →
      sim.Outcome (AfterTurn (fun a₁ a₂ t₁ t₂ => value a₁ a₂ ∧ sim.At b k (c' + 1) t₁ t₂) post)
        (turn₁ a₁ t₁) (turn₂ a₂ t₂)) :
    sim.Outcome post (loop a₁ turn₁ s₁) (loop a₂ turn₂ s₂) := by
  have key : ∀ n₁ n₂ c' a₁ a₂ t₁ t₂, c ≤ c' → value a₁ a₂ → sim.At b k c' t₁ t₂ →
      sim.turns₁ ≤ t₁.consumed.length + n₁ → sim.turns₂ ≤ t₁.consumed.length + n₂ →
      sim.Outcome post (repeatTurns turn₁ n₁ a₁ t₁) (repeatTurns turn₂ n₂ a₂ t₂) := by
    intro n₁
    induction n₁ with
    | zero =>
      intro n₂ c' a₁ a₂ t₁ t₂ _ _ ht h₁ _
      have := sim.turns_of_input ht.input
      simp only [State.input] at this
      omega
    | succ n₁ ih =>
      intro n₂ c' a₁ a₂ t₁ t₂ hc ha ht h₁ h₂
      cases n₂ with
      | zero =>
        have := sim.turns_of_input ht.input
        simp only [State.input] at this
        omega
      | succ n₂ =>
        refine .bind_token ?_
        refine (ht.turnConsumes (hmoves a₁) fun c'' hc'' ht' => hturn c'' a₁ a₂ t₁ t₂ (by omega) ha ht').bindMoving
          (fun r => by split <;> infer_instance) fun r₁ r₂ u₁ u₂ hr => ?_
        cases r₁ with
        | again a₁ =>
          cases r₂ with
          | again a₂ =>
            obtain ⟨ha, hu, hleads, hconsumes⟩ := hr
            have hnoted : sim.At b k (c' + 1) { u₁ with repeated := (t₁.token, u₁.token) :: u₁.repeated }
                { u₂ with repeated := (t₂.token, u₂.token) :: u₂.repeated } :=
              { hu with input := sim.noteTurn ht.input hu.input hleads hconsumes }
            refine .bind_modify (ih n₂ (c' + 1) a₁ a₂ _ _ (by omega) ha hnoted ?_ ?_)
            · change _ ≤ u₁.consumed.length + n₁
              omega
            · change _ ≤ u₁.consumed.length + n₂
              omega
          | done => exact hr.elim
        | done b₁ =>
          cases r₂ with
          | again => exact hr.elim
          | done b₂ => exact .ok hr
  refine Outcome.bind_get ?_
  rw [hs.turns₁, hs.turns₂]
  exact key _ _ c a₁ a₂ s₁ s₂ (Nat.le_refl c) ha hs (Nat.le_add_left ..) (Nat.le_add_left ..)

protected theorem At.loop (value : α → α → Prop) {turn₁ turn₂ : α → Recognizer (Turn α β)}
    {post : β → β → State → State → Prop} {a₁ a₂ : α}
    (hs : sim.At b k c s₁ s₂) (ha : value a₁ a₂)
    (hturn : ∀ c' a₁ a₂ t₁ t₂, c ≤ c' → value a₁ a₂ → sim.At b k c' t₁ t₂ →
      sim.Outcome (AfterTurn (fun a₁ a₂ t₁ t₂ => value a₁ a₂ ∧ sim.At b k (c' + 1) t₁ t₂) post)
        (turn₁ a₁ t₁) (turn₂ a₂ t₂)) [hmoves : ∀ a, Moves (turn₁ a)] :
    sim.Outcome post (loop a₁ turn₁ s₁) (loop a₂ turn₂ s₂) :=
  hs.loopMoving value ha hmoves hturn

end Simulation

end EcmaCheck.Grammar
