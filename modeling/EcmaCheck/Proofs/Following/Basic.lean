import EcmaCheck.Proofs.Following.TakingProduction
import EcmaCheck.Proofs.Following.Widening

/-!
# Recognitions that follow another

One recognition follows another if it succeeds wherever the other does: it passes over the same tokens in a context that
permits at least as much. A `Following` says how the texts of the two are related, and what reading them keeps.

There may be places where the first has halted: the second stands before a token that closes a statement, while the
first will not finish if it takes its own token there. Most productions take a token, so that only what may come to
nothing has to be followed there. What is compared are the results (`Following.Outcome`), as long as the first may still
finish. More may be given of the result of the first, such as that it takes one more token before it finishes; in that
case it has not halted (`Yields.passes`). The rules follow the constructs of recognizers: sequence, branches and
repetition.
-/

namespace EcmaCheck.Grammar

set_option synthInstance.maxSize 20000

/-! ## Tokens -/

/-- The token closes a statement wherever it stands. -/
def ClosesStatement (t : Token) : Prop :=
  t.kind = .punctuator .semicolon ∨ t.kind = .punctuator .closeBrace

/-- Tokens that are written alike. -/
structure Twins (stop : Position → Position → Prop) (t₁ t₂ : Token) : Prop where
  kind : t₂.kind = t₁.kind
  lexeme : t₂.lexeme = t₁.lexeme
  stop : t₁.isEnd = false → stop t₁.stop t₂.stop

/-- Tokens that are written alike and stand on the same line as the one before or on another. -/
structure SameTokens (stop : Position → Position → Prop) (t₁ t₂ : Token) : Prop extends Twins stop t₁ t₂ where
  newlineBefore : t₂.newlineBefore = t₁.newlineBefore

/-- Tokens with which a statement begins alike. Where a regular expression begins, the first may have read a division so
far. -/
inductive Heads (stop : Position → Position → Prop) (t₁ t₂ : Token) : Prop
  | twins (h : Twins stop t₁ t₂)
  | regExp (h₁ : isDivision t₁ = true) (h₂ : t₂.kind = .regExp)

/-! ## Recognizers that fail -/

/-- The recognizer fails wherever it begins. -/
class Fails {α : Type} (x : Recognizer α) : Prop where
  not_ok {s t : State} {a : α} : x s = .ok a t → False

section

variable {α β : Type}

instance (f : Fault) : Fails (throw f : Recognizer α) :=
  ⟨nofun⟩

instance (e : GrammarError) (p : Position) : Fails (fail e p : Recognizer α) :=
  ⟨nofun⟩

instance (x : Recognizer α) (f : α → Recognizer β) [h : Fails x] : Fails (x >>= f) := by
  refine ⟨fun hrun => ?_⟩
  obtain ⟨_, _, hfirst, _⟩ := bind_eq_ok.mp hrun
  exact h.not_ok hfirst

instance (f : α → Recognizer β) (x : Recognizer α) [h : ∀ a, Fails (f a)] : Fails (x >>= f) := by
  refine ⟨fun hrun => ?_⟩
  obtain ⟨a, _, _, hnext⟩ := bind_eq_ok.mp hrun
  exact (h a).not_ok hnext

instance (x y : Recognizer α) [h : Fails y] : Fails (if false = true then x else y) := by
  rwa [if_neg Bool.false_ne_true]

instance : Fails (unexpected : Recognizer α) := by
  unfold unexpected
  infer_instance

instance : Fails (expectedIdentifier : Recognizer α) := by
  unfold expectedIdentifier
  infer_instance

end

/-! ## How texts are related -/

/-- The same but for what is noted of operands and turns. -/
structure Input.SameReading (i j : Input) : Prop where
  scanner : j.scanner = i.scanner
  token : j.token = i.token
  consumed : j.consumed = i.consumed
  omitted : j.omitted = i.omitted

/-- How the second text is related to the first, and what reading them keeps. -/
structure Following where
  /-- Ends of corresponding tokens. -/
  stop : Position → Position → Prop
  /-- Where the first is meant to finish. -/
  finish : Input → Prop
  /-- Where the two stand; with `false` a statement may begin there. -/
  input : Bool → Input → Input → Prop
  /-- Where the first has halted and the second stands before a token that closes a statement. -/
  halted : Input → Input → Prop
  /-- Where the first will not finish if it takes its token. -/
  stuck : Input → Prop
  /-- Where the first will not finish if it takes two tokens. -/
  stuckNext : Input → Prop
  offset_eq_iff {p₁ p₂ q₁ q₂ : Position} : stop p₁ p₂ → stop q₁ q₂ → (p₁.offset = q₁.offset ↔ p₂.offset = q₂.offset)
  weaken {i j : Input} : input true i j → input false i j
  heads_of_input {b : Bool} {i j : Input} : input b i j → Heads stop i.token j.token
  sameTokens_of_input {i j : Input} : input true i j → SameTokens stop i.token j.token
  stop_of_input {i j : Input} : input true i j → stop i.previousEnd j.previousEnd
  stop_of_halted {i j : Input} : halted i j → stop i.previousEnd j.previousEnd
  closes_of_halted {i j : Input} : halted i j → ClosesStatement j.token
  stuck_of_halted {i j : Input} : halted i j → stuck i
  not_finish {i j k : Input} : stuck i → i.Takes j → j.Leads true k → ¬ finish k
  not_finish_next {i j k : Input} : stuckNext i → i.TakesTwo j → j.Leads true k → ¬ finish k
  input_of_sameReading {b : Bool} {i i' j j' : Input} : input b i j → i.SameReading i' →
    j.SameReading j' → input b i' j'
  halted_of_sameReading {i i' j j' : Input} : halted i j → i.SameReading i' → j.SameReading j' → halted i' j'
  protected advance {b : Bool} {i j i' k : Input} {goal : LexicalGoal} : input b i j → j.token.kind = i.token.kind →
    goal ≠ .templateTail → i.advance goal = .ok i' → i'.Leads true k → finish k →
    ∃ j', j.advance goal = .ok j' ∧ (input true i' j' ∨ halted i' j')
  /-- The next token. It is not looked at where it would not be read alike. -/
  protected peek {b : Bool} {i j k : Input} {t : Token} : input b i j → i.token.isName = true →
    (i.scanner.next i.token.goalAfter).1 = .ok t → i.token.goalAfter = .division ∨ t.kind ≠ .regExp →
    i.Leads true k → finish k →
    ∃ u, (j.scanner.next i.token.goalAfter).1 = .ok u ∧ (SameTokens stop t u ∨ ClosesStatement u ∧ stuckNext i)
  /-- A division is read again in both, unless the second has read it as a regular expression already. -/
  protected rescanRegExp {b : Bool} {i j i' k : Input} : input b i j → isDivision i.token = true →
    i.rescan .regExp = .ok i' → i'.Leads true k → finish k → isDivision i'.token = false ∧
      (isDivision j.token = true ∧ (∃ j', j.rescan .regExp = .ok j' ∧ input b i' j') ∨
        isDivision j.token = false ∧ input b i' j)
  protected rescanTemplate {b : Bool} {i j i' k : Input} : input b i j → i.token.isPunctuator .closeBrace = true →
    i.rescan .templateTail = .ok i' → i'.Leads true k → finish k →
    ∃ j', j.rescan .templateTail = .ok j' ∧ input b i' j'
  protected noteOmission {b : Bool} {i j : Input} : input b i j → input b i.noteOmission j.noteOmission
  /-- Where the first has halted and leaves out a semicolon, the second takes its own or leaves one out as well. -/
  protected omits {i j k : Input} : halted i j → i.noteOmission.Leads true k → finish k →
    j.token.isPunctuator .semicolon = true ∧ (∃ j', j.advance .regExp = .ok j' ∧ input false i.noteOmission j') ∨
      j.token.isPunctuator .semicolon = false ∧ halted i.noteOmission j.noteOmission

/-- The second stands in surroundings that permit what those of the first do. -/
structure Around (s₁ s₂ : State) : Prop where
  isModule : s₂.isModule = s₁.isModule
  context : s₁.context.RelaxesTo s₂.context
  labels : s₂.labels = s₁.labels
  attachedLabels : s₂.attachedLabels = s₁.attachedLabels
  classDepth : s₂.classDepth = s₁.classDepth

namespace Following

variable (F : Following)

/-- The first may still finish. -/
def Finishes (i : Input) : Prop :=
  ∃ j, i.Leads true j ∧ F.finish j

/-- The first takes its token and may still finish. -/
def Continues (i : Input) : Prop :=
  ∃ j, i.Takes j ∧ F.Finishes j

/-- Where the two stand; with `false` a statement may begin there. -/
structure At (b : Bool) (s₁ s₂ : State) : Prop extends Around s₁ s₂ where
  input : F.input b s₁.input s₂.input

/-- Where the two stand, or the first has halted. -/
structure After (b : Bool) (s₁ s₂ : State) : Prop extends Around s₁ s₂ where
  input : F.input b s₁.input s₂.input ∨ F.halted s₁.input s₂.input

variable {α β : Type}

/-- The second result is as `post` says, unless the second was granted too few turns. -/
def Follows (post : α → α → State → State → Prop) (a₁ : α) (t₁ : State) : EStateM.Result Fault State α → Prop
  | .ok a₂ t₂ => post a₁ a₂ t₁ t₂
  | .error f _ => ∃ p, f = .stalled p

/-- If the first succeeds and may then finish, where the rest is given of its result, the second result follows. -/
def Outcome (given : α → Input → Prop) (post : α → α → State → State → Prop) (r₁ r₂ : EStateM.Result Fault State α) :
    Prop :=
  ∀ ⦃a₁ : α⦄ ⦃t₁ : State⦄, r₁ = .ok a₁ t₁ → F.Finishes t₁.input → given a₁ t₁.input → Follows post a₁ t₁ r₂

/-- Nothing more is given. -/
abbrev always : α → Input → Prop :=
  fun _ _ => True

/-- The first takes the token behind its result. -/
abbrev continuing : α → Input → Prop :=
  fun _ => F.Continues

/-- Where an expression ends: if `in` is no operator in it, a token is taken behind it. -/
abbrev ending (allowIn : Bool) : α → Input → Prop :=
  fun _ i => allowIn = false → F.Continues i

/-- If the first succeeds, so does the second. -/
abbrev Yields (value : α → α → Prop) (b : Bool) : EStateM.Result Fault State α → EStateM.Result Fault State α → Prop :=
  F.Outcome always fun a₁ a₂ t₁ t₂ => value a₁ a₂ ∧ F.After b t₁ t₂

/-- If the first succeeds and has not halted then, so does the second. -/
abbrev Passes (value : α → α → Prop) (b : Bool) : EStateM.Result Fault State α → EStateM.Result Fault State α → Prop :=
  F.Outcome F.continuing fun a₁ a₂ t₁ t₂ => value a₁ a₂ ∧ F.At b t₁ t₂

variable {F} {b : Bool} {s₁ s₂ : State} {value : α → α → Prop} {given : α → Input → Prop} {given' : β → Input → Prop}

/-! ## Weakening -/

theorem Finishes.of_leads {i j : Input} (h : i.Leads true j) (hj : F.Finishes j) : F.Finishes i := by
  obtain ⟨k, hleads, hfinish⟩ := hj
  exact ⟨k, h.trans hleads, hfinish⟩

/-- What does nothing before it takes a token need not be known to have taken one. -/
theorem continues_of_gentle {x : Recognizer α} (h : Gentle x) {s t : State} {a : α} (hrun : x s = .ok a t)
    (hfinishes : F.Finishes t.input) (hcontinues : F.Continues t.input) : F.Continues s.input := by
  rcases h.rests_or_takes hrun with hrests | htakes
  · obtain ⟨j, hj, hfinishes⟩ := hcontinues
    exact ⟨j, hrests.takes hj, hfinishes⟩
  · exact ⟨t.input, htakes, hfinishes⟩

/-- Where the first has halted, it will not finish if it takes a token. -/
theorem not_continues_of_halted {i j : Input} (h : F.halted i j) : ¬ F.Continues i := by
  rintro ⟨j, htakes, k, hleads, hfinish⟩
  exact F.not_finish (F.stuck_of_halted h) htakes hleads hfinish

namespace At

theorem weaken (h : F.At b s₁ s₂) : F.At false s₁ s₂ :=
  { h with
    input := by
      cases b with
      | true => exact F.weaken h.input
      | false => exact h.input }

theorem after (h : F.At b s₁ s₂) : F.After b s₁ s₂ :=
  { h with input := .inl h.input }

theorem heads (h : F.At b s₁ s₂) : Heads F.stop s₁.token s₂.token :=
  F.heads_of_input h.input

theorem tokens (h : F.At true s₁ s₂) : SameTokens F.stop s₁.token s₂.token :=
  F.sameTokens_of_input h.input

/-- Neither surroundings nor what is noted changes where the two stand. -/
theorem of_sameReading {t₁ t₂ : State} (h : F.At b s₁ s₂) (hr : Around t₁ t₂) (h₁ : s₁.input.SameReading t₁.input)
    (h₂ : s₂.input.SameReading t₂.input) : F.At b t₁ t₂ :=
  { hr with input := F.input_of_sameReading h.input h₁ h₂ }

theorem withContext {c₁ c₂ : Context} (h : F.At b s₁ s₂) (hc : c₁.RelaxesTo c₂) :
    F.At b { s₁ with context := c₁ } { s₂ with context := c₂ } :=
  h.of_sameReading { h with context := hc } ⟨rfl, rfl, rfl, rfl⟩ ⟨rfl, rfl, rfl, rfl⟩

end At

namespace After

theorem weaken (h : F.After b s₁ s₂) : F.After false s₁ s₂ :=
  { h with
    input := by
      cases b with
      | true => exact h.input.imp_left F.weaken
      | false => exact h.input }

/-- If the first may finish after taking a token, it has not halted. -/
theorem at_of_continues (h : F.After b s₁ s₂) (hcontinues : F.Continues s₁.input) : F.At b s₁ s₂ :=
  { h with input := h.input.resolve_right fun hhalted => not_continues_of_halted hhalted hcontinues }

theorem of_sameReading {t₁ t₂ : State} (h : F.After b s₁ s₂) (hr : Around t₁ t₂)
    (h₁ : s₁.input.SameReading t₁.input) (h₂ : s₂.input.SameReading t₂.input) : F.After b t₁ t₂ :=
  { hr with input := h.input.imp (F.input_of_sameReading · h₁ h₂) (F.halted_of_sameReading · h₁ h₂) }

theorem withContext {c₁ c₂ : Context} (h : F.After b s₁ s₂) (hc : c₁.RelaxesTo c₂) :
    F.After b { s₁ with context := c₁ } { s₂ with context := c₂ } :=
  h.of_sameReading { h with context := hc } ⟨rfl, rfl, rfl, rfl⟩ ⟨rfl, rfl, rfl, rfl⟩

end After

theorem Follows.mono {post post' : α → α → State → State → Prop} {a₁ : α} {t₁ : State}
    {r₂ : EStateM.Result Fault State α} (h : Follows post a₁ t₁ r₂)
    (hp : ∀ a₂ t₂, post a₁ a₂ t₁ t₂ → post' a₁ a₂ t₁ t₂) : Follows post' a₁ t₁ r₂ := by
  cases r₂ with
  | ok a₂ t₂ => exact hp a₂ t₂ h
  | error => exact h

namespace Outcome

variable {P : α → α → State → State → Prop} {Q : β → β → State → State → Prop}
  {r₁ r₂ : EStateM.Result Fault State α}

protected theorem ok {a₁ a₂ : α} {t₁ t₂ : State} (h : P a₁ a₂ t₁ t₂) :
    F.Outcome given P (.ok a₁ t₁) (.ok a₂ t₂) := by
  rintro _ _ ⟨⟩ _ _
  exact h

/-- Where the first fails, nothing is asked of the second. -/
protected theorem error {f : Fault} {t : State} : F.Outcome given P (.error f t) r₂ := by
  rintro _ _ ⟨⟩

theorem of_fails {x₁ : Recognizer α} [hfails : Fails x₁] : F.Outcome given P (x₁ s₁) r₂ :=
  fun _ _ hrun => (hfails.not_ok hrun).elim

theorem mono {R : α → α → State → State → Prop} (h : F.Outcome given P r₁ r₂)
    (hp : ∀ a₁ a₂ t₁ t₂, P a₁ a₂ t₁ t₂ → R a₁ a₂ t₁ t₂) : F.Outcome given R r₁ r₂ :=
  fun a₁ t₁ hr hfinishes hgiven => (h hr hfinishes hgiven).mono fun a₂ t₂ => hp a₁ a₂ t₁ t₂

/-- More may be given. -/
theorem given_mono {given' : α → Input → Prop} (h : F.Outcome given P r₁ r₂)
    (hg : ∀ a t, r₁ = .ok a t → given' a t.input → given a t.input) : F.Outcome given' P r₁ r₂ :=
  fun _ _ hr hfinishes hgiven => h hr hfinishes (hg _ _ hr hgiven)

/-- What is always so is so whatever is given. -/
theorem ofAlways (h : F.Outcome always P r₁ r₂) : F.Outcome given P r₁ r₂ :=
  h.given_mono fun _ _ _ _ => trivial

/-- What the first recognizer alone guarantees may be added. -/
theorem and_left {q : α → State → Prop} (h : F.Outcome given P r₁ r₂) (hq : ∀ a t, r₁ = .ok a t → q a t) :
    F.Outcome given (fun a₁ a₂ t₁ t₂ => P a₁ a₂ t₁ t₂ ∧ q a₁ t₁) r₁ r₂ :=
  fun a₁ t₁ hr hfinishes hgiven => (h hr hfinishes hgiven).mono fun _ _ hpost => ⟨hpost, hq a₁ t₁ hr⟩

/-! ## Sequence -/

theorem bindWith {x₁ x₂ : Recognizer α} {f₁ f₂ : α → Recognizer β} (h : F.Outcome given P (x₁ s₁) (x₂ s₂))
    (hleads : ∀ a t c u, x₁ s₁ = .ok a t → f₁ a t = .ok c u → t.input.Leads true u.input)
    (hgiven : ∀ a t c u, x₁ s₁ = .ok a t → f₁ a t = .ok c u → F.Finishes u.input → given' c u.input → given a t.input)
    (hf : ∀ a₁ a₂ t₁ t₂, P a₁ a₂ t₁ t₂ → F.Outcome given' Q (f₁ a₁ t₁) (f₂ a₂ t₂)) :
    F.Outcome given' Q ((x₁ >>= f₁) s₁) ((x₂ >>= f₂) s₂) := by
  intro c u hrun hu hc
  obtain ⟨a₁, t₁, hfirst, hnext⟩ := bind_eq_ok.mp hrun
  have hbetween := h hfirst (.of_leads (hleads a₁ t₁ c u hfirst hnext) hu) (hgiven a₁ t₁ c u hfirst hnext hu hc)
  change Follows Q c u (EStateM.bind x₂ f₂ s₂)
  unfold EStateM.bind
  cases h₂ : x₂ s₂ with
  | ok a₂ t₂ =>
    rw [h₂] at hbetween
    exact hf a₁ a₂ t₁ t₂ hbetween hnext hu hc
  | error f t =>
    rw [h₂] at hbetween
    exact hbetween

/-- What comes first may leave the first halted. -/
theorem bindMoving {x₁ x₂ : Recognizer α} {f₁ f₂ : α → Recognizer β} (h : F.Outcome always P (x₁ s₁) (x₂ s₂))
    (hmoves : ∀ a, Moves (f₁ a))
    (hf : ∀ a₁ a₂ t₁ t₂, P a₁ a₂ t₁ t₂ → F.Outcome given' Q (f₁ a₁ t₁) (f₂ a₂ t₂)) :
    F.Outcome given' Q ((x₁ >>= f₁) s₁) ((x₂ >>= f₂) s₂) :=
  h.bindWith (fun a _ _ _ _ => (hmoves a).leads) (fun _ _ _ _ _ _ _ _ => trivial) hf

protected theorem bind {x₁ x₂ : Recognizer α} {f₁ f₂ : α → Recognizer β} (h : F.Outcome always P (x₁ s₁) (x₂ s₂))
    (hf : ∀ a₁ a₂ t₁ t₂, P a₁ a₂ t₁ t₂ → F.Outcome given' Q (f₁ a₁ t₁) (f₂ a₂ t₂))
    [hmoves : ∀ a, Moves (f₁ a)] :
    F.Outcome given' Q ((x₁ >>= f₁) s₁) ((x₂ >>= f₂) s₂) :=
  h.bindMoving hmoves hf

/-- What follows takes a token, so that the first has not halted before. -/
theorem bindBefore {x₁ x₂ : Recognizer α} {f₁ f₂ : α → Recognizer β} (h : F.Outcome F.continuing P (x₁ s₁) (x₂ s₂))
    (htakes : ∀ a, Takes (f₁ a))
    (hf : ∀ a₁ a₂ t₁ t₂, P a₁ a₂ t₁ t₂ → F.Outcome given' Q (f₁ a₁ t₁) (f₂ a₂ t₂)) :
    F.Outcome given' Q ((x₁ >>= f₁) s₁) ((x₂ >>= f₂) s₂) :=
  h.bindWith (fun a _ _ _ _ hrun => ((htakes a).takes hrun).leads)
    (fun a _ _ u _ hrun hu _ => ⟨u.input, (htakes a).takes hrun, hu⟩) hf

theorem bindTaking {x₁ x₂ : Recognizer α} {f₁ f₂ : α → Recognizer β} (h : F.Outcome F.continuing P (x₁ s₁) (x₂ s₂))
    (hf : ∀ a₁ a₂ t₁ t₂, P a₁ a₂ t₁ t₂ → F.Outcome given' Q (f₁ a₁ t₁) (f₂ a₂ t₂))
    [htakes : ∀ a, Takes (f₁ a)] :
    F.Outcome given' Q ((x₁ >>= f₁) s₁) ((x₂ >>= f₂) s₂) :=
  h.bindBefore htakes hf

/-- If the first has not halted in the end, it has not in between, where what follows does nothing before it takes a
token. -/
theorem bindGentle {x₁ x₂ : Recognizer α} {f₁ f₂ : α → Recognizer β} (h : F.Outcome F.continuing P (x₁ s₁) (x₂ s₂))
    (hf : ∀ a₁ a₂ t₁ t₂, P a₁ a₂ t₁ t₂ → F.Outcome F.continuing Q (f₁ a₁ t₁) (f₂ a₂ t₂))
    [hgentle : ∀ a, Gentle (f₁ a)] :
    F.Outcome F.continuing Q ((x₁ >>= f₁) s₁) ((x₂ >>= f₂) s₂) :=
  h.bindWith (fun a _ _ _ _ hrun => (hgentle a).leads hrun)
    (fun a _ _ _ _ hrun hu hc => continues_of_gentle (hgentle a) hrun hu hc) hf

/-- What follows an expression that ends where another one does. -/
theorem bindEndingGentle {allowIn : Bool} {x₁ x₂ : Recognizer α} {f₁ f₂ : α → Recognizer β}
    (h : F.Outcome (F.ending allowIn) P (x₁ s₁) (x₂ s₂)) (hgentle : ∀ a, Gentle (f₁ a))
    (hf : ∀ a₁ a₂ t₁ t₂, P a₁ a₂ t₁ t₂ → F.Outcome (F.ending allowIn) Q (f₁ a₁ t₁) (f₂ a₂ t₂)) :
    F.Outcome (F.ending allowIn) Q ((x₁ >>= f₁) s₁) ((x₂ >>= f₂) s₂) :=
  h.bindWith (fun a _ _ _ _ hrun => (hgentle a).leads hrun)
    (fun a _ _ _ _ hrun hu hc hno => continues_of_gentle (hgentle a) hrun hu (hc hno)) hf

theorem bindEnding {allowIn : Bool} {x₁ x₂ : Recognizer α} {f₁ f₂ : α → Recognizer β}
    (h : F.Outcome (F.ending allowIn) P (x₁ s₁) (x₂ s₂))
    (hf : ∀ a₁ a₂ t₁ t₂, P a₁ a₂ t₁ t₂ → F.Outcome (F.ending allowIn) Q (f₁ a₁ t₁) (f₂ a₂ t₂))
    [hgentle : ∀ a, Gentle (f₁ a)] :
    F.Outcome (F.ending allowIn) Q ((x₁ >>= f₁) s₁) ((x₂ >>= f₂) s₂) :=
  h.bindEndingGentle hgentle hf

theorem discardEnding {allowIn : Bool} {x₁ x₂ : Recognizer α}
    (h : F.Outcome (F.ending allowIn) (fun a₁ a₂ t₁ t₂ => value a₁ a₂ ∧ F.After b t₁ t₂) (x₁ s₁) (x₂ s₂)) :
    F.Outcome (F.ending allowIn) (fun _ _ => F.After b) (Functor.discard x₁ s₁) (Functor.discard x₂ s₂) := by
  change F.Outcome _ _ ((x₁ >>= fun _ => pure ()) s₁) ((x₂ >>= fun _ => pure ()) s₂)
  exact h.bindEnding fun _ _ _ _ ht => .ok ht.2

end Outcome

/-- Where the first may finish after taking a token, it has not halted. -/
theorem Outcome.at_of_continuing {r₁ r₂ : EStateM.Result Fault State α}
    (h : F.Outcome F.continuing (fun a₁ a₂ t₁ t₂ => value a₁ a₂ ∧ F.After b t₁ t₂) r₁ r₂) : F.Passes value b r₁ r₂ :=
  fun _ _ hr hfinishes hcontinues =>
    (h hr hfinishes hcontinues).mono fun _ _ hpost => ⟨hpost.1, hpost.2.at_of_continues hcontinues⟩

theorem Yields.passes {r₁ r₂ : EStateM.Result Fault State α} (h : F.Yields value b r₁ r₂) : F.Passes value b r₁ r₂ :=
  h.ofAlways.at_of_continuing

namespace Yields

variable {post : β → β → State → State → Prop} {r₁ r₂ : EStateM.Result Fault State α}

theorem weaken (h : F.Yields value b r₁ r₂) : F.Yields value false r₁ r₂ :=
  h.mono fun _ _ _ _ hpost => ⟨hpost.1, hpost.2.weaken⟩

theorem bindMoving {x₁ x₂ : Recognizer α} {f₁ f₂ : α → Recognizer β} (h : F.Yields value b (x₁ s₁) (x₂ s₂))
    (hmoves : ∀ a, Moves (f₁ a))
    (hf : ∀ a₁ a₂ t₁ t₂, value a₁ a₂ → F.After b t₁ t₂ → F.Outcome given' post (f₁ a₁ t₁) (f₂ a₂ t₂)) :
    F.Outcome given' post ((x₁ >>= f₁) s₁) ((x₂ >>= f₂) s₂) :=
  Outcome.bindMoving h hmoves fun a₁ a₂ t₁ t₂ hpost => hf a₁ a₂ t₁ t₂ hpost.1 hpost.2

theorem bind {x₁ x₂ : Recognizer α} {f₁ f₂ : α → Recognizer β} (h : F.Yields value b (x₁ s₁) (x₂ s₂))
    (hf : ∀ a₁ a₂ t₁ t₂, value a₁ a₂ → F.After b t₁ t₂ → F.Outcome given' post (f₁ a₁ t₁) (f₂ a₂ t₂))
    [hmoves : ∀ a, Moves (f₁ a)] :
    F.Outcome given' post ((x₁ >>= f₁) s₁) ((x₂ >>= f₂) s₂) :=
  h.bindMoving hmoves hf

/-- Sequence before a recognizer that takes a token, where that is not obvious. -/
theorem bindBefore {x₁ x₂ : Recognizer α} {f₁ f₂ : α → Recognizer β} (h : F.Yields value b (x₁ s₁) (x₂ s₂))
    (htakes : ∀ a, Takes (f₁ a))
    (hf : ∀ a₁ a₂ t₁ t₂, value a₁ a₂ → F.At b t₁ t₂ → F.Outcome given' post (f₁ a₁ t₁) (f₂ a₂ t₂)) :
    F.Outcome given' post ((x₁ >>= f₁) s₁) ((x₂ >>= f₂) s₂) :=
  Outcome.bindBefore h.passes htakes fun a₁ a₂ t₁ t₂ hpost => hf a₁ a₂ t₁ t₂ hpost.1 hpost.2

theorem bindTaking {x₁ x₂ : Recognizer α} {f₁ f₂ : α → Recognizer β} (h : F.Yields value b (x₁ s₁) (x₂ s₂))
    (hf : ∀ a₁ a₂ t₁ t₂, value a₁ a₂ → F.At b t₁ t₂ → F.Outcome given' post (f₁ a₁ t₁) (f₂ a₂ t₂))
    [htakes : ∀ a, Takes (f₁ a)] :
    F.Outcome given' post ((x₁ >>= f₁) s₁) ((x₂ >>= f₂) s₂) :=
  h.bindBefore htakes hf

theorem bindGentle {x₁ x₂ : Recognizer α} {f₁ f₂ : α → Recognizer β} (h : F.Yields value b (x₁ s₁) (x₂ s₂))
    (hf : ∀ a₁ a₂ t₁ t₂, value a₁ a₂ → F.At b t₁ t₂ → F.Outcome F.continuing post (f₁ a₁ t₁) (f₂ a₂ t₂))
    [hgentle : ∀ a, Gentle (f₁ a)] :
    F.Outcome F.continuing post ((x₁ >>= f₁) s₁) ((x₂ >>= f₂) s₂) :=
  h.passes.bindGentle fun a₁ a₂ t₁ t₂ hpost => hf a₁ a₂ t₁ t₂ hpost.1 hpost.2

theorem discard {x₁ x₂ : Recognizer α} (h : F.Yields value b (x₁ s₁) (x₂ s₂)) :
    F.Yields Eq b (Functor.discard x₁ s₁) (Functor.discard x₂ s₂) := by
  change F.Yields Eq b ((x₁ >>= fun _ => pure ()) s₁) ((x₂ >>= fun _ => pure ()) s₂)
  exact h.bind fun _ _ _ _ _ ht => .ok ⟨rfl, ht⟩

end Yields

/-- If the first takes a token, it has not halted. -/
theorem After.live_of_takes {r₁ r₂ : EStateM.Result Fault State α} {post : α → α → State → State → Prop}
    (hs : F.After b s₁ s₂) (htakes : ∀ a t, r₁ = .ok a t → s₁.input.Takes t.input)
    (h : F.At b s₁ s₂ → F.Outcome given post r₁ r₂) : F.Outcome given post r₁ r₂ := by
  intro a₁ t₁ hrun hfinishes hgiven
  exact h (hs.at_of_continues ⟨t₁.input, htakes a₁ t₁ hrun, hfinishes⟩) hrun hfinishes hgiven

theorem After.live {x₁ : Recognizer α} {r₂ : EStateM.Result Fault State α} {post : α → α → State → State → Prop}
    (hs : F.After b s₁ s₂) (h : F.At b s₁ s₂ → F.Outcome given post (x₁ s₁) r₂) [htakes : Takes x₁] :
    F.Outcome given post (x₁ s₁) r₂ :=
  hs.live_of_takes (fun _ _ => htakes.takes) h

/-- Where the first has halted, it does not take a token. -/
theorem Outcome.of_halted {x₁ : Recognizer α} {i : Input} {r₂ : EStateM.Result Fault State α}
    {post : α → α → State → State → Prop} (h : F.halted s₁.input i) [htakes : Takes x₁] :
    F.Outcome given post (x₁ s₁) r₂ :=
  fun _ t₁ hrun hfinishes _ => absurd ⟨t₁.input, htakes.takes hrun, hfinishes⟩ (not_continues_of_halted h)

/-- Where the first is stuck with the next token, it does not take two. -/
theorem Outcome.of_stuckNext (x₁ : Recognizer α) {r₂ : EStateM.Result Fault State α}
    {post : α → α → State → State → Prop} (h : F.stuckNext s₁.input) [htakes : TakesTwo x₁] :
    F.Outcome given post (x₁ s₁) r₂ := by
  rintro a₁ t₁ hrun ⟨k, hleads, hfinish⟩ _
  exact absurd hfinish (F.not_finish_next h (htakes.takesTwo hrun) hleads)

namespace Outcome

variable {post : α → α → State → State → Prop}

/-! ## Reading the state -/

theorem bind_token {f₁ f₂ : Token → Recognizer α} (h : F.Outcome given post (f₁ s₁.token s₁) (f₂ s₂.token s₂)) :
    F.Outcome given post ((token >>= f₁) s₁) ((token >>= f₂) s₂) :=
  h

theorem bind_context {f₁ f₂ : Context → Recognizer α}
    (h : F.Outcome given post (f₁ s₁.context s₁) (f₂ s₂.context s₂)) :
    F.Outcome given post ((context >>= f₁) s₁) ((context >>= f₂) s₂) :=
  h

theorem bind_get {f₁ f₂ : State → Recognizer α} (h : F.Outcome given post (f₁ s₁ s₁) (f₂ s₂ s₂)) :
    F.Outcome given post ((get >>= f₁) s₁) ((get >>= f₂) s₂) :=
  h

theorem bind_modify {g₁ g₂ : State → State} {f₁ f₂ : Unit → Recognizer α}
    (h : F.Outcome given post (f₁ () (g₁ s₁)) (f₂ () (g₂ s₂))) :
    F.Outcome given post (((modify g₁ : Recognizer Unit) >>= f₁) s₁) (((modify g₂ : Recognizer Unit) >>= f₂) s₂) :=
  h

theorem bind_set {u₁ u₂ : State} {f₁ f₂ : PUnit → Recognizer α} (h : F.Outcome given post (f₁ () u₁) (f₂ () u₂)) :
    F.Outcome given post (((set u₁ : Recognizer PUnit) >>= f₁) s₁) (((set u₂ : Recognizer PUnit) >>= f₂) s₂) :=
  h

theorem bind_isAt {p : Punctuator} {f₁ f₂ : Bool → Recognizer α}
    (h : F.Outcome given post (f₁ (s₁.token.isPunctuator p) s₁) (f₂ (s₂.token.isPunctuator p) s₂)) :
    F.Outcome given post ((isAt p >>= f₁) s₁) ((isAt p >>= f₂) s₂) :=
  h

theorem bind_isAtKeyword {w : Keyword} {f₁ f₂ : Bool → Recognizer α}
    (h : F.Outcome given post (f₁ (s₁.token.isKeyword w) s₁) (f₂ (s₂.token.isKeyword w) s₂)) :
    F.Outcome given post ((isAtKeyword w >>= f₁) s₁) ((isAtKeyword w >>= f₂) s₂) :=
  h

theorem bind_isAtWord {w : String} {f₁ f₂ : Bool → Recognizer α}
    (h : F.Outcome given post (f₁ (s₁.token.isWord w) s₁) (f₂ (s₂.token.isWord w) s₂)) :
    F.Outcome given post ((isAtWord w >>= f₁) s₁) ((isAtWord w >>= f₂) s₂) :=
  h

/-! ## Branches -/

theorem branch {p₁ p₂ : Prop} [Decidable p₁] [Decidable p₂] {x₁ x₂ y₁ y₂ : Recognizer α} (hp : p₁ ↔ p₂)
    (ht : p₁ → F.Outcome given post (x₁ s₁) (x₂ s₂)) (hf : ¬ p₁ → F.Outcome given post (y₁ s₁) (y₂ s₂)) :
    F.Outcome given post ((if p₁ then x₁ else y₁) s₁) ((if p₂ then x₂ else y₂) s₂) := by
  by_cases h : p₁
  · rw [if_pos h, if_pos (hp.mp h)]
    exact ht h
  · rw [if_neg h, if_neg (mt hp.mpr h)]
    exact hf h

theorem ite {c₁ c₂ : Bool} {x₁ x₂ y₁ y₂ : Recognizer α} (hc : c₂ = c₁)
    (ht : c₁ = true → F.Outcome given post (x₁ s₁) (x₂ s₂)) (hf : c₁ = false → F.Outcome given post (y₁ s₁) (y₂ s₂)) :
    F.Outcome given post ((if c₁ = true then x₁ else y₁) s₁) ((if c₂ = true then x₂ else y₂) s₂) :=
  branch (by rw [hc]) ht fun h => hf (Bool.eq_false_iff.mpr h)

/-- A check on which the first fails if the second does. -/
theorem guard {c₁ c₂ : Bool} {x₁ x₂ y₁ y₂ : Recognizer α} (hc : c₂ = true → c₁ = true)
    (hy : c₁ = false → F.Outcome given post (y₁ s₁) (y₂ s₂)) [hfails : Fails x₁] :
    F.Outcome given post ((if c₁ = true then x₁ else y₁) s₁) ((if c₂ = true then x₂ else y₂) s₂) := by
  cases h₁ : c₁ with
  | true =>
    rw [if_pos rfl]
    exact of_fails
  | false =>
    have h₂ : c₂ = false := Bool.eq_false_iff.mpr fun h₂ => Bool.false_ne_true (h₁.symm.trans (hc h₂))
    rw [h₂]
    exact hy h₁

/-- A demand that the second meets if the first does. -/
theorem require {c₁ c₂ : Bool} {x₁ x₂ y₁ y₂ : Recognizer α} (hc : c₁ = true → c₂ = true)
    (hy : c₁ = true → F.Outcome given post (y₁ s₁) (y₂ s₂)) [hfails : Fails x₁] :
    F.Outcome given post ((if c₁ = true then y₁ else x₁) s₁) ((if c₂ = true then y₂ else x₂) s₂) := by
  cases h₁ : c₁ with
  | true =>
    rw [hc h₁]
    exact hy h₁
  | false =>
    rw [if_neg Bool.false_ne_true]
    exact of_fails

/-- A check that finds nothing in the second if it finds nothing in the first. -/
protected theorem failIf {e₁ e₂ : Option GrammarError} {p q : Position} {f₁ f₂ : Unit → Recognizer α}
    (he : e₁ = none → e₂ = none) (hf : F.Outcome given post (f₁ () s₁) (f₂ () s₂)) :
    F.Outcome given post ((failIf e₁ p >>= f₁) s₁) ((failIf e₂ q >>= f₂) s₂) := by
  cases h₁ : e₁ with
  | some e => exact .error
  | none =>
    rw [he h₁]
    exact hf

end Outcome

/-- A branch that takes a token, which no token that closes a statement begins. -/
theorem After.branch_of_takes {c₁ c₂ : Bool} {x₁ x₂ y₁ y₂ : Recognizer α} {post : α → α → State → State → Prop}
    (hs : F.After b s₁ s₂) (htakes : c₁ = true → ∀ a t, x₁ s₁ = .ok a t → s₁.input.Takes t.input)
    (hc : F.At b s₁ s₂ → c₂ = c₁) (hclosed : ClosesStatement s₂.token → c₂ = false)
    (hx : c₁ = true → F.At b s₁ s₂ → F.Outcome given post (x₁ s₁) (x₂ s₂))
    (hy : c₁ = false → F.Outcome given post (y₁ s₁) (y₂ s₂)) :
    F.Outcome given post ((if c₁ = true then x₁ else y₁) s₁) ((if c₂ = true then x₂ else y₂) s₂) := by
  cases h₁ : c₁ with
  | true =>
    refine hs.live_of_takes (htakes h₁) fun h => ?_
    rw [(hc h).trans h₁]
    exact hx h₁ h
  | false =>
    have h₂ : c₂ = false := by
      rcases hs.input with h | h
      · exact (hc { hs with input := h }).trans h₁
      · exact hclosed (F.closes_of_halted h)
    rw [h₂]
    exact hy h₁

theorem After.branch {c₁ c₂ : Bool} {x₁ x₂ y₁ y₂ : Recognizer α} {post : α → α → State → State → Prop}
    (hs : F.After b s₁ s₂) (hc : F.At b s₁ s₂ → c₂ = c₁) (hclosed : ClosesStatement s₂.token → c₂ = false)
    (hx : c₁ = true → F.At b s₁ s₂ → F.Outcome given post (x₁ s₁) (x₂ s₂))
    (hy : c₁ = false → F.Outcome given post (y₁ s₁) (y₂ s₂)) [htakes : Takes x₁] :
    F.Outcome given post ((if c₁ = true then x₁ else y₁) s₁) ((if c₂ = true then x₂ else y₂) s₂) :=
  hs.branch_of_takes (fun _ _ _ => htakes.takes) hc hclosed hx hy

/-! ## Repetition -/

/-- What holds after a turn: `again` if another one follows, `done` if it was the last. -/
def AfterTurn (again : α → α → State → State → Prop) (done : β → β → State → State → Prop) :
    Turn α β → Turn α β → State → State → Prop
  | .again a₁, .again a₂, t₁, t₂ => again a₁ a₂ t₁ t₂
  | .done b₁, .done b₂, t₁, t₂ => done b₁ b₂ t₁ t₂
  | _, _, _, _ => False

/-- What is given after a turn, as another one follows or not. -/
def givenTurn (between : α → Input → Prop) (given : β → Input → Prop) : Turn α β → Input → Prop
  | .again a, i => between a i
  | .done c, i => given c i

/-- Every turn begins as `inv` says. The second may be granted another number of turns. -/
theorem Outcome.repeatTurns {turn₁ turn₂ : α → Recognizer (Turn α β)} {post : β → β → State → State → Prop}
    (inv : α → α → State → State → Prop) (between : α → Input → Prop)
    (hnoted : ∀ a₁ a₂ t₁ t₂ u₁ u₂, inv a₁ a₂ t₁ t₂ → inv a₁ a₂ { t₁ with repeated := u₁ } { t₂ with repeated := u₂ })
    (hbetween : ∀ n found a t c u, (do noteTurn found; Grammar.repeatTurns turn₁ n a : Recognizer β) t = .ok c u →
      F.Finishes u.input → given' c u.input → between a t.input)
    (hturn : ∀ a₁ a₂ t₁ t₂, inv a₁ a₂ t₁ t₂ →
      F.Outcome (givenTurn between given') (AfterTurn inv post) (turn₁ a₁ t₁) (turn₂ a₂ t₂))
    (hmoves : ∀ a, Moves (turn₁ a)) (n₁ n₂ : Nat) {a₁ a₂ : α} (hs : inv a₁ a₂ s₁ s₂) :
    F.Outcome given' post (Grammar.repeatTurns turn₁ n₁ a₁ s₁) (Grammar.repeatTurns turn₂ n₂ a₂ s₂) := by
  induction n₁ generalizing n₂ a₁ a₂ s₁ s₂ with
  | zero => exact .error
  | succ n₁ ih =>
    cases n₂ with
    | zero => exact fun _ _ _ _ _ => ⟨_, rfl⟩
    | succ n₂ =>
      refine .bind_token ((hturn a₁ a₂ s₁ s₂ hs).bindWith (fun r t c u _ hrun => ?_) (fun r t c u _ hrun hu hc => ?_)
        fun r₁ r₂ t₁ t₂ hr => ?_)
      · exact Moves.leads (by split <;> infer_instance) hrun
      · cases r with
        | again a => exact hbetween _ _ _ _ _ _ hrun hu hc
        | done =>
          cases hrun
          exact hc
      · cases r₁ with
        | again a₁ =>
          cases r₂ with
          | again a₂ => exact .bind_modify (ih n₂ (hnoted a₁ a₂ t₁ t₂ _ _ hr))
          | done => exact hr.elim
        | done c₁ =>
          cases r₂ with
          | again => exact hr.elim
          | done c₂ => exact .ok hr

/-- What is noted of a turn changes nothing. -/
theorem After.noteTurn (hs : F.After b s₁ s₂) {u₁ u₂ : List (Token × Token)} :
    F.After b { s₁ with repeated := u₁ } { s₂ with repeated := u₂ } :=
  hs.of_sameReading { hs with } ⟨rfl, rfl, rfl, rfl⟩ ⟨rfl, rfl, rfl, rfl⟩

theorem At.noteTurn (hs : F.At b s₁ s₂) {u₁ u₂ : List (Token × Token)} :
    F.At b { s₁ with repeated := u₁ } { s₂ with repeated := u₂ } :=
  hs.of_sameReading { hs with } ⟨rfl, rfl, rfl, rfl⟩ ⟨rfl, rfl, rfl, rfl⟩

/-- A repetition in which the first may halt. -/
theorem After.loopMoving {turn₁ turn₂ : α → Recognizer (Turn α β)} {post : β → β → State → State → Prop} {a₁ a₂ : α}
    (value : α → α → Prop) (hs : F.After b s₁ s₂) (ha : value a₁ a₂) (hmoves : ∀ a, Moves (turn₁ a))
    (hturn : ∀ a₁ a₂ t₁ t₂, value a₁ a₂ → F.After b t₁ t₂ →
      F.Outcome always (AfterTurn (fun a₁ a₂ t₁ t₂ => value a₁ a₂ ∧ F.After b t₁ t₂) post) (turn₁ a₁ t₁)
        (turn₂ a₂ t₂)) :
    F.Outcome always post (loop a₁ turn₁ s₁) (loop a₂ turn₂ s₂) :=
  Outcome.bind_get (.repeatTurns (fun a₁ a₂ t₁ t₂ => value a₁ a₂ ∧ F.After b t₁ t₂) always
    (fun _ _ _ _ _ _ h => ⟨h.1, h.2.noteTurn⟩) (fun _ _ _ _ _ _ _ _ _ => trivial)
    (fun a₁ a₂ t₁ t₂ h => (hturn a₁ a₂ t₁ t₂ h.1 h.2).ofAlways) hmoves _ _ ⟨ha, hs⟩)

/-- A repetition at the end of an expression. -/
theorem After.loopEnding {allowIn : Bool} {turn₁ turn₂ : α → Recognizer (Turn α β)}
    {post : β → β → State → State → Prop} {a₁ a₂ : α} (value : α → α → Prop) (hs : F.After b s₁ s₂) (ha : value a₁ a₂)
    (hturn : ∀ a₁ a₂ t₁ t₂, value a₁ a₂ → F.After b t₁ t₂ →
      F.Outcome (F.ending allowIn) (AfterTurn (fun a₁ a₂ t₁ t₂ => value a₁ a₂ ∧ F.After b t₁ t₂) post) (turn₁ a₁ t₁)
        (turn₂ a₂ t₂))
    [hgentle : ∀ a, Gentle (turn₁ a)] [hmoves : ∀ a, Moves (turn₁ a)] :
    F.Outcome (F.ending allowIn) post (loop a₁ turn₁ s₁) (loop a₂ turn₂ s₂) := by
  refine .bind_get (.repeatTurns (fun a₁ a₂ t₁ t₂ => value a₁ a₂ ∧ F.After b t₁ t₂) (F.ending allowIn)
    (fun _ _ _ _ _ _ h => ⟨h.1, h.2.noteTurn⟩) (fun n found a t c u hrun hu hc hno => ?_)
    (fun a₁ a₂ t₁ t₂ h => (hturn a₁ a₂ t₁ t₂ h.1 h.2).given_mono fun r _ _ hgiven => ?_) hmoves _ _ ⟨ha, hs⟩)
  · exact continues_of_gentle inferInstance hrun hu (hc hno)
  · cases r <;> exact hgiven

/-- A repetition behind which a token is taken. -/
protected theorem At.loop {turn₁ turn₂ : α → Recognizer (Turn α β)} {post : β → β → State → State → Prop} {a₁ a₂ : α}
    (value : α → α → Prop) (hs : F.At b s₁ s₂) (ha : value a₁ a₂)
    (hturn : ∀ a₁ a₂ t₁ t₂, value a₁ a₂ → F.At b t₁ t₂ →
      F.Outcome F.continuing (AfterTurn (fun a₁ a₂ t₁ t₂ => value a₁ a₂ ∧ F.At b t₁ t₂) post) (turn₁ a₁ t₁)
        (turn₂ a₂ t₂))
    [hgentle : ∀ a, Gentle (turn₁ a)] [hmoves : ∀ a, Moves (turn₁ a)] :
    F.Outcome F.continuing post (loop a₁ turn₁ s₁) (loop a₂ turn₂ s₂) := by
  refine .bind_get (.repeatTurns (fun a₁ a₂ t₁ t₂ => value a₁ a₂ ∧ F.At b t₁ t₂) F.continuing
    (fun _ _ _ _ _ _ h => ⟨h.1, h.2.noteTurn⟩) (fun n found a t c u hrun hu hc => ?_)
    (fun a₁ a₂ t₁ t₂ h => (hturn a₁ a₂ t₁ t₂ h.1 h.2).given_mono fun r _ _ hgiven => ?_) hmoves _ _ ⟨ha, hs⟩)
  · exact continues_of_gentle inferInstance hrun hu hc
  · cases r <;> exact hgiven

end Following

end EcmaCheck.Grammar
