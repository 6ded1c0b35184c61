import EcmaCheck.Proofs.Lockstep.Moves

/-!
# Recognizers that take the current token

Most productions consume the current token if they succeed, and they do so before anything else that tells of the text:
only what is noted of operands and turns comes before it, and it may be read again (`Takes`). Where that depends on what
the token is, nothing else is done if it is not consumed (`Gentle`). Like traits these are properties of the text of a
recognizer, for instance search to find.
-/

namespace EcmaCheck.Grammar

set_option synthInstance.maxSize 20000

namespace Input

/-- The current token stays, but that it may be read again. -/
inductive Rests : Input → Input → Prop
  | refl (i : Input) : Rests i i
  | rescan {i i' j : Input} {goal : LexicalGoal} (hgoal : Rereads i.token goal) (h : i.rescan goal = .ok i')
    (hj : Rests i' j) : Rests i j
  | noteStart {i j : Input} (hj : Rests i.noteStart j) : Rests i j
  | noteEnd {i j : Input} (hj : Rests i.noteEnd j) : Rests i j
  | noteTurn {i j : Input} (found : Token) (hj : Rests (i.noteTurn found) j) : Rests i j

/-- The current token is consumed before anything else happens. -/
def Takes (i k : Input) : Prop :=
  ∃ j j' goal, i.Rests j ∧ goal ≠ .templateTail ∧ j.advance goal = .ok j' ∧ j'.Leads true k

/-- So is the one after it. -/
def TakesTwo (i k : Input) : Prop :=
  ∃ j j' goal, i.Rests j ∧ goal ≠ .templateTail ∧ j.advance goal = .ok j' ∧ j'.Takes k

variable {i j k : Input}

theorem Rests.trans (h : i.Rests j) (hk : j.Rests k) : i.Rests k := by
  induction h with
  | refl => exact hk
  | rescan hgoal h _ ih => exact .rescan hgoal h (ih hk)
  | noteStart _ ih => exact .noteStart (ih hk)
  | noteEnd _ ih => exact .noteEnd (ih hk)
  | noteTurn found _ ih => exact .noteTurn found (ih hk)

theorem Rests.leads (h : i.Rests j) : i.Leads true j := by
  induction h with
  | refl => exact .done _
  | rescan hgoal h _ ih => exact .rescan hgoal h ih
  | noteStart _ ih => exact .noteStart ih
  | noteEnd _ ih => exact .noteEnd ih
  | noteTurn found _ ih => exact .noteTurn found ih

theorem Rests.takes (h : i.Rests j) (hk : j.Takes k) : i.Takes k := by
  obtain ⟨l, l', goal, hrests, hgoal, hl, hleads⟩ := hk
  exact ⟨l, l', goal, h.trans hrests, hgoal, hl, hleads⟩

theorem Rests.takesTwo (h : i.Rests j) (hk : j.TakesTwo k) : i.TakesTwo k := by
  obtain ⟨l, l', goal, hrests, hgoal, hl, htakes⟩ := hk
  exact ⟨l, l', goal, h.trans hrests, hgoal, hl, htakes⟩

/-- A keyword is not read again. -/
theorem Rests.token_of_isKeyword {w : Keyword} (h : i.Rests j) (hw : i.token.isKeyword w = true) :
    j.token = i.token := by
  have hnot (p : Punctuator) : i.token.isPunctuator p = false := by
    unfold Token.isKeyword at hw
    split at hw
    · rename_i hk
      simp only [Token.isPunctuator, hk]
    · cases hw
  induction h with
  | refl => rfl
  | rescan hgoal =>
    exfalso
    cases hgoal with
    | regExp h => simp only [isDivision, hnot, Bool.or_self, Bool.false_eq_true] at h
    | template h => simp only [hnot, Bool.false_eq_true] at h
  | noteStart _ ih => exact ih hw hnot
  | noteEnd _ ih => exact ih hw hnot
  | noteTurn _ _ ih => exact ih hw hnot

theorem Takes.leads (h : i.Takes j) : i.Leads true j := by
  obtain ⟨l, l', goal, hrests, hgoal, hl, hleads⟩ := h
  exact hrests.leads.trans (.advance hgoal hl hleads)

theorem Takes.trans (h : i.Takes j) (hk : j.Leads true k) : i.Takes k := by
  obtain ⟨l, l', goal, hrests, hgoal, hl, hleads⟩ := h
  exact ⟨l, l', goal, hrests, hgoal, hl, hleads.trans hk⟩

theorem TakesTwo.trans (h : i.TakesTwo j) (hk : j.Leads true k) : i.TakesTwo k := by
  obtain ⟨l, l', goal, hrests, hgoal, hl, htakes⟩ := h
  exact ⟨l, l', goal, hrests, hgoal, hl, htakes.trans hk⟩

theorem TakesTwo.takes (h : i.TakesTwo j) : i.Takes j := by
  obtain ⟨l, l', goal, hrests, hgoal, hl, htakes⟩ := h
  exact ⟨l, l', goal, hrests, hgoal, hl, htakes.leads⟩

end Input

variable {α β : Type}

/-- The recognizer consumes nothing. -/
class Still (x : Recognizer α) : Prop where
  rests {s t : State} {a : α} : x s = .ok a t → s.input.Rests t.input

/-- The recognizer consumes nothing, or the current token before anything else. -/
class Gentle (x : Recognizer α) : Prop where
  rests_or_takes {s t : State} {a : α} : x s = .ok a t → s.input.Rests t.input ∨ s.input.Takes t.input

/-- The recognizer consumes the current token before anything else. -/
class Takes (x : Recognizer α) : Prop where
  takes {s t : State} {a : α} : x s = .ok a t → s.input.Takes t.input

/-- The recognizer consumes the current token and the one after it before anything else. -/
class TakesTwo (x : Recognizer α) : Prop where
  takesTwo {s t : State} {a : α} : x s = .ok a t → s.input.TakesTwo t.input

instance (priority := low) (x : Recognizer α) [h : Still x] : Gentle x :=
  ⟨fun hrun => .inl (h.rests hrun)⟩

instance (priority := low) (x : Recognizer α) [h : Takes x] : Gentle x :=
  ⟨fun hrun => .inr (h.takes hrun)⟩

instance (priority := low) (x : Recognizer α) [h : TakesTwo x] : Takes x :=
  ⟨fun hrun => (h.takesTwo hrun).takes⟩

/-! ## Sequence and branches -/

theorem Gentle.leads {x : Recognizer α} (h : Gentle x) {s t : State} {a : α} (hrun : x s = .ok a t) :
    s.input.Leads true t.input :=
  (h.rests_or_takes hrun).elim (·.leads) (·.leads)

theorem Moves.leads {x : Recognizer α} (h : Moves x) {s t : State} {a : α} (hrun : x s = .ok a t) :
    s.input.Leads true t.input :=
  h.moved_of_ok hrun

instance (x : Recognizer α) (f : α → Recognizer β) [hx : Still x] [hf : ∀ a, Still (f a)] : Still (x >>= f) := by
  refine ⟨fun hrun => ?_⟩
  obtain ⟨a, u, hfirst, hnext⟩ := bind_eq_ok.mp hrun
  exact (hx.rests hfirst).trans ((hf a).rests hnext)

protected theorem Gentle.bind {x : Recognizer α} {f : α → Recognizer β} (hx : Gentle x) (hf : ∀ a, Gentle (f a))
    (hmoves : ∀ a, Moves (f a)) : Gentle (x >>= f) := by
  refine ⟨fun hrun => ?_⟩
  obtain ⟨a, u, hfirst, hnext⟩ := bind_eq_ok.mp hrun
  rcases hx.rests_or_takes hfirst with hrests | htakes
  · exact ((hf a).rests_or_takes hnext).imp hrests.trans hrests.takes
  · exact .inr (htakes.trans ((hmoves a).leads hnext))

instance (x : Recognizer α) (f : α → Recognizer β) [hx : Gentle x] [hf : ∀ a, Gentle (f a)]
    [hmoves : ∀ a, Moves (f a)] : Gentle (x >>= f) :=
  hx.bind hf hmoves

protected theorem Takes.bind {x : Recognizer α} {f : α → Recognizer β} (hx : Takes x) (hmoves : ∀ a, Moves (f a)) :
    Takes (x >>= f) := by
  refine ⟨fun hrun => ?_⟩
  obtain ⟨a, u, hfirst, hnext⟩ := bind_eq_ok.mp hrun
  exact (hx.takes hfirst).trans ((hmoves a).leads hnext)

/-- What comes first does nothing unless it takes the token, which what follows does. -/
protected theorem Takes.behind {x : Recognizer α} {f : α → Recognizer β} (hx : Gentle x) (hf : ∀ a, Takes (f a)) :
    Takes (x >>= f) := by
  refine ⟨fun hrun => ?_⟩
  obtain ⟨a, u, hfirst, hnext⟩ := bind_eq_ok.mp hrun
  have htakes := (hf a).takes hnext
  rcases hx.rests_or_takes hfirst with hrests | hfirst
  · exact hrests.takes htakes
  · exact hfirst.trans htakes.leads

instance (x : Recognizer α) (f : α → Recognizer β) [hx : Gentle x] [hf : ∀ a, Takes (f a)] : Takes (x >>= f) :=
  .behind hx hf

instance (x : Recognizer α) (f : α → Recognizer β) [hx : Takes x] [hmoves : ∀ a, Moves (f a)] : Takes (x >>= f) :=
  hx.bind hmoves

protected theorem TakesTwo.behind {x : Recognizer α} {f : α → Recognizer β} (hx : Still x) (hf : ∀ a, TakesTwo (f a)) :
    TakesTwo (x >>= f) := by
  refine ⟨fun hrun => ?_⟩
  obtain ⟨a, u, hfirst, hnext⟩ := bind_eq_ok.mp hrun
  exact (hx.rests hfirst).takesTwo ((hf a).takesTwo hnext)

instance (x : Recognizer α) (f : α → Recognizer β) [hx : Still x] [hf : ∀ a, TakesTwo (f a)] : TakesTwo (x >>= f) :=
  .behind hx hf

instance (x : Recognizer α) (f : α → Recognizer β) [hx : TakesTwo x] [hmoves : ∀ a, Moves (f a)] :
    TakesTwo (x >>= f) := by
  refine ⟨fun hrun => ?_⟩
  obtain ⟨a, u, hfirst, hnext⟩ := bind_eq_ok.mp hrun
  exact (hx.takesTwo hfirst).trans ((hmoves a).leads hnext)

section

variable (p : Prop) [Decidable p] (x y : Recognizer α)

instance [Still x] [Still y] : Still (if p then x else y) := by
  split <;> infer_instance

instance [Gentle x] [Gentle y] : Gentle (if p then x else y) := by
  split <;> infer_instance

instance [Takes x] [Takes y] : Takes (if p then x else y) := by
  split <;> infer_instance

instance [TakesTwo x] [TakesTwo y] : TakesTwo (if p then x else y) := by
  split <;> infer_instance

end

section

variable (x y : Recognizer α)

instance [h : Gentle x] : Gentle (if true = true then x else y) := by
  rwa [if_pos rfl]

instance [h : Takes x] : Takes (if true = true then x else y) := by
  rwa [if_pos rfl]

instance [h : TakesTwo x] : TakesTwo (if true = true then x else y) := by
  rwa [if_pos rfl]

instance [h : TakesTwo y] : TakesTwo (if false = true then x else y) := by
  rwa [if_neg Bool.false_ne_true]

end

/-! ## Reading the state and failing -/

instance (a : α) : Still (pure a : Recognizer α) :=
  ⟨fun h => by cases h; exact .refl _⟩

instance (x : Recognizer α) [Gentle x] : Gentle (discard x : Recognizer Unit) :=
  inferInstanceAs (Gentle (x >>= fun _ => pure ()))

instance (x : Recognizer α) [Takes x] : Takes (discard x : Recognizer Unit) :=
  inferInstanceAs (Takes (x >>= fun _ => pure ()))

instance (x : Recognizer α) [TakesTwo x] : TakesTwo (discard x : Recognizer Unit) :=
  inferInstanceAs (TakesTwo (x >>= fun _ => pure ()))

instance : Still (get : Recognizer State) :=
  ⟨fun h => by cases h; exact .refl _⟩

instance : Still token := by
  unfold token
  infer_instance

instance : Still context := by
  unfold context
  infer_instance

instance : Still peek :=
  ⟨fun h => by rw [peek_state h]; exact .refl _⟩

instance (depth attachedLabels classDepth : State → Nat) (context : State → Context) (labels : State → List Label) :
    Still (modify fun s => { s with
      depth := depth s, context := context s, labels := labels s, attachedLabels := attachedLabels s,
      classDepth := classDepth s } : Recognizer Unit) :=
  ⟨fun h => by cases h; exact .refl _⟩

instance (f : Fault) : TakesTwo (throw f : Recognizer α) :=
  ⟨nofun⟩

instance (f : Fault) : Still (throw f : Recognizer α) :=
  ⟨nofun⟩

instance (e : GrammarError) (p : Position) : TakesTwo (fail e p : Recognizer α) :=
  ⟨nofun⟩

instance (e : GrammarError) (p : Position) : Still (fail e p : Recognizer α) :=
  ⟨nofun⟩

instance : TakesTwo (unexpected : Recognizer α) := by
  unfold unexpected
  infer_instance

instance : TakesTwo (expectedIdentifier : Recognizer α) := by
  unfold expectedIdentifier
  infer_instance

instance (e : Option GrammarError) (p : Position) : Still (failIf e p) := by
  unfold failIf
  split <;> infer_instance

/-! ## Tokens -/

theorem input_of_advanceWith {goal : LexicalGoal} {s t : State} {u : Unit}
    (h : advanceWith goal s = .ok u t) : s.input.advance goal = .ok t.input := by
  unfold advanceWith State.receive at h
  change s.input.consume.receive (s.scanner.next goal) = _
  rcases hnext : s.scanner.next goal with ⟨f | token, scanner⟩ <;> rw [hnext] at h <;> cases h
  rfl

theorem input_of_rescan {goal : LexicalGoal} {s t : State} {u : Unit} (h : rescan goal s = .ok u t) :
    s.input.rescan goal = .ok t.input := by
  unfold rescan State.receive at h
  change s.input.receive (s.scanner.rescan goal s.token) = _
  rcases hnext : s.scanner.rescan goal s.token with ⟨f | token, scanner⟩ <;> rw [hnext] at h <;> cases h
  rfl

instance (goal : LexicalGoal) [hgoal : Ordinary goal] : Takes (advanceWith goal) :=
  ⟨fun h => ⟨_, _, goal, .refl _, hgoal.ne, input_of_advanceWith h, .done _⟩⟩

instance : Takes advance := by
  unfold advance
  infer_instance

/-- Two tokens are taken one after the other. -/
instance (goal : LexicalGoal) [hgoal : Ordinary goal] (f : Unit → Recognizer α) [hf : ∀ u, Takes (f u)] :
    TakesTwo (advanceWith goal >>= f) := by
  refine ⟨fun hrun => ?_⟩
  obtain ⟨a, u, hfirst, hnext⟩ := bind_eq_ok.mp hrun
  exact ⟨_, _, goal, .refl _, hgoal.ne, input_of_advanceWith hfirst, (hf a).takes hnext⟩

protected theorem TakesTwo.advance {f : Unit → Recognizer α} (hf : ∀ u, Takes (f u)) : TakesTwo (advance >>= f) := by
  refine ⟨fun {s t a} hrun => ?_⟩
  exact TakesTwo.takesTwo (x := advanceWith s.token.goalAfter >>= f) hrun

instance (f : Unit → Recognizer α) [hf : ∀ u, Takes (f u)] : TakesTwo (advance >>= f) :=
  .advance hf

instance (p : Punctuator) : Still (isAt p) := by
  unfold isAt
  infer_instance

instance (w : Keyword) : Still (isAtKeyword w) := by
  unfold isAtKeyword
  infer_instance

instance (w : String) : Still (isAtWord w) := by
  unfold isAtWord
  infer_instance

instance (p : Punctuator) : Gentle (eat p) := by
  unfold eat
  infer_instance

instance (p : Punctuator) (goal : LexicalGoal) [Ordinary goal] : Takes (expectWith p goal) := by
  unfold expectWith
  infer_instance

instance (p : Punctuator) : Takes (expect p) := by
  unfold expect
  infer_instance

instance (w : String) : Takes (expectWord w) := by
  unfold expectWord
  infer_instance

instance : Still isAtAsyncFunction := by
  unfold isAtAsyncFunction
  infer_instance

/-! ## Operands -/

instance : Still noteOperandStart :=
  ⟨fun {s _ _} h => by cases h; exact .noteStart (.refl s.input.noteStart)⟩

protected theorem Takes.notingOperandEnd {body : Recognizer Summary} (h : Takes body) :
    Takes (notingOperandEnd body) := by
  unfold notingOperandEnd
  infer_instance

instance (body : Recognizer Summary) [h : Takes body] : Takes (notingOperandEnd body) :=
  h.notingOperandEnd

instance (i : Identifier) : Still (checkReference i) := by
  unfold checkReference
  infer_instance

instance (lexical : Bool) (i : Identifier) : Still (checkBinding lexical i) := by
  unfold checkBinding
  infer_instance

instance (e : Summary) : Still (rejectShorthand e) := by
  unfold rejectShorthand
  split <;> infer_instance

instance (e : Summary) : Still (requireOperand e) := by
  unfold requireOperand
  infer_instance

/-! ## Repetition -/

instance (found : Token) : Still (noteTurn found) :=
  ⟨fun {s _ _} h => by cases h; exact .noteTurn found (.refl (s.input.noteTurn found))⟩

instance (turn : α → Recognizer (Turn α β)) [∀ a, Gentle (turn a)] [∀ a, Moves (turn a)] (n : Nat) (a : α) :
    Gentle (repeatTurns turn n a) := by
  induction n generalizing a with
  | zero =>
    unfold repeatTurns
    infer_instance
  | succ n ih =>
    unfold repeatTurns
    exact .bind inferInstance (fun _ => .bind inferInstance (fun _ => by split <;> infer_instance)
      fun _ => by split <;> infer_instance) fun _ => .bind inferInstance fun _ => by split <;> infer_instance

protected theorem Gentle.loop {a : α} {turn : α → Recognizer (Turn α β)} (h : ∀ a, Gentle (turn a))
    (hmoves : ∀ a, Moves (turn a)) : Gentle (loop a turn) := by
  unfold loop
  infer_instance

instance (a : α) (turn : α → Recognizer (Turn α β)) [h : ∀ a, Gentle (turn a)] [hmoves : ∀ a, Moves (turn a)] :
    Gentle (loop a turn) :=
  .loop h hmoves

instance (close : Punctuator) (a : α) (item : α → Recognizer α) [∀ a, Gentle (item a)] [∀ a, Moves (item a)] :
    Gentle (itemsUntil close a item) := by
  unfold itemsUntil
  infer_instance

theorem Takes.repeatTurns {turn : α → Recognizer (Turn α β)} (h : ∀ a, Takes (turn a)) (hmoves : ∀ a, Moves (turn a))
    (n : Nat) (a : α) : Takes (repeatTurns turn n a) := by
  cases n with
  | zero =>
    unfold Grammar.repeatTurns
    infer_instance
  | succ n =>
    unfold Grammar.repeatTurns
    exact .behind inferInstance fun _ => .bind (h a) fun _ => by split <;> infer_instance

/-- A repetition begins with its first turn. -/
theorem exists_turn_of_loop {turn : α → Recognizer (Turn α β)} {a : α} {c : β} {s t : State}
    (hrun : loop a turn s = .ok c t) (hmoves : ∀ a, Moves (turn a)) :
    ∃ r u, turn a s = .ok r u ∧ u.input.Leads true t.input := by
  obtain ⟨_, _, hget, hrun⟩ := bind_eq_ok.mp hrun
  cases hget
  cases hn : s.turns with
  | zero =>
    rw [hn] at hrun
    cases hrun
  | succ n =>
    rw [hn] at hrun
    obtain ⟨_, _, htoken, hrun⟩ := bind_eq_ok.mp hrun
    cases htoken
    obtain ⟨r, u, hturn, hrest⟩ := bind_eq_ok.mp hrun
    exact ⟨r, u, hturn, Moves.leads (by split <;> infer_instance) hrest⟩

/-- A repetition takes the token if its first turn does. -/
theorem takes_of_loop {turn : α → Recognizer (Turn α β)} {a : α} {c : β} {s t : State} (hrun : loop a turn s = .ok c t)
    (h : ∀ r u, turn a s = .ok r u → s.input.Takes u.input) (hmoves : ∀ a, Moves (turn a)) :
    s.input.Takes t.input := by
  obtain ⟨r, u, hturn, hrest⟩ := exists_turn_of_loop hrun hmoves
  exact (h r u hturn).trans hrest

protected theorem Takes.loop {a : α} {turn : α → Recognizer (Turn α β)} (h : ∀ a, Takes (turn a))
    (hmoves : ∀ a, Moves (turn a)) : Takes (loop a turn) :=
  ⟨fun hrun => takes_of_loop hrun (fun _ _ => (h a).takes) hmoves⟩

end EcmaCheck.Grammar
