import EcmaCheck.Proofs.Printed.Lexeme
import EcmaCheck.Proofs.Surroundings

/-!
# Recognizing what is printed

A state faces lexemes if the current token is the first of them and the text behind it spells the others (`Faces`). A
recognizer decides whether the first of these lexemes are what it recognizes: it succeeds only if they are, and then
faces the others, in the surroundings it began in; it fails only if they are not, unless a limit cuts it off
(`Decided`). What several recognizers decide one after the other is decided by their sequence (`Decided.bind`).
-/

namespace EcmaCheck

/-- The fault tells of a limit, not of the text. -/
def Fault.IsLimit (f : Fault) : Prop :=
  f.diagnostic.kind = .tooDeep ∨ f.diagnostic.kind = .internal

end EcmaCheck

namespace EcmaCheck.Grammar

variable {α β : Type}

/-! ## Facing lexemes -/

/-- The current token and the text behind it are the lexemes. -/
def State.Faces (s : State) : List Lexeme → Prop
  | [] => s.token.kind = .endOfInput
  | l :: ls => s.token.kind = l.kind ∧ s.token.lexeme = String.ofList l.spelling ∧ s.token.newlineBefore = false ∧
      s.scanner.source.sentinel = true ∧ Spells ls s.scanner.rest

namespace State.Faces

variable {s t : State} {l : Lexeme} {ls : List Lexeme}

theorem kind (h : s.Faces (l :: ls)) : s.token.kind = l.kind :=
  h.1

theorem line (h : s.Faces (l :: ls)) : s.token.newlineBefore = false :=
  h.2.2.1

/-- Only the token and the scanner matter. -/
theorem of_eq (h : s.Faces ls) (htoken : t.token = s.token) (hscanner : t.scanner = s.scanner) : t.Faces ls := by
  cases ls with
  | nil =>
    change t.token.kind = .endOfInput
    rw [htoken]
    exact h
  | cons l ls =>
    unfold State.Faces at h ⊢
    rw [htoken, hscanner]
    exact h

end State.Faces

/-- The next token of what is spelled is the first lexeme, whatever is expected. -/
theorem faces_of_spells (scanner : Scanner) {ls : List Lexeme} (hsentinel : scanner.source.sentinel = true)
    (h : Spells ls scanner.rest) : ∃ token after,
      (∀ goal, goal ≠ .templateTail → scanner.next goal = (.ok token, after)) ∧
        ∀ t : State, t.token = token → t.scanner = after → t.Faces ls := by
  cases ls with
  | nil =>
    obtain ⟨place, newline, after, _, hnext⟩ := h.next_end
    refine ⟨_, after, hnext, ?_⟩
    intro t htoken _
    change t.token.kind = .endOfInput
    rw [htoken]
  | cons next ls =>
    obtain ⟨start, stop, after, hsource, hspells, hnext⟩ := h.next hsentinel
    refine ⟨_, after, hnext, ?_⟩
    rintro t htoken hscanner
    unfold State.Faces
    rw [htoken, hscanner, hsource]
    exact ⟨rfl, rfl, rfl, hsentinel, hspells⟩

theorem State.Faces.next {s : State} {l : Lexeme} {ls : List Lexeme} (h : s.Faces (l :: ls)) : ∃ token scanner,
    (∀ goal, goal ≠ .templateTail → s.scanner.next goal = (.ok token, scanner)) ∧
      ∀ t : State, t.token = token → t.scanner = scanner → t.Faces ls := by
  obtain ⟨_, _, _, hsentinel, hspells⟩ := h
  exact faces_of_spells s.scanner hsentinel hspells

theorem goalAfter_ne_templateTail (t : Token) : t.goalAfter ≠ .templateTail :=
  (inferInstance : Ordinary t.goalAfter).ne

/-- The surroundings are the same. -/
structure State.Agrees (s t : State) : Prop where
  surroundings : t.surroundings = s.surroundings
  isModule : t.isModule = s.isModule

/-- A state that faces the lexemes in the surroundings of another. -/
structure State.Reaches (s t : State) (ls : List Lexeme) : Prop extends s.Agrees t where
  faces : t.Faces ls

namespace State.Agrees

variable {s t u : State}

theorem refl (s : State) : s.Agrees s :=
  ⟨rfl, rfl⟩

theorem trans (h : s.Agrees t) (h' : t.Agrees u) : s.Agrees u :=
  ⟨h'.surroundings.trans h.surroundings, h'.isModule.trans h.isModule⟩

theorem context (h : s.Agrees t) : t.context = s.context :=
  congrArg Surroundings.context h.surroundings

theorem labels (h : s.Agrees t) : t.labels = s.labels :=
  congrArg Surroundings.labels h.surroundings

theorem attachedLabels (h : s.Agrees t) : t.attachedLabels = s.attachedLabels :=
  congrArg Surroundings.attachedLabels h.surroundings

theorem classDepth (h : s.Agrees t) : t.classDepth = s.classDepth :=
  congrArg Surroundings.classDepth h.surroundings

theorem depth (h : s.Agrees t) : t.depth = s.depth :=
  congrArg Surroundings.depth h.surroundings

end State.Agrees

namespace State.Reaches

variable {s t u : State} {l : Lexeme} {ls ms : List Lexeme}

theorem refl (h : s.Faces ls) : s.Reaches s ls :=
  ⟨.refl s, h⟩

theorem of_agrees (h : s.Agrees t) (h' : t.Reaches u ms) : s.Reaches u ms :=
  ⟨h.trans h'.toAgrees, h'.faces⟩

theorem kind (h : s.Reaches t (l :: ls)) : t.token.kind = l.kind :=
  h.faces.kind

end State.Reaches

theorem advanceWith_reaches {s t : State} {l : Lexeme} {ls : List Lexeme} {goal : LexicalGoal}
    (h : s.Reaches t (l :: ls)) (hgoal : goal ≠ .templateTail) :
    ∃ u, advanceWith goal t = .ok () u ∧ s.Reaches u ls ∧ u.consumed = t.token :: t.consumed := by
  obtain ⟨token, scanner, hnext, hfaces⟩ := h.faces.next
  refine ⟨{ t with consumed := t.token :: t.consumed, scanner, token }, ?_,
    ⟨⟨h.surroundings, h.isModule⟩, hfaces _ rfl rfl⟩, rfl⟩
  unfold advanceWith
  rw [hnext goal hgoal]
  rfl

theorem peek_reaches {s t : State} {l next : Lexeme} {ls : List Lexeme} (h : s.Reaches t (l :: next :: ls)) :
    ∃ token, peek t = .ok token t ∧ token.kind = next.kind ∧ token.newlineBefore = false := by
  obtain ⟨token, scanner, hnext, hfaces⟩ := h.faces.next
  have hkind := hfaces { t with token, scanner } rfl rfl
  refine ⟨token, ?_, hkind.kind, hkind.line⟩
  unfold peek
  rw [hnext _ (goalAfter_ne_templateTail t.token)]

/-! ## Looking at the current token -/

section

variable {s t : State} {a : α} {k : TokenKind}

theorem bind_of_ok {x : Recognizer α} {f : α → Recognizer β} (h : x s = .ok a t) : (x >>= f) s = f a t := by
  change EStateM.bind x f s = _
  unfold EStateM.bind
  rw [h]

theorem bind_of_error {x : Recognizer α} {f : α → Recognizer β} {g : Fault} (h : x s = .error g t) :
    (x >>= f) s = .error g t := by
  change EStateM.bind x f s = _
  unfold EStateM.bind
  rw [h]

theorem token_bind (f : Token → Recognizer β) (s : State) : (token >>= f) s = f s.token s := rfl

theorem context_bind (f : Context → Recognizer β) (s : State) : (context >>= f) s = f s.context s := rfl

theorem get_bind (f : State → Recognizer β) (s : State) : (get >>= f) s = f s s := rfl

theorem modify_bind (g : State → State) (f : PUnit → Recognizer β) (s : State) : (modify g >>= f) s = f ⟨⟩ (g s) := rfl

theorem isAt_bind (p : Punctuator) (f : Bool → Recognizer β) (s : State) :
    (isAt p >>= f) s = f (s.token.isPunctuator p) s := rfl

theorem isAtKeyword_bind (k : Keyword) (f : Bool → Recognizer β) (s : State) :
    (isAtKeyword k >>= f) s = f (s.token.isKeyword k) s := rfl

theorem isAtWord_bind (w : String) (f : Bool → Recognizer β) (s : State) :
    (isAtWord w >>= f) s = f (s.token.isWord w) s := rfl

theorem failIf_none_bind (p : Position) (f : Unit → Recognizer β) (s : State) : (failIf none p >>= f) s = f () s := rfl

theorem eat_of_not {p : Punctuator} (h : s.token.isPunctuator p = false) : eat p s = .ok false s := by
  unfold eat
  rw [isAt_bind, h, if_neg Bool.false_ne_true]
  rfl

theorem isPunctuator_of_kind {t : Token} (h : t.kind = k) (p : Punctuator) :
    t.isPunctuator p = decide (k = .punctuator p) := by
  unfold Token.isPunctuator
  rw [h]
  cases k <;> simp

theorem isKeyword_of_kind {t : Token} (h : t.kind = k) (w : Keyword) : t.isKeyword w = decide (k = .keyword w) := by
  unfold Token.isKeyword
  rw [h]
  cases k <;> simp

end

theorem expectWith_reaches {s t : State} {ls : List Lexeme} {p : Punctuator} {goal : LexicalGoal}
    (h : s.Reaches t (.punctuator p :: ls)) (hgoal : goal ≠ .templateTail) :
    ∃ u, expectWith p goal t = .ok () u ∧ s.Reaches u ls := by
  obtain ⟨u, hu, hreaches, _⟩ := advanceWith_reaches h hgoal
  have hat : t.token.isPunctuator p = true := by
    rw [isPunctuator_of_kind h.kind]
    exact decide_eq_true rfl
  exact ⟨u, (congrFun (if_pos hat) t).trans hu, hreaches⟩

theorem eat_reaches {s t : State} {ls : List Lexeme} {p : Punctuator} (h : s.Reaches t (.punctuator p :: ls)) :
    ∃ u, eat p t = .ok true u ∧ s.Reaches u ls := by
  obtain ⟨u, hu, hreaches, _⟩ := advanceWith_reaches h (goalAfter_ne_templateTail t.token)
  have hat : t.token.isPunctuator p = true := (isPunctuator_of_kind h.kind p).trans (decide_eq_true rfl)
  refine ⟨u, ?_, hreaches⟩
  unfold eat
  rw [isAt_bind, hat, if_pos rfl]
  exact bind_of_ok hu

/-! ## Where recognitions end -/

/-- A recognition gave a result and reached a state as `reached` says, or stopped at one of the faults. -/
def Ends (faults : Fault → Prop) (reached : α → State → Prop) : EStateM.Result Fault State α → Prop
  | .ok a t => reached a t
  | .error f _ => faults f

namespace Ends

variable {s t : State} {E : Fault → Prop} {P Q : α → State → Prop} {Q' : β → State → Prop}
  {r : EStateM.Result Fault State α} {x : Recognizer α} {f : α → Recognizer β}

theorem imp (h : Ends E P r) (hQ : ∀ a t, P a t → Q a t) : Ends E Q r := by
  cases r with
  | ok a t => exact hQ a t h
  | error => exact h

protected theorem bind (hx : Ends E P (x t)) (hf : ∀ a u, P a u → Ends E Q' (f a u)) : Ends E Q' ((x >>= f) t) := by
  cases h : x t with
  | ok a u =>
    rw [h] at hx
    rw [bind_of_ok h]
    exact hf a u hx
  | error g u =>
    rw [h] at hx
    rw [bind_of_error h]
    exact hx

theorem of_ok {a : α} (h : Ends E P r) (hr : r = .ok a t) : P a t := by
  rwa [hr] at h

/-- A recognition ends with its result. -/
theorem self (r : EStateM.Result Fault State α) : Ends (fun _ => True) (fun a t => r = .ok a t) r := by
  cases r with
  | ok => exact rfl
  | error => trivial

/-! ### Repetitions -/

variable {turn : α → Recognizer (Turn α β)} {a : α} (hE : ∀ p, E (.stalled p))

include hE

/-- The next turn is the last. -/
theorem done {b : β} {u : State} (h : turn a t = .ok (.done b) u) (hb : Q' b u) (n : Nat) :
    Ends E Q' (repeatTurns turn n a t) := by
  cases n with
  | zero => exact hE _
  | succ n =>
    have hrun : repeatTurns turn (n + 1) a t = .ok b u := bind_of_ok h
    rw [hrun]
    exact hb

/-- The next turn is followed by others. -/
theorem again {R : α → State → Prop} (hturn : Ends E (fun r u => ∃ b, r = .again b ∧ R b u) (turn a t))
    (hrest : ∀ b u turns n, R b u → Ends E Q' (repeatTurns turn n b { u with repeated := turns })) (n : Nat) :
    Ends E Q' (repeatTurns turn n a t) := by
  cases n with
  | zero => exact hE _
  | succ n =>
    refine hturn.bind fun r u hr => ?_
    obtain ⟨b, rfl, hb⟩ := hr
    exact hrest b u _ n hb

end Ends

/-- The recognition gives no result. -/
abbrev Refused (r : EStateM.Result Fault State α) : Prop :=
  Ends (fun _ => True) (fun _ _ => False) r

theorem Refused.bind {s : State} {x : Recognizer α} {f : α → Recognizer β} (h : Refused (x s)) :
    Refused ((x >>= f) s) :=
  Ends.bind h fun _ _ hfalse => hfalse.elim

/-! ## Deciding -/

/-- A recognition decided whether what it read is valid. If so, it gave a result and reached a state of which `reached`
says more. -/
def Concluded (valid : Prop) (reached : α → State → Prop) : EStateM.Result Fault State α → Prop
  | .ok a t => valid ∧ reached a t
  | .error f _ => f.IsLimit ∨ ¬ valid

theorem concluded_iff_ends {valid : Prop} {reached : α → State → Prop} {r : EStateM.Result Fault State α} :
    Concluded valid reached r ↔ Ends (fun f => f.IsLimit ∨ ¬ valid) (fun a t => valid ∧ reached a t) r := by
  cases r <;> rfl

/-- What gives no result decides that the text is not valid. -/
theorem Refused.concluded {v : Prop} {Q : α → State → Prop} {r : EStateM.Result Fault State α} (h : Refused r)
    (hv : ¬ v) : Concluded v Q r := by
  cases r with
  | ok => exact h.elim
  | error => exact .inr hv

namespace Concluded

variable {s t : State} {v w : Prop} {Q : α → State → Prop} {Q' : β → State → Prop}
  {r : EStateM.Result Fault State α} {x : Recognizer α} {f : α → Recognizer β}

theorem iff (h : Concluded v Q r) (hvw : v ↔ w) : Concluded w Q r := by
  rwa [← propext hvw]

theorem imp {Q' : α → State → Prop} (h : Concluded v Q r) (hQ : v → ∀ a t, Q a t → Q' a t) : Concluded v Q' r := by
  cases r with
  | ok a t => exact ⟨h.1, hQ h.1 a t h.2⟩
  | error f t => exact h

/-- What was read is not valid. -/
theorem refuse {g : Fault} (hv : ¬ v) : Concluded v Q (.error g t) :=
  .inr hv

protected theorem bind (hx : Concluded v Q (x t)) (hf : ∀ a u, v → Q a u → Concluded w Q' (f a u)) :
    Concluded (v ∧ w) Q' ((x >>= f) t) := by
  cases h : x t with
  | ok a u =>
    rw [h] at hx
    rw [bind_of_ok h]
    have hfa := hf a u hx.1 hx.2
    cases hr : f a u with
    | ok b u' =>
      rw [hr] at hfa
      exact ⟨⟨hx.1, hfa.1⟩, hfa.2⟩
    | error g u' =>
      rw [hr] at hfa
      exact hfa.imp_right fun hw h => hw h.2
  | error g u =>
    rw [h] at hx
    rw [bind_of_error h]
    exact hx.imp_right fun hv h => hv h.1

/-- What follows is valid in any case. -/
theorem andThen (hx : Concluded v Q (x t)) (hf : ∀ a u, v → Q a u → Concluded True Q' (f a u)) :
    Concluded v Q' ((x >>= f) t) :=
  (Concluded.bind hx hf).iff (iff_of_eq (and_true v))

/-! ### Repetitions -/

variable {turn : α → Recognizer (Turn α β)} {a : α} {n : Nat}

/-- What turns conclude however many are granted. -/
theorem loop (h : ∀ n, Concluded w Q' (repeatTurns turn n a t)) : Concluded w Q' (Grammar.loop a turn t) :=
  h t.turns

/-- Without turns nothing is decided. -/
theorem noTurn : Concluded w Q' (repeatTurns turn 0 a t) :=
  .inl (.inr rfl)

/-- The next turn is the last. -/
theorem done {b : β} {u : State} (h : turn a t = .ok (.done b) u) (hb : Concluded w Q' (.ok b u)) (n : Nat) :
    Concluded w Q' (repeatTurns turn n a t) := by
  cases n with
  | zero => exact noTurn
  | succ n =>
    have hrun : repeatTurns turn (n + 1) a t = .ok b u := bind_of_ok h
    rw [hrun]
    exact hb

/-- The next turn concludes something, and the others the rest. -/
theorem again {R : α → State → Prop} (hturn : Concluded v (fun r u => ∃ b, r = .again b ∧ R b u) (turn a t))
    (hnoted : ∀ b u turns, R b u → R b { u with repeated := turns })
    (hrest : ∀ b u n, v → R b u → Concluded w Q' (repeatTurns turn n b u)) (n : Nat) :
    Concluded (v ∧ w) Q' (repeatTurns turn n a t) := by
  cases n with
  | zero => exact noTurn
  | succ n =>
    refine hturn.bind fun r u hv hr => ?_
    obtain ⟨b, rfl, hb⟩ := hr
    exact hrest b _ n hv (hnoted b u _ hb)

end Concluded

/-- A recognition that began in `s` decided whether the lexemes are valid. If so, it gave a result of which `holds`
says more, and faces the lexemes `ls`. -/
def Decided (s : State) (valid : Prop) (ls : List Lexeme) (holds : α → Prop) : EStateM.Result Fault State α → Prop :=
  Concluded valid fun a t => s.Reaches t ls ∧ holds a

namespace Decided

variable {s t : State} {v w : Prop} {l : Lexeme} {ls ms : List Lexeme} {R : α → Prop} {S : β → Prop}
  {r : EStateM.Result Fault State α} {x : Recognizer α} {f : α → Recognizer β}

theorem iff (h : Decided s v ls R r) (hvw : v ↔ w) : Decided s w ls R r :=
  Concluded.iff h hvw

theorem imp {R' : α → Prop} (h : Decided s v ls R r) (hR : v → ∀ a, R a → R' a) : Decided s v ls R' r :=
  Concluded.imp h fun hv a _ ha => ⟨ha.1, hR hv a ha.2⟩

/-- The lexemes are not valid. -/
theorem refuse {g : Fault} (hv : ¬ v) : Decided s v ls R (.error g t) :=
  .inr hv

/-- What is decided of a state is decided of one that leads to it. -/
theorem of_agrees (ht : s.Agrees t) (h : Decided t v ls R r) : Decided s v ls R r :=
  Concluded.imp h fun _ _ _ ha => ⟨.of_agrees ht ha.1, ha.2⟩

protected theorem bind (ht : s.Agrees t) (hx : Decided t v ls R (x t))
    (hf : ∀ a u, v → s.Reaches u ls → R a → Decided s w ms S (f a u)) : Decided s (v ∧ w) ms S ((x >>= f) t) :=
  Concluded.bind hx fun a u hv ha => hf a u hv (.of_agrees ht ha.1) ha.2

/-- First comes what is valid in any case. -/
protected theorem call (ht : s.Agrees t) (hx : Decided t True ls R (x t))
    (hf : ∀ a u, s.Reaches u ls → R a → Decided s w ms S (f a u)) : Decided s w ms S ((x >>= f) t) :=
  (Decided.bind ht hx fun a u _ => hf a u).iff (iff_of_eq (true_and w))

/-- What follows is valid in any case. -/
theorem andThen (ht : s.Agrees t) (hx : Decided t v ls R (x t))
    (hf : ∀ a u, v → s.Reaches u ls → R a → Decided s True ms S (f a u)) : Decided s v ms S ((x >>= f) t) :=
  (Decided.bind ht hx hf).iff (iff_of_eq (and_true v))

/-- What is decided in changed surroundings, which are restored after it. -/
theorem restore {s' : State} {r : State → State} (hx : Decided s' v ls R (x t))
    (hr : ∀ u, s'.Agrees u → s.Agrees (r u)) (hsame : ∀ u, (r u).token = u.token ∧ (r u).scanner = u.scanner)
    (hf : ∀ a u, v → s.Reaches u ls → R a → Decided s w ms S (f a u)) :
    Decided s (v ∧ w) ms S ((x >>= fun a => modify r >>= fun _ => f a) t) := by
  refine Concluded.bind hx fun a u hv ha => ?_
  exact hf a (r u) hv ⟨hr u ha.1.toAgrees, ha.1.faces.of_eq (hsame u).1 (hsame u).2⟩ ha.2

theorem discard {x : Recognizer α} (ht : s.Agrees t) (hx : Decided t v ls R (x t)) :
    Decided s v ls (fun _ => True) ((Functor.discard x : Recognizer Unit) t) :=
  Decided.andThen (f := fun _ => pure ()) ht hx fun _ _ _ hu _ => ⟨trivial, hu, trivial⟩

theorem advanceWith {goal : LexicalGoal} {f : Unit → Recognizer β} (ht : s.Reaches t (l :: ls))
    (hgoal : goal ≠ .templateTail) (hf : ∀ u, s.Reaches u ls → Decided s w ms S (f () u)) :
    Decided s w ms S ((Grammar.advanceWith goal >>= f) t) := by
  obtain ⟨u, hu, hreaches, _⟩ := advanceWith_reaches ht hgoal
  rw [bind_of_ok hu]
  exact hf u hreaches

theorem advance {f : Unit → Recognizer β} (ht : s.Reaches t (l :: ls))
    (hf : ∀ u, s.Reaches u ls → Decided s w ms S (f () u)) : Decided s w ms S ((Grammar.advance >>= f) t) :=
  advanceWith ht (goalAfter_ne_templateTail t.token) hf

/-- The lexemes end with the current one. -/
theorem lastAdvance {goal : LexicalGoal} (ht : s.Reaches t (l :: ls)) (hgoal : goal ≠ .templateTail) :
    Decided s True ls (fun _ => True) (Grammar.advanceWith goal t) := by
  obtain ⟨u, hu, hreaches, _⟩ := advanceWith_reaches ht hgoal
  rw [hu]
  exact ⟨trivial, hreaches, trivial⟩

theorem expectWith {p : Punctuator} {goal : LexicalGoal} {f : Unit → Recognizer β}
    (ht : s.Reaches t (.punctuator p :: ls)) (hgoal : goal ≠ .templateTail)
    (hf : ∀ u, s.Reaches u ls → Decided s w ms S (f () u)) :
    Decided s w ms S ((Grammar.expectWith p goal >>= f) t) := by
  obtain ⟨u, hu, hreaches⟩ := expectWith_reaches ht hgoal
  rw [bind_of_ok hu]
  exact hf u hreaches

theorem lastExpectWith {p : Punctuator} {goal : LexicalGoal} (ht : s.Reaches t (.punctuator p :: ls))
    (hgoal : goal ≠ .templateTail) : Decided s True ls (fun _ => True) (Grammar.expectWith p goal t) := by
  obtain ⟨u, hu, hreaches⟩ := expectWith_reaches ht hgoal
  rw [hu]
  exact ⟨trivial, hreaches, trivial⟩

theorem expect {p : Punctuator} {f : Unit → Recognizer β} (ht : s.Reaches t (.punctuator p :: ls))
    (hf : ∀ u, s.Reaches u ls → Decided s w ms S (f () u)) : Decided s w ms S ((Grammar.expect p >>= f) t) :=
  expectWith ht (goalAfter_ne_templateTail t.token) hf

theorem eat {p : Punctuator} {f : Bool → Recognizer β} (ht : s.Reaches t (.punctuator p :: ls))
    (hf : ∀ u, s.Reaches u ls → Decided s w ms S (f true u)) : Decided s w ms S ((Grammar.eat p >>= f) t) := by
  obtain ⟨u, heat, hreaches⟩ := eat_reaches ht
  rw [bind_of_ok heat]
  exact hf u hreaches

/-! ### Repetitions -/

section

variable {turn : α → Recognizer (Turn α β)} {a : α} {n : Nat}

theorem loop (h : ∀ n, Decided s w ms S (repeatTurns turn n a t)) : Decided s w ms S (Grammar.loop a turn t) :=
  Concluded.loop h

theorem done {b : β} {u : State} (h : turn a t = .ok (.done b) u) (hb : Decided s w ms S (.ok b u)) (n : Nat) :
    Decided s w ms S (repeatTurns turn n a t) :=
  Concluded.done h hb n

/-- The next turn is the last and decides something. -/
theorem finish (hturn : Decided s w ms (fun r => ∃ b, r = .done b ∧ S b) (turn a s)) (n : Nat) :
    Decided s w ms S (repeatTurns turn n a s) := by
  cases n with
  | zero => exact Concluded.noTurn
  | succ n =>
    refine (Decided.bind (.refl s) hturn fun r u _ hu hr => ?_).iff (iff_of_eq (and_true w))
    obtain ⟨b, rfl, hb⟩ := hr
    exact ⟨trivial, hu, hb⟩

/-- The next turn decides something, and the others the rest. -/
theorem again {v : Prop} {k : List Lexeme} {R : α → Prop} (ht : s.Agrees t)
    (hturn : Decided t v k (fun r => ∃ b, r = .again b ∧ R b) (turn a t))
    (hrest : ∀ b u n, v → s.Reaches u k → R b → Decided s w ms S (repeatTurns turn n b u)) (n : Nat) :
    Decided s (v ∧ w) ms S (repeatTurns turn n a t) := by
  refine Concluded.again (R := fun b u => s.Reaches u k ∧ R b) (Concluded.imp hturn fun _ r u hr => ?_)
    (fun b u turns hb => ⟨⟨⟨hb.1.surroundings, hb.1.isModule⟩, hb.1.faces.of_eq rfl rfl⟩, hb.2⟩)
    (fun b u n hv hb => hrest b u n hv hb.1 hb.2) n
  obtain ⟨hu, b, rfl, hb⟩ := hr
  exact ⟨b, rfl, .of_agrees ht hu, hb⟩

end

end Decided

/-! ## Items with commas between them -/

/-- One turn of the items before the closing punctuator. -/
def itemTurn (close : Punctuator) (item : α → Recognizer α) (value : α) : Recognizer (Turn α α) := do
  if ← isAt close then return .done value
  let next ← item value
  unless ← isAt close do expect .comma
  return .again next

theorem itemsUntil_eq (close : Punctuator) (first : α) (item : α → Recognizer α) :
    itemsUntil close first item = loop first (itemTurn close item) := rfl

section

variable {s : State} {v w : Prop} {first : Lexeme} {ls ms rest : List Lexeme} {close : Punctuator}
  {item : α → Recognizer α} {a : α} {R S : α → Prop}

/-- No item is left. -/
theorem items_end (hs : s.Faces (.punctuator close :: ls)) (n : Nat) :
    Decided s True (.punctuator close :: ls) (· = a) (repeatTurns (itemTurn close item) n a s) := by
  refine Decided.done (b := a) (u := s) (S := (· = a)) ?_ ⟨trivial, .refl hs, rfl⟩ n
  unfold itemTurn
  rw [isAt_bind, isPunctuator_of_kind hs.kind, if_pos (by exact decide_eq_true rfl)]
  rfl

theorem itemTurn_of_not (hs : s.Faces (first :: rest)) (hfirst : first.kind ≠ .punctuator close) :
    itemTurn close item a s = (do
      let next ← item a
      unless ← isAt close do expect .comma
      return .again next : Recognizer (Turn α α)) s := by
  unfold itemTurn
  rw [isAt_bind, (isPunctuator_of_kind hs.kind close).trans (decide_eq_false hfirst), if_neg Bool.false_ne_true]

/-- The last item, without a comma after it. -/
theorem items_last (hs : s.Faces (first :: rest)) (hfirst : first.kind ≠ .punctuator close)
    (hitem : Decided s v (.punctuator close :: ls) R (item a s)) (n : Nat) :
    Decided s v (.punctuator close :: ls) R (repeatTurns (itemTurn close item) n a s) := by
  refine Decided.iff (.again (k := .punctuator close :: ls) (R := R) (.refl s) ?_ (fun b u n _ hu hb => ?_) n)
    (iff_of_eq (and_true v))
  · rw [itemTurn_of_not hs hfirst]
    refine Decided.andThen (.refl s) hitem fun b u _ hu hb => ?_
    rw [isAt_bind, isPunctuator_of_kind hu.kind, if_pos (by exact decide_eq_true rfl)]
    exact ⟨trivial, hu, b, rfl, hb⟩
  · exact .of_agrees hu.toAgrees ((items_end hu.faces n).imp fun _ c hc => hc ▸ hb)

/-- An item with a comma, and what comes after it. -/
theorem items_more (hs : s.Faces (first :: rest)) (hfirst : first.kind ≠ .punctuator close) (hclose : close ≠ .comma)
    (hitem : Decided s v (.punctuator .comma :: ls) R (item a s))
    (hrest : ∀ b u n, v → s.Reaches u ls → R b → Decided s w ms S (repeatTurns (itemTurn close item) n b u)) (n : Nat) :
    Decided s (v ∧ w) ms S (repeatTurns (itemTurn close item) n a s) := by
  refine .again (k := ls) (R := R) (.refl s) ?_ hrest n
  rw [itemTurn_of_not hs hfirst]
  refine Decided.andThen (.refl s) hitem fun b u _ hu hb => ?_
  have hat : u.token.isPunctuator close = false := by
    rw [isPunctuator_of_kind hu.kind]
    refine decide_eq_false fun h => hclose ?_
    cases h
    rfl
  rw [isAt_bind, hat, if_neg Bool.false_ne_true]
  exact .expect hu fun t ht => ⟨trivial, ht, b, rfl, hb⟩

end

end EcmaCheck.Grammar
