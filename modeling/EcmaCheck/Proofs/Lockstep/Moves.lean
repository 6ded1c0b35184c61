import EcmaCheck.Proofs.Trait.Productions

/-!
# How recognizers move

A recognizer only moves as `Input.Leads` says, whatever state it begins in, and what kind of program the text is does
not change (`Moves`). This is a trait, so that every production moves if the nested ones do, and every derivation moves.
-/

namespace EcmaCheck.Grammar

set_option synthInstance.maxSize 20000

variable {α β : Type}

/-- A recognition that began in the state may end with the result. -/
def Moved (s : State) : EStateM.Result Fault State α → Prop
  | .ok _ t => s.input.Leads true t.input ∧ t.isModule = s.isModule
  | .error _ t => s.input.Leads false t.input

namespace Moved

variable {s : State}

theorem stay {t : State} {a : α} (h : t.input = s.input) (hmodule : t.isModule = s.isModule) : Moved s (.ok a t) := by
  refine ⟨?_, hmodule⟩
  rw [h]
  exact .done _

theorem fault {f : Fault} : Moved s (.error f s : EStateM.Result Fault State α) :=
  .fails _ s.scanner

protected theorem bind {x : Recognizer α} {f : α → Recognizer β} (hx : Moved s (x s))
    (hf : ∀ a t, x s = .ok a t → Moved t (f a t)) : Moved s ((x >>= f) s) := by
  change Moved s (EStateM.bind x f s)
  unfold EStateM.bind
  cases h : x s with
  | ok a t =>
    rw [h] at hx
    have hft := hf a t h
    change Moved s (f a t)
    cases hr : f a t with
    | ok b u => rw [hr] at hft; exact ⟨hx.1.trans hft.1, hft.2.trans hx.2⟩
    | error => rw [hr] at hft; exact hx.1.trans hft
  | error g t =>
    rw [h] at hx
    exact hx

end Moved

/-- A token is only read again where that is meant. -/
theorem Moved.rescan {s : State} {goal : LexicalGoal} (h : Rereads s.token goal) : Moved s (rescan goal s) := by
  unfold Grammar.rescan State.receive
  rcases hr : s.scanner.rescan goal s.token with ⟨f | t, scanner⟩
  · exact .fails s.input scanner
  · exact ⟨.rescan h (congrArg s.input.receive hr) (.done _), rfl⟩

theorem Moved.advanceWith {s : State} {goal : LexicalGoal} (h : goal ≠ .templateTail) :
    Moved s (advanceWith goal s) := by
  unfold Grammar.advanceWith State.receive
  rcases hr : s.scanner.next goal with ⟨f | t, scanner⟩
  · exact .misreads scanner
  · exact ⟨.advance h (congrArg s.input.consume.receive hr) (.done _), rfl⟩

theorem Moved.rereadDivision {body : Recognizer α} (h : ∀ s, Moved s (body s)) (s : State) : Moved s ((do
    if (← isAt .slash) || (← isAt .slashAssign) then Grammar.rescan .regExp
    body : Recognizer α) s) := by
  by_cases hdivision : isDivision s.token = true
  · have hrun : (do
        if (← isAt .slash) || (← isAt .slashAssign) then Grammar.rescan .regExp
        body : Recognizer α) s = (Grammar.rescan .regExp >>= fun _ => body) s :=
      congrFun (if_pos hdivision) s
    rw [hrun]
    exact (Moved.rescan (.regExp hdivision)).bind fun _ t _ => h t
  · have hrun : (do
        if (← isAt .slash) || (← isAt .slashAssign) then Grammar.rescan .regExp
        body : Recognizer α) s = body s :=
      congrFun (if_neg hdivision) s
    rw [hrun]
    exact h s

theorem Moved.rereadBrace (s : State) : Moved s ((do
    unless ← isAt .closeBrace do unexpected
    Grammar.rescan .templateTail
    return .again () : Recognizer (Turn Unit Unit)) s) := by
  by_cases h : s.token.isPunctuator .closeBrace = true
  · have hrun : (do
        unless ← isAt .closeBrace do unexpected
        Grammar.rescan .templateTail
        return .again () : Recognizer (Turn Unit Unit)) s =
          (Grammar.rescan .templateTail >>= fun _ => pure (.again ())) s :=
      congrFun (if_pos h) s
    rw [hrun]
    exact (Moved.rescan (.template h)).bind fun _ t _ => .stay rfl rfl
  · have hrun : (do
        unless ← isAt .closeBrace do unexpected
        Grammar.rescan .templateTail
        return .again () : Recognizer (Turn Unit Unit)) s = .error (unexpectedFault s.token) s :=
      congrFun (if_neg h) s
    rw [hrun]
    exact .fault

/-! ## Moving as a trait -/

/-- The recognizer gets along only as a recognition may. -/
def movingTrait : Trait where
  Holds x := ∀ s, Moved s (x s)
  holds_pure _ _ := .stay rfl rfl
  holds_bind hx hf s := (hx s).bind fun a t _ => hf a t
  holds_throw _ _ := .fault
  holds_get _ := .stay rfl rfl
  holds_advanceWith h _ := .advanceWith h
  holds_peek s := by
    unfold peek
    split
    · exact .stay rfl rfl
    · exact .fault
  holds_rereadDivision h s := .rereadDivision h s
  holds_rereadBrace := .rereadBrace
  holds_omitSemicolon s := ⟨.noteOmission (.done s.input.noteOmission), rfl⟩
  holds_noteOperandStart s := ⟨.noteStart (.done s.input.noteStart), rfl⟩
  holds_noteOperandEnd _ s := ⟨.noteEnd (.done s.input.noteEnd), rfl⟩
  holds_noteTurn found s := ⟨.noteTurn found (.done (s.input.noteTurn found)), rfl⟩

/-- A recognizer may begin in another state that stands at the same place. -/
theorem moved_in {s t : State} {r : EStateM.Result Fault State α} (h : Moved t r) (ht : t.input = s.input)
    (hmodule : t.isModule = s.isModule) : Moved s r := by
  cases r with
  | ok => exact ⟨ht ▸ h.1, h.2.trans hmodule⟩
  | error =>
    unfold Moved at h ⊢
    rwa [ht] at h

/-- The surroundings of productions are no matter of how recognizers move. -/
def moving : Discipline where
  outer := movingTrait
  inner := movingTrait
  inner_of_outer h := h
  holds_changeContext _ _ := .stay rfl rfl
  holds_inFunctionContext _ h _ := moved_in ((h _).bind fun _ _ _ => .stay rfl rfl) rfl rfl
  holds_classBody hbody hrest _ :=
    moved_in ((hbody _).bind fun _ _ _ => moved_in (hrest _) rfl rfl) rfl rfl
  holds_strictly hbody _ := moved_in ((hbody _).bind fun _ _ _ => .stay rfl rfl) rfl rfl
  holds_loopBody h _ := moved_in ((h _).bind fun _ _ _ => .stay rfl rfl) rfl rfl
  holds_clauses hbody hrest _ :=
    moved_in ((hbody _).bind fun _ _ _ => moved_in (hrest _) rfl rfl) rfl rfl

/-- The recognizer gets along only as a recognition may. -/
abbrev Moves (x : Recognizer α) : Prop :=
  Has moving.outer x

theorem Moves.moved {x : Recognizer α} (h : Moves x) (s : State) : Moved s (x s) :=
  h.holds s

theorem Moves.moved_of_ok {x : Recognizer α} {s t : State} {a : α} (h : Moves x) (hrun : x s = .ok a t) :
    s.input.Leads true t.input := by
  have hmoved := h.moved s
  rw [hrun] at hmoved
  exact hmoved.1

theorem Moves.isModule_of_ok {x : Recognizer α} {s t : State} {a : α} (h : Moves x) (hrun : x s = .ok a t) :
    t.isModule = s.isModule := by
  have hmoved := h.moved s
  rw [hrun] at hmoved
  exact hmoved.2

protected theorem Moves.bind {x : Recognizer α} {f : α → Recognizer β} (hx : Moves x) (hf : ∀ a, Moves (f a)) :
    Moves (x >>= f) :=
  Has.bind hx hf

instance (priority := low) (x : Recognizer α) [h : Has moving.inner x] : Moves x :=
  ⟨h.holds⟩

instance (depth attachedLabels classDepth : State → Nat) (context : State → Context) (labels : State → List Label) :
    Moves (modify fun s => { s with
      depth := depth s, context := context s, labels := labels s, attachedLabels := attachedLabels s,
      classDepth := classDepth s } : Recognizer Unit) :=
  ⟨fun _ => .stay rfl rfl⟩

/-! ## Derivations -/

variable {nested : Derivation} [∀ p, Moves (nested p)]

instance (attached : Nat) (i : Identifier) : Moves (labelledStatement nested attached i) := by
  unfold labelledStatement
  dsimp only
  infer_instance

instance (attached : Nat) (i : Identifier) : Moves (identifierStatement nested attached i) := by
  unfold identifierStatement
  dsimp only
  infer_instance

omit [∀ p, Moves (nested p)] in
instance (attached : Nat) : Moves (markLabels attached) := by
  unfold markLabels
  infer_instance

instance : Moves (expandStatement nested) := by
  unfold expandStatement
  dsimp only
  repeat' first
    | infer_instance
    | split
    | refine .bind inferInstance fun _ => ?_

instance (topLevel : Bool) : Moves (expandStatementListItem nested topLevel) := by
  unfold expandStatementListItem
  dsimp only
  infer_instance

instance (p : Production) : Moves (expand nested p) := by
  cases p <;> unfold expand <;> infer_instance

instance (body : Recognizer α) [Moves body] : Moves (deeper body) := by
  unfold deeper
  infer_instance

omit [∀ p, Moves (nested p)] in
instance (levels : Nat) (p : Production) : Moves (derive levels p) := by
  induction levels generalizing p with
  | zero =>
    unfold derive
    infer_instance
  | succ levels ih =>
    rw [derive_succ]
    infer_instance

end EcmaCheck.Grammar
