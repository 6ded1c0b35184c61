import EcmaCheck.Proofs.Code
import EcmaCheck.Proofs.Following.Binding

/-!
# Functions that follow others

Statement lists, their directives, function bodies, parameters, functions and methods. If a list of the second becomes
strict by a directive, so does the list of the first (`Prologues`).
-/

namespace EcmaCheck.Grammar

set_option synthInstance.maxSize 20000

instance (nested : Derivation) (d : Directives) [∀ p, Moves (nested p)] : Moves (directiveTurn nested d) :=
  .bind inferInstance fun first => by split <;> infer_instance

instance (nested : Derivation) (topLevel : Bool) (u : Unit) [∀ p, Moves (nested p)] :
    Moves (statementTurn nested topLevel u) := by
  unfold statementTurn
  infer_instance

/-- The second directives make nothing strict that the first do not. -/
structure Prologues (d₁ d₂ : Directives) : Prop where
  useStrict? : d₁.useStrict? = none → d₂.useStrict? = none
  octalEscape? : d₁.octalEscape? = none → d₂.octalEscape? = none

namespace Following

variable {F : Following} {α : Type} {b : Bool} {s₁ s₂ : State} {nested₁ nested₂ : Derivation}
  {post : α → α → State → State → Prop}

/-! ## Statement lists -/

protected theorem Derives.statementList (hd : F.Derives nested₁ nested₂) [∀ p, Moves (nested₁ p)]
    [∀ p, Takes (nested₁ p)] (topLevel : Bool) (hs : F.At b s₁ s₂) :
    F.Passes Eq false (statementList nested₁ topLevel s₁) (statementList nested₂ topLevel s₂) := by
  refine hs.weaken.loop Eq rfl fun _ _ t₁ t₂ _ ht => .bind_token (.ite ?_ (fun _ => .ok ⟨rfl, ht⟩) fun _ => ?_)
  · rw [ht.heads.isEnd, ht.heads.isPunctuator .closeBrace]
  · exact (hd.item topLevel ht).bindGentle fun _ _ u₁ u₂ _ hu => .ok ⟨rfl, hu⟩

theorem After.noteDirective {t₁ t₂ : Token} {legacy : Bool} {d₁ d₂ : Directives} (hs : F.After b s₁ s₂)
    (ht : t₂.lexeme = t₁.lexeme) (hd : Prologues d₁ d₂) :
    F.Yields Prologues b (noteDirective t₁ legacy d₁ s₁) (noteDirective t₂ legacy d₂ s₂) := by
  have octal : (if legacy = true then d₁.octalEscape?.or (some t₁.start) else d₁.octalEscape?) = none →
      (if legacy = true then d₂.octalEscape?.or (some t₂.start) else d₂.octalEscape?) = none := by
    cases legacy with
    | true => exact fun h => nomatch (Option.or_eq_none_iff.mp h).2
    | false => exact hd.octalEscape?
  unfold Grammar.noteDirective
  generalize (if legacy = true then d₁.octalEscape?.or (some t₁.start) else d₁.octalEscape?) = o₁ at *
  generalize (if legacy = true then d₂.octalEscape?.or (some t₂.start) else d₂.octalEscape?) = o₂ at *
  refine .ite ?_ (fun _ => ?_) fun _ => .ok ⟨⟨hd.useStrict?, octal⟩, hs⟩
  · simp only [isUseStrict, ht]
  · cases o₁ with
    | some p => exact .error
    | none =>
      cases octal rfl
      refine .bind_modify (.ok ⟨⟨fun h => ?_, fun _ => rfl⟩, hs.withContext hs.context.withStrict⟩)
      exact nomatch (Option.or_eq_none_iff.mp h).2

theorem Derives.directiveTurn (hd : F.Derives nested₁ nested₂) [∀ p, Moves (nested₁ p)] [∀ p, Takes (nested₁ p)]
    {d₁ d₂ : Directives} (hp : Prologues d₁ d₂) (hs : F.After false s₁ s₂) :
    F.Outcome always (AfterTurn (fun d₁ d₂ t₁ t₂ => Prologues d₁ d₂ ∧ F.After false t₁ t₂)
        fun d₁ d₂ t₁ t₂ => Prologues d₁ d₂ ∧ F.After false t₁ t₂)
      (Grammar.directiveTurn nested₁ d₁ s₁) (Grammar.directiveTurn nested₂ d₂ s₂) := by
  refine .bind_token ?_
  cases hstring : s₁.token.isString with
  | true =>
    obtain ⟨legacy, hkind⟩ := kind_of_isString hstring
    rw [hkind]
    refine hs.live fun hat => ?_
    have hfirst := hat.heads.toTwins (isDivision_of_isString hstring)
    rw [hfirst.kind, hkind]
    refine (hd.expression hat).discard.bind fun _ _ u₁ u₂ _ hu => .bind_get ?_
    have hstop := hu.input.elim F.stop_of_input F.stop_of_halted
    have hoffset := F.offset_eq_iff hstop (hfirst.stop (Token.isEnd_of_isString hstring))
    refine hu.consumeSemicolon.bind fun _ _ v₁ v₂ _ hv => .branch hoffset (fun _ => ?_) fun _ => .ok ⟨hp, hv⟩
    exact (hv.noteDirective hfirst.lexeme hp).bind fun _ _ _ _ hd h => .ok ⟨hd, h⟩
  | false =>
    have hstring₂ : s₂.token.isString = false := by
      rcases hs.input with hinput | hhalted
      · exact (F.heads_of_input hinput).isString.trans hstring
      · exact (F.closes_of_halted hhalted).isString
    unfold Token.isString at hstring hstring₂
    cases hkind : s₁.token.kind with
    | string =>
      rw [hkind] at hstring
      cases hstring
    | _ =>
      cases hkind₂ : s₂.token.kind with
      | string =>
        rw [hkind₂] at hstring₂
        cases hstring₂
      | _ => exact .ok ⟨hp, hs⟩

/-- Directives of which some may have been taken already. -/
theorem Derives.moreDirectives (hd : F.Derives nested₁ nested₂) [∀ p, Moves (nested₁ p)] [∀ p, Takes (nested₁ p)]
    (n₁ n₂ : Nat) {d₁ d₂ : Directives} (hp : Prologues d₁ d₂) (hs : F.After false s₁ s₂) :
    F.Yields Prologues false (repeatTurns (Grammar.directiveTurn nested₁) n₁ d₁ s₁)
      (repeatTurns (Grammar.directiveTurn nested₂) n₂ d₂ s₂) :=
  .repeatTurns (fun d₁ d₂ t₁ t₂ => Prologues d₁ d₂ ∧ F.After false t₁ t₂) always
    (fun _ _ _ _ _ _ h => ⟨h.1, h.2.noteTurn⟩) (fun _ _ _ _ _ _ _ _ _ => trivial)
    (fun _ _ _ _ h => (hd.directiveTurn h.1 h.2).ofAlways) (fun _ => inferInstance) n₁ n₂ ⟨hp, hs⟩

protected theorem Derives.directives (hd : F.Derives nested₁ nested₂) [∀ p, Moves (nested₁ p)] [∀ p, Takes (nested₁ p)]
    (hs : F.After b s₁ s₂) : F.Yields Prologues false (directives nested₁ s₁) (directives nested₂ s₂) :=
  .bind_get (hd.moreDirectives _ _ ⟨fun _ => rfl, fun _ => rfl⟩ hs.weaken)

/-- The statements of a script up to where the first may halt, since the second closes a block there. -/
theorem Derives.statements (hd : F.Derives nested₁ nested₂) [∀ p, Moves (nested₁ p)] [∀ p, Takes (nested₁ p)]
    (hblock : ∀ i j, F.halted i j → i.token.isEnd = true ∧ j.token.isPunctuator .closeBrace = true)
    {topLevel₁ topLevel₂ : Bool} (htop : topLevel₂ = topLevel₁ ∨ topLevel₁ = true ∧ topLevel₂ = false)
    (hmodule : s₁.isModule = false) (hs : F.After b s₁ s₂) :
    F.Yields Eq false (statementList nested₁ topLevel₁ s₁) (statementList nested₂ topLevel₂ s₂) := by
  have hturn (t₁ t₂ : State) (ht : F.After false t₁ t₂) (hscript : t₁.isModule = false) :
      F.Outcome always (AfterTurn (fun _ _ u₁ u₂ => F.After false u₁ u₂ ∧ u₁.isModule = false)
        fun a₁ a₂ u₁ u₂ => a₁ = a₂ ∧ F.After false u₁ u₂)
      (statementTurn nested₁ topLevel₁ () t₁) (statementTurn nested₂ topLevel₂ () t₂) := by
    refine .bind_token ?_
    rcases ht.input with hinput | hhalted
    · have hat : F.At false t₁ t₂ := { ht with input := hinput }
      refine .ite ?_ (fun _ => .ok ⟨rfl, ht⟩) fun _ => ?_
      · rw [hat.heads.isEnd, hat.heads.isPunctuator .closeBrace]
      · have hitem : F.Yields Eq false (nested₁ (.statementListItem topLevel₁) t₁)
            (nested₂ (.statementListItem topLevel₂) t₂) := by
          obtain rfl | ⟨rfl, rfl⟩ := htop
          · exact hd.item topLevel₂ hat
          · exact hd.innerItem hat hscript
        refine Outcome.bind (hitem.and_left fun _ u hrun => ?_) fun _ _ u₁ u₂ hu => .ok ⟨hu.1.2, hu.2⟩
        exact (Moves.isModule_of_ok inferInstance hrun).trans hscript
    · obtain ⟨hend, hbrace⟩ := hblock _ _ hhalted
      rw [show t₁.token.isEnd = true from hend, show t₂.token.isPunctuator .closeBrace = true from hbrace, Bool.or_true]
      exact .ok ⟨rfl, ht⟩
  exact .bind_get (.repeatTurns (fun _ _ t₁ t₂ => F.After false t₁ t₂ ∧ t₁.isModule = false) always
    (fun _ _ _ _ _ _ h => ⟨h.1.noteTurn, h.2⟩) (fun _ _ _ _ _ _ _ _ _ => trivial)
    (fun _ _ t₁ t₂ h => (hturn t₁ t₂ h.1 h.2).ofAlways) (fun _ => inferInstance) _ _ ⟨hs.weaken, hmodule⟩)

/-- The code of a script up to where the first may halt. -/
protected theorem Derives.code (hd : F.Derives nested₁ nested₂) [∀ p, Moves (nested₁ p)] [∀ p, Takes (nested₁ p)]
    (hblock : ∀ i j, F.halted i j → i.token.isEnd = true ∧ j.token.isPunctuator .closeBrace = true)
    {topLevel₁ topLevel₂ : Bool} (htop : topLevel₂ = topLevel₁ ∨ topLevel₁ = true ∧ topLevel₂ = false)
    (hmodule : s₁.isModule = false) (n₁ n₂ : Nat) {d₁ d₂ : Directives} (hp : Prologues d₁ d₂)
    (hs : F.After false s₁ s₂) :
    F.Yields Prologues false (code nested₁ topLevel₁ n₁ d₁ s₁) (code nested₂ topLevel₂ n₂ d₂ s₂) := by
  have hmoves : Moves (repeatTurns (Grammar.directiveTurn nested₁) n₁ d₁) := inferInstance
  refine Outcome.bind ((hd.moreDirectives n₁ n₂ hp hs).and_left fun _ u hrun => hmoves.isModule_of_ok hrun)
    fun d₁ d₂ t₁ t₂ ht => ?_
  refine (hd.statements hblock htop (ht.2.trans hmodule) ht.1.2).bind fun _ _ u₁ u₂ _ hu => ?_
  exact .ok ⟨ht.1.1, hu⟩

/-- The statements of a program up to where the first finishes, if it does not finish where it has halted. -/
theorem Derives.statementsToFinish (hd : F.Derives nested₁ nested₂) [∀ p, Moves (nested₁ p)] [∀ p, Takes (nested₁ p)]
    (hlive : ∀ i j, F.halted i j → ¬ F.finish i) (topLevel : Bool) (hs : F.After b s₁ s₂) :
    F.Outcome (fun _ => F.finish) (fun _ _ => F.After false) (statementList nested₁ topLevel s₁)
      (statementList nested₂ topLevel s₂) := by
  refine .bind_get (.repeatTurns (fun _ _ t₁ t₂ => F.After false t₁ t₂) always (fun _ _ _ _ _ _ h => h.noteTurn)
    (fun _ _ _ _ _ _ _ _ _ => trivial) (fun _ _ t₁ t₂ ht => .bind_token ?_) (fun _ => inferInstance) _ _ hs.weaken)
  rcases ht.input with hinput | hhalted
  · have hat : F.At false t₁ t₂ := { ht with input := hinput }
    refine .ite ?_ (fun _ => .ok ht) fun _ => ?_
    · rw [hat.heads.isEnd, hat.heads.isPunctuator .closeBrace]
    · exact Outcome.bind ((hd.item topLevel hat).given_mono fun _ _ _ _ => trivial) fun _ _ _ _ hu => .ok hu.2
  · intro turn u hrun hfinishes hfinish
    by_cases hend : (t₁.token.isEnd || t₁.token.isPunctuator .closeBrace) = true
    · cases (congrFun (if_pos hend) t₁).symm.trans hrun
      exact absurd hfinish (hlive _ _ hhalted)
    · have htakes :
          Takes (nested₁ (.statementListItem topLevel) >>= fun _ => pure (.again ()) : Recognizer (Turn Unit Unit)) :=
        inferInstance
      have hrun := (congrFun (if_neg hend) t₁).symm.trans hrun
      exact absurd ⟨u.input, htakes.takes hrun, hfinishes⟩ (not_continues_of_halted hhalted)

/-- The code of a program up to where the first finishes. -/
theorem Derives.codeToFinish (hd : F.Derives nested₁ nested₂) [∀ p, Moves (nested₁ p)] [∀ p, Takes (nested₁ p)]
    (hlive : ∀ i j, F.halted i j → ¬ F.finish i) (topLevel : Bool) (n₁ n₂ : Nat) {d₁ d₂ : Directives}
    (hp : Prologues d₁ d₂) (hs : F.After false s₁ s₂) :
    F.Outcome (fun _ => F.finish) (fun _ _ => F.After false) (code nested₁ topLevel n₁ d₁ s₁)
      (code nested₂ topLevel n₂ d₂ s₂) := by
  refine Outcome.bind (hd.moreDirectives n₁ n₂ hp hs) fun _ _ t₁ t₂ ht => ?_
  exact (hd.statementsToFinish hlive topLevel ht.2).bindWith (fun _ _ _ _ _ hrun => by cases hrun; exact .done _)
    (fun _ _ _ _ _ hrun _ hfinish => by cases hrun; exact hfinish) fun _ _ _ _ hu => .ok hu

namespace Derives

variable (hd : F.Derives nested₁ nested₂) [∀ p, Moves (nested₁ p)] [∀ p, Takes (nested₁ p)]

include hd

protected theorem functionBody {simple : Bool} {close : LexicalGoal} [hgoal : Ordinary close] (hs : F.At b s₁ s₂) :
    F.Yields Eq true (functionBody nested₁ simple close s₁) (functionBody nested₂ simple close s₂) := by
  refine hs.expect.bindBefore (fun _ => .behind inferInstance fun d => .behind inferInstance fun _ => ?_)
    fun _ _ t₁ t₂ _ ht => ?_
  · dsimp only
    split <;> infer_instance
  refine (hd.directives ht.after).bindBefore (fun d => .behind inferInstance fun _ => ?_) fun d₁ d₂ u₁ u₂ hp hu => ?_
  · dsimp only
    split <;> infer_instance
  refine (hd.statementList false hu).bindBefore (fun _ => ?_) fun _ _ v₁ v₂ hv => ?_
  · dsimp only
    split <;> infer_instance
  obtain ⟨strict₁, octal₁⟩ := d₁
  obtain ⟨strict₂, octal₂⟩ := d₂
  have hstrict := hp.useStrict?
  cases simple with
  | true => cases strict₁ <;> cases strict₂ <;> exact hv.2.expectWith
  | false =>
    cases strict₁ with
    | some p => exact .of_fails
    | none =>
      cases hstrict rfl
      exact hv.2.expectWith

/-! ## Parameters -/

protected theorem parameters (hs : F.At b s₁ s₂) :
    F.Yields Eq true (parameters nested₁ s₁) (parameters nested₂ s₂) := by
  refine hs.expect.bindTaking fun _ _ t₁ t₂ _ ht => ?_
  refine Outcome.bindTaking (P := fun ps₁ ps₂ u₁ u₂ => ps₁ = ps₂ ∧ F.At true u₁ u₂) ?_
    fun ps₁ ps₂ u₁ u₂ hps => hps.2.expect.bind fun _ _ v₁ v₂ _ h => .ok ⟨hps.1, h⟩
  refine ht.loop Eq rfl fun ps₁ ps₂ u₁ u₂ hps hu => ?_
  subst hps
  refine .bind_isAt (.ite (hu.tokens.isPunctuator _) (fun _ => .ok ⟨rfl, hu⟩) fun _ => ?_)
  refine hu.eat (fun v₁ v₂ hv => ?_) fun _ => ?_
  · refine (hd.bindingTarget false hv).bindGentle fun _ _ w₁ w₂ _ hw => ?_
    exact hw.requireLast.bindGentle fun _ _ x₁ x₂ hx => .ok ⟨rfl, hx.1⟩
  · refine (hd.bindingElement hu).bindGentle fun plain₁ plain₂ v₁ v₂ hplain hv => ?_
    subst hplain
    exact hv.separator fun _ _ hw => ⟨rfl, hw⟩

/-! ## Functions and methods -/

protected theorem parametersAndBody {m : Modifiers} {close : LexicalGoal} [Ordinary close] (hs : F.At b s₁ s₂) :
    F.Yields Eq true (parametersAndBody nested₁ m close s₁) (parametersAndBody nested₂ m close s₂) := by
  refine .bind_token ((hd.parameters hs).bindTaking fun ps₁ ps₂ t₁ t₂ hps ht => ?_)
  subst hps
  exact .failIf id (.bind_modify (hd.functionBody (ht.withContext (ht.context.inBody _ _))))

omit hd [∀ p, Moves (nested₁ p)] [∀ p, Takes (nested₁ p)] in
/-- A name that may be missing, unless it is required. -/
theorem optionalName {α : Type} {required : Bool} {check₁ check₂ : Identifier → Recognizer Unit}
    {f₁ f₂ : Unit → Recognizer α} {post : α → α → State → State → Prop} {given : α → Input → Prop} (hs : F.At b s₁ s₂)
    (hcheck : ∀ i₁ i₂ (g₁ g₂ : Unit → Recognizer α), SameName i₁ i₂ →
      F.Outcome given post (g₁ () s₁) (g₂ () s₂) →
      F.Outcome given post ((check₁ i₁ >>= g₁) s₁) ((check₂ i₂ >>= g₂) s₂))
    (hf : ∀ t₁ t₂, F.At false t₁ t₂ → F.Outcome given post (f₁ () t₁) (f₂ () t₂))
    [htakes : ∀ a, Takes (f₁ a)] :
    F.Outcome given post
      ((match identifier? s₁.token with
        | some i => check₁ i >>= fun _ => advance >>= f₁
        | none => if required = true then expectedIdentifier >>= f₁ else f₁ ()) s₁)
      ((match identifier? s₂.token with
        | some i => check₂ i >>= fun _ => advance >>= f₂
        | none => if required = true then expectedIdentifier >>= f₂ else f₂ ()) s₂) := by
  obtain ⟨h₁, h₂⟩ | ⟨i₁, i₂, hi, h₁, h₂, hk⟩ := hs.identifier?_cases
  · rw [h₁, h₂]
    exact .guard id fun _ => hf _ _ hs.weaken
  · rw [h₁, h₂]
    exact hcheck i₁ i₂ _ _ hi ((hs.pass hk).bindTaking fun _ _ t₁ t₂ _ ht => hf _ _ ht.weaken)

protected theorem function {isAsync declaration nameRequired : Bool} (hs : F.At b s₁ s₂)
    (hk : s₂.token.kind = s₁.token.kind) :
    F.Yields Summary.WidensTo true (function nested₁ isAsync declaration nameRequired s₁)
      (function nested₂ isAsync declaration nameRequired s₂) := by
  refine .bind_token
    ((hs.pass hk).bindBefore (fun _ => .behind inferInstance fun _ => .behind inferInstance fun s => ?_)
    fun _ _ t₁ t₂ _ ht => ?_)
  · dsimp only
    split
    · infer_instance
    · split <;> infer_instance
  refine ht.eatAny.bindBefore (fun _ => .behind inferInstance fun s => ?_) fun g₁ g₂ u₁ u₂ hg hu => ?_
  · dsimp only
    split
    · infer_instance
    · split <;> infer_instance
  subst hg
  have hstrict := hu.context.strict
  refine .bind_get (optionalName hu (fun i₁ i₂ g₁ g₂ hi hg => .failIf ?_ hg) fun v₁ v₂ hv => ?_)
  · rw [hu.isModule]
    cases declaration with
    | true => exact hu.context.bindingError? hi.name hi.escaped
    | false => exact (hu.context.ofFunctionName _ _ _).bindingError? hi.name hi.escaped
  · rw [hu.isModule]
    refine (hv.inFunctionContext (.ofFunction hstrict _ _ _) fun w₁ w₂ hw => hd.parametersAndBody hw).bind
      fun _ _ w₁ w₂ _ hw => ?_
    exact .ok ⟨.other _ _, hw⟩

protected theorem functionDeclaration {isAsync : Bool} (hs : F.At b s₁ s₂) (hk : s₂.token.kind = s₁.token.kind) :
    F.Yields Eq true (functionDeclaration nested₁ isAsync s₁) (functionDeclaration nested₂ isAsync s₂) :=
  (hd.function hs hk).discard

protected theorem method {m : Modifiers} {superCall : Bool} (hs : F.At b s₁ s₂) :
    F.Yields Eq true (method nested₁ m superCall s₁) (method nested₂ m superCall s₂) := by
  refine .bind_get ?_
  rw [hs.isModule]
  exact hs.inFunctionContext (.ofMethod hs.context.strict _ _ _ _) fun t₁ t₂ ht => hd.parametersAndBody ht

end Derives

end Following

end EcmaCheck.Grammar
