import EcmaCheck.Grammar.Function
import EcmaCheck.Proofs.Lockstep.Binding

/-!
# Functions in lockstep

Statement lists, their directives (`Simulation.Prologues`), function bodies, parameters, functions and methods. A
function that is an expression ends as an operand does.
-/

namespace EcmaCheck.Grammar.Simulation

set_option synthInstance.maxSize 20000

variable {sim : Simulation} {b : Bool} {k c : Nat} {s₁ s₂ : State} {nested₁ nested₂ : Derivation}
  [∀ p, Moves (nested₁ p)]

/-! ## Statement lists -/

protected theorem Derives.statementList (hd : sim.Derives k nested₁ nested₂) (topLevel : Bool)
    (hs : sim.At b k c s₁ s₂) (hc : 3 ≤ c) :
    sim.Yields Eq false k c (statementList nested₁ topLevel s₁) (statementList nested₂ topLevel s₂) := by
  refine hs.weaken.loop Eq rfl fun c' _ _ t₁ t₂ hc' _ ht => ?_
  refine .bind_token (.ite ?_ (fun _ => .ok ⟨rfl, ht.mono hc'⟩) fun _ => ?_)
  · rw [ht.tokens.isEnd, ht.tokens.isPunctuator]
  · have hitem := hd.production (.statementListItem topLevel) ht (Nat.le_trans hc hc') nofun
    exact hitem.bind fun _ _ u₁ u₂ _ h => .ok ⟨rfl, h⟩

/-- The same directives at corresponding places. -/
structure Prologues (sim : Simulation) (d₁ d₂ : Directives) : Prop where
  useStrict? : Option.Rel sim.place d₁.useStrict? d₂.useStrict?
  octalEscape? : Option.Rel sim.place d₁.octalEscape? d₂.octalEscape?

protected theorem At.noteDirective {t₁ t₂ : Token} {legacy : Bool} {d₁ d₂ : Directives} (hs : sim.At b k c s₁ s₂)
    (ht : sim.Tokens t₁ t₂) (hd : sim.Prologues d₁ d₂) :
    sim.Yields sim.Prologues b k c (noteDirective t₁ legacy d₁ s₁) (noteDirective t₂ legacy d₂ s₂) := by
  have octal : Option.Rel sim.place (if legacy = true then d₁.octalEscape?.or (some t₁.start) else d₁.octalEscape?)
      (if legacy = true then d₂.octalEscape?.or (some t₂.start) else d₂.octalEscape?) := by
    cases legacy with
    | true => exact rel_or hd.octalEscape? (.some ht.start)
    | false => exact hd.octalEscape?
  unfold noteDirective
  generalize (if legacy = true then d₁.octalEscape?.or (some t₁.start) else d₁.octalEscape?) = o₁ at *
  generalize (if legacy = true then d₂.octalEscape?.or (some t₂.start) else d₂.octalEscape?) = o₂ at *
  refine .ite ?_ (fun _ => ?_) fun _ => .ok ⟨⟨hd.useStrict?, octal⟩, hs⟩
  · simp only [isUseStrict, ht.lexeme]
  · obtain h | _ := octal
    · exact hs.failFirst h rfl
    · refine .bind_modify (.ok ⟨⟨rel_or hd.useStrict? (.some ht.start), .none⟩, ?_⟩)
      exact hs.withContext fun x => { x with strict := true }

protected theorem Derives.directives (hd : sim.Derives k nested₁ nested₂) (hs : sim.At b k c s₁ s₂)
    (hc : 1 ≤ c) :
    sim.Yields sim.Prologues false k c (directives nested₁ s₁) (directives nested₂ s₂) := by
  refine hs.weaken.loopMoving sim.Prologues ⟨.none, .none⟩ (fun d => .bind inferInstance fun first => ?_)
    fun c' d₁ d₂ t₁ t₂ hc' hp ht => ?_
  · split <;> infer_instance
  refine .bind_token ?_
  have hfirst := ht.tokens
  rw [hfirst.kind]
  cases hkind : t₁.token.kind with
  | string legacy =>
    refine (hd.expression true ht (by omega)).discard.bind fun _ _ u₁ u₂ _ hu => .bind_get ?_
    have hoffset :=
      sim.offset_eq_iff (sim.stop_of_input hu.input) (hfirst.stop (Token.isEnd_of_kind hkind (by rintro ⟨⟩)))
    refine hu.consumeSemicolon.bind fun _ _ v₁ v₂ _ hv => ?_
    refine .branch hoffset (fun _ => ?_) fun _ => .ok ⟨hp, hv.mono (by omega)⟩
    exact (hv.noteDirective hfirst hp).bind fun _ _ _ _ hd h => .ok ⟨hd, h⟩
  | _ => exact .ok ⟨hp, ht.mono hc'⟩

namespace Derives

variable (hd : sim.Derives k nested₁ nested₂)

include hd

protected theorem functionBody {simple : Bool} {close : LexicalGoal} [hgoal : Ordinary close]
    (hs : sim.At b k c s₁ s₂) (hc : 1 ≤ c) :
    sim.Yields Eq (close = .division) k (c + 2) (functionBody nested₁ simple close s₁)
      (functionBody nested₂ simple close s₂) := by
  refine hs.expectBlock.bindMoving (fun _ => .bind inferInstance fun d => .bind inferInstance fun _ => ?_)
    fun _ _ t₁ t₂ _ ht => ?_
  · dsimp only
    split <;> infer_instance
  refine (hd.directives ht (by omega)).bindMoving (fun d => .bind inferInstance fun _ => ?_)
    fun d₁ d₂ u₁ u₂ hp hu => ?_
  · dsimp only
    split <;> infer_instance
  refine (hd.statementList false hu (by omega)).bindMoving (fun _ => ?_) fun _ _ v₁ v₂ _ hv => ?_
  · dsimp only
    split <;> infer_instance
  obtain ⟨strict₁, octal₁⟩ := d₁
  obtain ⟨strict₂, octal₂⟩ := d₂
  have hstrict := hp.useStrict?
  cases simple with
  | true => cases hstrict <;> exact (hv.expectWith hgoal.ne).lower (by omega)
  | false =>
    cases hstrict with
    | some h => exact hv.failFirst h rfl
    | none => exact (hv.expectWith hgoal.ne).lower (by omega)

/-! ## Parameters -/

protected theorem parameters (hs : sim.At b k c s₁ s₂) :
    sim.Yields Eq false k (c + 2) (parameters nested₁ s₁) (parameters nested₂ s₂) := by
  refine hs.expect.bind fun _ _ t₁ t₂ _ ht => ?_
  refine Outcome.seq (fun ps₁ ps₂ u₁ u₂ => ps₁ = ps₂ ∧ sim.At false k (c + 1) u₁ u₂) ?_
    fun ps₁ ps₂ u₁ u₂ hps => hps.2.expect.bind fun _ _ v₁ v₂ _ h => .ok ⟨hps.1, h.weaken⟩
  refine ht.weaken.loop Eq rfl fun c' ps₁ ps₂ u₁ u₂ hc hps hu => ?_
  subst hps
  refine .bind_isAt (.ite (hu.tokens.isPunctuator _) (fun _ => .ok ⟨rfl, hu.mono hc⟩) fun _ => ?_)
  refine hu.eat (fun v₁ v₂ hv => ?_) fun _ => ?_
  · refine (hd.bindingTarget false hv (by omega)).bind fun _ _ w₁ w₂ _ hw => ?_
    exact (hw.requireLast rfl).bind fun _ _ x₁ x₂ hx => .ok ⟨rfl, hx.1.mono (by omega)⟩
  · refine (hd.bindingElement hu (by omega)).bind fun plain₁ plain₂ v₁ v₂ hplain hv => ?_
    subst hplain
    exact hv.separator fun _ _ hw => ⟨rfl, hw⟩

/-! ## Functions and methods -/

protected theorem parametersAndBody {m : Modifiers} {close : LexicalGoal} [Ordinary close]
    (hs : sim.At b k c s₁ s₂) :
    sim.Yields Eq (close = .division) k (c + 2) (parametersAndBody nested₁ m close s₁)
      (parametersAndBody nested₂ m close s₂) := by
  refine .bind_token ((hd.parameters hs).bind fun ps₁ ps₂ t₁ t₂ hps ht => ?_)
  subst hps
  refine ht.failIf rfl (fun he => sim.fault_of_place (isFixed_of_accessorError? he) hs.tokens.start) (.bind_modify ?_)
  have hbody := ht.withContext fun x => x.inBody m.isGenerator m.isAsync
  exact (hd.functionBody hbody (by omega)).lower (by omega)

omit hd in
/-- A name that may be missing, unless it is required. -/
theorem optionalName {α : Type} {required : Bool} {check₁ check₂ : Identifier → Recognizer Unit}
    {f₁ f₂ : Unit → Recognizer α} {post : α → α → State → State → Prop} (hs : sim.At b k c s₁ s₂)
    (hcheck : ∀ i₁ i₂, sim.Identifiers i₁ i₂ →
      sim.Outcome (fun _ _ t₁ t₂ => t₁ = s₁ ∧ t₂ = s₂) (check₁ i₁ s₁) (check₂ i₂ s₂))
    (hf : ∀ t₁ t₂, sim.At false k c t₁ t₂ → sim.Outcome post (f₁ () t₁) (f₂ () t₂))
    [hmoves : ∀ a, Moves (f₁ a)] :
    sim.Outcome post
      ((match identifier? s₁.token with
        | some i => check₁ i >>= fun _ => advance >>= f₁
        | none => if required = true then expectedIdentifier >>= f₁ else f₁ ()) s₁)
      ((match identifier? s₂.token with
        | some i => check₂ i >>= fun _ => advance >>= f₂
        | none => if required = true then expectedIdentifier >>= f₂ else f₂ ()) s₂) := by
  obtain ⟨h₁, h₂⟩ | ⟨i₁, i₂, hi, h₁, h₂, ht⟩ := hs.identifier?_cases
  · rw [h₁, h₂]
    exact .ite rfl (fun _ => hs.expectedIdentifierFirst) fun _ => hf _ _ hs.weaken
  · rw [h₁, h₂]
    refine (hcheck i₁ i₂ hi).bind fun _ _ t₁ t₂ h => ?_
    obtain ⟨rfl, rfl⟩ := h
    exact (hs.pass (Token.isEnd_of_endsOperand ht)).bind fun _ _ t₁ t₂ _ h => hf _ _ (h.mono (by omega))

protected theorem function {isAsync declaration nameRequired : Bool} (hs : sim.At b k c s₁ s₂)
    (he : s₁.token.isEnd = false) :
    sim.Yields sim.Summaries (!declaration) k (c + 1) (function nested₁ isAsync declaration nameRequired s₁)
      (function nested₂ isAsync declaration nameRequired s₂) := by
  refine .bind_token ((hs.pass he).bindMoving (fun _ => .bind inferInstance fun _ => .bind inferInstance fun s => ?_)
    fun _ _ t₁ t₂ _ ht => ?_)
  · dsimp only
    split <;> infer_instance
  have hstart := hs.tokens.start
  refine ht.eatAny.bindMoving (fun _ => .bind inferInstance fun s => ?_) fun g₁ g₂ u₁ u₂ hg hu => ?_
  · dsimp only
    split <;> infer_instance
  subst hg
  refine .bind_get (optionalName hu (fun i₁ i₂ hi => hu.check ?_ fun he =>
    sim.fault_of_place (Context.isFixed_of_bindingError? he) hi.position) fun v₁ v₂ hv => ?_)
  · rw [hu.context, hu.isModule, bindingError?_eq hi]
  · rw [hu.context, hu.isModule]
    refine (hv.inFunctionContext rfl fun w₁ w₂ hw => hd.parametersAndBody hw).bind fun _ _ w₁ w₂ _ hw => ?_
    refine .ok ⟨.other hstart, hw.weaken_to ?_ (by omega)⟩
    cases declaration <;> decide

protected theorem functionDeclaration {isAsync : Bool} (hs : sim.At b k c s₁ s₂) (he : s₁.token.isEnd = false) :
    sim.Yields Eq false k (c + 1) (functionDeclaration nested₁ isAsync s₁) (functionDeclaration nested₂ isAsync s₂) :=
  (hd.function hs he).discard

omit hd in
/-- A function declaration begins with a word. -/
theorem opens_functionDeclaration {isAsync : Bool} {s : State} :
    sim.Opens s (functionDeclaration nested₁ isAsync s) := by
  have hword : sim.Opens s (function nested₁ isAsync true true s) := by
    refine .bind_token (.bind .advance fun _ => .bind inferInstance fun _ => .bind inferInstance fun s => ?_)
    dsimp only
    split <;> infer_instance
  change sim.Opens s ((function nested₁ isAsync true true >>= fun _ => pure ()) s)
  exact hword.bind inferInstance

protected theorem method {m : Modifiers} {superCall : Bool} (hs : sim.At b k c s₁ s₂) :
    sim.Yields Eq true k (c + 2) (method nested₁ m superCall s₁) (method nested₂ m superCall s₂) := by
  refine .bind_get ?_
  rw [hs.context, hs.isModule]
  exact hs.inFunctionContext rfl fun t₁ t₂ ht => hd.parametersAndBody ht

end Derives

end EcmaCheck.Grammar.Simulation
