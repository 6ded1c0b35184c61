import EcmaCheck.Grammar.Class
import EcmaCheck.Proofs.Lockstep.Function

/-!
# Classes in lockstep

Members, class bodies and whole classes. A class body opens a level for private names and closes it again, so that the
states agree on it before and after.
-/

namespace EcmaCheck.Grammar.Simulation.Derives

set_option synthInstance.maxSize 20000

variable {sim : Simulation} {b : Bool} {k c : Nat} {s₁ s₂ : State} {nested₁ nested₂ : Derivation}
  [∀ p, Moves (nested₁ p)]
  (hd : sim.Derives k nested₁ nested₂)

include hd

protected theorem staticBlock (hs : sim.At b k c s₁ s₂) (hc : 1 ≤ c) :
    sim.Yields Eq true k (c + 2) (staticBlock nested₁ s₁) (staticBlock nested₂ s₂) := by
  refine hs.inFunctionContext rfl fun t₁ t₂ ht => ?_
  refine ht.expectBlock.bind fun _ _ u₁ u₂ _ hu => ?_
  refine (hd.statementList false hu (by omega)).bind fun _ _ v₁ v₂ _ hv => ?_
  exact (hv.expectWith (by decide)).lower (by omega)

protected theorem classMember {derived hasConstructor isStatic : Bool} (hs : sim.At b k c s₁ s₂) :
    sim.Yields Eq false k (c + 1) (classMember nested₁ derived hasConstructor isStatic s₁)
      (classMember nested₂ derived hasConstructor isStatic s₂) := by
  refine hs.modifiers.bind fun m₁ m₂ t₁ t₂ hm ht => ?_
  subst hm
  refine .bind_token ((hd.propertyName true ht).bind fun key₁ key₂ u₁ u₂ hkey hu => ?_)
  have hstart := ht.tokens.start
  rw [hkey.isPrivate, hkey.name?]
  refine .ite rfl (fun _ => hu.failFirst hstart rfl) fun _ => ?_
  refine .bind_isAt (.ite (hu.tokens.isPunctuator _) (fun _ => ?_) fun _ => ?_)
  · exact hu.failIf rfl (fun he => sim.fault_of_place (isFixed_of_methodError? he) hstart)
      ((hd.method hu).bind fun _ _ v₁ v₂ _ hv => .ok ⟨rfl, hv.weaken.mono (by omega)⟩)
  refine .ite rfl (fun _ => hu.unexpectedFirst) fun _ =>
    hu.failIf rfl (fun he => sim.fault_of_place (isFixed_of_fieldError? he) hstart) ?_
  refine hu.eat (fun v₁ v₂ hv => ?_) fun _ => hu.consumeSemicolon.bind fun _ _ _ _ _ h => .ok ⟨rfl, h⟩
  refine hv.sameContext ?_
  refine (hv.inFunctionContext rfl fun w₁ w₂ hw => (hd.assignment true hw (by omega)).discard).bind
    fun _ _ w₁ w₂ _ hw => ?_
  exact hw.consumeSemicolon.bind fun _ _ _ _ _ h => .ok ⟨rfl, h.mono (by omega)⟩

protected theorem expandClassElement {derived hasConstructor : Bool} (hs : sim.At b k c s₁ s₂) :
    sim.Yields Eq false k (c + 1) (expandClassElement nested₁ derived hasConstructor s₁)
      (expandClassElement nested₂ derived hasConstructor s₂) := by
  refine .bind_isAtWord (.ite (hs.tokens.isWord _) (fun h => ?_) fun _ => hd.classMember hs)
  have he := Token.isEnd_of_isWord h
  refine hs.peekWord h fun u₁ u₂ hu => .ite (hu.isPunctuator _) (fun _ => ?_) fun _ => ?_
  · refine (hs.pass he).bind fun _ _ t₁ t₂ _ ht => ?_
    exact (hd.staticBlock ht (by omega)).bind fun _ _ v₁ v₂ _ h => .ok ⟨rfl, h.weaken.mono (by omega)⟩
  · refine .ite (endsPropertyName_eq hu) (fun _ => hd.classMember hs) fun _ => ?_
    refine (hs.pass he).bind fun _ _ t₁ t₂ _ ht => ?_
    exact (hd.classMember ht).lower (by omega)

protected theorem classBody {derived : Bool} (hs : sim.At b k c s₁ s₂) (hc : 1 ≤ c) :
    sim.Yields Eq false k c (classBody nested₁ derived s₁) (classBody nested₂ derived s₂) := by
  refine hs.weaken.loop Eq rfl fun c' r₁ r₂ t₁ t₂ hc' hr ht => ?_
  subst hr
  refine .bind_token (.ite (ht.tokens.isPunctuator _) (fun _ => .ok ⟨rfl, ht.mono hc'⟩) fun _ => ?_)
  refine .ite ht.tokens.isEnd (fun _ => ht.unexpectedFirst) fun _ => ht.eat (fun u₁ u₂ hu => .ok ⟨rfl, hu⟩) fun _ => ?_
  exact (hd.production (.classElement derived r₁) ht (Nat.le_trans hc hc') nofun).bind fun _ _ _ _ hr hu => .ok ⟨hr, hu⟩

/-- What a class extends, if it does. -/
theorem extended {α : Type} {f₁ f₂ : Unit → Recognizer α} {post : α → α → State → State → Prop}
    (hs : sim.At b k c s₁ s₂) (hf : ∀ t₁ t₂, sim.At false k c t₁ t₂ → sim.Outcome post (f₁ () t₁) (f₂ () t₂))
    [hmoves : ∀ a, Moves (f₁ a)] :
    sim.Outcome post
      ((if s₁.token.isKeyword .«extends» = true then do
          advance
          let e ← nested₁ .heritage
          requireOperand e >>= f₁
        else f₁ ()) s₁)
      ((if s₂.token.isKeyword .«extends» = true then do
          advance
          let e ← nested₂ .heritage
          requireOperand e >>= f₂
        else f₂ ()) s₂) := by
  refine .ite (hs.tokens.isKeyword _) (fun h => ?_) fun _ => hf _ _ hs.weaken
  refine (hs.pass (Token.isEnd_of_isKeyword h)).bind fun _ _ t₁ t₂ _ ht => ?_
  refine (hd.production .heritage ht (Nat.le_add_left 1 c) nofun).bind fun e₁ e₂ u₁ u₂ he hu => ?_
  exact hu.requireOperand he (hf _ _ (hu.weaken.mono (by omega)))

protected theorem classTail {declaration nameRequired : Bool} (hs : sim.At b k c s₁ s₂)
    (he : s₁.token.isEnd = false) :
    sim.Yields Eq (!declaration) k (c + 1) (classTail nested₁ declaration nameRequired s₁)
      (classTail nested₂ declaration nameRequired s₂) := by
  refine (hs.pass he).bindMoving (fun _ => .bind inferInstance fun t => ?_) fun _ _ t₁ t₂ _ ht => .bind_token ?_
  · dsimp only
    split <;> infer_instance
  refine optionalName ht (fun i₁ i₂ hi => ht.sameContext (ht.check ?_ fun he =>
    sim.fault_of_place (Context.isFixed_of_bindingError? he) hi.position)) fun u₁ u₂ hu => ?_
  · rw [bindingError?_eq hi]
  refine .bind_isAtKeyword (hd.extended hu fun v₁ v₂ hv => ?_)
  rw [hu.tokens.isKeyword]
  refine hv.expect.bind fun _ _ w₁ w₂ _ hw => .bind_modify ?_
  have hopen : sim.At false k (c + 2) { w₁ with classDepth := w₁.classDepth + 1 }
      { w₂ with classDepth := w₂.classDepth + 1 } := { hw.weaken with classDepth := by rw [hw.classDepth] }
  refine (hd.classBody hopen (by omega)).bind fun _ _ x₁ x₂ _ hx => .bind_modify ?_
  have hclosed : sim.At false k (c + 2) { x₁ with classDepth := x₁.classDepth - 1 }
      { x₂ with classDepth := x₂.classDepth - 1 } := { hx with classDepth := by rw [hx.classDepth] }
  cases declaration with
  | true => exact (hclosed.expectWith (by decide)).lower (by omega)
  | false => exact (hclosed.expectWith (by decide)).lower (by omega)

protected theorem classDefinition {declaration nameRequired : Bool} (hs : sim.At b k c s₁ s₂)
    (he : s₁.token.isEnd = false) :
    sim.Yields sim.Summaries (!declaration) k (c + 1) (classDefinition nested₁ declaration nameRequired s₁)
      (classDefinition nested₂ declaration nameRequired s₂) := by
  refine .bind_get (.bind_set ?_)
  have hstrict := hs.withContext fun x => { x with strict := true }
  refine (hd.classTail hstrict he).bind fun _ _ t₁ t₂ _ ht => .bind_modify (.ok ⟨.other hs.tokens.start, ?_⟩)
  exact { ht with context := by rw [ht.context, hs.context] }

end EcmaCheck.Grammar.Simulation.Derives
