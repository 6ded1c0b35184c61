import EcmaCheck.Proofs.Following.Function

/-!
# Classes that follow others

Members, class bodies and whole classes. A class is strict in both. What it is nested in is the same for private names.
-/

namespace EcmaCheck.Grammar.Following.Derives

set_option synthInstance.maxSize 20000

variable {F : Following} {b : Bool} {s₁ s₂ : State} {nested₁ nested₂ : Derivation}
  (hd : F.Derives nested₁ nested₂) [∀ p, Moves (nested₁ p)] [∀ p, Takes (nested₁ p)]

include hd

protected theorem staticBlock (hs : F.At b s₁ s₂) :
    F.Yields Eq true (staticBlock nested₁ s₁) (staticBlock nested₂ s₂) := by
  refine hs.inFunctionContext (.refl _) fun t₁ t₂ ht => ?_
  refine ht.expect.bindTaking fun _ _ u₁ u₂ _ hu => ?_
  exact (hd.statementList false hu).bindTaking fun _ _ v₁ v₂ hv => hv.2.expectWith

protected theorem classMember {derived hasConstructor isStatic : Bool} (hs : F.At b s₁ s₂) :
    F.Yields Eq false (classMember nested₁ derived hasConstructor isStatic s₁)
      (classMember nested₂ derived hasConstructor isStatic s₂) := by
  refine hs.modifiers.bindTaking fun m₁ m₂ t₁ t₂ hm => ?_
  obtain ⟨rfl, ht⟩ := hm
  refine .bind_token ((hd.propertyName true ht).bind fun key₁ key₂ u₁ u₂ hkey hu => ?_)
  rw [hkey.isPrivate, hkey.name?]
  refine .guard id fun _ => ?_
  refine .bind_isAt (hu.branch (fun hu => hu.tokens.isPunctuator _) (fun h => h.isPunctuator _)
    (fun _ hu => .failIf id ?_) fun _ => ?_)
  · exact (hd.method hu).bind fun _ _ v₁ v₂ _ hv => .ok ⟨rfl, hv.weaken⟩
  refine .guard id fun _ => .failIf id (hu.eatTaking (fun v₁ v₂ hv => .bind_context ?_) ?_)
  · refine (hv.inFunctionContext hv.context.ofField fun w₁ w₂ hw => (hd.assignment hw).discard).bind
      fun _ _ w₁ w₂ _ hw => ?_
    exact hw.consumeSemicolon.bind fun _ _ _ _ _ h => .ok ⟨rfl, h⟩
  · exact hu.consumeSemicolon.bind fun _ _ _ _ _ h => .ok ⟨rfl, h⟩

protected theorem expandClassElement {derived hasConstructor : Bool} (hs : F.At b s₁ s₂) :
    F.Yields Eq false (expandClassElement nested₁ derived hasConstructor s₁)
      (expandClassElement nested₂ derived hasConstructor s₂) := by
  refine .bind_isAtWord (.ite (hs.heads.isWord _) (fun h => ?_) fun _ => hd.classMember hs)
  refine hs.peekWord h (fun u₁ u₂ hu => .ite (hu.isPunctuator _) (fun _ => ?_) fun _ => ?_) fun u₁ u₂ hu hstuck => ?_
  · refine (hs.passWord h).bindTaking fun _ _ t₁ t₂ _ ht => ?_
    exact (hd.staticBlock ht).bind fun _ _ v₁ v₂ _ h => .ok ⟨rfl, h.weaken⟩
  · refine .ite (endsPropertyName_eq hu) (fun _ => hd.classMember hs) fun _ => ?_
    exact (hs.passWord h).bindTaking fun _ _ t₁ t₂ _ ht => hd.classMember ht
  · -- a member of the second is named `static`; the first would take the next token as well otherwise
    rw [hu.isPunctuator _, hu.endsPropertyName]
    cases u₁.isPunctuator .openBrace with
    | true => exact .of_stuckNext _ hstuck
    | false =>
      cases endsPropertyName u₁ with
      | true => exact hd.classMember hs
      | false => exact .of_stuckNext _ hstuck

protected theorem classBody {derived : Bool} (hs : F.At b s₁ s₂) :
    F.Passes Eq false (classBody nested₁ derived s₁) (classBody nested₂ derived s₂) := by
  refine hs.weaken.loop Eq rfl fun r₁ r₂ t₁ t₂ hr ht => ?_
  subst hr
  refine .bind_token (.ite (ht.heads.isPunctuator _) (fun _ => .ok ⟨rfl, ht⟩) fun _ => ?_)
  refine .guard (fun h => ht.heads.isEnd ▸ h) fun _ => ht.eat (fun u₁ u₂ hu => .ok ⟨rfl, hu.weaken⟩) fun _ => ?_
  exact (hd.classElement ht).bindGentle fun _ _ _ _ hr hu => .ok ⟨hr, hu⟩

omit [∀ p, Moves (nested₁ p)] in
/-- What a class extends, if it does. -/
theorem extended {α : Type} {f₁ f₂ : Unit → Recognizer α} {post : α → α → State → State → Prop}
    {given : α → Input → Prop}
    (hs : F.At b s₁ s₂) (hf : ∀ t₁ t₂, F.At false t₁ t₂ → F.Outcome given post (f₁ () t₁) (f₂ () t₂))
    [htakes : ∀ a, Takes (f₁ a)] :
    F.Outcome given post
      ((if s₁.token.isKeyword .«extends» = true then do
          advance
          let e ← nested₁ .heritage
          requireOperand e >>= f₁
        else f₁ ()) s₁)
      ((if s₂.token.isKeyword .«extends» = true then do
          advance
          let e ← nested₂ .heritage
          requireOperand e >>= f₂
        else f₂ ()) s₂) := by
  refine .ite (hs.heads.isKeyword _) (fun h => ?_) fun _ => hf _ _ hs.weaken
  refine (hs.passKeyword h).bindTaking fun _ _ t₁ t₂ _ ht => ?_
  refine (hd.heritage ht).bindTaking fun e₁ e₂ u₁ u₂ he => ?_
  exact .requireOperand he.1 (hf _ _ he.2.weaken)

protected theorem classTail {declaration nameRequired : Bool} (hs : F.At b s₁ s₂)
    (hk : s₂.token.kind = s₁.token.kind) :
    F.Yields Eq true (classTail nested₁ declaration nameRequired s₁)
      (classTail nested₂ declaration nameRequired s₂) := by
  refine (hs.pass hk).bindBefore (fun _ => .behind inferInstance fun t => ?_) fun _ _ t₁ t₂ _ ht => .bind_token ?_
  · dsimp only
    split
    · infer_instance
    · split <;> infer_instance
  refine optionalName ht (fun i₁ i₂ g₁ g₂ hi hg => ht.checkBinding hi hg) fun u₁ u₂ hu => ?_
  refine .bind_isAtKeyword (hd.extended hu fun v₁ v₂ hv => ?_)
  rw [hu.heads.isKeyword]
  refine hv.expect.bindTaking fun _ _ w₁ w₂ _ hw => .bind_modify ?_
  have hopen : F.At true { w₁ with classDepth := w₁.classDepth + 1 } { w₂ with classDepth := w₂.classDepth + 1 } :=
    hw.of_sameReading { hw with classDepth := by rw [hw.classDepth] } ⟨rfl, rfl, rfl, rfl⟩ ⟨rfl, rfl, rfl, rfl⟩
  refine (hd.classBody hopen).bindTaking fun _ _ x₁ x₂ hx => .bind_modify ?_
  have hclosed : F.At false { x₁ with classDepth := x₁.classDepth - 1 } { x₂ with classDepth := x₂.classDepth - 1 } :=
    hx.2.of_sameReading { hx.2 with classDepth := by rw [hx.2.classDepth] } ⟨rfl, rfl, rfl, rfl⟩ ⟨rfl, rfl, rfl, rfl⟩
  cases declaration <;> exact hclosed.expectWith

protected theorem classDefinition {declaration nameRequired : Bool} (hs : F.At b s₁ s₂)
    (hk : s₂.token.kind = s₁.token.kind) :
    F.Yields Summary.WidensTo true (classDefinition nested₁ declaration nameRequired s₁)
      (classDefinition nested₂ declaration nameRequired s₂) := by
  refine .bind_get (.bind_set ?_)
  refine (hd.classTail (hs.withContext hs.context.withStrict) hk).bind fun _ _ t₁ t₂ _ ht => .bind_modify ?_
  exact .ok ⟨.other _ _, ht.withContext { ht.context with strict := hs.context.strict }⟩

end EcmaCheck.Grammar.Following.Derives
