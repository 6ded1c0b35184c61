import EcmaCheck.Proofs.Printed.Control
import EcmaCheck.Proofs.Printed.CoverLiteral

/-!
# Literals as binding patterns

A tree of array and object literals is recognized as a binding pattern just if it is one and its names and numbers are
permitted (`cover_bound`). What is recognized of an access to a property is the name before the dot, so a recognizer of
bindings may also stop at a dot (`Bound`), where whatever comes next fails.
-/

namespace EcmaCheck.Grammar

variable {α β : Type} {strict : Bool} {s t : State} {p : Punctuator} {l : Lexeme} {ls ms : List Lexeme}

/-! ## Stopping at a dot -/

theorem expect_of_not (h : s.token.isPunctuator p = false) : ∃ g u, expect p s = .error g u :=
  ⟨_, _, congrFun (if_neg (by rw [h]; exact Bool.false_ne_true)) s⟩

theorem requireLast_of_not {e : GrammarError} (h : s.token.isPunctuator p = false) :
    ∃ g u, requireLast p e s = .error g u := by
  unfold requireLast
  rw [token_bind, h, if_neg Bool.false_ne_true]
  exact ⟨_, _, rfl⟩

/-- A recognition of bindings decided whether what it read is valid, or stopped at a dot in what is not valid. -/
def Bound (s : State) (v : Prop) (ls : List Lexeme) : EStateM.Result Fault State α → Prop :=
  Ends (fun f => f.IsLimit ∨ ¬ v) fun _ t => v ∧ s.Reaches t ls ∨ ¬ v ∧ t.token.kind = .punctuator .dot

namespace Bound

variable {v w : Prop} {S : β → Prop} {x : Recognizer α} {f : α → Recognizer β}

theorem iff {r : EStateM.Result Fault State α} (h : Bound s v ls r) (hvw : v ↔ w) : Bound s w ls r := by
  rwa [← propext hvw]

theorem of_decided {R : α → Prop} {r : EStateM.Result Fault State α} (h : Decided s v ls R r) : Bound s v ls r := by
  cases r with
  | ok a t => exact .inl ⟨h.1, h.2.1⟩
  | error f t => exact h

theorem of_agrees {r : EStateM.Result Fault State α} (ht : s.Agrees t) (h : Bound t v ls r) : Bound s v ls r :=
  Ends.imp h fun _ _ hu => hu.imp_left fun hu => ⟨hu.1, .of_agrees ht hu.2⟩

/-- What comes next fails at a dot, and otherwise decides the rest. -/
protected theorem bind (ht : s.Agrees t) (hx : Bound t v ls (x t))
    (hdot : ∀ a u, u.token.kind = .punctuator .dot → ∃ g u', f a u = .error g u')
    (hf : ∀ a u, v → s.Reaches u ls → Decided s w ms S (f a u)) : Decided s (v ∧ w) ms S ((x >>= f) t) := by
  cases h : x t with
  | ok a u =>
    rw [h] at hx
    rw [bind_of_ok h]
    rcases hx with ⟨hv, hu⟩ | ⟨hv, hkind⟩
    · exact (hf a u hv (.of_agrees ht hu)).iff (iff_of_eq (by rw [eq_true hv, true_and]))
    · obtain ⟨g, u', hg⟩ := hdot a u hkind
      rw [hg]
      exact .refuse fun h => hv h.1
  | error g u =>
    rw [h] at hx
    rw [bind_of_error h]
    exact hx.imp_right fun hv h => hv h.1

/-- What comes next changes nothing at a dot. -/
theorem andThen (ht : s.Agrees t) (hx : Bound t v ls (x t))
    (hdot : ∀ a u, u.token.kind = .punctuator .dot → ∃ b, f a u = .ok b u)
    (hf : ∀ a u, v → s.Reaches u ls → Decided s True ms S (f a u)) : Bound s v ms ((x >>= f) t) := by
  refine Ends.bind hx fun a u hu => ?_
  rcases hu with ⟨hv, hu⟩ | ⟨hv, hkind⟩
  · exact (of_decided (hf a u hv (.of_agrees ht hu))).iff (iff_of_true trivial hv)
  · obtain ⟨b, hb⟩ := hdot a u hkind
    rw [hb]
    exact .inr ⟨hv, hkind⟩

theorem discard {x : Recognizer α} (hx : Bound s v ls (x t)) : Bound s v ls ((Functor.discard x : Recognizer Unit) t) :=
  Ends.bind (f := fun _ => pure ()) hx fun _ _ hu => hu

/-- First comes what is decided. -/
theorem after {R : α → Prop} (ht : s.Agrees t) (hx : Decided t v ls R (x t))
    (hf : ∀ a u, v → s.Reaches u ls → R a → Bound s w ms (f a u)) : Bound s (v ∧ w) ms ((x >>= f) t) := by
  cases h : x t with
  | ok a u =>
    rw [h] at hx
    rw [bind_of_ok h]
    exact (hf a u hx.1 (.of_agrees ht hx.2.1) hx.2.2).iff (iff_of_eq (by rw [eq_true hx.1, true_and]))
  | error g u =>
    rw [h] at hx
    rw [bind_of_error h]
    exact hx.imp_right fun hv h => hv h.1

/-- At a dot an item does not end. -/
theorem item {close : Punctuator} {after : List Lexeme} {x : Recognizer Unit} {r : β}
    (hx : Bound s v (.punctuator p :: ls) (x s)) (hend : ItemEnd close ls p after)
    (hcomma : close ≠ .comma) (hclose : close ≠ .dot) : Decided s v after (· = r) ((do
      x
      unless ← isAt close do expect .comma
      return r : Recognizer β) s) := by
  refine (Bound.bind (.refl s) hx (fun _ u hu => ?_) fun _ u _ hu =>
    .of_agrees hu.toAgrees (itemEnd_decided hend hcomma hu.faces r)).iff (iff_of_eq (and_true v))
  rw [isAt_bind, isPunctuator_of_kind hu, if_neg (by simpa using hclose.symm)]
  obtain ⟨g, u', hg⟩ := expect_of_not (isPunctuator_of_kind hu .comma)
  exact ⟨g, u', bind_of_error hg⟩

/-- A rest must be the last before what closes the pattern. -/
theorem rest {close : Punctuator} {e : GrammarError} {x : Recognizer Unit} {r : β}
    (hx : Bound s v (.punctuator p :: ls) (x s)) (hclose : close ≠ .dot) :
    Decided s (v ∧ p = close) (.punctuator p :: ls) (· = r) ((do
      x
      requireLast close e
      return r : Recognizer β) s) := by
  have hnot {u : State} (hu : u.token.isPunctuator close = false) : ∃ g u', ((do
      requireLast close e
      return r : Recognizer β) u) = .error g u' := by
    obtain ⟨g, u', hg⟩ := requireLast_of_not hu
    exact ⟨g, u', bind_of_error hg⟩
  refine Bound.bind (.refl s) hx (fun _ u hu => hnot ?_) fun _ u _ hu => ?_
  · rw [isPunctuator_of_kind hu]
    exact decide_eq_false fun h => hclose (TokenKind.punctuator.inj h).symm
  · by_cases hp : p = close
    · have hat : u.token.isPunctuator close = true := by
        rw [isPunctuator_of_kind hu.kind, hp]
        exact decide_eq_true rfl
      unfold requireLast
      rw [bind_assoc, token_bind, hat, if_pos rfl]
      exact ⟨hp, hu, rfl⟩
    · obtain ⟨g, u', hg⟩ := hnot (u := u) (by
        rw [isPunctuator_of_kind hu.kind]
        exact decide_eq_false fun h => hp (TokenKind.punctuator.inj h))
      rw [hg]
      exact .refuse hp

end Bound

/-! ## Names -/

theorem Context.Free.forbids_binding {c : Context} (h : c.Free strict) (v : Variable) :
    c.forbids true v.name = false ↔ (v.isAssignable strict && v.isPermitted strict) = true := by
  rw [h.forbids, Bool.true_and]
  unfold Variable.isAssignable Variable.isPermitted
  cases strict <;> cases strictReservedWords.contains v.name <;> cases isEvalOrArguments v.name <;> simp

theorem checkBinding_decided {v : Variable} {escaped : Bool} {place : Position} (hfree : s.context.Free strict)
    (hs : s.Faces ls) : Decided s ((v.isAssignable strict && v.isPermitted strict) = true) ls (fun _ => True)
      (checkBinding false ⟨v.name, escaped, place⟩ s) :=
  (failIf_decided hs _ _).iff (bindingError?_free.trans (hfree.forbids_binding v))

theorem bindingIdentifier_decided {v : Variable} (hfree : s.context.Free strict)
    (hs : s.Faces (.word v.toWord :: ls)) : Decided s ((v.isAssignable strict && v.isPermitted strict) = true) ls
      (fun _ => True) (bindingIdentifier false s) := by
  unfold bindingIdentifier
  rw [token_bind, identifier?_variable hs]
  exact Decided.andThen (.refl s) (checkBinding_decided hfree hs) fun _ t _ ht _ =>
    .lastAdvance ht (goalAfter_ne_templateTail t.token)

theorem bindingIdentifier_of_not (h : s.token.isIdentifier = false) :
    ∃ g u, bindingIdentifier false s = .error g u := by
  unfold bindingIdentifier
  rw [token_bind, identifier?_of_kind h]
  exact ⟨_, _, rfl⟩

/-! ## Targets -/

/-- The tree is bound if it is a target of declarations with permitted names and numbers. -/
def CoverBound (strict : Bool) (c : Cover) : Prop :=
  ∀ (n : Nat) (s : State) (ls : List Lexeme), s.context.Free strict → s.Faces (lexemes c.pieces ++ ls) →
    Bound s ((c.isTarget .binding strict && c.isPermitted strict) = true) ls (expandBindingTarget (derive n) false s)

theorem expandBindingTarget_eq {nested : Derivation} (hbracket : s.token.isPunctuator .openBracket = false)
    (hbrace : s.token.isPunctuator .openBrace = false) :
    expandBindingTarget nested false s = bindingIdentifier false s := by
  unfold expandBindingTarget
  rw [isAt_bind, hbracket, if_neg Bool.false_ne_true, isAt_bind, hbrace, if_neg Bool.false_ne_true]

/-- Only a plain name is bound. Of an access to a property the name is read, but nothing can follow it. -/
theorem identifier_bound (c : Cover) (hfree : s.context.Free strict) (hs : s.Faces (lexemes c.pieces ++ ls)) :
    Bound s ((c.isReference && c.isTarget .binding strict && c.isPermitted strict) = true) ls
      (bindingIdentifier false s) := by
  have hnot {v : Bool} (hkind : ∀ name escaped, s.token.kind ≠ .identifier name escaped) (hv : v = false) :
      Bound s (v = true) ls (bindingIdentifier false s) := by
    have hidentifier : s.token.isIdentifier = false := by
      unfold Token.isIdentifier
      split
      · exact absurd ‹_› (hkind _ _)
      · rfl
    obtain ⟨g, u, hg⟩ := bindingIdentifier_of_not hidentifier
    rw [hg, hv]
    exact .inr Bool.false_ne_true
  cases c with
  | reference r =>
    cases r with
    | name v => exact .of_decided (bindingIdentifier_decided hfree hs)
    | member v property =>
      have hs : s.Faces (.word v.toWord :: .punctuator .dot :: .word property :: ls) := hs
      have hdecided := bindingIdentifier_decided hfree hs
      cases hrun : bindingIdentifier false s with
      | ok _ t =>
        rw [hrun] at hdecided
        exact .inr ⟨Bool.false_ne_true, hdecided.2.1.kind⟩
      | error => exact .inr Bool.false_ne_true
    | parenthesized r => exact hnot (fun _ _ h => absurd ((State.Faces.kind hs).symm.trans h) nofun) rfl
  | number n => exact hnot (fun _ _ h => absurd ((State.Faces.kind hs).symm.trans h) nofun) rfl
  | array slots => exact hnot (fun _ _ h => absurd ((State.Faces.kind hs).symm.trans h) nofun) rfl
  | object members => exact hnot (fun _ _ h => absurd ((State.Faces.kind hs).symm.trans h) nofun) rfl

theorem reference_bound (r : Reference) : CoverBound strict (.reference r) := by
  intro n s ls hfree hs
  have hnot {q : Punctuator} (hq : q ≠ .openParen) : s.token.isPunctuator q = false := by
    have hs : s.Faces (lexemes r.pieces ++ ls) := hs
    cases r with
    | name v => exact isPunctuator_of_kind ((State.Faces.kind hs).trans v.kind_eq) q
    | member v property => exact isPunctuator_of_kind ((State.Faces.kind hs).trans v.kind_eq) q
    | parenthesized r =>
      exact (isPunctuator_of_kind (State.Faces.kind hs) q).trans
        (decide_eq_false fun h => hq (TokenKind.punctuator.inj h).symm)
  rw [expandBindingTarget_eq (hnot (by decide)) (hnot (by decide))]
  exact identifier_bound (.reference r) hfree hs

theorem number_bound {legacy : Bool} (number : Literal (.number legacy)) : CoverBound strict (.number number) := by
  intro n s ls hfree hs
  have hs' : s.Faces (.literal number :: ls) := hs
  rw [expandBindingTarget_eq (isPunctuator_of_kind hs'.kind _) (isPunctuator_of_kind hs'.kind _)]
  exact identifier_bound (.number number) hfree hs

section

variable {c : Cover}

theorem CoverBound.target (h : CoverBound strict c) {n : Nat} (hfree : s.context.Free strict)
    (hs : s.Faces (lexemes c.pieces ++ ls)) :
    Bound s ((c.isTarget .binding strict && c.isPermitted strict) = true) ls (bindingTarget (derive n) false s) := by
  refine derive_ends (p := .bindingTarget false) (fun _ _ _ => .inl (.inl rfl)) fun m _ => ?_
  refine Ends.imp (h m s.deepened ls hfree (hs.of_eq rfl rfl)) fun _ t ht => ?_
  exact ht.imp_left fun ht => ⟨ht.1, reaches_surfaced ht.2⟩

/-- A target with or without a default. -/
theorem CoverBound.element (h : CoverBound strict c) {n : Nat} {defaulted : Bool} (hfree : s.context.Free strict)
    (hp : EndsElement p) (hs : s.Faces (lexemes (c.elementPieces defaulted) ++ .punctuator p :: ls)) :
    Bound s ((c.isTarget .binding strict && c.isPermitted strict) = true) (.punctuator p :: ls)
      (bindingElement (derive n) false s) := by
  have hs : s.Faces (lexemes c.pieces ++ (lexemes (defaultPieces defaulted) ++ .punctuator p :: ls)) := by
    rwa [← List.append_assoc, ← lexemes_append]
  unfold bindingElement
  rw [token_bind]
  refine .andThen (S := fun _ => True) (.refl s) (h.target hfree hs) (fun _ u hu => ?_) fun _ u _ hu => ?_
  · rw [bind_of_ok (eat_of_not (isPunctuator_of_kind hu .assign)), if_neg Bool.false_ne_true]
    exact ⟨_, rfl⟩
  · exact .of_agrees hu.toAgrees ((initializer_decided (e := fun initialized => !initialized && s.token.isIdentifier)
      (hu.context ▸ hfree.toPlain) hp hu.faces).imp fun _ _ _ => trivial)

/-! ## Array patterns -/

/-- One turn of the elements of an array pattern. -/
def arrayBindingTurn (nested : Derivation) (lexical : Bool) : Unit → Recognizer (Turn Unit Unit) := fun _ => do
  if ← isAt .closeBracket then return .done ()
  if ← eat .comma then return .again ()
  if ← eat .ellipsis then
    bindingTarget nested lexical
    requireLast .closeBracket .restElementNotLast
    return .done ()
  discard (bindingElement nested lexical)
  unless ← isAt .closeBracket do expect .comma
  return .again ()

theorem arrayBinding_eq (nested : Derivation) (lexical : Bool) : arrayBinding nested lexical = (do
    advance
    loop () (arrayBindingTurn nested lexical)
    advance) := rfl

/-- The elements are bound one after the other. -/
def SlotsBound (strict : Bool) (slots : Slots) : Prop :=
  ∀ (n turns : Nat) (s : State) (ls : List Lexeme), s.context.Free strict →
    s.Faces (lexemes slots.pieces ++ .punctuator .closeBracket :: ls) →
    Decided s ((slots.isPattern .binding strict && slots.isPermitted strict) = true) (.punctuator .closeBracket :: ls)
      (fun _ => True) (repeatTurns (arrayBindingTurn (derive n) false) turns () s)

theorem bound_nil : SlotsBound strict .nil := by
  intro n turns s ls _ hs
  have hs : s.Faces (.punctuator .closeBracket :: ls) := hs
  refine .done (b := ()) (u := s) ?_ ⟨rfl, .refl hs, trivial⟩ turns
  unfold arrayBindingTurn
  rw [isAt_bind, isPunctuator_of_kind hs.kind, if_pos (by rfl)]
  rfl

theorem bound_hole {rest : Slots} (h : SlotsBound strict rest) : SlotsBound strict (.hole rest) := by
  intro n turns s ls hfree hs
  have hs : s.Faces (.punctuator .comma :: (lexemes rest.pieces ++ .punctuator .closeBracket :: ls)) := hs
  refine (Decided.again (v := True) (k := lexemes rest.pieces ++ .punctuator .closeBracket :: ls) (R := fun _ => True)
    (.refl s) ?_ (fun _ u m _ hu _ => ?_) turns).iff (iff_of_eq (true_and _))
  · unfold arrayBindingTurn
    rw [isAt_bind, isPunctuator_of_kind hs.kind, if_neg (by nofun)]
    exact .eat (.refl hs) fun t ht => ⟨trivial, ht, (), rfl, trivial⟩
  · exact .of_agrees hu.toAgrees (h n m u ls (hu.context ▸ hfree) hu.faces)

/-- A rest is the last element, and has neither a comma after it nor a default. -/
theorem restTurn_decided (h : CoverBound strict c) {n turns : Nat} (hfree : s.context.Free strict)
    (hs : s.Faces (.punctuator .ellipsis :: (lexemes c.pieces ++ .punctuator p :: ms)))
    (hms : p = .closeBracket → ms = ls) :
    Decided s ((c.isTarget .binding strict && c.isPermitted strict) = true ∧ p = .closeBracket)
      (.punctuator .closeBracket :: ls) (fun _ => True)
      (repeatTurns (arrayBindingTurn (derive n) false) turns () s) := by
  have hturn : Decided s ((c.isTarget .binding strict && c.isPermitted strict) = true ∧ p = .closeBracket)
      (.punctuator p :: ms) (fun r => ∃ b, r = .done b ∧ True) (arrayBindingTurn (derive n) false () s) := by
    unfold arrayBindingTurn
    rw [isAt_bind, isPunctuator_of_kind hs.kind, if_neg (by nofun),
      bind_of_ok (eat_of_not (isPunctuator_of_kind hs.kind _)), if_neg Bool.false_ne_true]
    refine .eat (.refl hs) fun t ht => ?_
    exact (Decided.of_agrees ht.toAgrees ((h.target (ht.context ▸ hfree) ht.faces).rest (by decide))).imp
      fun _ r hr => ⟨(), hr, trivial⟩
  refine Concluded.imp (Decided.finish (S := fun _ => True) hturn turns) fun hv _ u hu => ⟨?_, trivial⟩
  obtain rfl := hv.2
  obtain rfl := hms rfl
  exact hu.1

theorem elementTurn_decided (h : CoverBound strict c) {n : Nat} {defaulted : Bool} {after : List Lexeme}
    (hfree : s.context.Free strict) (hend : ItemEnd .closeBracket ls p after)
    (hs : s.Faces (lexemes (c.elementPieces defaulted) ++ .punctuator p :: ls)) :
    Decided s ((c.isTarget .binding strict && c.isPermitted strict) = true) after (fun r => ∃ b, r = .again b ∧ True)
      (arrayBindingTurn (derive n) false () s) := by
  have hp : EndsElement p := by cases hend <;> exact ⟨rfl, by decide⟩
  have hnot {q : Punctuator} := element_not_punctuator (q := q) hs
  unfold arrayBindingTurn
  rw [isAt_bind, hnot rfl, if_neg Bool.false_ne_true, bind_of_ok (eat_of_not (hnot rfl)), if_neg Bool.false_ne_true,
    bind_of_ok (eat_of_not (hnot rfl)), if_neg Bool.false_ne_true]
  exact ((h.element hfree hp hs).discard.item hend (by decide) (by decide)).imp fun _ r hr => ⟨(), hr, trivial⟩

theorem bound_last {element : Cover} (spread defaulted : Bool) (h : CoverBound strict element) :
    SlotsBound strict (.last spread element defaulted) := by
  intro n turns s ls hfree hs
  rw [lexemes_last] at hs
  cases spread with
  | false =>
    refine (Decided.again (.refl s) (elementTurn_decided h hfree .last hs) (fun _ u m _ hu _ => ?_) turns).iff
      ((iff_of_eq (and_true _)).trans ?_)
    · exact .of_agrees hu.toAgrees ((bound_nil n m u ls (hu.context ▸ hfree) hu.faces).iff (iff_of_true rfl trivial))
    · simp [Slots.isPattern, Slots.isPermitted]
  | true =>
    cases defaulted with
    | false =>
      rw [lexemes_element] at hs
      refine (restTurn_decided h hfree hs fun _ => rfl).iff ?_
      simp [Slots.isPattern, Slots.isPermitted]
    | true =>
      rw [lexemes_defaulted] at hs
      refine (restTurn_decided h hfree hs nofun).iff ?_
      simp [Slots.isPattern]

theorem bound_more {element : Cover} {rest : Slots} (spread defaulted : Bool) (h : CoverBound strict element)
    (hrest : SlotsBound strict rest) : SlotsBound strict (.more spread element defaulted rest) := by
  intro n turns s ls hfree hs
  rw [lexemes_more] at hs
  cases spread with
  | false =>
    refine (Decided.again (.refl s) (elementTurn_decided h hfree .more hs) (fun _ u m _ hu _ =>
      .of_agrees hu.toAgrees (hrest n m u ls (hu.context ▸ hfree) hu.faces)) turns).iff ?_
    simp [Slots.isPattern, Slots.isPermitted, and_assoc, and_left_comm]
  | true =>
    cases defaulted with
    | false =>
      rw [lexemes_element] at hs
      refine (restTurn_decided h hfree hs nofun).iff ?_
      simp [Slots.isPattern]
    | true =>
      rw [lexemes_defaulted] at hs
      refine (restTurn_decided h hfree hs nofun).iff ?_
      simp [Slots.isPattern]

theorem arrayPattern_decided {slots : Slots} (h : SlotsBound strict slots) {n : Nat} (hfree : s.context.Free strict)
    (hs : s.Faces (lexemes (Cover.array slots).pieces ++ ls)) :
    Decided s ((slots.isPattern .binding strict && slots.isPermitted strict) = true) ls (fun _ => True)
      (expandBindingTarget (derive n) false s) := by
  rw [lexemes_array] at hs
  have hbracket : s.token.isPunctuator .openBracket = true := isPunctuator_of_kind hs.kind _
  unfold expandBindingTarget
  rw [isAt_bind, hbracket, if_pos rfl, arrayBinding_eq]
  refine .advance (.refl hs) fun t ht => ?_
  exact Decided.andThen ht.toAgrees (.loop fun turns => h n turns t ls (ht.context ▸ hfree) ht.faces)
    fun _ u _ hu _ => .lastAdvance hu (goalAfter_ne_templateTail u.token)

/-! ## Object patterns -/

/-- One turn of the properties of an object pattern. -/
def objectBindingTurn (nested : Derivation) (lexical : Bool) : Unit → Recognizer (Turn Unit Unit) := fun _ => do
  if ← isAt .closeBrace then return .done ()
  if ← eat .ellipsis then
    bindingIdentifier lexical
    requireLast .closeBrace .restElementNotLast
    return .done ()
  propertyBinding nested lexical
  unless ← isAt .closeBrace do expect .comma
  return .again ()

theorem objectBinding_eq (nested : Derivation) (lexical : Bool) : objectBinding nested lexical = (do
    advance
    loop () (objectBindingTurn nested lexical)
    advance) := rfl

/-- The property, which is no rest, is bound. -/
def PropertyBound (strict : Bool) (m : Member) : Prop :=
  ∀ (n : Nat) (s : State) (p : Punctuator) (ls : List Lexeme), s.context.Free strict → EndsMember p →
    s.Faces (lexemes m.pieces ++ .punctuator p :: ls) →
    Bound s ((m.isPattern .binding strict && m.isPermitted strict) = true) (.punctuator p :: ls)
      (propertyBinding (derive n) false s)

theorem bound_keyed {key : Key} (defaulted : Bool) (h : CoverBound strict c) :
    PropertyBound strict (.keyed key c defaulted) := by
  intro n s p ls hfree hp hs
  rw [lexemes_keyed] at hs
  have hvalid : key.isRead strict = true ∧ (c.isTarget .binding strict && c.isPermitted strict) = true ↔
      ((Member.keyed key c defaulted).isPattern .binding strict &&
        (Member.keyed key c defaulted).isPermitted strict) = true := by
    rw [key.isRead_eq]
    simp [Member.isPattern, Member.isPermitted, and_left_comm]
  unfold propertyBinding
  refine (Bound.after (.refl s) (key_decided key n s _ hfree hs) fun key t _ ht _ => ?_).iff hvalid
  obtain ⟨u, heat, hu⟩ := eat_reaches ht
  rw [bind_of_ok heat, if_pos rfl]
  exact .of_agrees hu.toAgrees (h.element (hu.context ▸ hfree) hp.endsElement hu.faces).discard

theorem bound_shorthand (v : Variable) (initialized : Bool) : PropertyBound strict (.shorthand v initialized) := by
  intro n s p ls hfree hp hs
  have hs : s.Faces (.word v.toWord :: (lexemes (defaultPieces initialized) ++ .punctuator p :: ls)) := hs
  refine .of_decided (R := fun _ => True) ?_
  unfold propertyBinding
  refine Decided.call (.refl s) (propertyName_variable hs) fun key t ht hkey => ?_
  obtain ⟨_, hcolon⟩ := initializer_not hp ht.faces
  subst hkey
  rw [bind_of_ok (eat_of_not hcolon), if_neg Bool.false_ne_true]
  dsimp only
  refine Decided.andThen ht.toAgrees (checkBinding_decided (ht.context ▸ hfree) ht.faces) fun _ u _ hu _ => ?_
  have hinitializer :=
    initializer_decided (e := fun _ => ()) (n := n) (hu.context ▸ hfree.toPlain) hp.endsElement hu.faces
  simp only [bind_pure_unit] at hinitializer
  exact .of_agrees hu.toAgrees (hinitializer.imp fun _ _ _ => trivial)

theorem propertyTurn_decided {m : Member} (h : PropertyBound strict m) (hrest : m.isRest = false) {n : Nat}
    {after : List Lexeme} (hfree : s.context.Free strict) (hend : ItemEnd .closeBrace ls p after)
    (hs : s.Faces (lexemes m.pieces ++ .punctuator p :: ls)) :
    Decided s ((m.isPattern .binding strict && m.isPermitted strict) = true) after (fun r => ∃ b, r = .again b ∧ True)
      (objectBindingTurn (derive n) false () s) := by
  have hp : EndsMember p := by
    cases hend with
    | last => exact .inr rfl
    | more => exact .inl rfl
  have hproperty := h n s p ls hfree hp hs
  obtain ⟨first, more, hfirst, hclose, hellipsis⟩ := m.first
  rw [hfirst] at hs
  have hnot {q : Punctuator} (hq : first.kind ≠ .punctuator q) : s.token.isPunctuator q = false :=
    (isPunctuator_of_kind hs.kind q).trans (decide_eq_false hq)
  unfold objectBindingTurn
  rw [isAt_bind, hnot hclose, if_neg Bool.false_ne_true, bind_of_ok (eat_of_not (hnot (hellipsis hrest))),
    if_neg Bool.false_ne_true]
  exact (hproperty.item hend (by decide) (by decide)).imp fun _ r hr => ⟨(), hr, trivial⟩

/-- A rest is a name, the last property, and has no default. -/
theorem restPropertyTurn_decided {n turns : Nat} (hfree : s.context.Free strict)
    (hs : s.Faces (.punctuator .ellipsis :: (lexemes c.pieces ++ .punctuator p :: ms)))
    (hms : p = .closeBrace → ms = ls) :
    Decided s ((c.isReference && c.isTarget .binding strict && c.isPermitted strict) = true ∧ p = .closeBrace)
      (.punctuator .closeBrace :: ls) (fun _ => True)
      (repeatTurns (objectBindingTurn (derive n) false) turns () s) := by
  have hturn : Decided s
      ((c.isReference && c.isTarget .binding strict && c.isPermitted strict) = true ∧ p = .closeBrace)
      (.punctuator p :: ms) (fun r => ∃ b, r = .done b ∧ True) (objectBindingTurn (derive n) false () s) := by
    unfold objectBindingTurn
    rw [isAt_bind, isPunctuator_of_kind hs.kind, if_neg (by nofun)]
    refine .eat (.refl hs) fun t ht => ?_
    exact (Decided.of_agrees ht.toAgrees ((identifier_bound c (ht.context ▸ hfree) ht.faces).rest (by decide))).imp
      fun _ r hr => ⟨(), hr, trivial⟩
  refine Concluded.imp (Decided.finish (S := fun _ => True) hturn turns) fun hv _ u hu => ⟨?_, trivial⟩
  obtain rfl := hv.2
  obtain rfl := hms rfl
  exact hu.1

/-- The properties are bound one after the other. -/
def MembersBound (strict : Bool) (members : Members) : Prop :=
  ∀ (n turns : Nat) (s : State) (ls : List Lexeme), s.context.Free strict →
    s.Faces (lexemes members.pieces ++ .punctuator .closeBrace :: ls) →
    Decided s ((members.isPattern .binding strict && members.isPermitted strict) = true) (.punctuator .closeBrace :: ls)
      (fun _ => True) (repeatTurns (objectBindingTurn (derive n) false) turns () s)

theorem bound_none : MembersBound strict .nil := by
  intro n turns s ls _ hs
  have hs : s.Faces (.punctuator .closeBrace :: ls) := hs
  refine .done (b := ()) (u := s) ?_ ⟨rfl, .refl hs, trivial⟩ turns
  unfold objectBindingTurn
  rw [isAt_bind, isPunctuator_of_kind hs.kind, if_pos (by rfl)]
  rfl

theorem bound_property {m : Member} (h : PropertyBound strict m) (hm : m.isRest = false) :
    MembersBound strict (.last m) ∧ ∀ rest, MembersBound strict rest → MembersBound strict (.more m rest) := by
  constructor
  · intro n turns s ls hfree hs
    refine (Decided.again (.refl s) (propertyTurn_decided h hm hfree .last hs) (fun _ u k _ hu _ => ?_) turns).iff
      (iff_of_eq (and_true _))
    exact .of_agrees hu.toAgrees ((bound_none n k u ls (hu.context ▸ hfree) hu.faces).iff (iff_of_true rfl trivial))
  · intro rest hrest n turns s ls hfree hs
    rw [lexemes_members] at hs
    refine (Decided.again (.refl s) (propertyTurn_decided h hm hfree .more hs) (fun _ u k _ hu _ =>
      .of_agrees hu.toAgrees (hrest n k u ls (hu.context ▸ hfree) hu.faces)) turns).iff ?_
    simp [Members.isPattern, Members.isPermitted, hm, and_assoc, and_left_comm]

theorem bound_spread (c : Cover) (defaulted : Bool) : MembersBound strict (.last (.spread c defaulted)) ∧
    ∀ rest, MembersBound strict (.more (.spread c defaulted) rest) := by
  constructor
  · intro n turns s ls hfree hs
    have hs : s.Faces
        (.punctuator .ellipsis :: (lexemes (c.elementPieces defaulted) ++ .punctuator .closeBrace :: ls)) := hs
    cases defaulted with
    | false =>
      rw [lexemes_element] at hs
      refine (restPropertyTurn_decided hfree hs fun _ => rfl).iff ?_
      simp [Members.isPattern, Member.isPattern, Members.isPermitted, Member.isPermitted]
    | true =>
      rw [lexemes_defaulted] at hs
      refine (restPropertyTurn_decided hfree hs nofun).iff ?_
      simp [Members.isPattern, Member.isPattern]
  · intro rest n turns s ls hfree hs
    rw [lexemes_members] at hs
    have hs : s.Faces (.punctuator .ellipsis :: (lexemes (c.elementPieces defaulted) ++ .punctuator .comma ::
      (lexemes rest.pieces ++ .punctuator .closeBrace :: ls))) := hs
    cases defaulted with
    | false =>
      rw [lexemes_element] at hs
      exact (restPropertyTurn_decided hfree hs nofun).iff (by simp [Members.isPattern, Member.isRest])
    | true =>
      rw [lexemes_defaulted] at hs
      exact (restPropertyTurn_decided hfree hs nofun).iff (by simp [Members.isPattern, Member.isRest])

theorem objectPattern_decided {members : Members} (h : MembersBound strict members) {n : Nat}
    (hfree : s.context.Free strict) (hs : s.Faces (lexemes (Cover.object members).pieces ++ ls)) :
    Decided s ((members.isPattern .binding strict && members.isPermitted strict) = true) ls (fun _ => True)
      (expandBindingTarget (derive n) false s) := by
  rw [lexemes_object] at hs
  have hbracket : s.token.isPunctuator .openBracket = false := isPunctuator_of_kind hs.kind _
  have hbrace : s.token.isPunctuator .openBrace = true := isPunctuator_of_kind hs.kind _
  unfold expandBindingTarget
  rw [isAt_bind, hbracket, if_neg Bool.false_ne_true, isAt_bind, hbrace, if_pos rfl, objectBinding_eq]
  refine .advance (.refl hs) fun t ht => ?_
  exact Decided.andThen ht.toAgrees (.loop fun turns => h n turns t ls (ht.context ▸ hfree) ht.faces)
    fun _ u _ hu _ => .lastAdvance hu (goalAfter_ne_templateTail u.token)

end

/-! ## All trees -/

mutual

/-- A tree is bound just if it is a target of declarations with permitted names and numbers. -/
theorem cover_bound (c : Cover) : CoverBound strict c := by
  cases c with
  | reference r => exact reference_bound r
  | number n => exact number_bound n
  | array slots => exact fun n s ls hfree hs => .of_decided (arrayPattern_decided (slots_bound slots) hfree hs)
  | object members => exact fun n s ls hfree hs => .of_decided (objectPattern_decided (members_bound members) hfree hs)

theorem slots_bound (slots : Slots) : SlotsBound strict slots := by
  cases slots with
  | nil => exact bound_nil
  | hole rest => exact bound_hole (slots_bound rest)
  | last spread element defaulted => exact bound_last spread defaulted (cover_bound element)
  | more spread element defaulted rest => exact bound_more spread defaulted (cover_bound element) (slots_bound rest)

theorem members_bound (members : Members) : MembersBound strict members := by
  cases members with
  | nil => exact bound_none
  | last m =>
    cases m with
    | shorthand v initialized => exact (bound_property (bound_shorthand v initialized) rfl).1
    | keyed key element defaulted => exact (bound_property (bound_keyed defaulted (cover_bound element)) rfl).1
    | spread element defaulted => exact (bound_spread element defaulted).1
  | more m rest =>
    cases m with
    | shorthand v initialized => exact (bound_property (bound_shorthand v initialized) rfl).2 rest (members_bound rest)
    | keyed key element defaulted =>
      exact (bound_property (bound_keyed defaulted (cover_bound element)) rfl).2 rest (members_bound rest)
    | spread element defaulted => exact (bound_spread element defaulted).2 rest

end

/-- A literal is a pattern of declarations, or none. -/
theorem literal_bound {c : Cover} (hc : c.isLiteral = true) {n : Nat} (hfree : s.context.Free strict)
    (hs : s.Faces (lexemes c.pieces ++ ls)) :
    Decided s ((c.isTarget .binding strict && c.isPermitted strict) = true) ls (fun _ => True)
      (bindingTarget (derive n) false s) := by
  refine derive_decided (p := .bindingTarget false) fun m _ => ?_
  have hs : s.deepened.Faces (lexemes c.pieces ++ ls) := hs.of_eq rfl rfl
  cases c with
  | reference r => cases hc
  | number n => cases hc
  | array slots => exact arrayPattern_decided (slots_bound slots) hfree hs
  | object members => exact objectPattern_decided (members_bound members) hfree hs

end EcmaCheck.Grammar
