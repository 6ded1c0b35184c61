import EcmaCheck.Proofs.Printed.Class
import EcmaCheck.Proofs.Printed.Cover

/-!
# Array and object literals as expressions

A tree of array and object literals is recognized as an expression just if it is read (`cover_decided`). Each literal
is a loop over its elements or properties, and what is kept of those before the next one is what the tree says of them
(`Elements.Are`).
-/

namespace EcmaCheck.Grammar

open Punctuator (piece)

variable {strict : Bool} {s : State} {p : Punctuator} {l : Lexeme} {ls : List Lexeme}

/-! ## Array literals -/

/-- What is known of the elements before some others. -/
structure Elements.Are (assignable binding pending : Bool) (es : Elements) : Prop where
  assignable_eq : es.assignable = assignable
  binding_eq : es.binding = binding
  pending_eq : es.shorthand?.isSome = pending

theorem Elements.Are.push {es : Elements} {a b a' b' q q' : Bool} (h : es.Are a b q) {e : Summary}
    (he : e.shorthand?.isSome = q') : (es.push e a' b').Are (a && a') (b && b') (q || q') where
  assignable_eq := congrArg (· && a') h.assignable_eq
  binding_eq := congrArg (· && b') h.binding_eq
  pending_eq := by
    change (es.shorthand?.or e.shorthand?).isSome = _
    rw [Option.isSome_or, h.pending_eq, he]

theorem Elements.Are.summary {es : Elements} {a b q : Bool} (h : es.Are a b q) (start : Position) :
    (es.summary start).Is (patternShape a b) q := by
  refine ⟨?_, h.pending_eq⟩
  change (if es.assignable then Shape.pattern es.binding else .other) = _
  rw [h.assignable_eq, h.binding_eq]
  rfl

/-- One turn of the elements of an array literal. -/
def arrayTurn (nested : Derivation) (es : Elements) : Recognizer (Turn Elements Elements) := do
  if ← isAt .closeBracket then return .done es
  if ← eat .comma then return .again es
  let es ←
    if ← eat .ellipsis then do
      let e ← assignmentOrPattern nested true
      let last ← isAt .closeBracket
      pure (es.push e (e.shape.isAssignmentTarget && last) (e.shape.isBindingTarget && last))
    else do
      let e ← assignmentOrPattern nested true
      pure (es.push e e.shape.isAssignmentElement e.shape.isBindingElement)
  unless ← isAt .closeBracket do expect .comma
  return .again es

theorem arrayLiteral_eq (nested : Derivation) : arrayLiteral nested = (do
    let start := (← token).start
    advance
    let es ← loop ({} : Elements) (arrayTurn nested)
    advance
    return es.summary start) := rfl

/-- An item ends before the punctuator, and the next turn goes on with the lexemes `after`: a closing punctuator is left
to it, a comma is not. -/
inductive ItemEnd (close : Punctuator) (ls : List Lexeme) : Punctuator → List Lexeme → Prop
  | last : ItemEnd close ls close (.punctuator close :: ls)
  | more : ItemEnd close ls .comma ls

theorem itemEnd_decided {β : Type} {close : Punctuator} {after : List Lexeme} (h : ItemEnd close ls p after)
    (hclose : close ≠ .comma) (hs : s.Faces (.punctuator p :: ls)) (r : β) :
    Decided s True after (· = r) ((do
      unless ← isAt close do expect .comma
      return r : Recognizer β) s) := by
  rw [isAt_bind, isPunctuator_of_kind hs.kind]
  cases h with
  | last =>
    rw [if_pos (by exact decide_eq_true rfl)]
    exact ⟨trivial, .refl hs, rfl⟩
  | more =>
    rw [if_neg (by simpa [Lexeme.kind] using hclose.symm)]
    exact .expect (.refl hs) fun t ht => ⟨trivial, ht, rfl⟩

/-- What is known of the elements with one more, which is no rest unless it is the last and has no default. -/
def Elements.With (strict : Bool) (a b q spread : Bool) (c : Cover) (defaulted last : Bool) (es : Elements) : Prop :=
  es.Are (a && (c.isTarget .assignment strict && !(spread && (defaulted || !last))))
    (b && (c.isTarget .binding strict && !(spread && (defaulted || !last)))) (q || !(defaulted || c.isCovered))

theorem arrayTurn_element {c : Cover} (hc : CoverDecided strict c) (spread : Bool) {defaulted : Bool} {n : Nat}
    {es : Elements} {a b q : Bool} {after : List Lexeme} (hfree : s.context.Free strict)
    (hend : ItemEnd .closeBracket ls p after) (hes : es.Are a b q)
    (hs : s.Faces (lexemes (spreadPieces spread) ++ (lexemes (c.elementPieces defaulted) ++ .punctuator p :: ls))) :
    Decided s ((c.isRead strict && (!defaulted || c.isTarget .assignment strict)) = true) after
      (fun r => ∃ es', r = .again es' ∧ es'.With strict a b q spread c defaulted (decide (p = .closeBracket)))
      (arrayTurn (derive n) es s) := by
  have hp : EndsElement p := by cases hend <;> exact ⟨rfl, by decide⟩
  have hitem {t : State} (ht : s.Reaches t (lexemes (c.elementPieces defaulted) ++ .punctuator p :: ls)) :=
    assignmentOrPattern_decided (hc.element (n := n) (ht.context ▸ hfree) hp ht.faces)
  have hlast {t : State} (ht : s.Reaches t (.punctuator p :: ls)) :
      t.token.isPunctuator .closeBracket = decide (p = .closeBracket) := by
    rw [isPunctuator_of_kind ht.kind]
    exact decide_eq_decide.mpr ⟨TokenKind.punctuator.inj, congrArg _⟩
  have hrest (target last : Bool) : (!defaulted && target && last) = (target && !(true && (defaulted || !last))) := by
    cases target <;> cases defaulted <;> cases last <;> rfl
  unfold arrayTurn
  cases spread with
  | true =>
    have hs : s.Faces (.punctuator .ellipsis :: (lexemes (c.elementPieces defaulted) ++ .punctuator p :: ls)) := hs
    rw [isAt_bind, isPunctuator_of_kind hs.kind, if_neg (by nofun),
      bind_of_ok (eat_of_not (isPunctuator_of_kind hs.kind _)), if_neg Bool.false_ne_true]
    refine .eat (.refl hs) fun t ht => ?_
    refine Decided.andThen ht.toAgrees (hitem ht) fun e u hv hu he => ?_
    rw [isAt_bind, hlast hu]
    refine (Decided.of_agrees hu.toAgrees (itemEnd_decided hend (by decide) hu.faces _)).imp fun _ r hr => ⟨_, hr, ?_⟩
    rw [he.shape_eq, c.isAssignmentTarget_elementShape, c.isBindingTarget_elementShape, hrest, hrest]
    exact hes.push he.pending_eq
  | false =>
    have hs : s.Faces (lexemes (c.elementPieces defaulted) ++ .punctuator p :: ls) := hs
    have hnot {q : Punctuator} := element_not_punctuator (q := q) hs
    rw [isAt_bind, hnot rfl, if_neg Bool.false_ne_true, bind_of_ok (eat_of_not (hnot rfl)), if_neg Bool.false_ne_true,
      bind_of_ok (eat_of_not (hnot rfl)), if_neg Bool.false_ne_true]
    refine Decided.andThen (.refl s) (hitem (.refl hs)) fun e u hv hu he => ?_
    obtain ⟨_, hvalid⟩ := (Bool.and_eq_true _ _).mp hv
    refine (Decided.of_agrees hu.toAgrees (itemEnd_decided hend (by decide) hu.faces _)).imp fun _ r hr => ⟨_, hr, ?_⟩
    rw [he.shape_eq, c.isAssignmentElement_elementShape hvalid, c.isBindingElement_elementShape]
    unfold Elements.With
    rw [Bool.false_and, Bool.not_false, Bool.and_true, Bool.and_true]
    exact hes.push he.pending_eq

/-- The elements are read one after the other. -/
def SlotsDecided (strict : Bool) (slots : Slots) : Prop :=
  ∀ (n turns : Nat) (s : State) (ls : List Lexeme) (es : Elements) (a b q : Bool),
    s.context.Free strict → es.Are a b q →
    s.Faces (lexemes slots.pieces ++ .punctuator .closeBracket :: ls) →
    Decided s (slots.isRead strict = true) (.punctuator .closeBracket :: ls)
      (Elements.Are (a && slots.isPattern .assignment strict) (b && slots.isPattern .binding strict)
        (q || !slots.isCovered)) (repeatTurns (arrayTurn (derive n)) turns es s)

theorem slots_nil : SlotsDecided strict .nil := by
  intro n turns s ls es a b q _ hes hs
  have hs : s.Faces (.punctuator .closeBracket :: ls) := hs
  refine .done (b := es) (u := s) ?_ ⟨rfl, .refl hs, ?_⟩ turns
  · unfold arrayTurn
    rw [isAt_bind, isPunctuator_of_kind hs.kind, if_pos (by rfl)]
    rfl
  · rwa [Slots.isPattern, Slots.isPattern, Slots.isCovered, Bool.and_true, Bool.and_true, Bool.not_true, Bool.or_false]

theorem slots_hole {rest : Slots} (h : SlotsDecided strict rest) : SlotsDecided strict (.hole rest) := by
  intro n turns s ls es a b q hfree hes hs
  have hs : s.Faces (.punctuator .comma :: (lexemes rest.pieces ++ .punctuator .closeBracket :: ls)) := hs
  refine (Decided.again (v := True) (k := lexemes rest.pieces ++ .punctuator .closeBracket :: ls) (R := (· = es))
    (.refl s) ?_ (fun es' u m _ hu hes' => ?_) turns).iff (iff_of_eq (true_and _))
  · unfold arrayTurn
    rw [isAt_bind, isPunctuator_of_kind hs.kind, if_neg (by nofun)]
    exact .eat (.refl hs) fun t ht => ⟨trivial, ht, es, rfl, rfl⟩
  · subst hes'
    exact .of_agrees hu.toAgrees (h n m u ls es' a b q (hu.context ▸ hfree) hes hu.faces)

theorem slots_last {element : Cover} (spread defaulted : Bool) (h : CoverDecided strict element) :
    SlotsDecided strict (.last spread element defaulted) := by
  intro n turns s ls es a b q hfree hes hs
  rw [lexemes_last] at hs
  refine (Decided.again (.refl s) (arrayTurn_element h spread hfree .last hes hs) (fun es' u m _ hu hes' => ?_)
    turns).iff (iff_of_eq (and_true _))
  refine .of_agrees hu.toAgrees (((slots_nil n m u ls es' _ _ _ (hu.context ▸ hfree) hes' hu.faces).imp
    fun _ es hes => ?_).iff (iff_of_true rfl trivial))
  simpa [Slots.isPattern, Slots.isCovered] using hes

theorem slots_more {element : Cover} {rest : Slots} (spread defaulted : Bool) (h : CoverDecided strict element)
    (hrest : SlotsDecided strict rest) : SlotsDecided strict (.more spread element defaulted rest) := by
  intro n turns s ls es a b q hfree hes hs
  rw [lexemes_more] at hs
  refine (Decided.again (.refl s) (arrayTurn_element h spread hfree .more hes hs) (fun es' u m _ hu hes' => ?_)
    turns).iff (iff_of_eq (Bool.and_eq_true _ _).symm)
  refine .of_agrees hu.toAgrees ((hrest n m u ls es' _ _ _ (hu.context ▸ hfree) hes' hu.faces).imp
    fun _ es hes => ?_)
  simpa [Slots.isPattern, Slots.isCovered, Bool.and_assoc, Bool.and_comm, Bool.and_left_comm, Bool.or_assoc] using hes

/-- An array literal before whatever follows it. -/
theorem array_decided {slots : Slots} (h : SlotsDecided strict slots) {n : Nat} (hfree : s.context.Free strict)
    (hs : s.Faces (lexemes (Cover.array slots).pieces ++ ls)) :
    Decided s ((Cover.array slots).isRead strict = true) ls
      (Summary.Is ((Cover.array slots).shape strict) !(Cover.array slots).isCovered) (primary (derive n) s) := by
  rw [lexemes_array] at hs
  rw [primary_openBracket hs.kind, arrayLiteral_eq]
  refine .of_agrees (agrees_noted s) ?_
  rw [token_bind]
  refine .advance (.refl (faces_noted hs)) fun t ht => ?_
  refine Decided.andThen ht.toAgrees (.loop fun turns => h n turns t ls {} true true false (ht.context ▸ hfree)
    ⟨rfl, rfl, rfl⟩ ht.faces) fun es u _ hu hes => ?_
  rw [Bool.true_and, Bool.true_and, Bool.false_or] at hes
  exact .advance hu fun u hu => ⟨trivial, hu, hes.summary s.token.start⟩

/-! ## Names of properties -/

/-- The name is one of a property if it is read. -/
def KeyDecided (strict : Bool) (key : Key) : Prop :=
  ∀ (n : Nat) (s : State) (ls : List Lexeme), s.context.Free strict →
    s.Faces (lexemes key.pieces ++ .punctuator .colon :: ls) →
    Decided s (key.isRead strict = true) (.punctuator .colon :: ls) (fun _ => True) (propertyName (derive n) false s)

theorem key_word (w : Word) : KeyDecided strict (.word w) := by
  intro n s ls _ hs
  have hs : s.Faces (.word w :: .punctuator .colon :: ls) := hs
  unfold propertyName
  obtain ⟨k, hk⟩ | ⟨name, escaped, hname⟩ := w.kind_cases
  · rw [token_bind, hs.kind.trans hk]
    exact .advanceWith (.refl hs) (by decide) fun t ht => ⟨rfl, ht, trivial⟩
  · rw [token_bind, hs.kind.trans hname]
    exact .advanceWith (.refl hs) (by decide) fun t ht => ⟨rfl, ht, trivial⟩

theorem key_string {legacy : Bool} (text : Literal (.string legacy)) : KeyDecided strict (.string text) := by
  intro n s ls _ hs
  have hs : s.Faces (.literal text :: .punctuator .colon :: ls) := hs
  have hkind : s.token.kind = .string legacy := hs.kind
  unfold propertyName
  rw [token_bind, hkind]
  exact .advanceWith (.refl hs) (by decide) fun t ht => ⟨rfl, ht, trivial⟩

theorem key_number {legacy : Bool} (number : Literal (.number legacy)) : KeyDecided strict (.number number) := by
  intro n s ls hfree hs
  have hs : s.Faces (.literal number :: .punctuator .colon :: ls) := hs
  have hkind : s.token.kind = .number legacy := hs.kind
  unfold propertyName
  rw [token_bind, hkind]
  dsimp only
  rw [context_bind, hfree.strict_eq]
  change Decided s ((!(legacy && strict)) = true) _ _ _
  cases legacy && strict with
  | true =>
    rw [if_pos rfl]
    exact .refuse Bool.false_ne_true
  | false =>
    rw [if_neg Bool.false_ne_true]
    exact .advanceWith (.refl hs) (by decide) fun t ht => ⟨rfl, ht, trivial⟩

/-- A computed name is an expression by itself. -/
theorem key_computed {key : Cover} (h : CoverDecided strict key) : KeyDecided strict (.computed key) := by
  intro n s ls hfree hs
  rw [lexemes_computed] at hs
  have hkind : s.token.kind = .punctuator .openBracket := hs.kind
  unfold propertyName
  rw [token_bind, hkind]
  refine .advance (.refl hs) fun t ht => ?_
  have hfaces : t.Faces
      (lexemes (key.elementPieces false) ++ .punctuator .closeBracket :: .punctuator .colon :: ls) := by
    rw [lexemes_element]
    exact ht.faces
  have hkey := (h.element (n := n) (p := .closeBracket) (ht.context ▸ hfree) ⟨rfl, by decide⟩ hfaces).iff
    (w := key.isRead strict = true) (by simp)
  refine (Decided.andThen ht.toAgrees (.discard (.refl t) (assignment_decided hkey (w := key.isCovered = true)
    fun e he => ?_)) fun _ u _ hu _ => ?_).iff (iff_of_eq (Bool.and_eq_true _ _).symm)
  · rw [he.none_iff, Bool.false_or, Bool.not_eq_false']
  · exact .expectWith hu (by decide) fun u hu => ⟨trivial, hu, trivial⟩

/-! ## Object literals -/

/-- The item of an object literal. -/
def objectItem (nested : Derivation) (es : Elements) : Recognizer Elements := do
  if ← eat .ellipsis then
    let e ← assignment nested true
    let last ← isAt .closeBrace
    return es.push e (e.shape.isSimpleTarget && last) (e.shape = .identifier true && last)
  else
    let e ← nested .objectMember
    return match e.shape with
      | .pattern binding => es.push e true binding
      | _ => es.push e false false

theorem objectLiteral_eq (nested : Derivation) : objectLiteral nested = (do
    let start := (← token).start
    advance
    let es ← itemsUntil .closeBrace ({} : Elements) (objectItem nested)
    advance
    return es.summary start) := rfl

/-- A property may be followed by a comma or end the literal. -/
def EndsMember (p : Punctuator) : Prop :=
  p = .comma ∨ p = .closeBrace

theorem EndsMember.endsElement (h : EndsMember p) : EndsElement p := by
  rcases h with rfl | rfl <;> exact ⟨rfl, by decide⟩

/-- What is known of the properties with one more, which takes no others unless it is the last. -/
def Elements.WithMember (strict : Bool) (a b q : Bool) (m : Member) (last : Bool) (es : Elements) : Prop :=
  es.Are (a && (m.isPattern .assignment strict && !(m.isRest && !last)))
    (b && (m.isPattern .binding strict && !(m.isRest && !last))) (q || !m.isCovered)

/-- The property is read. -/
def MemberDecided (strict : Bool) (m : Member) : Prop :=
  ∀ (n : Nat) (s : State) (p : Punctuator) (ls : List Lexeme) (es : Elements) (a b q : Bool), s.context.Free strict →
    EndsMember p → es.Are a b q → s.Faces (lexemes m.pieces ++ .punctuator p :: ls) →
    Decided s (m.isRead strict = true) (.punctuator p :: ls)
      (Elements.WithMember strict a b q m (decide (p = .closeBrace))) (objectItem (derive n) es s)

theorem member_spread {element : Cover} (defaulted : Bool) (h : CoverDecided strict element) :
    MemberDecided strict (.spread element defaulted) := by
  intro n s p ls es a b q hfree hp hes hs
  have hs : s.Faces (.punctuator .ellipsis :: (lexemes (element.elementPieces defaulted) ++ .punctuator p :: ls)) := hs
  unfold objectItem
  refine .eat (.refl hs) fun t ht => ?_
  have hitem := assignment_decided (h.element (n := n) (ht.context ▸ hfree) hp.endsElement ht.faces)
    (w := (defaulted || element.isCovered) = true) fun e he => by rw [he.none_iff, Bool.not_eq_false']
  refine (Decided.andThen ht.toAgrees hitem fun e u hv hu he => ?_).iff (iff_of_eq (Bool.and_eq_true _ _).symm)
  have hlast : u.token.isPunctuator .closeBrace = decide (p = .closeBrace) := by
    rw [isPunctuator_of_kind hu.kind]
    exact decide_eq_decide.mpr ⟨TokenKind.punctuator.inj, congrArg _⟩
  have hrest (target last : Bool) : (!defaulted && (element.isReference && target) && last) =
      (element.isReference && target && !defaulted && !(true && !last)) := by
    cases element.isReference <;> cases target <;> cases defaulted <;> cases last <;> rfl
  rw [isAt_bind, hlast]
  refine ⟨trivial, hu, ?_⟩
  rw [he.1.shape_eq, element.isSimpleTarget_elementShape, element.identifier_elementShape, hrest, hrest]
  refine hes.push ?_
  rw [he.2]
  exact ((Bool.not_eq_false' _).mpr hv.2).symm

/-- What is known of a property that is no rest, as it is known of a literal. -/
def PropertyDecided (strict : Bool) (m : Member) : Prop :=
  ∀ (n : Nat) (s : State) (p : Punctuator) (ls : List Lexeme), s.context.Free strict → EndsMember p →
    s.Faces (lexemes m.pieces ++ .punctuator p :: ls) →
    Decided s (m.isRead strict = true) (.punctuator p :: ls)
      (Summary.Is (patternShape (m.isPattern .assignment strict) (m.isPattern .binding strict)) !m.isCovered)
      (expandObjectMember (derive n) s)

theorem member_of_property {m : Member} (h : PropertyDecided strict m) (hrest : m.isRest = false) :
    MemberDecided strict m := by
  intro n s p ls es a b q hfree hp hes hs
  have hnot : s.token.isPunctuator .ellipsis = false := by
    obtain ⟨first, more, hfirst, _, hne⟩ := m.first
    rw [hfirst] at hs
    exact (isPunctuator_of_kind hs.kind _).trans (decide_eq_false (hne hrest))
  unfold objectItem
  rw [bind_of_ok (eat_of_not hnot), if_neg Bool.false_ne_true]
  refine Decided.andThen (.refl s) (derive_decided (p := .objectMember) fun k _ =>
    h k s.deepened p ls hfree hp (hs.of_eq rfl rfl)) fun e u _ hu he => ⟨trivial, hu, ?_⟩
  unfold Elements.WithMember
  rw [he.shape_eq, hrest, Bool.false_and, Bool.not_false, Bool.and_true, Bool.and_true]
  cases hassignment : m.isPattern .assignment strict with
  | true => exact hes.push he.pending_eq
  | false =>
    have hbinding : m.isPattern .binding strict = false := by
      refine Bool.eq_false_iff.mpr fun h => ?_
      rw [m.isPattern_assignment h] at hassignment
      cases hassignment
    rw [hbinding]
    exact hes.push he.pending_eq

theorem modifiers_key (key : Key) (hs : s.Faces (lexemes key.pieces ++ .punctuator .colon :: ls)) :
    modifiers s = .ok ⟨false, false, none⟩ s := by
  have hother {k : TokenKind} (hk : s.token.kind = k) (hidentifier : (∀ name escaped, k ≠ .identifier name escaped))
      (hstar : k ≠ .punctuator .star) : modifiers s = .ok ⟨false, false, none⟩ s := by
    refine modifiers_of_not ?_ ((isPunctuator_of_kind hk _).trans (decide_eq_false hstar))
    unfold Token.isIdentifier
    split
    · exact absurd (hk.symm.trans ‹_›) (hidentifier _ _)
    · rfl
  cases key with
  | word w =>
    have hs : s.Faces (.word w :: .punctuator .colon :: ls) := hs
    exact modifiers_word hs rfl
  | string text => exact hother hs.kind nofun nofun
  | number n => exact hother hs.kind nofun nofun
  | computed key => exact hother hs.kind nofun nofun

theorem property_keyed {key : Key} {element : Cover} (defaulted : Bool) (hkey : KeyDecided strict key)
    (h : CoverDecided strict element) : PropertyDecided strict (.keyed key element defaulted) := by
  intro n s p ls hfree hp hs
  rw [lexemes_keyed] at hs
  unfold expandObjectMember
  rw [token_bind, bind_of_ok (modifiers_key key hs)]
  refine (Decided.bind (.refl s) (hkey n s _ hfree hs) fun key t _ ht _ => ?_).iff
    (iff_of_eq (Bool.and_eq_true _ _).symm)
  have hparen : t.token.isPunctuator .openParen = false := isPunctuator_of_kind ht.kind .openParen
  rw [isAt_bind, hparen, if_neg (by nofun)]
  refine .eat ht fun t ht => ?_
  refine Decided.andThen ht.toAgrees (assignmentOrPattern_decided (h.element (ht.context ▸ hfree) hp.endsElement
    ht.faces)) fun e u hv hu he => ⟨trivial, hu, ?_, he.pending_eq⟩
  obtain ⟨_, hvalid⟩ := (Bool.and_eq_true _ _).mp hv
  change (if e.shape.isAssignmentElement then Shape.pattern e.shape.isBindingElement else .other) = _
  rw [he.shape_eq, element.isAssignmentElement_elementShape hvalid, element.isBindingElement_elementShape]
  rfl

/-- The initializer of a shorthand property, if there is one. -/
theorem initializer_decided {α : Type} {n : Nat} {e : Bool → α} {initialized : Bool} (hplain : s.context.Plain)
    (hp : EndsElement p) (hs : s.Faces (lexemes (defaultPieces initialized) ++ .punctuator p :: ls)) :
    Decided s True (.punctuator p :: ls) (· = e initialized) ((do
      if ← eat .assign then
        discard (assignment (derive n) true)
        return e true
      else return e false : Recognizer α) s) := by
  cases initialized with
  | false =>
    have hs : s.Faces (.punctuator p :: ls) := hs
    have hassign : s.token.isPunctuator .assign = false :=
      (isPunctuator_of_kind hs.kind .assign).trans (decide_eq_false hp.kind_ne)
    rw [bind_of_ok (eat_of_not hassign), if_neg Bool.false_ne_true]
    exact ⟨trivial, .refl hs, rfl⟩
  | true =>
    have hs : s.Faces (.punctuator .assign :: .literal one :: .punctuator p :: ls) := hs
    refine .eat (.refl hs) fun t ht => ?_
    rw [if_pos rfl]
    exact Decided.andThen ht.toAgrees (.discard (.refl t) (value_decided (ht.context ▸ hplain) hp ht.faces))
      fun _ u _ hu _ => ⟨trivial, hu, rfl⟩

/-- What stands behind a shorthand property is neither a parameter list nor a value. -/
theorem initializer_not {initialized : Bool} (hp : EndsMember p)
    (hs : s.Faces (lexemes (defaultPieces initialized) ++ .punctuator p :: ls)) :
    s.token.isPunctuator .openParen = false ∧ s.token.isPunctuator .colon = false := by
  have hkind : s.token.kind = .punctuator .assign ∨ s.token.kind = .punctuator .comma ∨
      s.token.kind = .punctuator .closeBrace := by
    cases initialized with
    | false =>
      have hkind : s.token.kind = .punctuator p := State.Faces.kind hs
      exact .inr (hp.imp (hkind.trans <| congrArg _ ·) (hkind.trans <| congrArg _ ·))
    | true => exact .inl (State.Faces.kind hs)
  rcases hkind with h | h | h <;> exact ⟨isPunctuator_of_kind h _, isPunctuator_of_kind h _⟩

theorem property_shorthand (v : Variable) (initialized : Bool) :
    PropertyDecided strict (.shorthand v initialized) := by
  intro n s p ls hfree hp hs
  have hs : s.Faces (.word v.toWord :: (lexemes (defaultPieces initialized) ++ .punctuator p :: ls)) := hs
  have hends : ∃ q rest, lexemes (defaultPieces initialized) ++ .punctuator p :: ls = .punctuator q :: rest ∧
      endsPropertyName ⟨.punctuator q, .start, .start, "", false⟩ = true := by
    cases initialized with
    | false => exact ⟨p, ls, rfl, by rcases hp with rfl | rfl <;> rfl⟩
    | true => exact ⟨.assign, _, rfl, rfl⟩
  obtain ⟨q, rest, hrest, hq⟩ := hends
  unfold expandObjectMember
  rw [token_bind, bind_of_ok (modifiers_word (hrest ▸ hs) hq)]
  refine Decided.call (.refl s) (propertyName_variable hs) fun key t ht hkey => ?_
  obtain ⟨hparen, hcolon⟩ := initializer_not hp ht.faces
  subst hkey
  rw [isAt_bind, hparen, if_neg (by nofun), bind_of_ok (eat_of_not hcolon), if_neg Bool.false_ne_true]
  dsimp only
  have hfree' : t.context.Free strict := ht.context ▸ hfree
  refine Decided.andThen ht.toAgrees ((checkReference_decided ht.faces).iff (hfree'.forbids_reference v))
    fun _ u _ hu _ => ?_
  have hfree'' : u.context.Free strict := hu.context ▸ hfree
  have hshape : (if u.context.forbidsAssigning v.name then Shape.other else .pattern true) =
      patternShape (v.isAssignable strict) (v.isAssignable strict) := by
    rw [← hfree''.not_forbidsAssigning]
    cases u.context.forbidsAssigning v.name <;> rfl
  rw [context_bind, hshape, token_bind]
  let found (pending : Bool) : Summary :=
    ⟨patternShape (v.isAssignable strict) (v.isAssignable strict), s.token.start,
      if pending then some u.token.start else none⟩
  refine (Decided.of_agrees hu.toAgrees (initializer_decided (e := found) hfree''.toPlain hp.endsElement
    hu.faces)).imp fun _ e he => ?_
  subst he
  refine ⟨rfl, ?_⟩
  cases initialized <;> rfl

/-- The properties are read one after the other. -/
def MembersDecided (strict : Bool) (members : Members) : Prop :=
  ∀ (n turns : Nat) (s : State) (ls : List Lexeme) (es : Elements) (a b q : Bool),
    s.context.Free strict → es.Are a b q →
    s.Faces (lexemes members.pieces ++ .punctuator .closeBrace :: ls) →
    Decided s (members.isRead strict = true) (.punctuator .closeBrace :: ls)
      (Elements.Are (a && members.isPattern .assignment strict) (b && members.isPattern .binding strict)
        (q || !members.isCovered)) (repeatTurns (itemTurn .closeBrace (objectItem (derive n))) turns es s)

theorem members_nil : MembersDecided strict .nil := by
  intro n turns s ls es a b q _ hes hs
  have hs : s.Faces (.punctuator .closeBrace :: ls) := hs
  refine ((items_end hs turns).imp fun _ es' hes' => ?_).iff (iff_of_true trivial rfl)
  subst hes'
  rwa [Members.isPattern, Members.isPattern, Members.isCovered, Bool.and_true, Bool.and_true, Bool.not_true,
    Bool.or_false]

theorem members_last {m : Member} (h : MemberDecided strict m) : MembersDecided strict (.last m) := by
  intro n turns s ls es a b q hfree hes hs
  have hs : s.Faces (lexemes m.pieces ++ .punctuator .closeBrace :: ls) := hs
  obtain ⟨first, rest, hfirst, hclose, _⟩ := m.first
  have hitem := h n s .closeBrace ls es a b q hfree (.inr rfl) hes hs
  rw [hfirst] at hs
  refine (items_last hs hclose hitem turns).imp fun _ es hes => ?_
  simpa [Elements.WithMember, Members.isPattern, Members.isCovered] using hes

theorem members_more {m : Member} {rest : Members} (h : MemberDecided strict m) (hrest : MembersDecided strict rest) :
    MembersDecided strict (.more m rest) := by
  intro n turns s ls es a b q hfree hes hs
  rw [lexemes_members] at hs
  obtain ⟨first, more, hfirst, hclose, _⟩ := m.first
  have hitem := h n s .comma _ es a b q hfree (.inl rfl) hes hs
  rw [hfirst] at hs
  refine (items_more hs hclose (by decide) hitem (fun es' u k _ hu hes' => ?_) turns).iff
    (iff_of_eq (Bool.and_eq_true _ _).symm)
  refine .of_agrees hu.toAgrees ((hrest n k u ls es' _ _ _ (hu.context ▸ hfree) hes' hu.faces).imp
    fun _ es hes => ?_)
  simpa [Members.isPattern, Members.isCovered, Bool.and_assoc, Bool.and_comm, Bool.and_left_comm, Bool.or_assoc]
    using hes

/-- An object literal before whatever follows it. -/
theorem object_decided {members : Members} (h : MembersDecided strict members) {n : Nat} (hfree : s.context.Free strict)
    (hs : s.Faces (lexemes (Cover.object members).pieces ++ ls)) :
    Decided s ((Cover.object members).isRead strict = true) ls
      (Summary.Is ((Cover.object members).shape strict) !(Cover.object members).isCovered) (primary (derive n) s) := by
  rw [lexemes_object] at hs
  rw [primary_openBrace hs.kind, objectLiteral_eq]
  refine .of_agrees (agrees_noted s) ?_
  rw [token_bind, itemsUntil_eq]
  refine .advance (.refl (faces_noted hs)) fun t ht => ?_
  refine Decided.andThen ht.toAgrees (.loop fun turns => h n turns t ls {} true true false (ht.context ▸ hfree)
    ⟨rfl, rfl, rfl⟩ ht.faces) fun es u _ hu hes => ?_
  rw [Bool.true_and, Bool.true_and, Bool.false_or] at hes
  exact .advance hu fun u hu => ⟨trivial, hu, hes.summary s.token.start⟩

/-! ## All trees -/

/-- A primary expression that is an operand, with nothing after it. -/
theorem operand_of_primary {c : Cover} {n : Nat} {R : Summary → Prop} {v : Prop}
    (hs : s.Faces (lexemes c.pieces ++ l :: ls)) (hstop : l.kind.stops = true)
    (h : Decided s v (l :: ls) R (primary (derive n) s)) : Decided s v (l :: ls) R (leftHandSide (derive n) s) := by
  have hkind : s.token.kind.beginsCover = true := by
    obtain ⟨first, rest, hfirst, hbegins⟩ := c.first
    rw [hfirst] at hs
    rwa [hs.kind]
  have hnot (k : Keyword) : s.token.isKeyword k = false := by
    rw [isKeyword_of_kind rfl]
    refine decide_eq_false fun hkeyword => ?_
    rw [hkeyword] at hkind
    cases hkind
  exact leftHandSide_of_primary (endsOperand_reaches s R hstop) h (hnot _) (hnot _) (hnot _)

theorem cover_number {legacy : Bool} (number : Literal (.number legacy)) : CoverDecided strict (.number number) := by
  intro n s p ls hfree hp hs
  refine operand_of_primary hs hp (Decided.iff (primary_number hs) ?_)
  change ¬ (legacy && s.context.strict) = true ↔ (!(legacy && strict)) = true
  rw [hfree.strict_eq, Bool.not_eq_true, Bool.not_eq_true']

mutual

/-- A tree is an operand just if it is read. -/
theorem cover_decided (c : Cover) : CoverDecided strict c := by
  cases c with
  | reference r => exact fun n s p ls hfree hp hs => reference_decided r hfree hs hp
  | number n => exact cover_number n
  | array slots =>
    exact fun n s p ls hfree hp hs => operand_of_primary hs hp (array_decided (slots_decided slots) hfree hs)
  | object members =>
    exact fun n s p ls hfree hp hs => operand_of_primary hs hp (object_decided (members_decided members) hfree hs)

theorem slots_decided (slots : Slots) : SlotsDecided strict slots := by
  cases slots with
  | nil => exact slots_nil
  | hole rest => exact slots_hole (slots_decided rest)
  | last spread element defaulted => exact slots_last spread defaulted (cover_decided element)
  | more spread element defaulted rest => exact slots_more spread defaulted (cover_decided element) (slots_decided rest)

theorem key_decided (key : Key) : KeyDecided strict key := by
  cases key with
  | word w => exact key_word w
  | string text => exact key_string text
  | number n => exact key_number n
  | computed key => exact key_computed (cover_decided key)

theorem member_decided (m : Member) : MemberDecided strict m := by
  cases m with
  | shorthand v initialized =>
    exact member_of_property (property_shorthand v initialized) rfl
  | keyed key element defaulted =>
    exact member_of_property (property_keyed defaulted (key_decided key) (cover_decided element)) rfl
  | spread element defaulted => exact member_spread defaulted (cover_decided element)

theorem members_decided (members : Members) : MembersDecided strict members := by
  cases members with
  | nil => exact members_nil
  | last m => exact members_last (member_decided m)
  | more m rest => exact members_more (member_decided m) (members_decided rest)

end

/-- A literal as a primary expression, whatever follows it. -/
theorem literal_decided {c : Cover} (hc : c.isLiteral = true) {n : Nat} (hfree : s.context.Free strict)
    (hs : s.Faces (lexemes c.pieces ++ ls)) :
    Decided s (c.isRead strict = true) ls (Summary.Is (c.shape strict) !c.isCovered) (primary (derive n) s) := by
  cases c with
  | reference r => cases hc
  | number n => cases hc
  | array slots => exact array_decided (slots_decided slots) hfree hs
  | object members => exact object_decided (members_decided members) hfree hs

end EcmaCheck.Grammar
