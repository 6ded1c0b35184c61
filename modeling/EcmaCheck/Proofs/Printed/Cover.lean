import EcmaCheck.Proofs.Printed.Statement
import EcmaCheck.Proofs.Printed.Pattern

/-!
# Trees of literals as expressions

What is kept of a tree of array and object literals that is an expression: its shape tells whether it is a pattern of
assignments or of declarations (`Cover.shape`), and an initializer of a shorthand property may wait for a pattern to
turn up (`Cover.isCovered`). An element with a default needs the element to be what can be assigned to
(`CoverDecided.element`).
-/

namespace EcmaCheck

open Grammar (Shape)
open Punctuator (piece)

/-! ## Shapes -/

/-- The shape of a literal. -/
def patternShape (assignable binding : Bool) : Shape :=
  if assignable then .pattern binding else .other

/-- The shape of the reference as an expression. -/
def Reference.shape (strict : Bool) : Reference → Shape
  | name v => .identifier (v.isAssignable strict)
  | member .. => .member
  | parenthesized r => (r.shape strict).inParentheses

/-- The shape of the tree as an expression. -/
def Cover.shape (strict : Bool) : Cover → Shape
  | reference r => r.shape strict
  | number _ => .other
  | array slots => patternShape (slots.isPattern .assignment strict) (slots.isPattern .binding strict)
  | object members => patternShape (members.isPattern .assignment strict) (members.isPattern .binding strict)

/-- The shape of an element, which is an assignment if it has a default. -/
def Cover.elementShape (strict : Bool) (c : Cover) (defaulted : Bool) : Shape :=
  if defaulted then .assignment (c.isTarget .binding strict) else c.shape strict

section

variable {strict : Bool}

theorem Reference.shape_cases (r : Reference) (strict : Bool) :
    r.shape strict = .identifier (r.isTarget .binding strict) ∧
        r.isTarget .assignment strict = r.isTarget .binding strict ∨
      (r.shape strict = .member ∨ r.shape strict = .parenthesizedMember) ∧
        r.isTarget .assignment strict = true ∧ r.isTarget .binding strict = false ∨
      r.shape strict = .parenthesizedIdentifier (r.isTarget .assignment strict) ∧
        r.isTarget .binding strict = false := by
  induction r with
  | name v => exact .inl ⟨rfl, rfl⟩
  | member v property => exact .inr (.inl ⟨.inl rfl, rfl, rfl⟩)
  | parenthesized r ih =>
    have hassignment : (parenthesized r).isTarget .assignment strict = r.isTarget .assignment strict := Bool.true_and _
    have hbinding : (parenthesized r).isTarget .binding strict = false := Bool.false_and _
    rw [hassignment, hbinding]
    unfold Reference.shape
    obtain ⟨hshape, htarget⟩ | ⟨hshape | hshape, htarget, _⟩ | ⟨hshape, _⟩ := ih
    · exact .inr (.inr ⟨by rw [hshape, htarget]; rfl, rfl⟩)
    · exact .inr (.inl ⟨.inr (by rw [hshape]; rfl), htarget, rfl⟩)
    · exact .inr (.inl ⟨.inr (by rw [hshape]; rfl), htarget, rfl⟩)
    · exact .inr (.inr ⟨by rw [hshape]; rfl, rfl⟩)

theorem isAssignmentTarget_patternShape (assignable binding : Bool) :
    (patternShape assignable binding).isAssignmentTarget = assignable := by
  cases assignable <;> rfl

theorem isBindingTarget_patternShape {assignable binding : Bool} (h : binding = true → assignable = true) :
    (patternShape assignable binding).isBindingTarget = binding := by
  cases assignable with
  | true => rfl
  | false =>
    cases binding with
    | true => cases h rfl
    | false => rfl

theorem isSimpleTarget_patternShape (assignable binding : Bool) :
    (patternShape assignable binding).isSimpleTarget = false ∧ patternShape assignable binding ≠ .identifier true := by
  cases assignable <;> exact ⟨rfl, nofun⟩

/-- What can be assigned to is a target of assignments. -/
theorem Cover.isAssignmentTarget_shape (c : Cover) :
    (c.shape strict).isAssignmentTarget = c.isTarget .assignment strict := by
  cases c with
  | reference r =>
    change (r.shape strict).isAssignmentTarget = r.isTarget .assignment strict
    obtain ⟨hshape, htarget⟩ | ⟨hshape | hshape, htarget, _⟩ | ⟨hshape, _⟩ := r.shape_cases strict
    · rw [hshape, htarget]
      exact Bool.or_false _
    · rw [hshape, htarget]
      rfl
    · rw [hshape, htarget]
      rfl
    · rw [hshape]
      exact Bool.or_false _
  | number n => rfl
  | array slots => exact isAssignmentTarget_patternShape _ _
  | object members => exact isAssignmentTarget_patternShape _ _

/-- What can be a parameter is a target of declarations. -/
theorem Cover.isBindingTarget_shape (c : Cover) :
    (c.shape strict).isBindingTarget = c.isTarget .binding strict := by
  cases c with
  | reference r =>
    change (r.shape strict).isBindingTarget = r.isTarget .binding strict
    obtain ⟨hshape, _⟩ | ⟨hshape | hshape, _, htarget⟩ | ⟨hshape, htarget⟩ := r.shape_cases strict
    · rw [hshape]
      rfl
    · rw [hshape, htarget]
      rfl
    · rw [hshape, htarget]
      rfl
    · rw [hshape, htarget]
      rfl
  | number n => rfl
  | array slots => exact isBindingTarget_patternShape slots.isPattern_assignment
  | object members => exact isBindingTarget_patternShape members.isPattern_assignment

/-- What an object spreads is a target of assignments just if it is a reference. -/
theorem Cover.isSimpleTarget_shape (c : Cover) :
    (c.shape strict).isSimpleTarget = (c.isReference && c.isTarget .assignment strict) := by
  cases c with
  | reference r =>
    change (r.shape strict).isSimpleTarget = r.isTarget .assignment strict
    obtain ⟨hshape, htarget⟩ | ⟨hshape | hshape, htarget, _⟩ | ⟨hshape, _⟩ := r.shape_cases strict
    · rw [hshape, htarget]
      rfl
    · rw [hshape, htarget]
      rfl
    · rw [hshape, htarget]
      rfl
    · rw [hshape]
      rfl
  | number n => rfl
  | array slots => exact (isSimpleTarget_patternShape _ _).1
  | object members => exact (isSimpleTarget_patternShape _ _).1

/-- What an object spreads is a target of declarations just if it is a name. -/
theorem Cover.identifier_shape (c : Cover) :
    decide (c.shape strict = .identifier true) = (c.isReference && c.isTarget .binding strict) := by
  cases c with
  | reference r =>
    change decide (r.shape strict = .identifier true) = r.isTarget .binding strict
    obtain ⟨hshape, _⟩ | ⟨hshape | hshape, _, htarget⟩ | ⟨hshape, htarget⟩ := r.shape_cases strict
    · rw [hshape]
      cases r.isTarget .binding strict <;> rfl
    · rw [hshape, htarget]
      rfl
    · rw [hshape, htarget]
      rfl
    · rw [hshape, htarget]
      exact decide_eq_false nofun
  | number n => rfl
  | array slots => exact decide_eq_false (isSimpleTarget_patternShape _ _).2
  | object members => exact decide_eq_false (isSimpleTarget_patternShape _ _).2

theorem Cover.shape_ne_assignment (c : Cover) (binding : Bool) : c.shape strict ≠ .assignment binding := by
  cases c with
  | reference r =>
    change r.shape strict ≠ .assignment binding
    obtain ⟨hshape, _⟩ | ⟨hshape | hshape, _⟩ | ⟨hshape, _⟩ := r.shape_cases strict <;>
      rw [hshape] <;> nofun
  | number n => nofun
  | array slots =>
    change patternShape _ _ ≠ _
    unfold patternShape
    split <;> nofun
  | object members =>
    change patternShape _ _ ≠ _
    unfold patternShape
    split <;> nofun

/-- An assignment to a target of assignments can be a parameter with a default just if the target is one of
declarations. -/
theorem Cover.bindable_shape (c : Cover) (h : c.isTarget .assignment strict = true) :
    (c.shape strict matches .identifier _ | .pattern true) = c.isTarget .binding strict := by
  have hpattern {assignable binding : Bool} (h : assignable = true) :
      (patternShape assignable binding matches .identifier _ | .pattern true) = binding := by
    subst h
    cases binding <;> rfl
  cases c with
  | reference r =>
    have h : r.isTarget .assignment strict = true := h
    change (r.shape strict matches .identifier _ | .pattern true) = r.isTarget .binding strict
    obtain ⟨hshape, htarget⟩ | ⟨hshape | hshape, _, htarget⟩ | ⟨hshape, htarget⟩ := r.shape_cases strict
    · rw [hshape, ← htarget, h]
    · rw [hshape, htarget]
    · rw [hshape, htarget]
    · rw [hshape, htarget]
  | number n => cases h
  | array slots => exact hpattern h
  | object members => exact hpattern h

theorem isAssignmentElement_of_ne {shape : Shape} (h : ∀ binding, shape ≠ .assignment binding) :
    shape.isAssignmentElement = shape.isAssignmentTarget := by
  cases shape with
  | assignment binding => exact absurd rfl (h binding)
  | _ => exact Bool.or_false _

theorem Cover.isAssignmentTarget_elementShape (c : Cover) (defaulted : Bool) :
    (c.elementShape strict defaulted).isAssignmentTarget = (!defaulted && c.isTarget .assignment strict) := by
  cases defaulted with
  | false => exact c.isAssignmentTarget_shape
  | true => rfl

theorem Cover.isBindingTarget_elementShape (c : Cover) (defaulted : Bool) :
    (c.elementShape strict defaulted).isBindingTarget = (!defaulted && c.isTarget .binding strict) := by
  cases defaulted with
  | false => exact c.isBindingTarget_shape
  | true => rfl

theorem Cover.isSimpleTarget_elementShape (c : Cover) (defaulted : Bool) :
    (c.elementShape strict defaulted).isSimpleTarget =
      (!defaulted && (c.isReference && c.isTarget .assignment strict)) := by
  cases defaulted with
  | false => exact c.isSimpleTarget_shape
  | true => rfl

theorem Cover.identifier_elementShape (c : Cover) (defaulted : Bool) :
    decide (c.elementShape strict defaulted = .identifier true) =
      (!defaulted && (c.isReference && c.isTarget .binding strict)) := by
  cases defaulted with
  | false => exact c.identifier_shape
  | true => rfl

theorem Cover.isAssignmentElement_elementShape (c : Cover) {defaulted : Bool}
    (h : (!defaulted || c.isTarget .assignment strict) = true) :
    (c.elementShape strict defaulted).isAssignmentElement = c.isTarget .assignment strict := by
  cases defaulted with
  | false =>
    refine Eq.trans ?_ c.isAssignmentTarget_shape
    exact isAssignmentElement_of_ne c.shape_ne_assignment
  | true =>
    have h : c.isTarget .assignment strict = true := h
    rw [h]
    rfl

theorem Cover.isBindingElement_elementShape (c : Cover) (defaulted : Bool) :
    (c.elementShape strict defaulted).isBindingElement = c.isTarget .binding strict := by
  cases defaulted with
  | false =>
    change ((c.shape strict).isBindingTarget || decide (c.shape strict = .assignment true)) = _
    rw [c.isBindingTarget_shape, decide_eq_false (c.shape_ne_assignment true), Bool.or_false]
  | true =>
    change (false || decide (Shape.assignment (c.isTarget .binding strict) = .assignment true)) = _
    cases c.isTarget .binding strict <;> rfl

end

/-! ## Beginnings -/

/-- A word is a keyword or an identifier. -/
theorem Word.kind_cases (w : Word) :
    (∃ k, w.kind = .keyword k) ∨ ∃ name escaped, w.kind = .identifier name escaped := by
  unfold Word.kind Lexical.nameKind
  split
  · exact .inl ⟨_, rfl⟩
  · exact .inr ⟨_, _, rfl⟩

/-- Whether the token begins a tree. -/
def TokenKind.beginsCover : TokenKind → Bool
  | .identifier .. | .number _ => true
  | .punctuator p =>
    match p with
    | .openParen | .openBracket | .openBrace => true
    | _ => false
  | _ => false

theorem TokenKind.beginsOperand_of_beginsCover {k : TokenKind} (h : k.beginsCover = true) : k.beginsOperand = true := by
  cases k with
  | identifier | number => rfl
  | punctuator p => cases p <;> first | rfl | cases h
  | _ => cases h

theorem Reference.first (r : Reference) : ∃ l ls, lexemes r.pieces = l :: ls ∧ l.kind.beginsCover = true := by
  cases r with
  | name v => exact ⟨_, _, rfl, congrArg TokenKind.beginsCover v.kind_eq⟩
  | member v property => exact ⟨_, _, rfl, congrArg TokenKind.beginsCover v.kind_eq⟩
  | parenthesized r => exact ⟨_, _, rfl, rfl⟩

theorem Cover.first (c : Cover) : ∃ l ls, lexemes c.pieces = l :: ls ∧ l.kind.beginsCover = true := by
  cases c with
  | reference r => exact r.first
  | number n => exact ⟨_, _, rfl, rfl⟩
  | array slots => exact ⟨_, _, rfl, rfl⟩
  | object members => exact ⟨_, _, rfl, rfl⟩

theorem Key.first (key : Key) : ∃ l ls, lexemes key.pieces = l :: ls ∧
    (l.kind = .punctuator .openBracket ∨ ∀ p, l.kind ≠ .punctuator p) := by
  cases key with
  | word w =>
    refine ⟨_, _, rfl, .inr fun p hp => ?_⟩
    obtain ⟨k, hk⟩ | ⟨name, escaped, hname⟩ := w.kind_cases
    · exact absurd (hk.symm.trans hp) nofun
    · exact absurd (hname.symm.trans hp) nofun
  | string text => exact ⟨_, _, rfl, .inr nofun⟩
  | number n => exact ⟨_, _, rfl, .inr nofun⟩
  | computed key => exact ⟨_, _, rfl, .inl rfl⟩

/-- A property begins with dots just if it takes all the others. -/
theorem Member.first (m : Member) : ∃ l ls, lexemes m.pieces = l :: ls ∧ l.kind ≠ .punctuator .closeBrace ∧
    (m.isRest = false → l.kind ≠ .punctuator .ellipsis) := by
  cases m with
  | shorthand v initialized =>
    exact ⟨_, _, rfl, fun h => absurd (v.kind_eq.symm.trans h) nofun, fun _ h => absurd (v.kind_eq.symm.trans h) nofun⟩
  | keyed key element defaulted =>
    obtain ⟨l, ls, hl, hkind⟩ := key.first
    refine ⟨l, _, by rw [Member.pieces, lexemes_append, hl]; rfl, fun h => ?_, fun _ h => ?_⟩
    · exact hkind.elim (fun hk => absurd (hk.symm.trans h) nofun) fun hk => hk _ h
    · exact hkind.elim (fun hk => absurd (hk.symm.trans h) nofun) fun hk => hk _ h
  | spread element defaulted => exact ⟨_, _, rfl, nofun, nofun⟩

/-! ## Lexemes -/

section

variable (ls : List Lexeme)

theorem lexemes_parenthesized (r : Reference) : lexemes (Reference.parenthesized r).pieces ++ ls =
    .punctuator .openParen :: (lexemes r.pieces ++ .punctuator .closeParen :: ls) := by
  change .punctuator .openParen :: (lexemes (r.pieces ++ [piece .closeParen]) ++ ls) = _
  rw [lexemes_append, List.append_assoc]
  rfl

theorem lexemes_array (slots : Slots) : lexemes (Cover.array slots).pieces ++ ls =
    .punctuator .openBracket :: (lexemes slots.pieces ++ .punctuator .closeBracket :: ls) := by
  change .punctuator .openBracket :: (lexemes (slots.pieces ++ [piece .closeBracket]) ++ ls) = _
  rw [lexemes_append, List.append_assoc]
  rfl

theorem lexemes_object (members : Members) : lexemes (Cover.object members).pieces ++ ls =
    .punctuator .openBrace :: (lexemes members.pieces ++ .punctuator .closeBrace :: ls) := by
  change .punctuator .openBrace :: (lexemes (members.pieces ++ [piece .closeBrace]) ++ ls) = _
  rw [lexemes_append, List.append_assoc]
  rfl

theorem lexemes_computed (key : Cover) : lexemes (Key.computed key).pieces ++ ls =
    .punctuator .openBracket :: (lexemes key.pieces ++ .punctuator .closeBracket :: ls) := by
  change .punctuator .openBracket :: (lexemes (key.pieces ++ [piece .closeBracket]) ++ ls) = _
  rw [lexemes_append, List.append_assoc]
  rfl

/-- The element with its default. -/
def Cover.elementPieces (c : Cover) (defaulted : Bool) : List Piece :=
  c.pieces ++ defaultPieces defaulted

theorem lexemes_element (c : Cover) : lexemes (c.elementPieces false) ++ ls = lexemes c.pieces ++ ls := by
  unfold Cover.elementPieces
  rw [lexemes_append, List.append_assoc]
  rfl

theorem lexemes_defaulted (c : Cover) : lexemes (c.elementPieces true) ++ ls =
    lexemes c.pieces ++ .punctuator .assign :: .literal one :: ls := by
  unfold Cover.elementPieces
  rw [lexemes_append, List.append_assoc]
  rfl

theorem lexemes_last (spread : Bool) (element : Cover) (defaulted : Bool) :
    lexemes (Slots.last spread element defaulted).pieces ++ ls =
      lexemes (spreadPieces spread) ++ (lexemes (element.elementPieces defaulted) ++ ls) := by
  rw [Slots.pieces, lexemes_append, List.append_assoc]
  rfl

theorem lexemes_more (spread : Bool) (element : Cover) (defaulted : Bool) (rest : Slots) :
    lexemes (Slots.more spread element defaulted rest).pieces ++ ls = lexemes (spreadPieces spread) ++
      (lexemes (element.elementPieces defaulted) ++ .punctuator .comma :: (lexemes rest.pieces ++ ls)) := by
  rw [Slots.pieces, ← List.append_assoc element.pieces, lexemes_append, lexemes_append, List.append_assoc,
    List.append_assoc]
  rfl

theorem lexemes_keyed (key : Key) (element : Cover) (defaulted : Bool) :
    lexemes (Member.keyed key element defaulted).pieces ++ ls =
      lexemes key.pieces ++ .punctuator .colon :: (lexemes (element.elementPieces defaulted) ++ ls) := by
  rw [Member.pieces, lexemes_append, List.append_assoc]
  rfl

theorem lexemes_members (m : Member) (rest : Members) : lexemes (Members.more m rest).pieces ++ ls =
    lexemes m.pieces ++ .punctuator .comma :: (lexemes rest.pieces ++ ls) := by
  rw [Members.pieces, lexemes_append, List.append_assoc]
  rfl

end

namespace Grammar

variable {strict : Bool} {s : State} {p : Punctuator} {l : Lexeme} {ls : List Lexeme}

/-! ## References -/

theorem Context.Free.forbids_reference {c : Context} (h : c.Free strict) (v : Variable) :
    c.forbids false v.name = false ↔ v.isPermitted strict = true := by
  rw [h.forbids, Bool.false_and, Bool.or_false]
  unfold Variable.isPermitted
  cases strict && strictReservedWords.contains v.name <;> simp

theorem Context.Free.not_forbidsAssigning {c : Context} (h : c.Free strict) (v : Variable) :
    (!c.forbidsAssigning v.name) = v.isAssignable strict := by
  rw [h.forbidsAssigning]
  rfl

/-- An operand ends before the punctuator. -/
def StopsBefore (p : Punctuator) : Prop :=
  (TokenKind.punctuator p).stops = true

theorem StopsBefore.ne {q : Punctuator} (h : StopsBefore p) (hq : (TokenKind.punctuator q).stops = false) : p ≠ q := by
  rintro rfl
  exact Bool.false_ne_true (hq.symm.trans h)

/-- The name of a property after a dot. -/
theorem memberName_decided {w : Word} (hs : s.Faces (.word w :: ls)) :
    Decided s True ls (fun _ => True) (memberName s) := by
  obtain ⟨t, ht, hreaches, _⟩ :=
    advanceWith_reaches (.refl hs) (show LexicalGoal.division ≠ .templateTail by decide)
  have hrun : memberName s = advanceWith .division s := by
    unfold memberName
    obtain ⟨k, hk⟩ | ⟨name, escaped, hname⟩ := w.kind_cases
    · rw [token_bind, hs.kind.trans hk]
    · rw [token_bind, hs.kind.trans hname]
  rw [hrun, ht]
  exact ⟨trivial, hreaches, trivial⟩

/-- An access to a property by its name. -/
theorem callTailPart_member {nested : Derivation} {allowCall inChain : Bool} {e : Summary} {w : Word}
    (hs : s.Faces (.punctuator .dot :: .word w :: ls)) (he : e.shorthand? = none) :
    Decided s True ls (· = some (.member, inChain)) (callTailPart nested allowCall inChain e s) := by
  have hdot : s.token.isPunctuator .dot = true := isPunctuator_of_kind hs.kind .dot
  unfold callTailPart
  rw [token_bind, hdot, if_pos rfl]
  refine Decided.call (.refl s) ((rejectShorthand_decided hs e).iff (iff_of_true he trivial)) fun _ t ht _ => ?_
  refine .advance ht fun t ht => ?_
  exact Decided.andThen ht.toAgrees (memberName_decided ht.faces) fun _ u _ hu _ => ⟨trivial, hu, rfl⟩

theorem access_decided {n : Nat} {v : Variable} {property : Word} (hfree : s.context.Free strict)
    (hs : s.Faces (.word v.toWord :: .punctuator .dot :: .word property :: .punctuator p :: ls)) (hp : StopsBefore p) :
    Decided s (v.isPermitted strict = true) (.punctuator p :: ls) (Summary.Is .member false)
      (leftHandSide (derive n) s) := by
  have hnot (k : Keyword) : s.token.isKeyword k = false := isKeyword_of_kind (hs.kind.trans v.kind_eq) k
  refine notingOperandEnd_decided ?_
  rw [token_bind, hnot, if_neg Bool.false_ne_true, hnot, if_neg Bool.false_ne_true, hnot, if_neg Bool.false_ne_true]
  refine Decided.andThen (.refl s) ((primary_name hs (by decide) (by decide)).iff (hfree.forbids_reference v))
    fun e t _ ht he => ?_
  change Decided _ _ _ _ (callTail (derive n) true e t)
  unfold callTail
  rw [if_neg (by rw [he.shape_eq]; nofun)]
  refine .loop fun turns => Decided.iff (Decided.again (v := True) (w := True) (k := .punctuator p :: ls)
    (R := fun r => r.1.Is .member false) ht.toAgrees ?_ (fun r u m _ hu hr => ?_) turns) (iff_of_eq (and_true True))
  · refine Decided.andThen (.refl t) (callTailPart_member ht.faces (he.none_iff.mpr rfl)) fun r u _ hu hr => ?_
    subst hr
    exact ⟨trivial, hu, _, rfl, rfl, rfl⟩
  · refine .done (b := r.1) (u := u) ?_ ⟨trivial, hu, hr⟩ m
    exact bind_of_ok (callTailPart_stops (stops_of_kind (hu.kind ▸ hp)).toStopsOperand true r.2 r.1)

theorem name_decided {n : Nat} {v : Variable} (hfree : s.context.Free strict)
    (hs : s.Faces (.word v.toWord :: .punctuator p :: ls)) (hp : StopsBefore p) :
    Decided s (v.isPermitted strict = true) (.punctuator p :: ls)
      (Summary.Is (.identifier (v.isAssignable strict)) false) (leftHandSide (derive n) s) := by
  have hnot (k : Keyword) : s.token.isKeyword k = false := isKeyword_of_kind (hs.kind.trans v.kind_eq) k
  rw [← hfree.not_forbidsAssigning]
  exact leftHandSide_of_primary (endsOperand_reaches s _ hp)
    ((primary_name hs (hp.ne rfl) (hp.ne rfl)).iff (hfree.forbids_reference v)) (hnot _) (hnot _) (hnot _)

theorem begins_of_beginsCover {k : TokenKind} (hs : s.Faces (l :: ls)) (hk : l.kind = k) (h : k.beginsCover = true) :
    s.token.kind.beginsOperand = true := by
  rw [hs.kind, hk]
  exact TokenKind.beginsOperand_of_beginsCover h

theorem not_punctuator_of_beginsCover (h : l.kind.beginsCover = true) {q : Punctuator}
    (hq : (TokenKind.punctuator q).beginsCover = false) : l.kind ≠ .punctuator q := by
  intro hkind
  rw [hkind, hq] at h
  cases h

/-- A reference is an operand if its name is permitted. -/
theorem reference_decided (r : Reference) {n : Nat} (hfree : s.context.Free strict)
    (hs : s.Faces (lexemes r.pieces ++ .punctuator p :: ls)) (hp : StopsBefore p) :
    Decided s (r.base.isPermitted strict = true) (.punctuator p :: ls) (Summary.Is (r.shape strict) false)
      (leftHandSide (derive n) s) := by
  induction r generalizing n s p ls with
  | name v => exact name_decided hfree hs hp
  | member v property => exact access_decided hfree hs hp
  | parenthesized r ih =>
    rw [lexemes_parenthesized] at hs
    have hnot (k : Keyword) : s.token.isKeyword k = false := isKeyword_of_kind hs.kind k
    refine leftHandSide_of_primary (endsOperand_reaches s _ hp) ?_ (hnot _) (hnot _) (hnot _)
    rw [primary_openParen hs.kind]
    obtain ⟨first, rest, hfirst, hbegins⟩ := r.first
    have hfaces : s.noted.Faces
        (.punctuator .openParen :: first :: (rest ++ .punctuator .closeParen :: .punctuator p :: ls)) := by
      rw [hfirst] at hs
      exact faces_noted hs
    have hitem (t : State)
        (ht : s.noted.Reaches t (first :: (rest ++ .punctuator .closeParen :: .punctuator p :: ls))) :
        Decided t (r.base.isPermitted strict = true) (.punctuator .closeParen :: .punctuator p :: ls)
          (Summary.Is (r.shape strict) false) (derive n (.assignment true) t) := by
      have hfree' : t.context.Free strict := ht.context ▸ hfree
      refine assignment_of_leftHandSide hfree'.toPlain.quiet (begins_of_beginsCover ht.faces rfl hbegins) rfl nofun
        fun m _ => ih (s := t.deepened) hfree' ?_ rfl
      rw [hfirst]
      exact ht.faces.of_eq rfl rfl
    refine Decided.of_agrees (agrees_noted s) (Decided.imp (Decided.iff (parenthesized_decided (w := True) hfaces
      (not_punctuator_of_beginsCover hbegins rfl) (not_punctuator_of_beginsCover hbegins rfl)
      (by have := hp.ne (q := .arrow) rfl; simpa [Lexeme.kind] using this) hitem fun e he =>
        iff_of_true (he.none_iff.mpr rfl) trivial) (iff_of_eq (and_true _))) fun _ e he => ?_)
    obtain ⟨item, hitem, hshape, hnone⟩ := he
    exact ⟨by rw [hshape, hitem.shape_eq]; rfl, by rw [hnone]; rfl⟩

/-! ## Elements -/

/-- The tree is an operand if it is read. -/
def CoverDecided (strict : Bool) (c : Cover) : Prop :=
  ∀ (n : Nat) (s : State) (p : Punctuator) (ls : List Lexeme), s.context.Free strict → StopsBefore p →
    s.Faces (lexemes c.pieces ++ .punctuator p :: ls) →
    Decided s (c.isRead strict = true) (.punctuator p :: ls) (Summary.Is (c.shape strict) !c.isCovered)
      (leftHandSide (derive n) s)

theorem begins_cover {c : Cover} (hs : s.Faces (lexemes c.pieces ++ ls)) : s.token.kind.beginsOperand = true := by
  obtain ⟨first, rest, hfirst, hbegins⟩ := c.first
  rw [hfirst] at hs
  exact begins_of_beginsCover hs rfl hbegins

/-- An element begins with none of the punctuators that stand between elements. -/
theorem element_not_punctuator {c : Cover} {defaulted : Bool} (hs : s.Faces (lexemes (c.elementPieces defaulted) ++ ls))
    {q : Punctuator} (hq : (TokenKind.punctuator q).beginsCover = false) : s.token.isPunctuator q = false := by
  obtain ⟨first, rest, hfirst, hbegins⟩ := c.first
  unfold Cover.elementPieces at hs
  rw [lexemes_append, hfirst] at hs
  exact (isPunctuator_of_kind hs.kind q).trans (decide_eq_false (not_punctuator_of_beginsCover hbegins hq))

theorem CoverDecided.conditional {c : Cover} (hc : CoverDecided strict c) {n : Nat} {allowIn : Bool}
    (hfree : s.context.Free strict) (hp : StopsBefore p) (hs : s.Faces (lexemes c.pieces ++ .punctuator p :: ls)) :
    Decided s (c.isRead strict = true) (.punctuator p :: ls) (Summary.Is (c.shape strict) !c.isCovered)
      (Grammar.conditional (derive n) allowIn s) :=
  conditional_of_leftHandSide (endsOperand_reaches s _ (show (Lexeme.punctuator p).kind.stops = true from hp))
    (hc n s p ls hfree hp hs) (begins_of_kind (begins_cover hs)) hfree.toPlain.quiet allowIn

/-- What is assigned to the tree needs it to be a target. -/
theorem CoverDecided.assign {c : Cover} (hc : CoverDecided strict c) {n : Nat} {allowIn : Bool} {value : List Lexeme}
    (hfree : s.context.Free strict) (hs : s.Faces (lexemes c.pieces ++ .punctuator .assign :: value))
    (hvalue : ∀ u, s.Reaches u value → Decided u True ls (fun _ => True) (assignment (derive n) allowIn u)) :
    Decided s (c.isRead strict = true ∧ c.isTarget .assignment strict = true) ls
      (Summary.Is (.assignment (c.isTarget .binding strict)) false) (expandAssignment (derive n) allowIn s) := by
  refine (expandAssignment_assign (hc.conditional hfree rfl hs) hfree.toPlain (fun e he => ?_) hvalue).imp
    fun hv e he => ?_
  · rw [he.shape_eq, c.isAssignmentTarget_shape]
  · obtain ⟨left, hleft, rfl⟩ := he
    refine ⟨?_, rfl⟩
    rw [hleft.shape_eq]
    exact congrArg Shape.assignment (c.bindable_shape hv.2)

/-- What may follow an element or a value. -/
structure EndsElement (p : Punctuator) : Prop where
  stops : StopsBefore p
  ne_assign : p ≠ .assign

theorem EndsElement.kind_ne (h : EndsElement p) : (Lexeme.punctuator p).kind ≠ .punctuator .assign :=
  fun hkind => h.ne_assign (TokenKind.punctuator.inj hkind)

/-- A number that is assigned. -/
theorem value_decided {levels : Nat} {n : Literal (.number false)} (hplain : s.context.Plain) (hp : EndsElement p)
    (hs : s.Faces (.literal n :: .punctuator p :: ls)) :
    Decided s True (.punctuator p :: ls) (fun _ => True) (assignment (derive levels) true s) := by
  have hnumber : Decided s True (.punctuator p :: ls) (Summary.Is .other false) (derive levels (.assignment true) s) :=
    (assignment_number hplain.quiet hs hp.stops hp.kind_ne).iff (iff_of_true (by simp) trivial)
  exact ((assignment_decided hnumber (w := True) fun e he => iff_of_true (he.none_iff.mpr rfl) trivial).imp
    fun _ _ _ => trivial).iff (iff_of_eq (and_true True))

/-- An element is read if it can be assigned to, should it have a default. -/
theorem CoverDecided.element {c : Cover} (hc : CoverDecided strict c) {n : Nat} {defaulted : Bool}
    (hfree : s.context.Free strict) (hp : EndsElement p)
    (hs : s.Faces (lexemes (c.elementPieces defaulted) ++ .punctuator p :: ls)) :
    Decided s ((c.isRead strict && (!defaulted || c.isTarget .assignment strict)) = true) (.punctuator p :: ls)
      (Summary.Is (c.elementShape strict defaulted) !(defaulted || c.isCovered)) (derive n (.assignment true) s) := by
  cases defaulted with
  | false =>
    rw [lexemes_element] at hs
    refine (assignment_of_leftHandSide (l := .punctuator p) hfree.toPlain.quiet (begins_cover hs) hp.stops hp.kind_ne
      fun m _ => hc m s.deepened p ls hfree hp.stops (hs.of_eq rfl rfl)).iff (iff_of_eq ?_)
    rw [Bool.not_false, Bool.true_or, Bool.and_true]
  | true =>
    rw [lexemes_defaulted] at hs
    refine derive_decided (p := .assignment true) fun m _ => ?_
    refine (hc.assign (s := s.deepened) hfree (hs.of_eq rfl rfl) fun u hu => ?_).iff
      (iff_of_eq (Bool.and_eq_true _ _).symm)
    exact value_decided (hu.context ▸ hfree.toPlain) hp hu.faces

end Grammar

end EcmaCheck
