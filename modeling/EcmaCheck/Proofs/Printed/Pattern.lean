import EcmaCheck.Proofs.Printed.Lexeme
import EcmaCheck.Grammar.Context

/-!
# Literals that may be patterns

Trees of array and object literals, which are expressions and may turn out to be patterns of assignments or of
declarations. What the expressions and the patterns are is defined along the trees, for both kinds of patterns at once
(`Cover.isTarget`), and so is what stays behind when no pattern turns up: the initializers of shorthand properties
(`Cover.isCovered`).

Binding patterns are assignment patterns (`isTarget_assignment`). An expression is read whether or not it turns out to
be a pattern (`isRead`); a pattern is read if the words and numbers in it are permitted, and an expression if moreover
all that has a default can be assigned to (`isRead_eq`).
-/

namespace EcmaCheck

open Punctuator (piece)

/-! ## Trees -/

/-- The number that is the default of everything. -/
def one : Literal (.number false) where
  spelling := ['1']
  opens := by decide
  reads := by rfl

/-- A name or a property of one, and these in parentheses. -/
inductive Reference where
  | name (v : Variable)
  | member (v : Variable) (property : Word)
  | parenthesized (r : Reference)

mutual

/-- What an expression and a pattern have in common. -/
inductive Cover where
  | reference (r : Reference)
  | number {legacy : Bool} (n : Literal (.number legacy))
  | array (slots : Slots)
  | object (members : Members)

/-- The elements of an array literal, each of which may be spread and may have a default. The last one has no comma
after it. -/
inductive Slots where
  | nil
  | hole (rest : Slots)
  | last (spread : Bool) (element : Cover) (defaulted : Bool)
  | more (spread : Bool) (element : Cover) (defaulted : Bool) (rest : Slots)

/-- The name of a property. -/
inductive Key where
  | word (w : Word)
  | string {legacy : Bool} (text : Literal (.string legacy))
  | number {legacy : Bool} (n : Literal (.number legacy))
  | computed (key : Cover)

/-- A property of an object literal. -/
inductive Member where
  | shorthand (v : Variable) (initialized : Bool)
  | keyed (key : Key) (element : Cover) (defaulted : Bool)
  | spread (element : Cover) (defaulted : Bool)

/-- The properties of an object literal. The last one has no comma after it. -/
inductive Members where
  | nil
  | last (m : Member)
  | more (m : Member) (rest : Members)

end

/-! ## Patterns -/

/-- What a pattern does with its targets. -/
inductive PatternKind where
  | assignment
  | binding
  deriving DecidableEq, Repr

/-- Whether the name may be assigned in strict code or not. -/
def Variable.isAssignable (strict : Bool) (v : Variable) : Bool :=
  !(strict && Grammar.isEvalOrArguments v.name)

/-- Whether the reference is a target. Only plain names are bound. -/
def Reference.isTarget (kind : PatternKind) (strict : Bool) : Reference → Bool
  | name v => v.isAssignable strict
  | member .. => kind = .assignment
  | parenthesized r => kind = .assignment && r.isTarget kind strict

/-- Whether the tree is a reference, not a literal. -/
def Cover.isReference : Cover → Bool
  | reference _ => true
  | _ => false

/-- Whether the tree is a literal of elements or properties. -/
def Cover.isLiteral : Cover → Bool
  | array _ | object _ => true
  | _ => false

/-- Whether the property takes all the others. -/
def Member.isRest : Member → Bool
  | spread .. => true
  | _ => false

mutual

/-- Whether the tree is a target of patterns of the kind: a reference, or a pattern itself. -/
def Cover.isTarget (kind : PatternKind) (strict : Bool) : Cover → Bool
  | .reference r => r.isTarget kind strict
  | .number _ => false
  | .array slots => slots.isPattern kind strict
  | .object members => members.isPattern kind strict

/-- Whether the elements are those of a pattern. What is spread in a pattern is its rest, which comes last and has
neither a comma after it nor a default. -/
def Slots.isPattern (kind : PatternKind) (strict : Bool) : Slots → Bool
  | .nil => true
  | .hole rest => rest.isPattern kind strict
  | .last spread element defaulted => element.isTarget kind strict && !(spread && defaulted)
  | .more spread element _ rest => !spread && element.isTarget kind strict && rest.isPattern kind strict

/-- Whether the property is one of a pattern. The rest is no pattern itself. -/
def Member.isPattern (kind : PatternKind) (strict : Bool) : Member → Bool
  | .shorthand v _ => v.isAssignable strict
  | .keyed _ element _ => element.isTarget kind strict
  | .spread element defaulted => element.isReference && element.isTarget kind strict && !defaulted

/-- Whether the properties are those of a pattern. -/
def Members.isPattern (kind : PatternKind) (strict : Bool) : Members → Bool
  | .nil => true
  | .last m => m.isPattern kind strict
  | .more m rest => !m.isRest && m.isPattern kind strict && rest.isPattern kind strict

end

/-! ## Expressions -/

mutual

/-- Whether all elements with a default can be assigned to. -/
def Cover.defaultsValid (strict : Bool) : Cover → Bool
  | .reference _ | .number _ => true
  | .array slots => slots.defaultsValid strict
  | .object members => members.defaultsValid strict

/-- Whether all elements with a default can be assigned to. -/
def Slots.defaultsValid (strict : Bool) : Slots → Bool
  | .nil => true
  | .hole rest => rest.defaultsValid strict
  | .last _ element defaulted => (!defaulted || element.isTarget .assignment strict) && element.defaultsValid strict
  | .more _ element defaulted rest =>
    (!defaulted || element.isTarget .assignment strict) && element.defaultsValid strict && rest.defaultsValid strict

/-- Whether all elements with a default can be assigned to. -/
def Member.defaultsValid (strict : Bool) : Member → Bool
  | .shorthand .. => true
  | .keyed _ element defaulted | .spread element defaulted =>
    (!defaulted || element.isTarget .assignment strict) && element.defaultsValid strict

/-- Whether all elements with a default can be assigned to. -/
def Members.defaultsValid (strict : Bool) : Members → Bool
  | .nil => true
  | .last m => m.defaultsValid strict
  | .more m rest => m.defaultsValid strict && rest.defaultsValid strict

end

mutual

/-- Whether all initializers of shorthand properties lie in elements with a default, which are patterns then. -/
def Cover.isCovered : Cover → Bool
  | .reference _ | .number _ => true
  | .array slots => slots.isCovered
  | .object members => members.isCovered

/-- Whether all initializers of shorthand properties lie in elements with a default. -/
def Slots.isCovered : Slots → Bool
  | .nil => true
  | .hole rest => rest.isCovered
  | .last _ element defaulted => defaulted || element.isCovered
  | .more _ element defaulted rest => (defaulted || element.isCovered) && rest.isCovered

/-- Whether all initializers of shorthand properties lie in elements with a default. -/
def Member.isCovered : Member → Bool
  | .shorthand _ initialized => !initialized
  | .keyed _ element defaulted | .spread element defaulted => defaulted || element.isCovered

/-- Whether all initializers of shorthand properties lie in elements with a default. -/
def Members.isCovered : Members → Bool
  | .nil => true
  | .last m => m.isCovered
  | .more m rest => m.isCovered && rest.isCovered

end

/-- Whether the name may be used in strict code or not. -/
def Variable.isPermitted (strict : Bool) (v : Variable) : Bool :=
  !(strict && Grammar.strictReservedWords.contains v.name)

/-- The name in the reference. -/
def Reference.base : Reference → Variable
  | name v | member v _ => v
  | parenthesized r => r.base

mutual

/-- Whether the names and the numbers are permitted. A computed key is an expression by itself. -/
def Cover.isPermitted (strict : Bool) : Cover → Bool
  | .reference r => r.base.isPermitted strict
  | @Cover.number legacy _ => !(legacy && strict)
  | .array slots => slots.isPermitted strict
  | .object members => members.isPermitted strict

/-- Whether the names and the numbers are permitted. -/
def Slots.isPermitted (strict : Bool) : Slots → Bool
  | .nil => true
  | .hole rest => rest.isPermitted strict
  | .last _ element _ => element.isPermitted strict
  | .more _ element _ rest => element.isPermitted strict && rest.isPermitted strict

/-- Whether the name of the property is permitted. -/
def Key.isPermitted (strict : Bool) : Key → Bool
  | .word _ | .string _ => true
  | @Key.number legacy _ => !(legacy && strict)
  | .computed key => key.isPermitted strict && key.defaultsValid strict && key.isCovered

/-- Whether the names and the numbers are permitted. -/
def Member.isPermitted (strict : Bool) : Member → Bool
  | .shorthand v _ => v.isPermitted strict
  | .keyed key element _ => key.isPermitted strict && element.isPermitted strict
  | .spread element _ => element.isPermitted strict

/-- Whether the names and the numbers are permitted. -/
def Members.isPermitted (strict : Bool) : Members → Bool
  | .nil => true
  | .last m => m.isPermitted strict
  | .more m rest => m.isPermitted strict && rest.isPermitted strict

end

/-! ## What is read in any case -/

mutual

/-- Whether the tree is read, as long as it can turn out to be a pattern. What an object spreads is no pattern, so
nothing in it can wait for that. -/
def Cover.isRead (strict : Bool) : Cover → Bool
  | .reference r => r.base.isPermitted strict
  | @Cover.number legacy _ => !(legacy && strict)
  | .array slots => slots.isRead strict
  | .object members => members.isRead strict

/-- Whether the elements are read. -/
def Slots.isRead (strict : Bool) : Slots → Bool
  | .nil => true
  | .hole rest => rest.isRead strict
  | .last _ element defaulted => element.isRead strict && (!defaulted || element.isTarget .assignment strict)
  | .more _ element defaulted rest =>
    element.isRead strict && (!defaulted || element.isTarget .assignment strict) && rest.isRead strict

/-- Whether the name of the property is read. -/
def Key.isRead (strict : Bool) : Key → Bool
  | .word _ | .string _ => true
  | @Key.number legacy _ => !(legacy && strict)
  | .computed key => key.isRead strict && key.isCovered

/-- Whether the property is read. -/
def Member.isRead (strict : Bool) : Member → Bool
  | .shorthand v _ => v.isPermitted strict
  | .keyed key element defaulted =>
    key.isRead strict && (element.isRead strict && (!defaulted || element.isTarget .assignment strict))
  | .spread element defaulted =>
    element.isRead strict && (!defaulted || element.isTarget .assignment strict) && (defaulted || element.isCovered)

/-- Whether the properties are read. -/
def Members.isRead (strict : Bool) : Members → Bool
  | .nil => true
  | .last m => m.isRead strict
  | .more m rest => m.isRead strict && rest.isRead strict

end

section

variable {strict : Bool}

theorem Reference.isTarget_assignment {r : Reference} (h : r.isTarget .binding strict = true) :
    r.isTarget .assignment strict = true := by
  cases r with
  | name v => exact h
  | member | parenthesized => cases h

mutual

/-- What can be bound can be assigned to. -/
theorem Cover.isTarget_assignment (c : Cover) (h : c.isTarget .binding strict = true) :
    c.isTarget .assignment strict = true := by
  cases c with
  | reference r => exact r.isTarget_assignment h
  | number n => cases h
  | array slots => exact slots.isPattern_assignment h
  | object members => exact members.isPattern_assignment h

theorem Slots.isPattern_assignment (slots : Slots) (h : slots.isPattern .binding strict = true) :
    slots.isPattern .assignment strict = true := by
  cases slots with
  | nil => rfl
  | hole rest => exact rest.isPattern_assignment h
  | last spread element defaulted =>
    simp only [Slots.isPattern, Bool.and_eq_true] at h ⊢
    exact ⟨element.isTarget_assignment h.1, h.2⟩
  | more spread element defaulted rest =>
    simp only [Slots.isPattern, Bool.and_eq_true] at h ⊢
    exact ⟨⟨h.1.1, element.isTarget_assignment h.1.2⟩, rest.isPattern_assignment h.2⟩

theorem Member.isPattern_assignment (m : Member) (h : m.isPattern .binding strict = true) :
    m.isPattern .assignment strict = true := by
  cases m with
  | shorthand v initialized => exact h
  | keyed key element defaulted => exact element.isTarget_assignment h
  | spread element defaulted =>
    simp only [Member.isPattern, Bool.and_eq_true] at h ⊢
    exact ⟨⟨h.1.1, element.isTarget_assignment h.1.2⟩, h.2⟩

theorem Members.isPattern_assignment (members : Members) (h : members.isPattern .binding strict = true) :
    members.isPattern .assignment strict = true := by
  cases members with
  | nil => rfl
  | last m => exact m.isPattern_assignment h
  | more m rest =>
    simp only [Members.isPattern, Bool.and_eq_true] at h ⊢
    exact ⟨⟨h.1.1, m.isPattern_assignment h.1.2⟩, rest.isPattern_assignment h.2⟩

end

mutual

/-- In a target all that has a default can be assigned to. -/
theorem Cover.defaultsValid_of_isTarget (c : Cover) (h : c.isTarget .assignment strict = true) :
    c.defaultsValid strict = true := by
  cases c with
  | reference | number => rfl
  | array slots => exact slots.defaultsValid_of_isPattern h
  | object members => exact members.defaultsValid_of_isPattern h

theorem Slots.defaultsValid_of_isPattern (slots : Slots) (h : slots.isPattern .assignment strict = true) :
    slots.defaultsValid strict = true := by
  cases slots with
  | nil => rfl
  | hole rest => exact rest.defaultsValid_of_isPattern h
  | last spread element defaulted =>
    simp only [Slots.isPattern, Bool.and_eq_true] at h
    simp [Slots.defaultsValid, h.1, element.defaultsValid_of_isTarget h.1]
  | more spread element defaulted rest =>
    simp only [Slots.isPattern, Bool.and_eq_true] at h
    simp [Slots.defaultsValid, h.1.2, element.defaultsValid_of_isTarget h.1.2, rest.defaultsValid_of_isPattern h.2]

theorem Member.defaultsValid_of_isPattern (m : Member) (h : m.isPattern .assignment strict = true) :
    m.defaultsValid strict = true := by
  cases m with
  | shorthand v initialized => rfl
  | keyed key element defaulted =>
    have h : element.isTarget .assignment strict = true := h
    simp [Member.defaultsValid, h, element.defaultsValid_of_isTarget h]
  | spread element defaulted =>
    simp only [Member.isPattern, Bool.and_eq_true] at h
    simp [Member.defaultsValid, h.1.2, element.defaultsValid_of_isTarget h.1.2]

theorem Members.defaultsValid_of_isPattern (members : Members) (h : members.isPattern .assignment strict = true) :
    members.defaultsValid strict = true := by
  cases members with
  | nil => rfl
  | last m => exact m.defaultsValid_of_isPattern h
  | more m rest =>
    simp only [Members.isPattern, Bool.and_eq_true] at h
    simp [Members.defaultsValid, m.defaultsValid_of_isPattern h.1.2, rest.defaultsValid_of_isPattern h.2]

end

/-- With a default an element is a target, without one it keeps what is known of the whole. -/
theorem element_isRead_eq (element : Cover) (defaulted : Bool)
    (helement : element.isCovered = true ∨ element.isTarget .assignment strict = true →
      element.isRead strict = (element.isPermitted strict && element.defaultsValid strict))
    (h : (defaulted || element.isCovered) = true ∨ element.isTarget .assignment strict = true) :
    (element.isRead strict && (!defaulted || element.isTarget .assignment strict)) =
      (element.isPermitted strict &&
        ((!defaulted || element.isTarget .assignment strict) && element.defaultsValid strict)) := by
  have hknown : (!defaulted || element.isTarget .assignment strict) = true →
      element.isCovered = true ∨ element.isTarget .assignment strict = true := by
    cases defaulted with
    | false => exact fun _ => h
    | true => exact .inr
  cases hvalid : !defaulted || element.isTarget .assignment strict with
  | false => rw [Bool.and_false, Bool.false_and, Bool.and_false]
  | true => rw [Bool.and_true, Bool.true_and, helement (hknown hvalid)]

mutual

/-- Where nothing waits for a pattern to turn up in vain, what is read is what is permitted and has valid defaults. -/
theorem Cover.isRead_eq (c : Cover) (h : c.isCovered = true ∨ c.isTarget .assignment strict = true) :
    c.isRead strict = (c.isPermitted strict && c.defaultsValid strict) := by
  cases c with
  | reference r => exact (Bool.and_true _).symm
  | number n => exact (Bool.and_true _).symm
  | array slots => exact slots.isRead_eq h
  | object members => exact members.isRead_eq h

theorem Slots.isRead_eq (slots : Slots) (h : slots.isCovered = true ∨ slots.isPattern .assignment strict = true) :
    slots.isRead strict = (slots.isPermitted strict && slots.defaultsValid strict) := by
  cases slots with
  | nil => rfl
  | hole rest => exact rest.isRead_eq h
  | last spread element defaulted =>
    simp only [Slots.isCovered, Slots.isPattern, Bool.and_eq_true] at h
    exact element_isRead_eq element defaulted element.isRead_eq (h.imp_right And.left)
  | more spread element defaulted rest =>
    simp only [Slots.isCovered, Slots.isPattern, Bool.and_eq_true] at h
    have helement := element_isRead_eq element defaulted element.isRead_eq (h.imp And.left fun h => h.1.2)
    simp only [Slots.isRead, helement, rest.isRead_eq (h.imp And.right And.right)]
    simp only [Slots.isPermitted, Slots.defaultsValid]
    ac_rfl

theorem Key.isRead_eq (key : Key) : key.isRead strict = key.isPermitted strict := by
  cases key with
  | word | string | number => rfl
  | computed key =>
    unfold Key.isRead Key.isPermitted
    cases hcovered : key.isCovered with
    | false => rw [Bool.and_false, Bool.and_false]
    | true => rw [key.isRead_eq (.inl hcovered)]

theorem Member.isRead_eq (m : Member) (h : m.isCovered = true ∨ m.isPattern .assignment strict = true) :
    m.isRead strict = (m.isPermitted strict && m.defaultsValid strict) := by
  cases m with
  | shorthand v initialized => exact (Bool.and_true _).symm
  | keyed key element defaulted =>
    simp only [Member.isCovered, Member.isPattern] at h
    simp only [Member.isRead, element_isRead_eq element defaulted element.isRead_eq h, key.isRead_eq]
    simp only [Member.isPermitted, Member.defaultsValid]
    ac_rfl
  | spread element defaulted =>
    simp only [Member.isCovered, Member.isPattern, Bool.and_eq_true] at h
    have hcovered : (defaulted || element.isCovered) = true := by
      rcases h with h | h
      · exact h
      · cases element with
        | reference r => exact Bool.or_true _
        | number | array | object => cases h.1.1
    simp only [Member.isRead, hcovered, Bool.and_true, element_isRead_eq element defaulted element.isRead_eq
      (.inl hcovered)]
    rfl

theorem Members.isRead_eq (members : Members)
    (h : members.isCovered = true ∨ members.isPattern .assignment strict = true) :
    members.isRead strict = (members.isPermitted strict && members.defaultsValid strict) := by
  cases members with
  | nil => rfl
  | last m => exact m.isRead_eq h
  | more m rest =>
    simp only [Members.isCovered, Members.isPattern, Bool.and_eq_true] at h
    simp only [Members.isRead, m.isRead_eq (h.imp And.left fun h => h.1.2),
      rest.isRead_eq (h.imp And.right And.right)]
    simp only [Members.isPermitted, Members.defaultsValid]
    ac_rfl

end

end

/-! ## Printing -/

/-- The default, if there is one. -/
def defaultPieces (defaulted : Bool) : List Piece :=
  if defaulted then [.space, piece .assign, .space, .lexeme (.literal one)] else []

/-- The dots before what is spread. -/
def spreadPieces (spread : Bool) : List Piece :=
  if spread then [piece .ellipsis] else []

def Reference.pieces : Reference → List Piece
  | name v => [v.piece]
  | member v property => [v.piece, piece .dot, property.piece]
  | parenthesized r => piece .openParen :: (r.pieces ++ [piece .closeParen])

mutual

/-- The tree as it is printed. -/
def Cover.pieces : Cover → List Piece
  | .reference r => r.pieces
  | .number n => [.lexeme (.literal n)]
  | .array slots => piece .openBracket :: (slots.pieces ++ [piece .closeBracket])
  | .object members => piece .openBrace :: (members.pieces ++ [piece .closeBrace])

/-- The elements with the commas between them. -/
def Slots.pieces : Slots → List Piece
  | .nil => []
  | .hole rest => piece .comma :: rest.pieces
  | .last spread element defaulted => spreadPieces spread ++ (element.pieces ++ defaultPieces defaulted)
  | .more spread element defaulted rest =>
    spreadPieces spread ++ (element.pieces ++ (defaultPieces defaulted ++ piece .comma :: .space :: rest.pieces))

/-- The name of a property. -/
def Key.pieces : Key → List Piece
  | .word w => [w.piece]
  | .string text => [.lexeme (.literal text)]
  | .number n => [.lexeme (.literal n)]
  | .computed key => piece .openBracket :: (key.pieces ++ [piece .closeBracket])

/-- The property. -/
def Member.pieces : Member → List Piece
  | .shorthand v initialized => v.piece :: defaultPieces initialized
  | .keyed key element defaulted =>
    key.pieces ++ piece .colon :: .space :: (element.pieces ++ defaultPieces defaulted)
  | .spread element defaulted => piece .ellipsis :: (element.pieces ++ defaultPieces defaulted)

/-- The properties with the commas between them. -/
def Members.pieces : Members → List Piece
  | .nil => []
  | .last m => m.pieces
  | .more m rest => m.pieces ++ piece .comma :: .space :: rest.pieces

end

/-- What ends a tree: a space, or a punctuator before which literals end. -/
def Piece.isEnding : Piece → Bool
  | .space => true
  | .lexeme (.punctuator p) => p.isClosing
  | _ => false

section

variable {q : Piece} {rest : List Piece}

theorem sound_reference (r : Reference) (hq : q.isEnding = true) (h : Sound (q :: rest) = true) :
    Sound (r.pieces ++ q :: rest) = true := by
  have hprecedes (w : Word) : (Lexeme.word w).precedes q = true := by
    cases q with
    | space => rfl
    | lexeme l =>
      cases l with
      | punctuator p => rfl
      | word | literal => cases hq
  induction r generalizing q rest with
  | name v => exact (Bool.and_eq_true _ _).mpr ⟨hprecedes _, h⟩
  | member v property =>
    have hproperty : Sound (property.piece :: q :: rest) = true := (Bool.and_eq_true _ _).mpr ⟨hprecedes _, h⟩
    exact hproperty
  | parenthesized r ih =>
    refine (sound_whole rfl _).trans ?_
    change Sound (r.pieces ++ [piece .closeParen] ++ q :: rest) = true
    rw [List.append_assoc]
    exact ih rfl ((sound_whole rfl _).trans h) fun _ => rfl

/-- A default is a gap in which a tree ends. -/
theorem sound_default {defaulted : Bool} {ps : List Piece} (hq : q.isEnding = true) (h : Sound (q :: rest) = true)
    (hps : ∀ q rest, Piece.isEnding q = true → Sound (q :: rest) = true → Sound (ps ++ q :: rest) = true) :
    Sound (ps ++ (defaultPieces defaulted ++ q :: rest)) = true := by
  cases defaulted with
  | false => exact hps q rest hq h
  | true =>
    have hprecedes : (Lexeme.literal one).precedes q = true := by
      cases q with
      | space => rfl
      | lexeme l =>
        cases l with
        | punctuator p => exact hq
        | word | literal => cases hq
    exact hps .space _ rfl ((Bool.and_eq_true _ _).mpr ⟨hprecedes, h⟩)

theorem sound_spread {spread : Bool} {ps : List Piece} (h : Sound ps = true) :
    Sound (spreadPieces spread ++ ps) = true := by
  cases spread with
  | false => exact h
  | true => exact (sound_whole rfl ps).trans h

mutual

/-- A tree can be told from what ends it. -/
theorem sound_cover (c : Cover) (q : Piece) (rest : List Piece) (hq : q.isEnding = true)
    (h : Sound (q :: rest) = true) :
    Sound (c.pieces ++ q :: rest) = true := by
  cases c with
  | reference r => exact sound_reference r hq h
  | number n =>
    refine (Bool.and_eq_true _ _).mpr ⟨?_, h⟩
    cases q with
    | space => rfl
    | lexeme l =>
      cases l with
      | punctuator p => exact hq
      | word | literal => cases hq
  | array slots =>
    refine (sound_whole rfl _).trans ?_
    change Sound (slots.pieces ++ [piece .closeBracket] ++ q :: rest) = true
    rw [List.append_assoc]
    exact sound_slots slots ((sound_whole rfl _).trans h)
  | object members =>
    refine (sound_whole rfl _).trans ?_
    change Sound (members.pieces ++ [piece .closeBrace] ++ q :: rest) = true
    rw [List.append_assoc]
    exact sound_members members ((sound_whole rfl _).trans h)

theorem sound_slots (slots : Slots) {rest : List Piece} (h : Sound (piece .closeBracket :: rest) = true) :
    Sound (slots.pieces ++ piece .closeBracket :: rest) = true := by
  cases slots with
  | nil => exact h
  | hole slots => exact (sound_whole rfl _).trans (sound_slots slots h)
  | last spread element defaulted =>
    rw [Slots.pieces, List.append_assoc, List.append_assoc]
    exact sound_spread (sound_default rfl h (sound_cover element))
  | more spread element defaulted slots =>
    rw [Slots.pieces, List.append_assoc, List.append_assoc, List.append_assoc]
    exact sound_spread (sound_default rfl ((sound_whole rfl _).trans (sound_slots slots h)) (sound_cover element))

theorem sound_key (key : Key) {rest : List Piece} (h : Sound (piece .colon :: rest) = true) :
    Sound (key.pieces ++ piece .colon :: rest) = true := by
  cases key with
  | word | string | number => exact h
  | computed key =>
    refine (sound_whole rfl _).trans ?_
    change Sound (key.pieces ++ [piece .closeBracket] ++ piece .colon :: rest) = true
    rw [List.append_assoc]
    exact sound_cover key _ _ rfl ((sound_whole rfl _).trans h)

theorem sound_member (m : Member) {q : Piece} {rest : List Piece} (hq : q.isEnding = true)
    (h : Sound (q :: rest) = true) : Sound (m.pieces ++ q :: rest) = true := by
  cases m with
  | shorthand v initialized => exact sound_default hq h fun q rest => sound_reference (.name v)
  | keyed key element defaulted =>
    rw [Member.pieces, List.append_assoc]
    refine sound_key key ((sound_whole rfl _).trans ?_)
    change Sound (element.pieces ++ _ ++ q :: rest) = true
    rw [List.append_assoc]
    exact sound_default hq h (sound_cover element)
  | spread element defaulted =>
    refine (sound_whole rfl _).trans ?_
    change Sound (element.pieces ++ _ ++ q :: rest) = true
    rw [List.append_assoc]
    exact sound_default hq h (sound_cover element)

theorem sound_members (members : Members) {rest : List Piece} (h : Sound (piece .closeBrace :: rest) = true) :
    Sound (members.pieces ++ piece .closeBrace :: rest) = true := by
  cases members with
  | nil => exact h
  | last m => exact sound_member m rfl h
  | more m members =>
    rw [Members.pieces, List.append_assoc]
    exact sound_member m rfl ((sound_whole rfl _).trans (sound_members members h))

end

end

end EcmaCheck
