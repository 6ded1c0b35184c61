import EcmaCheck.Proofs.Printed.Class
import EcmaCheck.Proofs.Printed.Program
import Mathlib.Data.List.Induction

/-!
# Functions in functions

Functions, methods, fields and static blocks, one inside the other to any depth, around an expression that is only
permitted in some of them. Each construct says what its context takes over from the one around it (`Wrapper.inside`);
what all of them together make of it depends on the innermost that is no arrow function (`permits_iff`).
-/

namespace EcmaCheck

/-- The constructs that an expression can be wrapped in. -/
inductive Wrapper where
  | function
  | arrow
  | objectMethod
  | classMethod
  | constructor
  /-- The constructor of a class that extends another. -/
  | derivedConstructor
  | field
  | staticBlock
  deriving DecidableEq, Repr

/-- The expressions that are only permitted in some contexts. -/
inductive Leaf where
  | newTarget
  | superProperty
  | superCall
  | arguments
  deriving DecidableEq, Repr

/-- What stands before the wrapped expression. -/
def Wrapper.opening : Wrapper → String
  | function => "(function () \x7b "
  | arrow => "(() => \x7b "
  | objectMethod => "(\x7b m() \x7b "
  | classMethod => "(class \x7b m() \x7b "
  | constructor => "(class \x7b constructor() \x7b "
  | derivedConstructor => "(class extends a \x7b constructor() \x7b "
  | field => "(class \x7b x = "
  | staticBlock => "(class \x7b static \x7b "

/-- What stands after the wrapped expression. -/
def Wrapper.closing : Wrapper → String
  | function | arrow => "; \x7d)"
  | field => " \x7d)"
  | objectMethod | classMethod | constructor | derivedConstructor | staticBlock => "; \x7d \x7d)"

/-- The expression as it is written. -/
def Leaf.text : Leaf → String
  | newTarget => "new.target"
  | superProperty => "super.x"
  | superCall => "super()"
  | arguments => "arguments"

/-- The expression in the wrappers, of which the first is the outermost. -/
def nest : List Wrapper → Leaf → List Char
  | [], leaf => leaf.text.toList
  | w :: ws, leaf => w.opening.toList ++ nest ws leaf ++ w.closing.toList

/-- The innermost wrapper that is no arrow function. -/
def innermost? (ws : List Wrapper) : Option Wrapper :=
  ws.reverse.find? (· ≠ .arrow)

/-- Where the expression is permitted. -/
def Leaf.Permitted (ws : List Wrapper) : Leaf → Prop
  | newTarget => ∃ w ∈ ws, w ≠ .arrow
  | superProperty => ∃ w, innermost? ws = some w ∧ w ≠ .function
  | superCall => innermost? ws = some .derivedConstructor
  | arguments => innermost? ws ≠ some .field ∧ innermost? ws ≠ some .staticBlock

/-! ## Contexts -/

open Grammar

/-- Whether the context permits the expression. -/
def Leaf.permits (c : Context) : Leaf → Bool
  | newTarget => c.newTarget
  | superProperty => c.superProperty
  | superCall => c.superCall
  | arguments => !c.classField

/-- The context inside the wrapper. -/
def Wrapper.inside (c : Context) : Wrapper → Context
  | function => .ofFunction c.strict false false false
  | arrow => c.ofArrow false
  | objectMethod => .ofMethod c.strict false false false false
  | classMethod | constructor => .ofMethod true false false false false
  | derivedConstructor => .ofMethod true false false false true
  | field => Context.ofField { c with strict := true }
  | staticBlock => .ofStaticBlock

theorem Wrapper.inside_plain (w : Wrapper) (c : Context) : (w.inside c).Plain := by
  cases w <;> exact ⟨rfl, rfl⟩

/-- An arrow function permits what is permitted around it. -/
theorem permits_arrow (c : Context) (leaf : Leaf) : leaf.permits (Wrapper.arrow.inside c) = leaf.permits c := by
  cases leaf <;> rfl

theorem innermost?_concat (ws : List Wrapper) (w : Wrapper) :
    innermost? (ws ++ [w]) = if w = .arrow then innermost? ws else some w := by
  unfold innermost?
  rw [List.reverse_concat, List.find?_cons]
  cases w <;> rfl

theorem permitted_concat_arrow (ws : List Wrapper) (leaf : Leaf) :
    leaf.Permitted (ws ++ [.arrow]) ↔ leaf.Permitted ws := by
  have h : innermost? (ws ++ [.arrow]) = innermost? ws := innermost?_concat ws .arrow
  cases leaf with
  | newTarget =>
    change (∃ w ∈ ws ++ [Wrapper.arrow], w ≠ .arrow) ↔ ∃ w ∈ ws, w ≠ .arrow
    simp only [List.mem_append, List.mem_singleton]
    constructor
    · rintro ⟨w, hmem | rfl, hw⟩
      · exact ⟨w, hmem, hw⟩
      · exact absurd rfl hw
    · rintro ⟨w, hmem, hw⟩
      exact ⟨w, .inl hmem, hw⟩
  | superProperty | superCall | arguments =>
    unfold Leaf.Permitted
    rw [h]

/-- Any other construct alone decides what is permitted in it. -/
theorem permitted_concat {w : Wrapper} (hw : w ≠ .arrow) (ws : List Wrapper) (c : Context) (leaf : Leaf) :
    leaf.Permitted (ws ++ [w]) ↔ leaf.permits (w.inside c) = true := by
  have h : innermost? (ws ++ [w]) = some w := (innermost?_concat ws w).trans (if_neg hw)
  cases leaf with
  | newTarget =>
    refine iff_of_true ⟨w, List.mem_concat_self, hw⟩ ?_
    cases w <;> first
      | rfl
      | exact absurd rfl hw
  | superProperty | superCall | arguments =>
    unfold Leaf.Permitted
    rw [h]
    cases w <;> first
      | exact absurd rfl hw
      | simp [Leaf.permits, Wrapper.inside, Context.ofMethod, Context.ofFunction, Context.ofField,
          Context.ofStaticBlock]

/-- What the context of the innermost place permits, the innermost wrapper that is no arrow function decides. -/
theorem permits_iff (ws : List Wrapper) (leaf : Leaf) :
    leaf.permits (ws.foldl Wrapper.inside {}) = true ↔ leaf.Permitted ws := by
  induction ws using List.reverseRecOn with
  | nil => cases leaf <;> simp [Leaf.permits, Leaf.Permitted, innermost?]
  | append_singleton ws w ih =>
    rw [List.foldl_append, List.foldl_cons, List.foldl_nil]
    by_cases hw : w = .arrow
    · subst hw
      rw [permits_arrow, permitted_concat_arrow]
      exact ih
    · exact (permitted_concat hw ws _ leaf).symm

/-! ## Pieces -/

/-- The names that the wrappers use beside `nameA`. -/
def nameM : Variable := .plain ['m'] (by decide +kernel) (by decide)

def nameConstructor : Variable := .plain "constructor".toList (by decide +kernel) (by decide)

def nameStatic : Variable := .plain "static".toList (by decide +kernel) (by decide)

def nameTarget : Variable := .plain "target".toList (by decide +kernel) (by decide)

def nameArguments : Variable := .plain "arguments".toList (by decide +kernel) (by decide)

/-- The parentheses of a function without parameters and its opening brace. -/
def bodyOpening : List Piece :=
  [Punctuator.openParen.piece, Punctuator.closeParen.piece, .space, Punctuator.openBrace.piece, .space]

def Wrapper.openingPieces : Wrapper → List Piece
  | function => Punctuator.openParen.piece :: Keyword.function.word.piece :: .space :: bodyOpening
  | arrow =>
    [Punctuator.openParen.piece, Punctuator.openParen.piece, Punctuator.closeParen.piece, .space,
      Punctuator.arrow.piece, .space, Punctuator.openBrace.piece, .space]
  | objectMethod =>
    Punctuator.openParen.piece :: Punctuator.openBrace.piece :: .space :: nameM.piece :: bodyOpening
  | classMethod => classOpening (nameM.piece :: bodyOpening)
  | constructor => classOpening (nameConstructor.piece :: bodyOpening)
  | derivedConstructor =>
    Punctuator.openParen.piece :: Keyword.class.word.piece :: .space :: Keyword.extends.word.piece :: .space ::
      nameA.piece :: .space :: Punctuator.openBrace.piece :: .space :: nameConstructor.piece :: bodyOpening
  | field => classOpening [nameX.piece, .space, Punctuator.assign.piece, .space]
  | staticBlock => classOpening [nameStatic.piece, .space, Punctuator.openBrace.piece, .space]
where
  classOpening (rest : List Piece) : List Piece :=
    Punctuator.openParen.piece :: Keyword.class.word.piece :: .space :: Punctuator.openBrace.piece :: .space :: rest

def Wrapper.closingPieces : Wrapper → List Piece
  | function | arrow =>
    [Punctuator.semicolon.piece, .space, Punctuator.closeBrace.piece, Punctuator.closeParen.piece]
  | field => [.space, Punctuator.closeBrace.piece, Punctuator.closeParen.piece]
  | objectMethod | classMethod | constructor | derivedConstructor | staticBlock =>
    [Punctuator.semicolon.piece, .space, Punctuator.closeBrace.piece, .space, Punctuator.closeBrace.piece,
      Punctuator.closeParen.piece]

def Leaf.pieces : Leaf → List Piece
  | newTarget => [Keyword.new.word.piece, Punctuator.dot.piece, nameTarget.piece]
  | superProperty => [Keyword.super.word.piece, Punctuator.dot.piece, nameX.piece]
  | superCall => [Keyword.super.word.piece, Punctuator.openParen.piece, Punctuator.closeParen.piece]
  | arguments => [nameArguments.piece]

/-- The pieces of the expression in the wrappers. -/
def nestPieces : List Wrapper → Leaf → List Piece
  | [], leaf => leaf.pieces
  | w :: ws, leaf => w.openingPieces ++ (nestPieces ws leaf ++ w.closingPieces)

theorem printed_nest (ws : List Wrapper) (leaf : Leaf) : printed (nestPieces ws leaf) = nest ws leaf := by
  induction ws with
  | nil => cases leaf <;> decide +kernel
  | cons w ws ih =>
    have hopening : printed w.openingPieces = w.opening.toList := by cases w <;> decide +kernel
    have hclosing : printed w.closingPieces = w.closing.toList := by cases w <;> decide +kernel
    rw [nestPieces, nest, printed_append, printed_append, ih, hopening, hclosing, List.append_assoc]

/-- A nest can be told from what follows it, if that is no name. -/
theorem sound_nest (ws : List Wrapper) (leaf : Leaf) {q : Piece} (hq : q = .space ∨ q = Punctuator.semicolon.piece)
    {rest : List Piece} (hrest : Sound (q :: rest) = true) : Sound (nestPieces ws leaf ++ q :: rest) = true := by
  induction ws generalizing q rest with
  | nil =>
    rcases hq with rfl | rfl <;> cases leaf <;> exact hrest
  | cons w ws ih =>
    have hclosing : ∃ r more, w.closingPieces ++ q :: rest = r :: more ∧
        (r = .space ∨ r = Punctuator.semicolon.piece) ∧ Sound (r :: more) = true := by
      rcases hq with rfl | rfl <;> cases w <;> first
        | exact ⟨_, _, rfl, .inl rfl, hrest⟩
        | exact ⟨_, _, rfl, .inr rfl, hrest⟩
    obtain ⟨r, more, hmore, hr, hsound⟩ := hclosing
    have hinner := ih hr hsound
    rw [nestPieces, List.append_assoc, List.append_assoc, hmore]
    cases w <;> exact hinner

namespace Grammar

variable {s : State} {v : Prop} {l : Lexeme} {ls ms : List Lexeme} {nested : Derivation}

/-! ## Leaves -/

section

variable {Q : Summary → State → Prop}

theorem leftHandSide_of_new (hQ : EndsOperand Q) (h : Concluded v Q (newExpression nested s))
    (hnew : s.token.isKeyword .new = true) : Concluded v Q (leftHandSide nested s) := by
  refine notingOperandEnd_concluded hQ.ended ?_
  rw [token_bind, hnew, if_pos rfl]
  exact callTail_of_operand hQ h

theorem leftHandSide_of_super (hQ : EndsOperand Q) (h : Concluded v Q (superExpression nested s))
    (hnew : s.token.isKeyword .new = false) (hsuper : s.token.isKeyword .super = true) :
    Concluded v Q (leftHandSide nested s) := by
  refine notingOperandEnd_concluded hQ.ended ?_
  rw [token_bind, hnew, if_neg Bool.false_ne_true, hsuper, if_pos rfl]
  exact callTail_of_operand hQ h

end

theorem newTarget_decided
    (hs : s.Faces (.word Keyword.new.word :: .punctuator .dot :: .word nameTarget.toWord :: ls)) :
    Decided s (s.context.newTarget = true) ls (fun e => e.shorthand? = none) (newExpression nested s) := by
  unfold newExpression
  rw [token_bind]
  refine .advance (.refl hs) fun t ht => ?_
  have hat : t.token.isPunctuator .dot = true := isPunctuator_of_kind ht.kind .dot
  rw [isAt_bind, hat, if_pos rfl]
  unfold newTarget
  refine .advance ht fun t ht => ?_
  have hword : t.token.isWord "target" = true := by
    unfold Token.isWord
    rw [ht.kind.trans nameTarget.kind_eq]
    decide
  rw [isAtWord_bind, hword, if_pos rfl]
  dsimp only
  rw [context_bind, ht.context]
  cases hpermitted : s.context.newTarget with
  | true =>
    rw [if_pos rfl]
    exact .advance ht fun u hu => ⟨rfl, hu, rfl⟩
  | false =>
    rw [if_neg Bool.false_ne_true]
    exact .refuse Bool.false_ne_true

theorem superProperty_decided
    (hs : s.Faces (.word Keyword.super.word :: .punctuator .dot :: .word nameX.toWord :: ls)) :
    Decided s (s.context.superProperty = true) ls (fun e => e.shorthand? = none) (superExpression nested s) := by
  unfold superExpression
  rw [token_bind]
  refine .advance (.refl hs) fun t ht => ?_
  have hparen : t.token.isPunctuator .openParen = false := isPunctuator_of_kind ht.kind .openParen
  have hdot : t.token.isPunctuator .dot = true := isPunctuator_of_kind ht.kind .dot
  rw [context_bind, isAt_bind, hparen, if_neg Bool.false_ne_true, ht.context]
  dsimp only
  cases hpermitted : s.context.superProperty with
  | true =>
    rw [if_pos rfl, isAt_bind, hdot, if_pos rfl]
    refine .advance ht fun t ht => ?_
    rw [token_bind, ht.kind.trans nameX.kind_eq]
    dsimp only
    unfold memberName
    rw [bind_assoc, token_bind, ht.kind.trans nameX.kind_eq]
    exact .advanceWith ht (by decide) fun u hu => ⟨rfl, hu, rfl⟩
  | false =>
    rw [if_neg Bool.false_ne_true]
    exact .refuse Bool.false_ne_true

theorem superCall_decided
    (hs : s.Faces (.word Keyword.super.word :: .punctuator .openParen :: .punctuator .closeParen :: ls)) :
    Decided s (s.context.superCall = true) ls (fun e => e.shorthand? = none) (superExpression nested s) := by
  unfold superExpression
  rw [token_bind]
  refine .advance (.refl hs) fun t ht => ?_
  have hparen : t.token.isPunctuator .openParen = true := isPunctuator_of_kind ht.kind .openParen
  rw [context_bind, isAt_bind, hparen, if_pos rfl, ht.context]
  cases hpermitted : s.context.superCall with
  | true =>
    rw [if_pos rfl]
    dsimp only
    unfold arguments
    rw [bind_assoc, itemsUntil_eq]
    refine .expect ht fun t ht => ?_
    rw [bind_assoc]
    refine Decided.call ht.toAgrees (.loop (items_end ht.faces)) fun _ u hu _ => ?_
    exact .advance hu fun w hw => ⟨rfl, hw, rfl⟩
  | false =>
    rw [if_neg Bool.false_ne_true]
    exact .refuse Bool.false_ne_true

theorem forbids_arguments (c : Context) : c.forbids false nameArguments.name = c.classField := by
  have hname : nameArguments.name = "arguments" := by decide
  unfold Context.forbids Context.identifierError?
  rw [hname]
  cases c.classField <;> simp [strictReservedWords]

theorem leaf_decided {levels : Nat} {p : Punctuator} (leaf : Leaf) (hplain : s.context.Plain)
    (hp : p = .semicolon ∨ p = .closeBrace) (hs : s.Faces (lexemes leaf.pieces ++ .punctuator p :: ls)) :
    Decided s (leaf.permits s.context = true) (.punctuator p :: ls) (fun e => e.shorthand? = none)
      (derive levels (.assignment true) s) := by
  have hstop : (Lexeme.punctuator p).kind.stops = true := by rcases hp with rfl | rfl <;> rfl
  have hassign : (Lexeme.punctuator p).kind ≠ .punctuator .assign := by rcases hp with rfl | rfl <;> nofun
  have hfaces : s.deepened.Faces (lexemes leaf.pieces ++ .punctuator p :: ls) := hs.of_eq rfl rfl
  cases leaf with
  | newTarget =>
    have hkind : s.token.kind = .keyword .new := hs.kind.trans (Keyword.kind_word .new)
    refine assignment_of_leftHandSide hplain.quiet (by rw [hkind]; rfl) hstop hassign fun n _ => ?_
    exact leftHandSide_of_new (endsOperand_reaches _ _ hstop) (newTarget_decided hfaces) (isKeyword_of_kind hkind .new)
  | superProperty =>
    have hkind : s.token.kind = .keyword .super := hs.kind.trans (Keyword.kind_word .super)
    refine assignment_of_leftHandSide hplain.quiet (by rw [hkind]; rfl) hstop hassign fun n _ => ?_
    exact leftHandSide_of_super (endsOperand_reaches _ _ hstop) (superProperty_decided hfaces)
      (isKeyword_of_kind hkind .new) (isKeyword_of_kind hkind .super)
  | superCall =>
    have hkind : s.token.kind = .keyword .super := hs.kind.trans (Keyword.kind_word .super)
    refine assignment_of_leftHandSide hplain.quiet (by rw [hkind]; rfl) hstop hassign fun n _ => ?_
    exact leftHandSide_of_super (endsOperand_reaches _ _ hstop) (superCall_decided hfaces)
      (isKeyword_of_kind hkind .new) (isKeyword_of_kind hkind .super)
  | arguments =>
    have hkind : s.token.kind = .identifier nameArguments.name nameArguments.value.escaped :=
      hs.kind.trans nameArguments.kind_eq
    have hnot (k : Keyword) : s.token.isKeyword k = false := isKeyword_of_kind hkind k
    refine assignment_of_primary hplain.quiet (by rw [hkind]; rfl) hstop hassign (hnot _) (hnot _)
      (hnot _) fun n _ => ?_
    have hname : Decided s.deepened _ _ _ (primary (derive n) s.deepened) :=
      primary_name hfaces (by rcases hp with rfl | rfl <;> decide) (by rcases hp with rfl | rfl <;> decide)
    refine (hname.imp fun _ e he => he.none_iff.mpr rfl).iff ?_
    rw [forbids_arguments]
    change s.context.classField = false ↔ (!s.context.classField) = true
    rw [Bool.not_eq_true']

/-! ## Wrappers -/

/-- What an expression statement that is a nest begins with. -/
theorem nest_begins (ws : List Wrapper) (leaf : Leaf) :
    (∃ l rest, lexemes (nestPieces ws leaf) = l :: rest ∧
      (l.kind = .punctuator .openParen ∨ l.kind = .keyword .new ∨ l.kind = .keyword .super)) ∨
    lexemes (nestPieces ws leaf) = [.word nameArguments.toWord] := by
  cases ws with
  | nil =>
    cases leaf with
    | newTarget => exact .inl ⟨_, _, rfl, .inr (.inl (Keyword.kind_word .new))⟩
    | superProperty | superCall => exact .inl ⟨_, _, rfl, .inr (.inr (Keyword.kind_word .super))⟩
    | arguments => exact .inr rfl
  | cons w ws => exact .inl (by cases w <;> exact ⟨_, _, rfl, .inl rfl⟩)

/-- What is decided of a nest wherever it stands, decides the statement that it is. -/
theorem nestItem_decided {levels : Nat} {topLevel : Bool} (ws : List Wrapper) (leaf : Leaf)
    (hattached : s.attachedLabels = 0)
    (hs : s.Faces (lexemes (nestPieces ws leaf) ++ .punctuator .semicolon :: ls))
    (h : ∀ (n : Nat) (t : State), t.context = s.context → t.isModule = s.isModule →
      t.Faces (lexemes (nestPieces ws leaf) ++ .punctuator .semicolon :: ls) →
      Decided t v (.punctuator .semicolon :: ls) (fun e => e.shorthand? = none) (derive n (.assignment true) t)) :
    Decided s v ls (fun _ => True) (derive levels (.statementListItem topLevel) s) := by
  have hexpression (n : Nat) (t : State) (ht : t.context = s.context ∧ t.isModule = s.isModule ∧
      t.Faces (lexemes (nestPieces ws leaf) ++ .punctuator .semicolon :: ls)) :
      Decided t v ls (fun _ => True) ((do
        discard (expression (derive n) true)
        consumeSemicolon : Recognizer Unit) t) :=
    (expressionStatement_decided (w := True) (h n t ht.1 ht.2.1 ht.2.2) fun e he => iff_of_true he trivial).iff
      (iff_of_eq (and_true v))
  have hdetached : s.deepened.deepened.detached = s.deepened.deepened := detached_eq hattached
  refine derive_decided (p := .statementListItem topLevel) fun n _ => ?_
  have hs₁ : s.deepened.Faces (lexemes (nestPieces ws leaf) ++ .punctuator .semicolon :: ls) := hs.of_eq rfl rfl
  have hs₂ : s.deepened.deepened.Faces (lexemes (nestPieces ws leaf) ++ .punctuator .semicolon :: ls) :=
    hs.of_eq rfl rfl
  rcases nest_begins ws leaf with ⟨l, rest, hl, hkind⟩ | hl
  · have hstatement : Decided s.deepened v ls (fun _ => True) (derive n .statement s.deepened) := by
      refine derive_decided (p := .statement) fun m _ => ?_
      rw [hl] at hs₂
      rw [show expand (derive m) .statement s.deepened.deepened = _ from expandStatement_expression hs₂ hkind,
        hdetached]
      exact hexpression m s.deepened.deepened ⟨rfl, rfl, hs.of_eq rfl rfl⟩
    rw [hl] at hs₁
    exact listItem_decided hs₁ (by rcases hkind with h | h | h <;> rw [h] <;> rfl) hstatement
  · have hstatement : Decided s.deepened v ls (fun _ => True) (derive n .statement s.deepened) := by
      refine derive_decided (p := .statement) fun m _ => ?_
      rw [hl] at hs₂
      rw [show expand (derive m) .statement s.deepened.deepened = _ from
        expandStatement_name hs₂ (by decide) (by decide), hdetached]
      exact hexpression m s.deepened.deepened ⟨rfl, rfl, hs.of_eq rfl rfl⟩
    rw [hl] at hs₁
    exact listItem_name hs₁ (fun h => absurd h (by decide)) hstatement

/-- What the leaf of a nest permits, decides the nest wherever it stands. -/
def NestDecided (ws : List Wrapper) (leaf : Leaf) : Prop :=
  ∀ (levels : Nat) (s : State) (p : Punctuator) (ls : List Lexeme), s.context.Plain → s.isModule = false →
    (p = .semicolon ∨ p = .closeBrace) → s.Faces (lexemes (nestPieces ws leaf) ++ .punctuator p :: ls) →
    Decided s (leaf.permits (ws.foldl Wrapper.inside s.context) = true) (.punctuator p :: ls)
      (fun e => e.shorthand? = none) (derive levels (.assignment true) s)

theorem nest_notString (ws : List Wrapper) (leaf : Leaf) (hs : s.Faces (lexemes (nestPieces ws leaf) ++ ls)) :
    s.token.isString = false := by
  refine isString_of_kind fun legacy => ?_
  rcases nest_begins ws leaf with ⟨l, rest, hl, hkind⟩ | hl
  · rw [hl] at hs
    rw [hs.kind]
    rcases hkind with h | h | h <;> rw [h] <;> nofun
  · rw [hl] at hs
    rw [hs.kind]
    exact variable_ne nameArguments nofun

/-- The lexemes of a statement that is a nest. -/
abbrev nestBody (ws : List Wrapper) (leaf : Leaf) : List Lexeme :=
  lexemes (nestPieces ws leaf) ++ [.punctuator .semicolon]

/-- A list of one statement, which is a nest. -/
theorem nestList_decided {n : Nat} {topLevel : Bool} {ws : List Wrapper} {leaf : Leaf} (h : NestDecided ws leaf)
    (hplain : s.context.Plain) (hmodule : s.isModule = false) (hattached : s.attachedLabels = 0) (hend : EndsList ls)
    (hs : s.Faces (nestBody ws leaf ++ ls)) :
    Decided s (leaf.permits (ws.foldl Wrapper.inside s.context) = true) ls (fun _ => True)
      (statementList (derive n) topLevel s) := by
  have hitem : Decided s (leaf.permits (ws.foldl Wrapper.inside s.context) = true) ls (fun _ => True)
      (derive n (.statementListItem topLevel) s) := by
    refine nestItem_decided ws leaf hattached (by simpa using hs) fun m u hcontext hu hfaces => ?_
    have hdecided := h m u .semicolon ls (hcontext ▸ hplain) (hu.trans hmodule) (.inl rfl) hfaces
    rwa [hcontext] at hdecided
  have hbegin : ∃ l rest, nestBody ws leaf = l :: rest ∧ l.kind ≠ .endOfInput ∧
      l.kind ≠ .punctuator .closeBrace := by
    unfold nestBody
    rcases nest_begins ws leaf with ⟨l, rest, hl, hkind⟩ | hl
    · rw [hl]
      refine ⟨l, _, rfl, ?_⟩
      rcases hkind with h | h | h <;> rw [h] <;> constructor <;> nofun
    · rw [hl]
      exact ⟨_, _, rfl, variable_ne nameArguments nofun, variable_ne nameArguments nofun⟩
  obtain ⟨l, rest, hl, hgoes⟩ := hbegin
  rw [hl, List.cons_append] at hs
  exact statementList_single hs hgoes hend hitem

/-- A body that is a nest. -/
theorem nestBody_decided {n : Nat} {c : Context} {ws : List Wrapper} {leaf : Leaf} (h : NestDecided ws leaf)
    (hplain : c.Plain) (hmodule : s.isModule = false) :
    BodyDecided s c (leaf.permits (ws.foldl Wrapper.inside c) = true) (nestBody ws leaf)
      (.punctuator .closeBrace :: ls) (statementList (derive n) false) := by
  intro t hcontext _ hattached hmodule' ht
  subst hcontext
  exact nestList_decided h hplain (hmodule'.trans hmodule) hattached rfl ht

theorem forbids_nameA (c : Context) : c.forbids false nameA.name = false := by
  have hname : nameA.name = "a" := by decide
  unfold Context.forbids Context.identifierError?
  rw [hname]
  simp [strictReservedWords]

section

variable {n : Nat} {ws : List Wrapper} {leaf : Leaf}

theorem nestBody_notString (hs : s.Faces (nestBody ws leaf ++ ls)) : s.token.isString = false := by
  rw [List.append_assoc] at hs
  exact nest_notString ws leaf hs

theorem function_nest (h : NestDecided ws leaf) (hmodule : s.isModule = false)
    (hs : s.Faces (.word Keyword.function.word :: .punctuator .openParen :: .punctuator .closeParen ::
      .punctuator .openBrace :: (nestBody ws leaf ++ .punctuator .closeBrace :: ls))) :
    Decided s (leaf.permits (ws.foldl Wrapper.inside (Wrapper.function.inside s.context)) = true) ls
      (fun e => e.shorthand? = none) (primary (derive n) s) := by
  rw [primary_function (hs.kind.trans (Keyword.kind_word .function))]
  refine .of_agrees (agrees_noted s) (Decided.imp (function_decided (faces_noted hs) (fun _ => nestBody_notString) ?_)
    fun _ e he => he.none_iff.mpr rfl)
  rw [show s.noted.isModule = false from hmodule]
  exact nestBody_decided h (Wrapper.function.inside_plain s.context) hmodule

theorem arrow_nest (h : NestDecided ws leaf) (hmodule : s.isModule = false)
    (hs : s.Faces (.punctuator .openParen :: .punctuator .closeParen :: .punctuator .arrow :: .punctuator .openBrace ::
      (nestBody ws leaf ++ .punctuator .closeBrace :: ls))) :
    Decided s (leaf.permits (ws.foldl Wrapper.inside (Wrapper.arrow.inside s.context)) = true) ls
      (fun e => e.shorthand? = none) (primary (derive n) s) := by
  rw [primary_openParen hs.kind]
  refine .of_agrees (agrees_noted s) (Decided.imp (emptyArrow_decided (faces_noted hs) (fun _ => nestBody_notString) ?_)
    fun _ e he => he.none_iff.mpr rfl)
  exact nestBody_decided h (Wrapper.arrow.inside_plain s.context) hmodule

theorem objectMethod_nest (h : NestDecided ws leaf) (hmodule : s.isModule = false)
    (hs : s.Faces (.punctuator .openBrace :: .word nameM.toWord :: .punctuator .openParen :: .punctuator .closeParen ::
      .punctuator .openBrace :: (nestBody ws leaf ++ .punctuator .closeBrace :: .punctuator .closeBrace :: ls))) :
    Decided s (leaf.permits (ws.foldl Wrapper.inside (Wrapper.objectMethod.inside s.context)) = true) ls
      (fun e => e.shorthand? = none) (primary (derive n) s) := by
  rw [primary_openBrace hs.kind]
  have hmember (t : State) (ht : s.noted.Reaches t (.word nameM.toWord :: .punctuator .openParen ::
      .punctuator .closeParen :: .punctuator .openBrace ::
      (nestBody ws leaf ++ .punctuator .closeBrace :: .punctuator .closeBrace :: ls))) :
      Decided t (leaf.permits (ws.foldl Wrapper.inside (Wrapper.objectMethod.inside s.context)) = true)
        (.punctuator .closeBrace :: ls) (Summary.Is .other false) (derive n .objectMember t) := by
    refine derive_decided (p := .objectMember) fun m _ => ?_
    refine objectMember_method (ht.faces.of_eq rfl rfl) (fun _ => nestBody_notString) ?_
    rw [show t.deepened.context = s.context from ht.context,
      show t.deepened.isModule = false from ht.isModule.trans hmodule]
    exact nestBody_decided h (Wrapper.objectMethod.inside_plain s.context) (ht.isModule.trans hmodule)
  exact .of_agrees (agrees_noted s)
    (Decided.imp (objectLiteral_method (faces_noted hs) (variable_ne nameM nofun) (variable_ne nameM nofun) hmember)
      fun _ e he => he.none_iff.mpr rfl)

theorem classMethod_nest (derived : Bool) (w : Variable) (hstatic : w.name ≠ "static") (h : NestDecided ws leaf)
    (hmodule : s.isModule = false)
    (hs : s.Faces (.word Keyword.class.word ::
      ((if derived then [.word Keyword.extends.word, .word nameA.toWord] else []) ++ .punctuator .openBrace ::
        .word w.toWord :: .punctuator .openParen :: .punctuator .closeParen :: .punctuator .openBrace ::
        (nestBody ws leaf ++ .punctuator .closeBrace :: .punctuator .closeBrace :: ls)))) :
    Decided s (leaf.permits (ws.foldl Wrapper.inside
        (.ofMethod true false false false (decide (w.name = "constructor") && derived))) = true) ls
      (fun e => e.shorthand? = none) (primary (derive n) s) := by
  rw [primary_class (hs.kind.trans (Keyword.kind_word .class))]
  refine .of_agrees (agrees_noted s)
    (Decided.imp (classDefinition_decided derived nameA (faces_noted hs) (forbids_nameA _)
    (variable_ne w nofun) (variable_ne w nofun) (variable_ne w nofun) fun t hcontext ht hfaces => ?_)
    fun _ e he => he.none_iff.mpr rfl)
  refine derive_decided (p := .classElement derived false) fun m _ => ?_
  refine classElement_method (hfaces.of_eq rfl rfl) (fun _ => nestBody_notString) ?_ hstatic
  have hstrict : t.deepened.context.strict = true := congrArg Context.strict hcontext
  rw [hstrict, show t.deepened.isModule = false from ht.trans hmodule]
  exact nestBody_decided h ⟨rfl, rfl⟩ (ht.trans hmodule)

theorem field_nest (h : NestDecided ws leaf) (hmodule : s.isModule = false)
    (hs : s.Faces (.word Keyword.class.word :: .punctuator .openBrace :: .word nameX.toWord :: .punctuator .assign ::
        (lexemes (nestPieces ws leaf) ++ .punctuator .closeBrace :: ls))) :
    Decided s (leaf.permits (ws.foldl Wrapper.inside (Wrapper.field.inside s.context)) = true) ls
      (fun e => e.shorthand? = none) (primary (derive n) s) := by
  rw [primary_class (hs.kind.trans (Keyword.kind_word .class))]
  refine .of_agrees (agrees_noted s) (Decided.imp (classDefinition_decided false nameA
    (faces_noted hs) (forbids_nameA _) (variable_ne nameX nofun) (variable_ne nameX nofun) (variable_ne nameX nofun)
    fun t hcontext ht hfaces => ?_) fun _ e he => he.none_iff.mpr rfl)
  refine derive_decided (p := .classElement false false) fun m _ => ?_
  refine classElement_field (R := fun e => e.shorthand? = none) (hfaces.of_eq rfl rfl) (by decide) (by decide)
    (fun u hu hmodule' hfaces => ?_) fun e he => he
  have hinner : u.context = Wrapper.field.inside s.context :=
    hu.trans (congrArg Context.ofField hcontext)
  have hdecided := h m u .closeBrace ls (hinner ▸ Wrapper.field.inside_plain s.context)
    (hmodule'.trans (ht.trans hmodule)) (.inr rfl) hfaces
  rwa [hinner] at hdecided

theorem staticBlock_nest (h : NestDecided ws leaf) (hmodule : s.isModule = false)
    (hs : s.Faces (.word Keyword.class.word :: .punctuator .openBrace :: .word nameStatic.toWord ::
      .punctuator .openBrace ::
        (nestBody ws leaf ++ .punctuator .closeBrace :: .punctuator .closeBrace :: ls))) :
    Decided s (leaf.permits (ws.foldl Wrapper.inside (Wrapper.staticBlock.inside s.context)) = true) ls
      (fun e => e.shorthand? = none) (primary (derive n) s) := by
  rw [primary_class (hs.kind.trans (Keyword.kind_word .class))]
  refine .of_agrees (agrees_noted s) (Decided.imp (classDefinition_decided false nameA
    (faces_noted hs) (forbids_nameA _) (variable_ne nameStatic nofun) (variable_ne nameStatic nofun)
    (variable_ne nameStatic nofun) fun t hcontext ht hfaces => ?_) fun _ e he => he.none_iff.mpr rfl)
  refine derive_decided (p := .classElement false false) fun m _ => ?_
  refine classElement_staticBlock (by decide) (by decide) (hfaces.of_eq rfl rfl) ?_
  exact nestBody_decided h (Wrapper.staticBlock.inside_plain s.context) (ht.trans hmodule)

end

/-- The lexemes of a nest, from the outside in. -/
theorem lexemes_nest (w : Wrapper) (ws : List Wrapper) (leaf : Leaf) (rest : List Lexeme) :
    lexemes (nestPieces (w :: ws) leaf) ++ rest =
      lexemes w.openingPieces ++ (lexemes (nestPieces ws leaf) ++ (lexemes w.closingPieces ++ rest)) := by
  rw [nestPieces, lexemes_append, lexemes_append, List.append_assoc, List.append_assoc]

theorem nest_decided (ws : List Wrapper) (leaf : Leaf) : NestDecided ws leaf := by
  induction ws with
  | nil => exact fun levels s p ls hplain _ hp hs => leaf_decided leaf hplain hp hs
  | cons w ws ih =>
    intro levels s p ls hplain hmodule hp hs
    rw [lexemes_nest] at hs
    -- what follows the expression belongs to the body
    have hbody (more : List Lexeme) : lexemes (nestPieces ws leaf) ++ .punctuator .semicolon :: more =
        nestBody ws leaf ++ more := List.append_cons ..
    cases w with
    | function =>
      have hs : s.Faces (_ :: _ :: _ :: _ :: _ :: (_ ++ .punctuator .semicolon :: _)) := hs
      rw [hbody] at hs
      refine wrapped_decided hplain hp hs (.inl (Keyword.kind_word .function)) fun n t hcontext ht hfaces => ?_
      exact hcontext ▸ function_nest ih (ht.trans hmodule) hfaces
    | arrow =>
      have hs : s.Faces (_ :: _ :: _ :: _ :: _ :: (_ ++ .punctuator .semicolon :: _)) := hs
      rw [hbody] at hs
      refine wrapped_decided hplain hp hs (.inr (.inr (.inl rfl))) fun n t hcontext ht hfaces => ?_
      exact hcontext ▸ arrow_nest ih (ht.trans hmodule) hfaces
    | objectMethod =>
      have hs : s.Faces (_ :: _ :: _ :: _ :: _ :: _ :: (_ ++ .punctuator .semicolon :: _)) := hs
      rw [hbody] at hs
      refine wrapped_decided hplain hp hs (.inr (.inr (.inr rfl))) fun n t hcontext ht hfaces => ?_
      exact hcontext ▸ objectMethod_nest ih (ht.trans hmodule) hfaces
    | classMethod =>
      have hs : s.Faces (_ :: _ :: _ :: _ :: _ :: _ :: _ :: (_ ++ .punctuator .semicolon :: _)) := hs
      rw [hbody] at hs
      refine wrapped_decided hplain hp hs (.inr (.inl (Keyword.kind_word .class))) fun n t _ ht hfaces => ?_
      exact classMethod_nest false nameM (by decide) ih (ht.trans hmodule) hfaces
    | constructor =>
      have hs : s.Faces (_ :: _ :: _ :: _ :: _ :: _ :: _ :: (_ ++ .punctuator .semicolon :: _)) := hs
      rw [hbody] at hs
      refine wrapped_decided hplain hp hs (.inr (.inl (Keyword.kind_word .class))) fun n t _ ht hfaces => ?_
      exact classMethod_nest false nameConstructor (by decide) ih (ht.trans hmodule) hfaces
    | derivedConstructor =>
      have hs : s.Faces (_ :: _ :: _ :: _ :: _ :: _ :: _ :: _ :: _ :: (_ ++ .punctuator .semicolon :: _)) := hs
      rw [hbody] at hs
      refine wrapped_decided hplain hp hs (.inr (.inl (Keyword.kind_word .class))) fun n t _ ht hfaces => ?_
      exact classMethod_nest true nameConstructor (by decide) ih (ht.trans hmodule) hfaces
    | field =>
      refine wrapped_decided hplain hp hs (.inr (.inl (Keyword.kind_word .class))) fun n t hcontext ht hfaces => ?_
      exact hcontext ▸ field_nest ih (ht.trans hmodule) hfaces
    | staticBlock =>
      have hs : s.Faces (_ :: _ :: _ :: _ :: _ :: (_ ++ .punctuator .semicolon :: _)) := hs
      rw [hbody] at hs
      refine wrapped_decided hplain hp hs (.inr (.inl (Keyword.kind_word .class))) fun n t hcontext ht hfaces => ?_
      exact hcontext ▸ staticBlock_nest ih (ht.trans hmodule) hfaces

end Grammar

/-- In functions, methods, fields and static blocks, one inside the other to any depth, each expression is accepted just
where the wrappers permit it. -/
theorem nest_accepted_iff (ws : List Wrapper) (leaf : Leaf) (limit : Nat)
    (hdeep : ∀ r, checkBuffer ⟨.script, limit⟩ (Utf8.encode (nest ws leaf ++ [';'])) ≠ .tooDeep r) :
    checkBuffer ⟨.script, limit⟩ (Utf8.encode (nest ws leaf ++ [';'])) = .ok ↔ leaf.Permitted ws := by
  let pieces := nestPieces ws leaf ++ [Punctuator.semicolon.piece]
  have hprinted : nest ws leaf ++ [';'] = printed pieces := by
    rw [printed_append, printed_nest]
    rfl
  have hsound : Sound pieces = true := sound_nest ws leaf (.inr rfl) rfl
  rw [hprinted] at hdeep ⊢
  have hlexemes : lexemes pieces = nestBody ws leaf := lexemes_append ..
  refine checkBuffer_printed hsound hdeep fun s hs => ?_
  rw [hlexemes] at hs
  refine program_concluded (directives_sloppy hs (nest_notString ws leaf hs.faces)) fun t ht => ?_
  have hplain : t.context.Plain := by
    rw [ht.context]
    exact ⟨rfl, rfl⟩
  have hlist : Decided t _ [] _ (statementList (derive limit) true t) :=
    nestList_decided (nest_decided ws leaf) hplain ht.isModule ht.attachedLabels trivial
      (by rw [List.append_nil]; exact ht.faces)
  rw [ht.context] at hlist
  exact hlist.iff (permits_iff ws leaf)

/-- In a method there is no constructor to call, but in a derived class in the method there is, also from an arrow
function. -/
theorem nest_accepted_iff_superCall :
    (∀ r, checkBuffer ⟨.script, 64⟩
      (Utf8.encode (nest [.objectMethod, .derivedConstructor, .arrow] .superCall ++ [';'])) ≠ .tooDeep r) ∧
    checkBuffer ⟨.script, 64⟩
      (Utf8.encode (nest [.objectMethod, .derivedConstructor, .arrow] .superCall ++ [';'])) = .ok := by
  have hdeep : ∀ r, checkBuffer ⟨.script, 64⟩
      (Utf8.encode (nest [.objectMethod, .derivedConstructor, .arrow] .superCall ++ [';'])) ≠ .tooDeep r := by
    rw [show checkBuffer ⟨.script, 64⟩
      (Utf8.encode (nest [.objectMethod, .derivedConstructor, .arrow] .superCall ++ [';'])) = .ok by decide +kernel]
    nofun
  exact ⟨hdeep, (nest_accepted_iff _ _ 64 hdeep).mpr rfl⟩

end EcmaCheck
