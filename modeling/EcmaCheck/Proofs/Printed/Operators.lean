import EcmaCheck.Proofs.Printed.Meeting

/-!
# Operators that are printed

Operands with prefix operators and parentheses, and binary operators between them. No tree of them is built: what
decides whether `??` is mixed with `||` and `&&` is the shape of what stands left and right of an operator. That
suffices, as the shape tells of all the operators of its group (`Summary.Applies`) where the operators that were applied
before precede the one that is applied (`Summary.Applies.apply`).
-/

namespace EcmaCheck

/-! ## Operations -/

/-- The prefix operators that take any operand. -/
inductive PrefixOperator where
  | plus | minus | not | bitNot | typeof | void
  deriving DecidableEq, Repr

/-- The operators between two operands. -/
inductive BinaryOperator where
  | coalesce | logicalOr | logicalAnd | bitOr | bitXor | bitAnd | equal | notEqual | strictEqual | strictNotEqual | less
  | greater | lessEqual | greaterEqual | instanceof | «in» | shiftLeft | shiftRight | shiftRightUnsigned | plus | minus
  | star | slash | percent | power
  deriving DecidableEq, Repr

mutual

/-- A name, an operation in parentheses, or one of these behind prefix operators. -/
inductive Operand where
  | name
  | group (inside : Operation)
  | prefixed (op : PrefixOperator) (operand : Operand)

/-- Operands with a binary operator between each and the next. -/
inductive Operation where
  | one (operand : Operand)
  | apply (operand : Operand) (op : BinaryOperator) (rest : Operation)

end

/-- How the operator is printed. -/
def PrefixOperator.lexeme : PrefixOperator → Lexeme
  | plus => .punctuator .plus
  | minus => .punctuator .minus
  | not => .punctuator .not
  | bitNot => .punctuator .bitNot
  | typeof => .word Keyword.typeof.word
  | void => .word Keyword.void.word

namespace BinaryOperator

/-- How the operator is printed. -/
def lexeme : BinaryOperator → Lexeme
  | coalesce => .punctuator .coalesce
  | logicalOr => .punctuator .logicalOr
  | logicalAnd => .punctuator .logicalAnd
  | bitOr => .punctuator .bitOr
  | bitXor => .punctuator .bitXor
  | bitAnd => .punctuator .bitAnd
  | equal => .punctuator .equal
  | notEqual => .punctuator .notEqual
  | strictEqual => .punctuator .strictEqual
  | strictNotEqual => .punctuator .strictNotEqual
  | less => .punctuator .less
  | greater => .punctuator .greater
  | lessEqual => .punctuator .lessEqual
  | greaterEqual => .punctuator .greaterEqual
  | instanceof => .word Keyword.instanceof.word
  | «in» => .word Keyword.in.word
  | shiftLeft => .punctuator .shiftLeft
  | shiftRight => .punctuator .shiftRight
  | shiftRightUnsigned => .punctuator .shiftRightUnsigned
  | plus => .punctuator .plus
  | minus => .punctuator .minus
  | star => .punctuator .star
  | slash => .punctuator .slash
  | percent => .punctuator .percent
  | power => .punctuator .power

/-- Operators of higher precedence take their operands first. -/
def precedence : BinaryOperator → Nat
  | coalesce => 1
  | logicalOr => 2
  | logicalAnd => 3
  | bitOr => 4
  | bitXor => 5
  | bitAnd => 6
  | equal | notEqual | strictEqual | strictNotEqual => 7
  | less | greater | lessEqual | greaterEqual | instanceof | «in» => 8
  | shiftLeft | shiftRight | shiftRightUnsigned => 9
  | plus | minus => 10
  | star | slash | percent => 11
  | power => 12

/-- The least precedence of the operators that the right operand takes. -/
def rightPrecedence (op : BinaryOperator) : Nat :=
  if op = power then op.precedence else op.precedence + 1

/-- Whether the operator is one that does not mix with `??`. -/
def isLogical : BinaryOperator → Bool
  | logicalOr | logicalAnd => true
  | _ => false

/-- Whether `??` stands among the operators together with `||` or `&&`. -/
def mixes (ops : List BinaryOperator) : Bool :=
  decide (coalesce ∈ ops) && ops.any isLogical

end BinaryOperator

/-- Whether a prefix operator stands before the operand. -/
def Operand.isPrefixed : Operand → Bool
  | .prefixed .. => true
  | _ => false

namespace Operation

/-- The operand that the operation begins with. -/
def first : Operation → Operand
  | one operand => operand
  | apply operand _ _ => operand

/-- The operators, each with the operand behind it. -/
def rest : Operation → List (BinaryOperator × Operand)
  | one _ => []
  | apply _ op rest => (op, rest.first) :: rest.rest

end Operation

/-- Whether no operand with a prefix operator is directly followed by `**`; `before` tells whether the operand before
the first operator has one. -/
def powersLegal : Bool → List (BinaryOperator × Operand) → Bool
  | _, [] => true
  | before, (op, operand) :: rest => !(before && op = .power) && powersLegal operand.isPrefixed rest

/-- Whether the operators of the group itself may stand where they do. -/
def Operation.isRegular (e : Operation) : Bool :=
  powersLegal e.first.isPrefixed e.rest && !BinaryOperator.mixes (e.rest.map Prod.fst)

mutual

/-- Whether all groups in the operand are regular. -/
def Operand.isLegal : Operand → Bool
  | .name => true
  | .group inside => inside.isRegular && inside.operandsLegal
  | .prefixed _ operand => operand.isLegal

/-- Whether all groups in the operands are regular. -/
def Operation.operandsLegal : Operation → Bool
  | .one operand => operand.isLegal
  | .apply operand _ rest => operand.isLegal && rest.operandsLegal

end

/-- Whether the group itself and all groups in it are regular. -/
def Operation.isLegal (e : Operation) : Bool :=
  e.isRegular && e.operandsLegal

/-! ## Printing -/

theorem kind_nameA : (Lexeme.word nameA.toWord).kind = .identifier "a" false :=
  nameA.kind_eq

mutual

/-- How the operand is printed. -/
def Operand.lexemes : Operand → List Lexeme
  | .name => [.word nameA.toWord]
  | .group inside => .punctuator .openParen :: (inside.lexemes ++ [.punctuator .closeParen])
  | .prefixed op operand => op.lexeme :: operand.lexemes

/-- How the operation is printed. -/
def Operation.lexemes : Operation → List Lexeme
  | .one operand => operand.lexemes
  | .apply operand op rest => operand.lexemes ++ op.lexeme :: rest.lexemes

end

/-- How the operation is printed as a statement, with a semicolon or without one. -/
def Operation.statementLexemes (e : Operation) (semicolon : Bool) : List Lexeme :=
  e.lexemes ++ if semicolon then [.punctuator .semicolon] else []

/-- The operation as a statement, with spaces between its tokens. -/
def Operation.statement (e : Operation) (semicolon : Bool) : List Char :=
  spaced (e.statementLexemes semicolon)

/-- The kinds of the tokens that the operand is printed as. -/
def Operand.kinds (o : Operand) : List TokenKind :=
  o.lexemes.map Lexeme.kind

/-- The kinds of the tokens that the operators and their right operands are printed as. -/
def applicationKinds (terms : List (BinaryOperator × Operand)) : List TokenKind :=
  terms.flatMap fun term => term.1.lexeme.kind :: term.2.kinds

theorem applicationKinds_cons (op : BinaryOperator) (o : Operand) (terms : List (BinaryOperator × Operand)) :
    applicationKinds ((op, o) :: terms) = op.lexeme.kind :: (o.kinds ++ applicationKinds terms) := by
  unfold applicationKinds
  rw [List.flatMap_cons, List.cons_append]

theorem Operation.kinds_eq : ∀ e : Operation, e.lexemes.map Lexeme.kind = e.first.kinds ++ applicationKinds e.rest
  | .one _ => (List.append_nil _).symm
  | .apply o op rest => by
    rw [lexemes, List.map_append, List.map_cons, kinds_eq rest, Operation.first, Operation.rest, applicationKinds_cons]
    rfl

theorem Operation.operandsLegal_iff : ∀ e : Operation,
    e.operandsLegal = true ↔ e.first.isLegal = true ∧ ∀ term ∈ e.rest, term.2.isLegal = true
  | .one _ => by simp [operandsLegal, first, rest]
  | .apply _ _ rest => by simp [operandsLegal, first, Operation.rest, operandsLegal_iff rest]

/-! ## First tokens -/

/-- What an operand is printed first of. -/
inductive TokenKind.BeginsOperation : TokenKind → Prop where
  | name : BeginsOperation (.identifier "a" false)
  | group : BeginsOperation (.punctuator .openParen)
  | prefixed (op : PrefixOperator) : BeginsOperation op.lexeme.kind

theorem Operand.kinds_cons (o : Operand) : ∃ k rest, o.kinds = k :: rest ∧ k.BeginsOperation := by
  cases o with
  | name => exact ⟨_, _, congrArg (· :: []) kind_nameA, .name⟩
  | group inside => exact ⟨_, _, rfl, .group⟩
  | prefixed op operand => exact ⟨_, _, rfl, .prefixed op⟩

theorem Operation.kinds_cons (e : Operation) :
    ∃ k rest, e.lexemes.map Lexeme.kind = k :: rest ∧ k.BeginsOperation := by
  obtain ⟨k, rest, hkinds, hk⟩ := e.first.kinds_cons
  exact ⟨k, rest ++ applicationKinds e.rest, by rw [e.kinds_eq, hkinds, List.cons_append], hk⟩

theorem TokenKind.BeginsOperation.ne {k : TokenKind} (h : k.BeginsOperation) :
    k ≠ .punctuator .closeParen ∧ k ≠ .punctuator .ellipsis := by
  cases h with
  | name => exact ⟨by decide, by decide⟩
  | group => exact ⟨by decide, by decide⟩
  | prefixed op => cases op <;> exact ⟨by decide +kernel, by decide +kernel⟩

/-! ## Where slashes are printed -/

theorem PrefixOperator.isReadable_lexeme (op : PrefixOperator) (goal : LexicalGoal) :
    op.lexeme.isReadable goal = true := by
  cases op <;> rfl

/-- Behind an operand, every operator is read as one. -/
theorem BinaryOperator.isReadable_lexeme (op : BinaryOperator) : op.lexeme.isReadable .division = true := by
  cases op <;> rfl

theorem readable_name (goal : LexicalGoal) (ls : List Lexeme) :
    readable goal (.word nameA.toWord :: ls) = readable .division ls := by
  have hkind : (Lexeme.word nameA.toWord).kind = .identifier nameA.name nameA.value.escaped :=
    nameA.kind_eq
  rw [readable, hkind]
  rfl

mutual

/-- What is behind an operand is read under the goal that expects an operator. -/
theorem Operand.readable_lexemes : ∀ (o : Operand) (goal : LexicalGoal) (ls : List Lexeme),
    readable goal (o.lexemes ++ ls) = readable .division ls
  | .name, goal, ls => readable_name goal ls
  | .group inside, goal, ls => by
    rw [Operand.lexemes, List.cons_append, List.append_assoc, readable, inside.readable_lexemes]
    rfl
  | .prefixed op operand, goal, ls => by
    rw [Operand.lexemes, List.cons_append, readable, op.isReadable_lexeme, operand.readable_lexemes, Bool.true_and]

theorem Operation.readable_lexemes : ∀ (e : Operation) (goal : LexicalGoal) (ls : List Lexeme),
    readable goal (e.lexemes ++ ls) = readable .division ls
  | .one operand, goal, ls => operand.readable_lexemes goal ls
  | .apply operand op rest, goal, ls => by
    rw [Operation.lexemes, List.append_assoc, operand.readable_lexemes, List.cons_append, readable,
      op.isReadable_lexeme, rest.readable_lexemes, Bool.true_and]

end

/-! ## Operators in a row -/

/-- An operator before which no operand has a prefix operator, or which is not `**`, can stand where it does. -/
theorem powersLegal_append {front back : List (BinaryOperator × Operand)}
    (hback : ∀ term ∈ back.head?, term.1 ≠ .power) (before : Bool) :
    powersLegal before (front ++ back) = (powersLegal before front && powersLegal false back) := by
  induction front generalizing before with
  | nil =>
    cases back with
    | nil => rfl
    | cons term back =>
      obtain ⟨op, o⟩ := term
      have hop : op ≠ .power := hback (op, o) rfl
      simp [powersLegal, hop]
  | cons term front ih =>
    obtain ⟨op, o⟩ := term
    rw [List.cons_append, powersLegal, powersLegal, ih, Bool.and_assoc]

namespace BinaryOperator

theorem mixes_eq_true {ops : List BinaryOperator} :
    mixes ops = true ↔ coalesce ∈ ops ∧ ∃ op ∈ ops, op.isLogical = true := by
  unfold mixes
  rw [Bool.and_eq_true, decide_eq_true_iff, List.any_eq_true]

/-- Fewer operators do not mix either. -/
theorem mixes_mono {ops more : List BinaryOperator} (h : ∀ op ∈ ops, op ∈ more) (hmixes : mixes more = false) :
    mixes ops = false := by
  rw [← Bool.not_eq_true, mixes_eq_true] at hmixes ⊢
  rintro ⟨hcoalesce, op, hop, hlogical⟩
  exact hmixes ⟨h _ hcoalesce, op, h op hop, hlogical⟩

theorem precedence_pos (op : BinaryOperator) : 1 ≤ op.precedence := by
  cases op <;> decide

theorem eq_power_of_precedence {op : BinaryOperator} (h : 12 ≤ op.precedence) : op = power := by
  cases op <;> first | rfl | exact absurd h (by decide)

/-- Only `??` and the logical operators stand below the others. -/
theorem precedence_cases (op : BinaryOperator) : op = coalesce ∧ op.precedence = 1 ∧ op.isLogical = false ∨
    op ≠ coalesce ∧ 2 ≤ op.precedence ∧ op.precedence ≤ 3 ∧ op.isLogical = true ∨
    op ≠ coalesce ∧ 4 ≤ op.precedence ∧ op.isLogical = false := by
  cases op <;> decide

theorem precedence_le_right (op : BinaryOperator) : op.precedence ≤ op.rightPrecedence := by
  cases op <;> decide

end BinaryOperator

/-- Whether a group of operators ends before the token. -/
def TokenKind.endsGroup : TokenKind → Bool
  | .punctuator .closeParen | .punctuator .semicolon | .endOfInput => true
  | _ => false

/-- What may be behind an operand: another operator, or the end of its group. -/
def TokenKind.FollowsOperand (kind : TokenKind) : Prop :=
  kind.endsGroup = true ∨ ∃ op : BinaryOperator, kind = op.lexeme.kind

namespace Grammar

variable {s t : State} {token : Token} {op : BinaryOperator} {ks : List TokenKind}

/-! ## Operators as tokens -/

theorem stops_of_endsGroup {kind : TokenKind} (h : kind.endsGroup = true) :
    kind.stops = true ∧ kind ≠ .punctuator .comma ∧ kind ≠ .punctuator .assign := by
  unfold TokenKind.endsGroup at h
  split at h
  · exact ⟨rfl, by decide, by decide⟩
  · exact ⟨rfl, by decide, by decide⟩
  · exact ⟨rfl, by decide, by decide⟩
  · cases h

theorem stopsOperand_of_operator (h : token.kind = op.lexeme.kind) : StopsOperand token := by
  obtain ⟨kind, start, stop, lexeme, newlineBefore⟩ := token
  obtain rfl : kind = op.lexeme.kind := h
  cases op <;> exact ⟨rfl, rfl, rfl, rfl, rfl, rfl⟩

theorem stopsOperand_of_follows (h : token.kind.FollowsOperand) : StopsOperand token := by
  obtain h | ⟨op, h⟩ := h
  · exact (stops_of_kind (stops_of_endsGroup h).1).toStopsOperand
  · exact stopsOperand_of_operator h

theorem precedence?_operator (h : token.kind = op.lexeme.kind) : precedence? true token = some op.precedence := by
  unfold precedence?
  rw [h]
  cases op <;> rfl

theorem isPunctuator_power (h : token.kind = op.lexeme.kind) : token.isPunctuator .power = decide (op = .power) := by
  unfold Token.isPunctuator
  rw [h]
  cases op <;> rfl

/-- What can be said of the shape that an operator gives. -/
theorem binaryShape?_operator (h : token.kind = op.lexeme.kind) (left right : Shape) :
    binaryShape? token left right =
      if op = .coalesce then if left = .logical ∨ right = .logical then none else some .coalesce
      else if op.isLogical then if left = .coalesce ∨ right = .coalesce then none else some .logical
      else some .other := by
  unfold binaryShape? Token.isPunctuator
  rw [h]
  cases op <;> simp [BinaryOperator.lexeme, Lexeme.kind, BinaryOperator.isLogical, Keyword.kind_word]

/-! ## What shapes tell of operators -/

/-- What is known of an expression that was made of the operators; `before` tells whether a prefix operator stands
before the first operand. -/
structure Summary.Applies (e : Summary) (before : Bool) (ops : List BinaryOperator) : Prop where
  shorthand : e.shorthand? = none
  arrow : e.shape ≠ .arrow
  unary : e.shape = .unary ↔ before = true ∧ ops = []
  logical : e.shape = .logical ↔ ∃ op ∈ ops, op.isLogical = true
  coalesce : e.shape = .coalesce ↔ .coalesce ∈ ops

namespace Summary.Applies

variable {left right e : Summary} {before : Bool} {done ops : List BinaryOperator}

theorem requireOperand (h : e.Applies before ops) (s : State) : requireOperand e s = .ok () s := by
  unfold Grammar.requireOperand rejectShorthand
  rw [h.shorthand, if_neg h.arrow]
  rfl

/-- The shape of an expression with a binary operator. -/
theorem of_shape {shape : Shape} {start : Position} (hshape : shape ≠ .arrow ∧ shape ≠ .unary) (hne : ops ≠ [])
    (hlogical : shape = .logical ↔ ∃ op ∈ ops, op.isLogical = true) (hcoalesce : shape = .coalesce ↔ .coalesce ∈ ops) :
    Summary.Applies ⟨shape, start, none⟩ before ops :=
  ⟨rfl, hshape.1, iff_of_false hshape.2 fun h => hne h.2, hlogical, hcoalesce⟩

/-- An operator takes operands made of operators that precede it, unless it mixes with them. -/
theorem apply (hop : token.kind = op.lexeme.kind) (hleft : left.Applies before done)
    (hright : ∃ q, right.Applies q ops) (hprecede : ∀ o ∈ done ++ ops, op.precedence ≤ o.precedence) :
    match binaryShape? token left.shape right.shape with
    | some shape => BinaryOperator.mixes (done ++ op :: ops) = false ∧
        Summary.Applies ⟨shape, left.start, none⟩ before (done ++ op :: ops)
    | none => BinaryOperator.mixes (done ++ op :: ops) = true := by
  obtain ⟨q, hright⟩ := hright
  have hmem {o : BinaryOperator} : o ∈ done ++ op :: ops ↔ o = op ∨ o ∈ done ++ ops := by
    rw [List.mem_append, List.mem_cons, or_left_comm, List.mem_append]
  have hne : done ++ op :: ops ≠ [] := List.append_ne_nil_of_right_ne_nil _ (List.cons_ne_nil _ _)
  have hlogical : (left.shape = .logical ∨ right.shape = .logical) ↔ ∃ o ∈ done ++ ops, o.isLogical = true := by
    rw [hleft.logical, hright.logical]
    simp only [List.mem_append, or_and_right, exists_or]
  have hcoalesce : (left.shape = .coalesce ∨ right.shape = .coalesce) ↔ .coalesce ∈ done ++ ops := by
    rw [hleft.coalesce, hright.coalesce, List.mem_append]
  rw [binaryShape?_operator hop, ← Bool.not_eq_true, BinaryOperator.mixes_eq_true]
  simp only [hlogical, hcoalesce]
  obtain ⟨rfl, _, hnot⟩ | ⟨hne', hlow, _, hop'⟩ | ⟨hne', hlow, hnot⟩ := op.precedence_cases
  · rw [if_pos rfl]
    by_cases h : ∃ o ∈ done ++ ops, o.isLogical = true
    · rw [if_pos h]
      obtain ⟨o, ho, hlogical⟩ := h
      exact ⟨hmem.mpr (.inl rfl), o, hmem.mpr (.inr ho), hlogical⟩
    · rw [if_neg h]
      have hnone : ¬ ∃ o ∈ done ++ .coalesce :: ops, o.isLogical = true := by
        rintro ⟨o, ho, hlogical⟩
        obtain rfl | ho := hmem.mp ho
        · exact Bool.false_ne_true (hnot.symm.trans hlogical)
        · exact h ⟨o, ho, hlogical⟩
      exact ⟨fun h => hnone h.2, .of_shape (by decide) hne (iff_of_false (by decide) hnone)
        (iff_of_true rfl (hmem.mpr (.inl rfl)))⟩
  · have hnone : .coalesce ∉ done ++ ops := fun h => absurd (Nat.le_trans hlow (hprecede _ h)) (by decide)
    have hnone' : .coalesce ∉ done ++ op :: ops := fun h => (hmem.mp h).elim (fun h => hne' h.symm) hnone
    rw [if_neg hne', if_pos hop', if_neg hnone]
    exact ⟨fun h => hnone' h.1, .of_shape (by decide) hne (iff_of_true rfl ⟨op, hmem.mpr (.inl rfl), hop'⟩)
      (iff_of_false (by decide) hnone')⟩
  · have hhigh {o : BinaryOperator} (ho : o ∈ done ++ op :: ops) : 4 ≤ o.precedence := by
      obtain rfl | ho := hmem.mp ho
      · exact hlow
      · exact Nat.le_trans hlow (hprecede o ho)
    have hnone' : .coalesce ∉ done ++ op :: ops := fun h => absurd (hhigh h) (by decide)
    have hnone : ¬ ∃ o ∈ done ++ op :: ops, o.isLogical = true := by
      rintro ⟨o, ho, hlogical⟩
      have := hhigh ho
      have := o.precedence_cases
      grind
    rw [if_neg hne', if_neg (Bool.eq_false_iff.mp hnot)]
    exact ⟨fun h => hnone' h.1, .of_shape (by decide) hne (iff_of_false (by decide) hnone)
      (iff_of_false (by decide) hnone')⟩

end Summary.Applies

end Grammar

end EcmaCheck
