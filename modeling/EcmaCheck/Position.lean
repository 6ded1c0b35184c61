import EcmaCheck.Character

/-!
# Positions

A position counts lines and columns from one, columns in characters, and bytes of UTF-8 from zero. Reading a character
moves a position (`Position.step`): a line terminator begins the next line, and of a CR LF pair only the LF does.
Positions are ordered by line, then column, then offset; the order is total (`Position.le_total`).

A text may end in a sentinel, a line feed that its owner added: that line feed pairs with no CR before it
(`startsWithPairedFeed`).
-/

namespace EcmaCheck

/-- A place in a text. -/
@[ext] structure Position where
  /-- The line, counted from one. -/
  line : Nat
  /-- The column in characters, counted from one. -/
  column : Nat
  /-- The number of bytes before the place. -/
  offset : Nat
  deriving DecidableEq, Repr

/-- Whether `text` begins with a line feed that belongs to a CR before it. With `sentinel`, the line feed that ends the
text belongs to none. -/
def startsWithPairedFeed (sentinel : Bool) : List Char → Bool
  | '\n' :: rest => !(sentinel && rest.isEmpty)
  | _ => false

namespace Position

/-- The place before the first character. -/
def start : Position := ⟨1, 1, 0⟩

instance : Inhabited Position := ⟨start⟩

/-- The place after reading `c` when `rest` follows it. -/
def step (sentinel : Bool) (p : Position) (c : Char) (rest : List Char) : Position :=
  if c = '\r' && startsWithPairedFeed sentinel rest then { p with offset := p.offset + 1 }
  else if isLineTerminator c then ⟨p.line + 1, 1, p.offset + c.utf8Size⟩
  else ⟨p.line, p.column + 1, p.offset + c.utf8Size⟩

/-- The place after reading the first `n` characters of the text, or all of them if there are fewer. -/
def advance (sentinel : Bool) : Nat → Position → List Char → Position
  | n + 1, p, c :: rest => advance sentinel n (p.step sentinel c rest) rest
  | _, p, _ => p

/-- The first place reached by reading the text whose offset is at least `offset`, or the last place there is. -/
def seek (sentinel : Bool) (offset : Nat) (p : Position) : List Char → Position
  | [] => p
  | c :: rest => if p.offset < offset then seek sentinel offset (p.step sentinel c rest) rest else p

theorem offset_step (sentinel : Bool) (p : Position) (c : Char) (rest : List Char) :
    (p.step sentinel c rest).offset = p.offset + c.utf8Size := by
  unfold step
  split
  · rename_i h
    have : c = '\r' := by simp at h; exact h.1
    subst this; rfl
  · split <;> rfl

/-! ## Order -/

/-- Line first, then column, then offset. -/
def le (p q : Position) : Bool :=
  p.line < q.line || (p.line = q.line && (p.column < q.column || (p.column = q.column && p.offset ≤ q.offset)))

instance : LE Position := ⟨fun p q => p.le q = true⟩
instance : LT Position := ⟨fun p q => p ≤ q ∧ ¬ q ≤ p⟩
instance (p q : Position) : Decidable (p ≤ q) := inferInstanceAs (Decidable (p.le q = true))
instance (p q : Position) : Decidable (p < q) := inferInstanceAs (Decidable (p ≤ q ∧ ¬ q ≤ p))

theorem le_iff {p q : Position} : p ≤ q ↔
    p.line < q.line ∨ p.line = q.line ∧ (p.column < q.column ∨ p.column = q.column ∧ p.offset ≤ q.offset) := by
  change p.le q = true ↔ _
  simp [le]

theorem le_total (p q : Position) : p ≤ q ∨ q ≤ p := by
  simp only [le_iff]; omega

/-! ## Text -/

/-- The text `line:column`. -/
def display (p : Position) : String :=
  toString p.line ++ ":" ++ toString p.column

end Position

end EcmaCheck
