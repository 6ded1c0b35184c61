import EcmaCheck.Grammar.Program

/-!
# Where a recognition stands in its text

`Input` is the part of a state that comes from the text. A recognition changes it in few ways: it consumes the current
token, it reads a `/` or a `}` again, and it notes operands and omitted semicolons. `Leads` says that one input comes
out of another like this, to the end of a recognition or to where it failed.
-/

namespace EcmaCheck

/-- Whether the token is spelled as a name is. -/
def Token.isName (t : Token) : Bool :=
  match t.kind with
  | .identifier .. | .keyword _ => true
  | _ => false

/-- The nesting levels that the token is worth once it has been consumed. What begins behind the brace of a block may
lie two levels below it, an item and a statement. -/
def Token.worth (t : Token) : Nat :=
  if t.isPunctuator .openBrace then 2 else 1

theorem Token.worth_pos (t : Token) : 1 ≤ t.worth := by
  unfold worth
  split <;> decide

theorem Token.worth_le (t : Token) : t.worth ≤ 2 := by
  unfold worth
  split <;> decide

namespace Grammar

/-- The part of a state that comes from the text. -/
structure Input where
  scanner : Scanner
  token : Token
  consumed : List Token
  omitted : List Position
  operandStarts : List Token
  operandEnds : List (Position × Token)
  repeated : List (Token × Token)

/-- Where a recognition stands in its text. -/
def State.input (s : State) : Input :=
  ⟨s.scanner, s.token, s.consumed, s.omitted, s.operandStarts, s.operandEnds, s.repeated⟩

/-- Whether the token is `/` or `/=`. -/
def isDivision (t : Token) : Bool :=
  t.isPunctuator .slash || t.isPunctuator .slashAssign

/-- Whether the token may be read again under the goal: a division as a regular expression, a closing brace as template
text. -/
inductive Rereads (t : Token) : LexicalGoal → Prop
  | regExp (h : isDivision t = true) : Rereads t .regExp
  | template (h : t.isPunctuator .closeBrace = true) : Rereads t .templateTail

namespace Input

/-- The end of the token consumed last. -/
def previousEnd (i : Input) : Position :=
  (i.consumed.head?.map Token.stop).getD .start

/-- The nesting levels that the consumed tokens are worth. -/
def earned (i : Input) : Nat :=
  i.consumed.foldr (·.worth + ·) 0

theorem earned_consume (t : Token) (i : Input) :
    earned { i with consumed := t :: i.consumed } = t.worth + i.earned :=
  rfl

theorem earned_le (i : Input) : i.earned ≤ 2 * i.consumed.length := by
  unfold earned
  induction i.consumed with
  | nil => exact Nat.zero_le _
  | cons t consumed ih =>
    have hworth := t.worth_le
    rw [List.foldr_cons, List.length_cons]
    omega

/-- Makes the token that the scanner gave the current one. -/
def receive (i : Input) : Except Fault Token × Scanner → Except Fault Input
  | (.ok t, scanner) => .ok { i with scanner, token := t }
  | (.error f, _) => .error f

theorem receive_of_ok {i : Input} {r : Except Fault Token × Scanner} {t : Token} (h : r.1 = .ok t) :
    i.receive r = .ok { i with scanner := r.2, token := t } := by
  obtain ⟨_, _⟩ := r
  cases h
  rfl

theorem receive_of_error {i : Input} {r : Except Fault Token × Scanner} {f : Fault} (h : r.1 = .error f) :
    i.receive r = .error f := by
  obtain ⟨_, _⟩ := r
  cases h
  rfl

theorem eq_of_receive {i j : Input} {r : Except Fault Token × Scanner} (h : i.receive r = .ok j) :
    r = (.ok j.token, j.scanner) ∧ j = { i with scanner := j.scanner, token := j.token } := by
  obtain ⟨_ | _, _⟩ := r <;> cases h
  exact ⟨rfl, rfl⟩

/-- The current token, consumed. -/
def consume (i : Input) : Input :=
  { i with consumed := i.token :: i.consumed }

/-- Consumes the current token and reads the next one. -/
def advance (goal : LexicalGoal) (i : Input) : Except Fault Input :=
  i.consume.receive (i.scanner.next goal)

/-- Reads the current token again. -/
def rescan (goal : LexicalGoal) (i : Input) : Except Fault Input :=
  i.receive (i.scanner.rescan goal i.token)

/-- Notes that a statement ended without its semicolon. -/
def noteOmission (i : Input) : Input :=
  { i with omitted := i.previousEnd :: i.omitted }

/-- Notes that an operand begins with the current token. -/
def noteStart (i : Input) : Input :=
  { i with operandStarts := i.token :: i.operandStarts }

/-- Notes that an operand ended before the current token. -/
def noteEnd (i : Input) : Input :=
  { i with operandEnds := (i.previousEnd, i.token) :: i.operandEnds }

/-- Notes that a turn which found the token has led here and is followed by another. -/
def noteTurn (found : Token) (i : Input) : Input :=
  { i with repeated := (found, i.token) :: i.repeated }

/-- A recognition may get from the first input to the last; with `false` it fails there, wherever that leaves the
scanner. -/
inductive Leads : Input → Bool → Input → Prop
  | done (i : Input) : Leads i true i
  | fails (i : Input) (scanner : Scanner) : Leads i false { i with scanner }
  | misreads {i : Input} (scanner : Scanner) : Leads i false { i.consume with scanner }
  | advance {i i' j : Input} {ok : Bool} {goal : LexicalGoal} (hgoal : goal ≠ .templateTail)
    (h : i.advance goal = .ok i') (hj : Leads i' ok j) : Leads i ok j
  | rescan {i i' j : Input} {ok : Bool} {goal : LexicalGoal} (hgoal : Rereads i.token goal)
    (h : i.rescan goal = .ok i') (hj : Leads i' ok j) : Leads i ok j
  | noteOmission {i j : Input} {ok : Bool} (hj : Leads i.noteOmission ok j) : Leads i ok j
  | noteStart {i j : Input} {ok : Bool} (hj : Leads i.noteStart ok j) : Leads i ok j
  | noteEnd {i j : Input} {ok : Bool} (hj : Leads i.noteEnd ok j) : Leads i ok j
  | noteTurn {i j : Input} {ok : Bool} (found : Token) (hj : Leads (i.noteTurn found) ok j) : Leads i ok j

theorem Leads.trans {i j k : Input} {ok : Bool} (h : Leads i true j) (hk : Leads j ok k) : Leads i ok k := by
  generalize htrue : true = ended at h
  induction h with
  | done => exact hk
  | fails | misreads => cases htrue
  | advance hgoal h _ ih => exact .advance hgoal h (ih hk htrue)
  | rescan hgoal h _ ih => exact .rescan hgoal h (ih hk htrue)
  | noteOmission _ ih => exact .noteOmission (ih hk htrue)
  | noteStart _ ih => exact .noteStart (ih hk htrue)
  | noteEnd _ ih => exact .noteEnd (ih hk htrue)
  | noteTurn found _ ih => exact .noteTurn found (ih hk htrue)

/-- What has been consumed stays consumed. -/
theorem Leads.consumed_suffix {i j : Input} {ok : Bool} (h : i.Leads ok j) : i.consumed <:+ j.consumed := by
  induction h with
  | done | fails => exact List.suffix_refl _
  | misreads => exact List.suffix_cons _ _
  | advance _ h _ ih =>
    rw [(eq_of_receive h).2] at ih
    exact (List.suffix_cons _ _).trans ih
  | rescan _ h _ ih =>
    rw [(eq_of_receive h).2] at ih
    exact ih
  | noteOmission _ ih | noteStart _ ih | noteEnd _ ih | noteTurn _ _ ih => exact ih

variable (finish : Bool → Input → Prop)

/-- A recognition may get from the input to where it is meant to finish. -/
def CanFinish (i : Input) : Prop :=
  ∃ ok j, i.Leads ok j ∧ finish ok j

/-- A recognition that has read may finish; if it misread, it stands where the input says. -/
def MayFinish (failed : Input) : Except Fault Input → Prop
  | .ok i => i.CanFinish finish
  | .error _ => ∃ scanner, finish false { failed with scanner }

/-- A recognition that fails where it stands, or else consumes the current token under the goal that it implies, may
finish. -/
def MayOpen (i : Input) : Prop :=
  finish false i ∨ i.consume.MayFinish finish (i.advance i.token.goalAfter)

/-- A recognition that looks at the next token may finish. It does not consume the current token under another goal than
the next token was read under, if that one tells the goals apart. -/
structure MayPeek (i : Input) : Prop where
  fails {f : Fault} : (i.scanner.next i.token.goalAfter).1 = .error f → finish false i
  canFinish {t : Token} : (i.scanner.next i.token.goalAfter).1 = .ok t → i.CanFinish finish
  mayOpen {t : Token} : (i.scanner.next i.token.goalAfter).1 = .ok t → i.token.goalAfter ≠ .division →
    t.kind = .regExp → i.MayOpen finish

variable {finish}

theorem CanFinish.of_leads {i j : Input} (h : i.Leads true j) (hj : j.CanFinish finish) : i.CanFinish finish := by
  obtain ⟨ok, k, hk, hfinish⟩ := hj
  exact ⟨ok, k, h.trans hk, hfinish⟩

end Input

end Grammar

end EcmaCheck
