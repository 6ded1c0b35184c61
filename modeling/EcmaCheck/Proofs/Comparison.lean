import EcmaCheck.Proofs.Literals.OneLine
import EcmaCheck.Proofs.Lockstep.Program

/-!
# Comparing recognitions of one text

Two recognitions of one text may differ in the limit on nesting or in a sentinel after the text (`Comparison`). They
run in lockstep (`Comparison.simulation`): where the first fails and the second does, they agree on the place, which is
one of the text; and what the first passes as the start or the end of an operand is what a `/` there means.
-/

namespace EcmaCheck

/-- The position is that of a character of the text that is no line feed, or that of its end. -/
def PlaceIn (text : List Char) (p : Position) : Prop :=
  ∃ n ≤ text.length, text[n]? ≠ some '\n' ∧ p = placeAt text n

theorem PlaceIn.of_char {text : List Char} {n : Nat} {c : Char} (hc : text[n]? = some c) (hline : c ≠ '\n') :
    PlaceIn text (placeAt text n) :=
  ⟨n, Nat.le_of_lt (List.getElem?_eq_some_iff.mp hc).1, fun h => hline (Option.some.inj (hc.symm.trans h)), rfl⟩

theorem PlaceIn.of_end (text : List Char) : PlaceIn text (placeAt text text.length) :=
  ⟨text.length, Nat.le_refl _, by rw [List.getElem?_eq_none (Nat.le_refl _)]; nofun, rfl⟩

/-- The token covers characters of the text, which are its lexeme. -/
def Grammar.Covers (text : List Char) (t : Token) : Prop :=
  ∃ m n, m ≤ n ∧ n ≤ text.length ∧ t.start = placeAt text m ∧ t.stop = placeAt text n ∧
    t.lexeme = String.ofList ((text.drop m).take (n - m))

/-- A token as the text has it. -/
structure Token.Of (text : List Char) (t : Token) : Prop where
  covers : Grammar.Covers text t
  wasRead : t.WasRead

/-- What the fault tells of the text: an error of the grammar either is worded in advance or quotes the token at its
place. -/
def Fault.Tells (text : List Char) : Fault → Prop
  | .lexical e _ => e.Printable
  | .grammatical e p => e.isFixed = true ∨ ∃ t : Token, t.Of text ∧ t.start = p ∧ e.Quotes t
  | .tooDeep .. | .stalled _ | .labelsMissing _ => True

/-- The fault is one of the text, at a place of it. -/
structure Fault.In (text : List Char) (f : Fault) : Prop where
  place : PlaceIn text f.position
  kind : f.diagnostic.kind ≠ .internal
  tells : f.Tells text

namespace Grammar

/-- Read after an operand that ended at the place, the token is what follows it there. -/
def Divides (source : Source) (e : Position × Token) : Prop :=
  e.2.kind ≠ .regExp ∧ (((Scanner.ofSource source).moveTo e.1).next .division).1 = .ok e.2

/-- The second token begins behind the beginning of the first. -/
def BeginsBefore (t u : Token) : Prop :=
  t.start.offset < u.start.offset

/-- What two recognitions of one text differ in. -/
inductive Comparison where
  /-- The first may reach its limit on nesting before the second does. -/
  | limits (sentinel : Bool)
  /-- The second has a sentinel after its text, and the first has none. -/
  | sentinels
  /-- They do not differ, and their limit is too high to be reached. -/
  | ample (sentinel : Bool)

namespace Comparison

/-- Whether the first text carries a sentinel. -/
def first : Comparison → Bool
  | limits sentinel | ample sentinel => sentinel
  | sentinels => false

/-- Whether the second text carries a sentinel. -/
def second : Comparison → Bool
  | limits sentinel | ample sentinel => sentinel
  | sentinels => true

/-- What a fault of the first tells of that of the second. -/
def Tells : Comparison → Fault → Fault → Prop
  | limits _, f, g => g = f ∨ f.diagnostic.kind = .tooDeep
  | sentinels, f, g => g = f ∨ g = .grammatical .newlineAfterThrow f.position
  | ample _, f, g => g = f ∧ f.diagnostic.kind ≠ .tooDeep

/-- Whether the second may go on after the fault. -/
def Cuts : Comparison → Fault → Prop
  | limits _, f => f.diagnostic.kind = .tooDeep
  | _, _ => False

variable (c : Comparison) (text : List Char)

/-- The scanners and their tokens, of which the first was read from the index on. -/
inductive Reached (n : Nat) (scanner₁ scanner₂ : Scanner) (token₁ token₂ : Token) : Prop
  | amid (span : Span) {goal : LexicalGoal} (hs : span.Within text goal n) (h₁ : token₁ = span.token text)
    (h₂ : token₂ = span.token text) (hscanner₁ : scanner₁ = .standing text c.first span.behind)
    (hscanner₂ : scanner₂ = .standing text c.second span.behind)
  | atEnd {newline : Bool → Bool} (hnewline : newline false = true → newline true = true) (hn : n ≤ text.length)
    (h₁ : token₁ = endToken text (newline c.first)) (h₂ : token₂ = endToken text (newline c.second))

/-- What is known of the tokens that the first has passed: those that it consumed are tokens of the text, each behind
the one before, and so is the current one, unless it was consumed and none could be read behind it. The operands among
them do not run into what divides them. Turns that others followed have got on. -/
structure Passed (i : Input) : Prop where
  consumed : ∀ t ∈ i.consumed, t.isEnd = false ∧ Covers text t
  ordered : i.consumed.Pairwise fun later earlier => BeginsBefore earlier later
  current : (∀ t ∈ i.consumed, BeginsBefore t i.token) ∨ i.consumed.head? = some i.token
  covers : Covers text i.token
  repeated : ∀ turn ∈ i.repeated, turn.1.isEnd = false ∧ BeginsBefore turn.1 turn.2
  starts : ∀ t ∈ i.operandStarts, isDivision t = false
  ends : ∀ e ∈ i.operandEnds, Divides (.carrying text c.first) e

/-- Where the two stand in their texts; with `ended` an operand has just ended. -/
structure Alongside (ended : Bool) (i j : Input) : Prop where
  reached : Reached c text i.consumed.length i.scanner j.scanner i.token j.token
  wasRead : i.token.WasRead
  previousEnd : j.previousEnd = i.previousEnd
  behind : ∀ t ∈ i.consumed, BeginsBefore t i.token
  ended : ended = true → Divides (.carrying text c.first) (i.previousEnd, i.token)
  passed : Passed c text i

/-- Corresponding places are the same place of the text. -/
def Places (p q : Position) : Prop :=
  PlaceIn text p ∧ q = p

/-- Corresponding faults. -/
def Faults (f g : Fault) : Prop :=
  f.In text ∧ c.Tells f g

variable {c text} {n : Nat} {scanner₁ scanner₂ : Scanner} {token₁ token₂ : Token}

/-! ## Faults -/

theorem tells_of_cuts {f g : Fault} (h : c.Cuts f) : c.Tells f g := by
  cases c with
  | limits => exact .inr h
  | sentinels => exact h.elim
  | ample => exact h.elim

/-- Errors of the text are the same in both. -/
theorem faults_self {f : Fault} (hp : PlaceIn text f.position) (hf : f.diagnostic.kind.isTextFailure = true)
    (htells : f.Tells text) : Faults c text f f := by
  refine ⟨⟨hp, fun h => (by rw [h] at hf; cases hf), htells⟩, ?_⟩
  cases c with
  | limits => exact .inl rfl
  | sentinels => exact .inl rfl
  | ample => exact ⟨rfl, fun h => by rw [h] at hf; cases hf⟩

/-! ## Tokens -/

theorem isDivision_eq_false_iff {t : Token} :
    isDivision t = false ↔ t.kind ≠ .punctuator .slash ∧ t.kind ≠ .punctuator .slashAssign := by
  rw [isDivision, Bool.or_eq_false_iff, Bool.eq_false_iff, Bool.eq_false_iff, ne_eq, Token.isPunctuator_iff, ne_eq,
    Token.isPunctuator_iff]

theorem isEnd_of_isDivision {t : Token} (h : isDivision t = true) : t.isEnd = false :=
  (Bool.or_eq_true _ _ ▸ h).elim Token.isEnd_of_isPunctuator Token.isEnd_of_isPunctuator

theorem place_first {span : Span} {goal : LexicalGoal} (hs : span.Within text goal n) :
    Places text (placeAt text span.first) (placeAt text span.first) :=
  ⟨⟨span.first, hs.first_le, hs.line, rfl⟩, rfl⟩

theorem malformedEscape_token {span : Span} {goal : LexicalGoal} (hs : span.Within text goal n) :
    Option.Rel (Places text) (span.token text).malformedEscape? (span.token text).malformedEscape? := by
  cases hm : (span.token text).malformedEscape? with
  | none => exact .none
  | some p =>
    refine .some ⟨?_, rfl⟩
    unfold Token.malformedEscape? at hm
    split at hm
    · rename_i part k hkind
      obtain ⟨hlt, hc⟩ := hs.fits.escape hkind
      rw [List.getElem?_drop] at hc
      have hplace : p = placeAt text (span.first + k) := by
        rw [← Option.some.inj hm, Span.token, String.toList_ofList, Position.advance_take _ hlt]
        exact (Position.advance_add ..).symm
      exact hplace ▸ .of_char hc (by decide)
    · cases hm

theorem covers_token {span : Span} {goal : LexicalGoal} (hs : span.Within text goal n) :
    Covers text (span.token text) :=
  ⟨span.first, span.behind, Nat.le_of_lt hs.first_lt, hs.behind_le, rfl, rfl, rfl⟩

theorem covers_endToken (text : List Char) (newline : Bool) : Covers text (endToken text newline) := by
  refine ⟨text.length, text.length, Nat.le_refl _, Nat.le_refl _, rfl, rfl, ?_⟩
  rw [Nat.sub_self, List.take_zero]
  rfl

theorem covers_of_reached (h : Reached c text n scanner₁ scanner₂ token₁ token₂) : Covers text token₁ := by
  cases h with
  | amid span hs h₁ _ _ _ => exact h₁ ▸ covers_token hs
  | atEnd _ _ h₁ _ => exact h₁ ▸ covers_endToken text _

theorem alike_of_reached (h : Reached c text n scanner₁ scanner₂ token₁ token₂) (hread : token₁.WasRead) :
    AlikeTokens (Token.Of text) (Places text) Eq (c = .sentinels) token₁ token₂ := by
  have hof : token₁.Of text := ⟨covers_of_reached h, hread⟩
  cases h with
  | amid span hs h₁ h₂ =>
    rw [h₁] at hof ⊢
    rw [h₂]
    exact ⟨⟨rfl, .inl rfl⟩, rfl, place_first hs, fun _ => rfl, malformedEscape_token hs, hof⟩
  | @atEnd newline hnewline hn h₁ h₂ =>
    rw [h₁] at hof ⊢
    rw [h₂]
    refine ⟨⟨rfl, ?_⟩, rfl, ⟨.of_end text, rfl⟩, fun _ => rfl, .none, hof⟩
    cases c with
    | limits | ample => exact .inl rfl
    | sentinels =>
      cases hline : newline false with
      | true => exact .inl ((hnewline hline).trans hline.symm)
      | false => exact .inr ⟨rfl, rfl, hline⟩

/-- A token that was read from an index of the text does not begin before it. -/
theorem offset_le_of_reached (h : Reached c text n scanner₁ scanner₂ token₁ token₂) :
    (placeAt text n).offset ≤ token₁.start.offset := by
  cases h with
  | amid span hs h₁ _ _ _ => rw [h₁]; exact offset_placeAt_le hs.le_first hs.first_le
  | atEnd _ hn h₁ _ => rw [h₁]; exact offset_placeAt_le hn (Nat.le_refl _)

/-! ## Reading -/

theorem Reached.mono {m : Nat} (h : Reached c text n scanner₁ scanner₂ token₁ token₂) (hmn : m ≤ n) :
    Reached c text m scanner₁ scanner₂ token₁ token₂ := by
  cases h with
  | amid span hs h₁ h₂ hscanner₁ hscanner₂ =>
    exact .amid span { hs with le_first := Nat.le_trans hmn hs.le_first } h₁ h₂ hscanner₁ hscanner₂
  | atEnd hnewline hn h₁ h₂ => exact .atEnd hnewline (Nat.le_trans hmn hn) h₁ h₂

theorem length_le_of_reached (h : Reached c text n scanner₁ scanner₂ token₁ token₂) : n ≤ text.length := by
  cases h with
  | amid span hs _ _ _ _ => exact Nat.le_trans hs.le_first hs.first_le
  | atEnd _ hn _ _ => exact hn

/-- The two receive what they read from the same index of the text. -/
theorem agree_receive {goal : LexicalGoal} (run : Bool → Except Fault Token × Scanner)
    (h : Scans text goal n run) (hn : n ≤ text.length)
    (hprintable : ∀ {f}, (run c.first).1 = .error f → ∃ e p, f = .lexical e p ∧ e.Printable)
    {i j : Input} {post : Input → Input → Prop}
    (hpost : ∀ scanner₁ scanner₂ token₁ token₂, (run c.first).1 = .ok token₁ →
      Reached c text n scanner₁ scanner₂ token₁ token₂ →
      post { i with scanner := scanner₁, token := token₁ } { j with scanner := scanner₂, token := token₂ }) :
    Agree (Faults c text) post (i.receive (run c.first)) (j.receive (run c.second)) := by
  cases h with
  | fails hd hline h =>
    obtain ⟨_, _, ⟨⟩, he⟩ := hprintable (h c.first)
    rw [Input.receive_of_error (h c.first), Input.receive_of_error (h c.second)]
    exact faults_self (.of_char hd hline) rfl he
  | ends newline hnewline hend h =>
    rw [Input.receive_of_ok (h c.first), Input.receive_of_ok (h c.second)]
    exact hpost _ _ _ _ (h c.first) (.atEnd hnewline hn rfl rfl)
  | reads span hs hend h =>
    rw [h c.first, h c.second]
    exact hpost _ _ _ _ (by rw [h]) (.amid span hs rfl rfl rfl rfl)

theorem agree_of_receive {fault : Fault → Fault → Prop} {tokens : Token → Token → Prop} {i j : Input}
    {r₁ r₂ : Except Fault Token × Scanner}
    (h : Agree fault (fun i j => tokens i.token j.token) (i.receive r₁) (j.receive r₂)) :
    Agree fault tokens r₁.1 r₂.1 := by
  rcases r₁ with ⟨_ | _, _⟩ <;> rcases r₂ with ⟨_ | _, _⟩ <;> exact h

variable {b : Bool} {i j : Input}

theorem Alongside.passed_consume (h : Alongside c text b i j) (he : i.token.isEnd = false) :
    Passed c text i.consume := by
  cases h.reached with
  | atEnd _ _ h₁ _ => rw [h₁] at he; cases he
  | amid span hs h₁ _ _ _ =>
    exact { h.passed with
      consumed := List.forall_mem_cons.mpr ⟨⟨he, h₁ ▸ covers_token hs⟩, h.passed.consumed⟩
      ordered := List.pairwise_cons.mpr ⟨h.behind, h.passed.ordered⟩
      current := .inr rfl }

theorem advance_alongside {goal : LexicalGoal} (h : Alongside c text b i j) (he : i.token.isEnd = false)
    (hg : goal ≠ .templateTail) :
    Agree (Faults c text) (Alongside c text (goal = .division)) (i.advance goal) (j.advance goal) := by
  cases h.reached with
  | atEnd _ _ h₁ _ => rw [h₁] at he; cases he
  | amid span hs h₁ h₂ hscanner₁ hscanner₂ =>
    have hscans := Scanner.scans goal hs.behind_le fun h => absurd h hg
    unfold Input.advance
    rw [hscanner₁, hscanner₂]
    refine agree_receive (fun sentinel => (Scanner.standing text sentinel span.behind).next goal) hscans hs.behind_le
      Scanner.printable_of_next fun scanner₁ scanner₂ token₁ token₂ hrun hreached => ?_
    have hlength : i.consumed.length + 1 ≤ span.behind := by
      have := hs.le_first
      have := hs.first_lt
      omega
    have hstart : BeginsBefore i.token token₁ := by
      refine Nat.lt_of_lt_of_le ?_ (offset_le_of_reached hreached)
      rw [h₁]
      exact offset_placeAt_lt hs.first_lt hs.behind_le
    have hbehind : ∀ t ∈ i.token :: i.consumed, BeginsBefore t token₁ :=
      List.forall_mem_cons.mpr ⟨hstart, fun t ht => Nat.lt_trans (h.behind t ht) hstart⟩
    refine ⟨hreached.mono hlength, Scanner.wasRead_of_next hrun, ?_, hbehind, fun hdivision => ?_,
      { h.passed_consume he with current := .inl hbehind, covers := covers_of_reached hreached }⟩
    · change j.token.stop = i.token.stop
      rw [h₁, h₂]
    · obtain rfl := of_decide_eq_true hdivision
      constructor
      · intro hkind
        cases hscans.regExp hrun hkind
      · change (((Scanner.ofSource _).moveTo i.token.stop).next .division).1 = .ok token₁
        rw [h₁, Span.token, Scanner.ofSource_carrying, Scanner.moveTo_placeAt _ hs.behind_le]
        exact hrun

theorem peek_alongside (h : Alongside c text b i j) (he : i.token.isEnd = false) :
    Agree (Faults c text) (AlikeKinds (c = .sentinels)) (i.scanner.next i.token.goalAfter).1
      (j.scanner.next i.token.goalAfter).1 := by
  cases h.reached with
  | atEnd _ _ h₁ _ => rw [h₁] at he; cases he
  | amid span hs h₁ h₂ hscanner₁ hscanner₂ =>
    have hscans := Scanner.scans i.token.goalAfter hs.behind_le
      fun h => absurd h (Token.goalAfter_ne_templateTail _)
    rw [hscanner₁, hscanner₂]
    exact agree_of_receive (agree_receive (i := i) (j := j) _ hscans hs.behind_le Scanner.printable_of_next
      fun _ _ _ _ hrun hreached => (alike_of_reached hreached (Scanner.wasRead_of_next hrun)).toAlikeKinds)

theorem isEnd_next_alongside {goal goal' : LexicalGoal} {t t' : Token} (h : Alongside c text b i j)
    (he : i.token.isEnd = false) (hg : goal ≠ .templateTail) (hg' : goal' ≠ .templateTail)
    (ht : (i.scanner.next goal).1 = .ok t) (ht' : (i.scanner.next goal').1 = .ok t') : t.isEnd = t'.isEnd := by
  cases h.reached with
  | atEnd _ _ h₁ _ => rw [h₁] at he; cases he
  | amid span hs h₁ h₂ hscanner₁ hscanner₂ =>
    rw [hscanner₁] at ht ht'
    rw [(Scanner.scans goal hs.behind_le fun h => absurd h hg).isEnd_eq ht hg,
      (Scanner.scans goal' hs.behind_le fun h => absurd h hg').isEnd_eq ht' hg']

/-- A token that is read again begins no earlier. -/
theorem rescan_reached {goal : LexicalGoal} {post : Input → Input → Prop}
    (h : Reached c text n i.scanner j.scanner i.token j.token) (he : i.token.isEnd = false)
    (hg : goal = .templateTail → i.token.isPunctuator .closeBrace = true)
    (hpost : ∀ scanner₁ scanner₂ token₁ token₂, Reached c text n scanner₁ scanner₂ token₁ token₂ →
      token₁.WasRead → i.token.start.offset ≤ token₁.start.offset → (goal = .regExp → isDivision token₁ = false) →
      post { i with scanner := scanner₁, token := token₁ } { j with scanner := scanner₂, token := token₂ }) :
    Agree (Faults c text) post (i.rescan goal) (j.rescan goal) := by
  cases h with
  | atEnd _ _ h₁ _ => rw [h₁] at he; cases he
  | amid span hs h₁ h₂ hscanner₁ hscanner₂ =>
    have hscans := Scanner.rescans goal span.behind (span.token text) hs.first_le rfl
      fun htail => hs.getElem?_first (Token.isPunctuator_iff.mp (h₁ ▸ hg htail)) rfl
    unfold Input.rescan
    rw [hscanner₁, hscanner₂, h₁, h₂]
    refine agree_receive (fun sentinel => (Scanner.standing text sentinel span.behind).rescan goal (span.token text))
      hscans hs.first_le Scanner.printable_of_rescan fun scanner₁ scanner₂ token₁ token₂ hrun hreached => ?_
    refine hpost _ _ _ _ (hreached.mono hs.le_first) (Scanner.wasRead_of_rescan hrun) ?_ fun hgoal => ?_
    · rw [h₁]
      exact offset_le_of_reached hreached
    · subst hgoal
      exact isDivision_eq_false_iff.mpr (hscans.not_division hrun)

/-- Reading a token again does not change what was read before it. -/
theorem rescan_alongside {goal : LexicalGoal} {post : Input → Input → Prop} (h : Alongside c text b i j)
    (he : i.token.isEnd = false) (hg : goal = .templateTail → i.token.isPunctuator .closeBrace = true)
    (hpost : ∀ i' j', Alongside c text false i' j' → (goal = .regExp → isDivision i'.token = false) → post i' j') :
    Agree (Faults c text) post (i.rescan goal) (j.rescan goal) :=
  rescan_reached h.reached he hg fun scanner₁ scanner₂ token₁ token₂ hreached hread hstart =>
    have hbehind : ∀ t ∈ i.consumed, BeginsBefore t token₁ := fun t ht => Nat.lt_of_lt_of_le (h.behind t ht) hstart
    hpost { i with scanner := scanner₁, token := token₁ } { j with scanner := scanner₂, token := token₂ }
      ⟨hreached, hread, h.previousEnd, hbehind, nofun,
        { h.passed with current := .inl hbehind, covers := covers_of_reached hreached }⟩

/-! ## Progress -/

/-- A recognition that consumes a token consumes the current one, perhaps after reading it again. -/
theorem exists_consumed_of_leads {i i' : Input} {ok : Bool} (h : i.Leads ok i')
    (hi : Reached c text n i.scanner scanner₂ i.token token₂) (hpassed : ∀ t ∈ i'.consumed, t.isEnd = false)
    (hlt : i.consumed.length < i'.consumed.length) :
    i.token.isEnd = false ∧ ∃ t ∈ i'.consumed, i.token.start.offset ≤ t.start.offset := by
  induction h generalizing scanner₂ token₂ with
  | done | fails => exact absurd hlt (Nat.lt_irrefl _)
  | @misreads i =>
    exact ⟨hpassed i.token List.mem_cons_self, i.token, List.mem_cons_self, Nat.le_refl _⟩
  | @advance i i₁ i' ok goal hgoal h hj ih =>
    have hmem : i.token ∈ i'.consumed := by
      have hsuffix := hj.consumed_suffix
      rw [(Input.eq_of_receive h).2] at hsuffix
      exact hsuffix.subset List.mem_cons_self
    exact ⟨hpassed _ hmem, i.token, hmem, Nat.le_refl _⟩
  | @rescan i i₁ i' ok goal hgoal h hj ih =>
    have he : i.token.isEnd = false := by
      cases hgoal with
      | regExp hdivision => exact isEnd_of_isDivision hdivision
      | template hbrace => exact Token.isEnd_of_isPunctuator hbrace
    have hagree : Agree (Faults c text) (fun i' j' => Reached c text n i'.scanner j'.scanner i'.token j'.token ∧
        i.token.start.offset ≤ i'.token.start.offset) (i.rescan goal)
        (Input.rescan goal { i with scanner := scanner₂, token := token₂ }) :=
      rescan_reached hi he (fun htail => by
        cases hgoal with
        | regExp => cases htail
        | template hbrace => exact hbrace) fun _ _ _ _ hreached _ hstart _ => ⟨hreached, hstart⟩
    rw [h] at hagree
    have hlength : i₁.consumed = i.consumed := by rw [(Input.eq_of_receive h).2]
    cases hr : Input.rescan goal { i with scanner := scanner₂, token := token₂ } with
    | error => rw [hr] at hagree; exact hagree.elim
    | ok j₁ =>
      rw [hr] at hagree
      obtain ⟨_, t, ht, hstart⟩ := ih hagree.1 hpassed (by rw [hlength]; exact hlt)
      exact ⟨he, t, ht, Nat.le_trans hagree.2 hstart⟩
  | noteOmission _ ih | noteStart _ ih | noteEnd _ ih | noteTurn _ _ ih => exact ih hi hpassed hlt

/-- A turn that consumes a token gets on. -/
theorem Alongside.noteTurn {b' : Bool} {i' j' : Input} (h : Alongside c text b i j) (h' : Alongside c text b' i' j')
    (hleads : i.Leads true i') (hlt : i.consumed.length < i'.consumed.length) :
    Alongside c text b' (i'.noteTurn i.token) (j'.noteTurn j.token) := by
  obtain ⟨he, t, ht, hstart⟩ :=
    exists_consumed_of_leads hleads h.reached (fun t ht => (h'.passed.consumed t ht).1) hlt
  exact { h' with passed := { h'.passed with
    repeated := List.forall_mem_cons.mpr ⟨⟨he, Nat.lt_of_le_of_lt hstart (h'.behind t ht)⟩, h'.passed.repeated⟩ } }

variable (c text)

/-- The two recognitions run in lockstep. -/
def simulation : Simulation where
  known := Token.Of text
  place := Places text
  stop := Eq
  breaks := c = .sentinels
  fault := Faults c text
  cut f := f.In text ∧ c.Cuts f
  finish _ _ := True
  input := Alongside c text
  history := Passed c text
  turns₁ := (Source.carrying text c.first).text.length + 2
  turns₂ := (Source.carrying text c.second).text.length + 2
  fault_of_cut h := ⟨h.1, tells_of_cuts h.2⟩
  fault_of_place he h := by rw [h.2]; exact faults_self h.1 rfl (.inl he)
  fault_of_token h he := by rw [h.start.2]; exact faults_self h.start.1 rfl (.inr ⟨_, h.known, rfl, he⟩)
  fault_of_escape h := by rw [h.2]; exact faults_self h.1 rfl nofun
  fault_of_throw := by
    rintro f g p q rfl hp rfl hfault
    exact ⟨hfault.1, .inr (by rw [hp.2])⟩
  offset_eq_iff := @offset_eq_iff_of_eq
  weaken h := { h with ended := nofun }
  token_of_input h := alike_of_reached h.reached h.wasRead
  stop_of_input h := h.previousEnd.symm
  history_of_input _ h := { h.passed with }
  history_of_consume _ h he := { h.passed_consume he with }
  turns_of_input h := by
    have hlength := length_le_of_reached h.reached
    have hsource (sentinel : Bool) : text.length ≤ (Source.carrying text sentinel).text.length := by
      cases sentinel
      · exact Nat.le_refl _
      · exact List.length_append ▸ Nat.le_add_right _ _
    have hfirst := hsource c.first
    have hsecond := hsource c.second
    omega
  advance h he hg _ := .of_agree (advance_alongside h he hg)
  peek h hname _ := .of_agree (peek_alongside h (Token.isEnd_of_isName hname))
  isEnd_next_eq := isEnd_next_alongside
  rescanRegExp h hd _ := .of_agree (rescan_alongside h (isEnd_of_isDivision hd) nofun fun _ _ h hd => ⟨h, hd rfl⟩)
  rescanTemplate h hp _ :=
    .of_agree (rescan_alongside h (Token.isEnd_of_isPunctuator hp) (fun _ => hp) fun _ _ h _ => h)
  noteOmission h := { h with ended := nofun, passed := { h.passed with } }
  noteStart h hd := { h with passed := { h.passed with starts := List.forall_mem_cons.mpr ⟨hd, h.passed.starts⟩ } }
  noteEnd h := { h with passed := { h.passed with ends := List.forall_mem_cons.mpr ⟨h.ended rfl, h.passed.ends⟩ } }
  noteTurn := Alongside.noteTurn

variable {c text}

/-! ## Runs -/

/-- Limits for which the comparison is meant: the second limit is higher than the first by the difference. -/
def Admits (c : Comparison) (text : List Char) (limit difference : Nat) : Prop :=
  match c with
  | limits _ => True
  | sentinels => difference = 0
  | ample _ => 3 * (text.length + 1) ≤ limit

/-- What is found of the two texts. -/
def Finds (c : Comparison) (text : List Char) : Option Fault → Option Fault → Prop
  | none, none => True
  | some f, some g => Faults c text f g
  | some f, none => f.In text ∧ c.Cuts f
  | none, some _ => False

/-- Where the first has no level left, the two correspond. -/
theorem derives_zero {limit difference : Nat} (h : c.Admits text limit difference) :
    (simulation c text).Derives limit (derive 0) (derive difference) where
  production p {b k s₁ s₂} hs hk _ := by
    have hplace := hs.tokens.start
    have hhistory := hs.history
    change (simulation c text).Outcome _ (.error (.tooDeep s₁.depth s₁.token.start) s₁) (derive difference p s₂)
    cases c with
    | limits =>
      cases derive difference p s₂ with
      | ok => exact fun _ => ⟨⟨⟨hplace.1, nofun, trivial⟩, rfl⟩, hhistory⟩
      | error => exact .error ⟨⟨hplace.1, nofun, trivial⟩, .inr rfl⟩ hhistory
    | sentinels =>
      obtain rfl : difference = 0 := h
      refine .error ⟨⟨hplace.1, nofun, trivial⟩, .inl ?_⟩ hhistory
      rw [hs.depth₁, hs.depth₂, hplace.2]
    | ample =>
      -- the tokens consumed do not earn that many levels
      have hcredit := hs.credit
      have hearned : s₁.input.earned ≤ 2 * s₁.consumed.length := s₁.input.earned_le
      have hlength : s₁.consumed.length ≤ text.length := length_le_of_reached hs.input.reached
      have hrank := p.rank_pos
      have hlimit : 3 * (text.length + 1) ≤ limit := h
      omega
  atEnd allowIn s h := ⟨_, _, rfl, rfl⟩
  opensFunction := .of_error rfl

theorem start_outcome (isModule : Bool) :
    (simulation c text).Outcome (fun _ _ => (simulation c text).At false 0 3)
      (start (.initial isModule (.carrying text c.first))) (start (.initial isModule (.carrying text c.second))) := by
  have hpassed : Passed c text (State.initial isModule (.carrying text c.first)).input :=
    ⟨List.forall_mem_nil _, .nil, .inl (List.forall_mem_nil _),
      ⟨0, 0, Nat.le_refl 0, Nat.zero_le _, (placeAt_zero text).symm, (placeAt_zero text).symm, rfl⟩,
      List.forall_mem_nil _, List.forall_mem_nil _, List.forall_mem_nil _⟩
  have hscans := Scanner.scans .regExp (Nat.zero_le text.length) nofun
  simp only [← Scanner.ofSource_carrying] at hscans
  have hagree : Agree (Faults c text) (Alongside c text false)
      ((State.initial isModule (.carrying text c.first)).input.receive
        ((Scanner.ofSource (.carrying text c.first)).next .regExp))
      ((State.initial isModule (.carrying text c.second)).input.receive
        ((Scanner.ofSource (.carrying text c.second)).next .regExp)) :=
    agree_receive (fun sentinel => (Scanner.ofSource (.carrying text sentinel)).next .regExp) hscans (Nat.zero_le _)
      Scanner.printable_of_next fun _ _ _ _ hrun hreached =>
        ⟨hreached, Scanner.wasRead_of_next hrun, rfl, List.forall_mem_nil _, nofun,
          { hpassed with current := .inl (List.forall_mem_nil _), covers := covers_of_reached hreached }⟩
  refine Simulation.At.receive (fun _ => { hpassed with }) (fun _ => .of_agree hagree) fun _ _ _ _ h => ?_
  exact ⟨h, rfl, rfl, rfl, rfl, Nat.le_refl 0, rfl, rfl, rfl, rfl, rfl, Nat.le_refl 3⟩

/-- A comparison leaves nothing out of account. -/
theorem corresponds_of_outcome {α : Type} {post : α → α → State → State → Prop}
    {r₁ r₂ : EStateM.Result Fault State α} (h : (simulation c text).Outcome post r₁ r₂) :
    (simulation c text).Corresponds post r₁ r₂ := by
  refine h ?_
  cases r₁ with
  | ok _ t => exact ⟨true, t.input, .done _, trivial⟩
  | error => trivial

theorem run_corresponds (c : Comparison) (text : List Char) (isModule : Bool) (limit difference : Nat)
    (h : c.Admits text limit difference) :
    (simulation c text).Corresponds (fun _ _ => (simulation c text).At false 0 3)
      (run isModule limit (.carrying text c.first)) (run isModule (limit + difference) (.carrying text c.second)) :=
  corresponds_of_outcome (Simulation.program_outcome
    (Simulation.derives_derive (derives_zero h) (Nat.zero_add limit)) (start_outcome isModule))

/-- The two find corresponding faults. -/
theorem finds (c : Comparison) (text : List Char) (isModule : Bool) (limit difference : Nat)
    (h : c.Admits text limit difference) :
    c.Finds text (fault? isModule limit (.carrying text c.first))
      (fault? isModule (limit + difference) (.carrying text c.second)) := by
  have hrun := run_corresponds c text isModule limit difference h
  unfold fault?
  rcases h₁ : run isModule limit (.carrying text c.first) with ⟨_, t₁⟩ | ⟨f, t₁⟩ <;>
    rcases h₂ : run isModule (limit + difference) (.carrying text c.second) with ⟨_, t₂⟩ | ⟨g, t₂⟩ <;>
    rw [h₁, h₂] at hrun
  · trivial
  · exact hrun
  · exact hrun.1
  · exact hrun.1

end Comparison

end Grammar

end EcmaCheck
