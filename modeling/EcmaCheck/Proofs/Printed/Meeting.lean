import EcmaCheck.Proofs.Printed.Program

/-!
# Tokens in a row

A slash is only read as an operator where an operand has just ended, so it is not read under every goal as the other
lexemes are. Where each token is read under the goal that the one before it implies, a state meets tokens of certain
kinds in a row (`State.Meets`). A text that separates its lexemes by spaces is met so if every slash in it is behind an
operand (`readable_meets`).
-/

namespace EcmaCheck

open Lexical

/-! ## Lexemes between spaces -/

/-- The lexemes with a space between each and the next. -/
def spaced : List Lexeme → List Char
  | [] => []
  | [l] => l.spelling
  | l :: ls => l.spelling ++ ' ' :: spaced ls

/-- Whether the lexeme is read under the goal before a space. -/
def Lexeme.isReadable (goal : LexicalGoal) : Lexeme → Bool
  | .punctuator .slash => goal = .division
  | .punctuator .slashAssign => false
  | _ => true

/-- The goal that a token of the kind implies for the next one. -/
def TokenKind.goalAfter (kind : TokenKind) : LexicalGoal :=
  (⟨kind, .start, .start, "", false⟩ : Token).goalAfter

theorem Token.goalAfter_of_kind {t : Token} {kind : TokenKind} (h : t.kind = kind) : t.goalAfter = kind.goalAfter := by
  subst h
  rfl

/-- Whether the lexemes are read one after the other, the first under the goal. -/
def readable : LexicalGoal → List Lexeme → Bool
  | _, [] => true
  | goal, l :: ls => l.isReadable goal && readable l.kind.goalAfter ls

theorem spaced_cons (l : Lexeme) (ls : List Lexeme) :
    ∃ c rest, (c = ' ' ∨ c = '\n') ∧ spaced (l :: ls) ++ ['\n'] = l.spelling ++ c :: rest ∧
      ∃ n, c :: rest = List.replicate n ' ' ++ (spaced ls ++ ['\n']) := by
  cases ls with
  | nil => exact ⟨'\n', [], .inr rfl, rfl, 0, rfl⟩
  | cons next ls =>
    refine ⟨' ', spaced (next :: ls) ++ ['\n'], .inl rfl, ?_, 1, rfl⟩
    rw [spaced, List.append_assoc, List.cons_append]
    exact nofun

/-- A lexeme that is read under the goal is read behind spaces and before one. -/
theorem Scanner.next_readable {s : Scanner} {l : Lexeme} {goal : LexicalGoal} {n : Nat} {c : Char} {rest : List Char}
    (hsentinel : s.source.sentinel = true) (hgoal : goal ≠ .templateTail) (hl : l.isReadable goal = true)
    (hc : c = ' ' ∨ c = '\n') (hrest : s.rest = List.replicate n ' ' ++ (l.spelling ++ c :: rest)) :
    ∃ start stop after, after.source = s.source ∧ after.rest = c :: rest ∧
      s.next goal = (.ok ⟨l.kind, start, stop, String.ofList l.spelling, false⟩, after) := by
  have hread : s.skipGap goal = ⟨n, .ok false⟩ ∧ l.spelling ≠ [] ∧
      element true goal (l.spelling ++ c :: rest) = ⟨l.spelling.length, .ok l.kind⟩ := by
    rw [skipGap, if_neg hgoal, hrest]
    by_cases hslash : l = .punctuator .slash
    · subst hslash
      obtain rfl : goal = .division := of_decide_eq_true hl
      have hsign : ((Lexeme.punctuator .slash).spelling ++ c :: rest).head? ≠ some '#' := by
        simp [Lexeme.spelling, Punctuator.spelling]
      refine ⟨gap_spaces _ (fun length => ?_) hsign n, List.cons_ne_nil _ _, ?_⟩
      · obtain rfl | rfl := hc <;> exact gapFrom_slash
      · obtain rfl | rfl := hc <;> rfl
    · have hprecedes : l.precedes .space = true := by
        cases l with
        | punctuator p => cases p <;> first | rfl | cases hl | exact absurd rfl hslash
        | word | literal => rfl
      obtain ⟨d, more, hd, hopens⟩ := l.first hprecedes
      refine ⟨?_, ?_, l.readsBefore_gap hprecedes hc rest goal hgoal⟩
      · rw [hd, List.cons_append]
        exact gap_opens _ hopens n _
      · rw [hd]
        exact List.cons_ne_nil d more
  obtain ⟨hgap, hspelling, helement⟩ := hread
  have hbefore : (s.advance n).rest = l.spelling ++ c :: rest := by
    rw [rest_advance, hrest, List.drop_left' List.length_replicate]
  refine ⟨(s.advance n).position, ((s.advance n).advance l.spelling.length).position,
    (s.advance n).advance l.spelling.length, ?_, ?_, ?_⟩
  · rw [source_advance, source_advance]
  · rw [rest_advance, hbefore, List.drop_left]
  · have hne : (s.advance n).rest ≠ [] := by
      rw [hbefore]
      exact List.append_ne_nil_of_left_ne_nil hspelling _
    rw [next_token hgap hne (by rw [hbefore, hsentinel]; exact helement), hbefore, List.take_left]

namespace Grammar

variable {α β : Type} {s t : State} {k : TokenKind} {ks : List TokenKind}

/-! ## Meeting tokens -/

/-- The current token and those behind it are of the kinds, each of them read under the goal that the one before it
implies, and no line ends between them. -/
def State.Meets : State → List TokenKind → Prop
  | s, [] => s.token.kind = .endOfInput
  | s, k :: ks => s.token.kind = k ∧ s.token.newlineBefore = false ∧ ∃ token scanner,
      s.scanner.next s.token.goalAfter = (.ok token, scanner) ∧
        ∀ t : State, t.token = token → t.scanner = scanner → t.Meets ks

namespace State.Meets

theorem kind (h : s.Meets (k :: ks)) : s.token.kind = k :=
  h.1

/-- Only the token and the scanner matter. -/
theorem of_eq (h : s.Meets ks) (htoken : t.token = s.token) (hscanner : t.scanner = s.scanner) : t.Meets ks := by
  cases ks with
  | nil =>
    change t.token.kind = .endOfInput
    rw [htoken]
    exact h
  | cons k ks =>
    unfold State.Meets at h ⊢
    rw [htoken, hscanner]
    exact h

end State.Meets

/-- The kind of the current token, where nothing is left to meet the end of the text. -/
theorem State.Meets.kind_eq (h : s.Meets ks) : s.token.kind = ks.head?.getD .endOfInput := by
  cases ks with
  | nil => exact h
  | cons => exact h.kind

theorem advance_meets (h : s.Meets (k :: ks)) : ∃ t, advance s = .ok () t ∧ s.Agrees t ∧ t.Meets ks := by
  obtain ⟨_, _, token, scanner, hnext, hmeets⟩ := h
  refine ⟨{ s with consumed := s.token :: s.consumed, scanner, token }, ?_, ⟨rfl, rfl⟩, hmeets _ rfl rfl⟩
  unfold advance
  rw [token_bind]
  unfold advanceWith
  rw [hnext]
  rfl

theorem peek_meets (h : s.Meets (k :: ks)) : ∃ token, peek s = .ok token s ∧
    token.kind = ks.head?.getD .endOfInput := by
  obtain ⟨_, _, token, scanner, hnext, hmeets⟩ := h
  refine ⟨token, ?_, ?_⟩
  · unfold peek
    rw [hnext]
  · exact (hmeets { s with token, scanner } rfl rfl).kind_eq

/-- Lexemes that are read one after the other are met. -/
theorem readable_meets {ls : List Lexeme} {scanner : Scanner} {goal : LexicalGoal} {n : Nat}
    (hsentinel : scanner.source.sentinel = true) (hgoal : goal ≠ .templateTail) (hls : readable goal ls = true)
    (hrest : scanner.rest = List.replicate n ' ' ++ (spaced ls ++ ['\n'])) : ∃ token after,
      scanner.next goal = (.ok token, after) ∧
        ∀ t : State, t.token = token → t.scanner = after → t.Meets (ls.map Lexeme.kind) := by
  induction ls generalizing scanner goal n with
  | nil =>
    obtain ⟨place, newline, after, _, hnext⟩ := Spells.next_end (s := scanner) (hrest ▸ spells_spaces n)
    refine ⟨_, after, hnext goal hgoal, ?_⟩
    intro t htoken _
    change t.token.kind = .endOfInput
    rw [htoken]
  | cons l ls ih =>
    obtain ⟨hl, hls⟩ := (Bool.and_eq_true _ _).mp hls
    obtain ⟨c, rest, hc, htext, m, hrest'⟩ := spaced_cons l ls
    rw [htext] at hrest
    obtain ⟨start, stop, after, hsource, hafter, hnext⟩ := Scanner.next_readable hsentinel hgoal hl hc hrest
    refine ⟨_, after, hnext, fun t htoken hscanner => ?_⟩
    have hsentinel' : after.source.sentinel = true := hsource ▸ hsentinel
    obtain ⟨token, scanner', hnext', hmeets⟩ := ih hsentinel'
      (goalAfter_ne_templateTail ⟨l.kind, .start, .start, "", false⟩) hls (hafter.trans hrest')
    have hkind : t.token.kind = l.kind := by rw [htoken]
    refine ⟨hkind, by rw [htoken], token, scanner', ?_, hmeets⟩
    rw [hscanner, Token.goalAfter_of_kind hkind]
    exact hnext'

/-! ## Deciding what is met -/

/-- A state that meets the kinds in the surroundings of another. -/
structure State.Arrives (s t : State) (ks : List TokenKind) : Prop extends s.Agrees t where
  meets : t.Meets ks

/-- A recognition that began in `s` decided whether the tokens are valid. If so, it gave a result of which `holds` says
more, and meets the kinds `ks`. -/
def Settled (s : State) (valid : Prop) (ks : List TokenKind) (holds : α → Prop) : EStateM.Result Fault State α → Prop :=
  Concluded valid fun a t => s.Arrives t ks ∧ holds a

theorem State.Meets.arrives (h : s.Meets ks) : s.Arrives s ks :=
  ⟨.refl s, h⟩

theorem State.Arrives.of_agrees {u : State} (ht : s.Agrees t) (hu : t.Arrives u ks) : s.Arrives u ks :=
  ⟨ht.trans hu.toAgrees, hu.meets⟩

theorem State.Arrives.ended (h : s.Arrives t ks) : s.Arrives t.ended ks :=
  ⟨⟨h.surroundings, h.isModule⟩, h.meets.of_eq rfl rfl⟩

/-- Where what is behind an operand may follow one, it ends there. -/
theorem endsBefore_arrives {R : Summary → Prop} (h : ∀ token : Token, token.kind = ks.head?.getD .endOfInput →
    StopsOperand token) : EndsBefore fun e t => s.Arrives t ks ∧ R e where
  stops _ t ht := h t.token ht.1.meets.kind_eq
  ended _ _ ht := ⟨ht.1.ended, ht.2⟩

namespace Settled

variable {v w : Prop} {ks ms : List TokenKind} {R : α → Prop} {S : β → Prop} {x : Recognizer α} {f : α → Recognizer β}

/-- What is decided of a state is decided of one that leads to it. -/
theorem of_agrees {r : EStateM.Result Fault State α} (ht : s.Agrees t) (h : Settled t v ks R r) : Settled s v ks R r :=
  Concluded.imp h fun _ _ _ ha => ⟨.of_agrees ht ha.1, ha.2⟩

protected theorem bind (ht : s.Agrees t) (hx : Settled t v ks R (x t))
    (hf : ∀ a u, v → s.Arrives u ks → R a → Settled s w ms S (f a u)) : Settled s (v ∧ w) ms S ((x >>= f) t) :=
  Concluded.bind hx fun a u hv ha => hf a u hv (.of_agrees ht ha.1) ha.2

/-- What follows is valid in any case. -/
theorem andThen (ht : s.Agrees t) (hx : Settled t v ks R (x t))
    (hf : ∀ a u, v → s.Arrives u ks → R a → Settled s True ms S (f a u)) : Settled s v ms S ((x >>= f) t) :=
  (Settled.bind ht hx hf).iff (iff_of_eq (and_true v))

/-- The next turn is the last and decides something. -/
theorem finish {turn : α → Recognizer (Turn α β)} {a : α}
    (hturn : Settled s w ks (fun r => ∃ b, r = .done b ∧ S b) (turn a s)) (n : Nat) :
    Settled s w ks S (repeatTurns turn n a s) := by
  cases n with
  | zero => exact Concluded.noTurn
  | succ n =>
    refine (Settled.bind (.refl s) hturn fun r u _ hu hr => ?_).iff (iff_of_eq (and_true w))
    obtain ⟨b, rfl, hb⟩ := hr
    exact ⟨trivial, hu, hb⟩

/-- The current token comes first. -/
theorem advance {k : TokenKind} {f : Unit → Recognizer β} (ht : s.Arrives t (k :: ks))
    (hf : ∀ u, s.Arrives u ks → Settled s w ms S (f () u)) : Settled s w ms S ((Grammar.advance >>= f) t) := by
  obtain ⟨u, hu, hagrees, hmeets⟩ := advance_meets ht.meets
  rw [bind_of_ok hu]
  exact hf u ⟨ht.toAgrees.trans hagrees, hmeets⟩

/-- The punctuator comes first. -/
theorem expect {p : Punctuator} {f : Unit → Recognizer β} (ht : s.Arrives t (.punctuator p :: ks))
    (hf : ∀ u, s.Arrives u ks → Settled s w ms S (f () u)) : Settled s w ms S ((Grammar.expect p >>= f) t) := by
  obtain ⟨u, hu, hagrees, hmeets⟩ := advance_meets ht.meets
  have hat : t.token.isPunctuator p = true := (isPunctuator_of_kind ht.meets.kind p).trans (decide_eq_true rfl)
  have hexpect : Grammar.expect p t = .ok () u := (congrFun (if_pos hat) t).trans hu
  rw [bind_of_ok hexpect]
  exact hf u ⟨ht.toAgrees.trans hagrees, hmeets⟩

end Settled

end Grammar

end EcmaCheck
