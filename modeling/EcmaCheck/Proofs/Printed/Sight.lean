import EcmaCheck.Proofs.Printed.Statement

/-!
# Braces that are read twice

The brace that closes a substitution is read as a punctuator first, and again as the start of a template span once the
grammar is back in the template. So what is printed around substitutions is no row of lexemes: a text shows sights
(`Shows`), which are tokens and such braces. A state sees them one after the other (`State.Sees`), and a recognition
passes what it reads if it sees the rest afterwards, unless a limit cuts it off (`Passes`).
-/

namespace EcmaCheck

open Lexical

/-! ## Template text -/

/-- Template text without escapes that ends where it seems to end. -/
structure Chunk where
  text : List Char
  noBacktick : '\x60' ∉ text
  noBackslash : '\\' ∉ text
  noSubstitution : ¬ ['$', '{'] <:+: text

/-- The span of a template with the text; `opening` tells whether the template begins with it, `last` whether it ends
with it. -/
def Chunk.span (opening last : Bool) (chunk : Chunk) : List Char :=
  (if opening then '\x60' else '}') :: (chunk.text ++ if last then ['\x60'] else ['$', '{'])

namespace Lexical

/-- Plain template text is read to its end. -/
theorem templateFrom_plain {sentinel opening l : Bool} {text : List Char} (hbacktick : '\x60' ∉ text)
    (hbackslash : '\\' ∉ text) (hsubstitution : ¬ ['$', '{'] <:+: text) (length : Nat) (rest : List Char) :
    templateFrom sentinel opening none length ((text ++ if l then ['\x60'] else ['$', '{']) ++ rest) =
      ⟨length + (text ++ if l then ['\x60'] else ['$', '{']).length,
        .ok (.template (templatePart opening l) none)⟩ := by
  induction text generalizing length with
  | nil => cases l <;> simp [templateFrom]
  | cons c text ih =>
    obtain ⟨hc, hbacktick⟩ := not_or.mp (mt List.mem_cons.mpr hbacktick)
    obtain ⟨hslash, hbackslash⟩ := not_or.mp (mt List.mem_cons.mpr hbackslash)
    have htail : ¬ ['$', '{'] <:+: text := fun h => hsubstitution (h.trans (List.suffix_cons c text).isInfix)
    -- a dollar sign at the end of the text is followed by the end of the span
    have hopen : ¬ (decide (c = '$') && decide
        (((text ++ if l then ['\x60'] else ['$', '{']) ++ rest).head? = some '{')) = true := by
      intro h
      obtain ⟨hdollar, hbrace⟩ := (Bool.and_eq_true _ _).mp h
      obtain rfl := of_decide_eq_true hdollar
      have hbrace := of_decide_eq_true hbrace
      cases text with
      | nil => cases l <;> cases hbrace
      | cons d text =>
        obtain rfl : d = '{' := Option.some.inj hbrace
        exact hsubstitution ⟨[], text, rfl⟩
    rw [List.cons_append, List.cons_append, templateFrom, if_neg (Ne.symm hc), if_neg hopen, if_neg (Ne.symm hslash),
      ih hbacktick hbackslash htail, List.length_cons, Nat.add_assoc, Nat.add_comm 1]

/-- A span is read where template text begins or goes on. -/
theorem element_span (sentinel opening last : Bool) {goal : LexicalGoal} (chunk : Chunk)
    (hgoal : opening = false → goal = .templateTail) (rest : List Char) :
    element sentinel goal (chunk.span opening last ++ rest) =
      ⟨(chunk.span opening last).length, .ok (.template (templatePart opening last) none)⟩ := by
  have hplain : templateFrom sentinel opening none 1 _ = _ :=
    templateFrom_plain (l := last) chunk.noBacktick chunk.noBackslash chunk.noSubstitution 1 rest
  unfold Chunk.span
  rw [List.length_cons, Nat.add_comm, ← hplain]
  cases opening with
  | true => rfl
  | false =>
    obtain rfl := hgoal rfl
    rfl

end Lexical

/-! ## Sights -/

/-- What comes next in a text. -/
inductive Sight where
  /-- A token of the kind. -/
  | token (kind : TokenKind)
  /-- A brace that is read again, as what comes after it. -/
  | resumption
  deriving DecidableEq

/-- The kind of the token that is consumed. -/
def Sight.kind? : Sight → Option TokenKind
  | token kind => some kind
  | resumption => none

/-- The kinds of the tokens that are consumed. -/
def tokenKinds (sights : List Sight) : List TokenKind :=
  sights.filterMap Sight.kind?

/-- The kind of the token that is read first. -/
def firstKind : List Sight → TokenKind
  | [] => .endOfInput
  | .token kind :: _ => kind
  | .resumption :: _ => .punctuator .closeBrace

/-- What is seen of a span. -/
def spanSights (opening last : Bool) : List Sight :=
  (if opening then [] else [.resumption]) ++ [.token (.template (templatePart opening last) none)]

/-- The text with its sentinel shows the sights, with spaces before them. -/
inductive Shows : List Sight → List Char → Prop
  | done (spaces : Nat) : Shows [] (List.replicate spaces ' ' ++ ['\n'])
  | lexeme (spaces : Nat) {l : Lexeme} {sights : List Sight} {rest : List Char} :
      l.spelling.head?.any opensToken = true → l.ReadsBefore rest → Shows sights rest →
      Shows (.token l.kind :: sights) (List.replicate spaces ' ' ++ (l.spelling ++ rest))
  | span (spaces : Nat) (opening last : Bool) (chunk : Chunk) {sights : List Sight} {rest : List Char} :
      Shows sights rest →
      Shows (spanSights opening last ++ sights) (List.replicate spaces ' ' ++ (chunk.span opening last ++ rest))

namespace Shows

variable {sights : List Sight} {rest : List Char}

theorem space (h : Shows sights rest) : Shows sights (' ' :: rest) := by
  cases h with
  | done spaces => exact .done (spaces + 1)
  | lexeme spaces hfirst hreads h => exact .lexeme (spaces + 1) hfirst hreads h
  | span spaces opening last chunk h => exact .span (spaces + 1) opening last chunk h

theorem ne_nil (h : Shows sights rest) : rest ≠ [] := by
  cases h with
  | done => simp
  | lexeme spaces hfirst =>
    intro hnil
    obtain ⟨_, hnil⟩ := List.append_eq_nil_iff.mp hnil
    rw [(List.append_eq_nil_iff.mp hnil).1] at hfirst
    cases hfirst
  | span spaces opening last chunk => simp [Chunk.span]

end Shows

/-! ### Pieces -/

/-- Whether every lexeme can be told from what is printed next, also from what follows the pieces. -/
def isClosed : List Piece → Bool
  | [] => true
  | .space :: ps => isClosed ps
  | [.lexeme (.punctuator p)] => p.isWhole
  | [.lexeme _] => false
  | .lexeme l :: q :: ps => l.precedes q && isClosed (q :: ps)

/-- What is seen of pieces. -/
def pieceSights (ps : List Piece) : List Sight :=
  (lexemes ps).map (.token ·.kind)

theorem shows_printed {ps : List Piece} (hclosed : isClosed ps = true) {sights : List Sight} {rest : List Char}
    (h : Shows sights rest) : Shows (pieceSights ps ++ sights) (printed ps ++ rest) := by
  fun_induction isClosed ps with
  | case1 => exact h
  | case2 ps ih => exact (ih hclosed).space
  | case3 p =>
    have hfirst : p.spelling.head?.any opensToken = true := by
      cases p <;> first
        | rfl
        | cases hclosed
    have htext : printed [.lexeme (.punctuator p)] ++ rest = p.spelling ++ rest :=
      congrArg (· ++ rest) (List.append_nil p.spelling)
    rw [htext]
    exact .lexeme (l := .punctuator p) 0 hfirst (reads_whole hclosed rest) h
  | case4 l => cases hclosed
  | case5 l q ps ih =>
    obtain ⟨hl, hps⟩ := (Bool.and_eq_true _ _).mp hclosed
    obtain ⟨c, more, hc, hopens⟩ := l.first hl
    have hreads : l.ReadsBefore (printed (q :: ps) ++ rest) := by
      change l.ReadsBefore (q.text ++ printed ps ++ rest)
      rw [List.append_assoc]
      exact l.readsBefore_piece hl _
    have htext : printed (.lexeme l :: q :: ps) ++ rest = l.spelling ++ (printed (q :: ps) ++ rest) :=
      List.append_assoc _ _ _
    rw [htext]
    exact .lexeme 0 (by rw [hc]; exact hopens) hreads (ih hps)

/-! ### Reading -/

namespace Scanner

variable {text spelling rest : List Char} {n m : Nat}

/-- What is read behind a gap leaves the scanner before the rest. -/
theorem next_spelled {goal : LexicalGoal} {kind : TokenKind}
    (htext : (standing text true (n + m)).rest = spelling ++ rest) (hm : n + m ≤ text.length)
    (hspelling : spelling ≠ []) (hrest : rest ≠ [])
    (hgap : (standing text true n).skipGap goal = ⟨m, .ok false⟩)
    (helement : element true goal (spelling ++ rest) = ⟨spelling.length, .ok kind⟩) :
    (standing text true n).next goal = (.ok (Span.token text ⟨kind, n + m, n + m + spelling.length, false⟩),
      standing text true (n + m + spelling.length)) ∧
    (standing text true (n + m + spelling.length)).rest = rest ∧ n + m + spelling.length ≤ text.length := by
  have hlength := congrArg List.length htext
  rw [rest_standing_true hm] at hlength
  simp only [List.length_append, List.length_drop, List.length_singleton] at hlength
  have hpos : 0 < spelling.length := List.length_pos_iff.mpr hspelling
  have hrestpos : 0 < rest.length := List.length_pos_iff.mpr hrest
  refine ⟨next_element hgap (by omega) (by rw [htext]; exact helement) (by omega), ?_, by omega⟩
  have hdrop : (spelling ++ rest).drop spelling.length = rest := List.drop_left
  rw [← hdrop, ← htext]
  exact (List.drop_drop ..).symm

/-- Behind spaces the text goes on. -/
theorem rest_behind_spaces (hn : n ≤ text.length) (hrest : rest ≠ [])
    (htext : (standing text true n).rest = List.replicate m ' ' ++ rest) :
    (standing text true (n + m)).rest = rest ∧ n + m ≤ text.length := by
  have hlength := congrArg List.length htext
  rw [rest_standing_true hn] at hlength
  simp only [List.length_append, List.length_drop, List.length_singleton, List.length_replicate] at hlength
  have hrestpos : 0 < rest.length := List.length_pos_iff.mpr hrest
  refine ⟨?_, by omega⟩
  have hdrop : (List.replicate m ' ' ++ rest).drop m = rest := List.drop_left' List.length_replicate
  rw [← hdrop, ← htext]
  exact (List.drop_drop ..).symm

/-- What begins a token is read behind spaces, whatever is expected. -/
theorem next_behind_spaces {kind : TokenKind} (hn : n ≤ text.length) (hrest : rest ≠ [])
    (htext : (standing text true n).rest = List.replicate m ' ' ++ (spelling ++ rest))
    (hfirst : spelling.head?.any opensToken = true)
    (helement : ∀ goal, goal ≠ .templateTail →
      element true goal (spelling ++ rest) = ⟨spelling.length, .ok kind⟩) :
    (∀ goal, goal ≠ .templateTail → (standing text true n).next goal =
      (.ok (Span.token text ⟨kind, n + m, n + m + spelling.length, false⟩),
        standing text true (n + m + spelling.length))) ∧
    (standing text true (n + m + spelling.length)).rest = rest ∧ n + m + spelling.length ≤ text.length := by
  cases spelling with
  | nil => cases hfirst
  | cons c more =>
    obtain ⟨hbehind, hm⟩ := rest_behind_spaces hn (List.append_ne_nil_of_right_ne_nil _ hrest) htext
    have hgap (goal : LexicalGoal) (hgoal : goal ≠ .templateTail) :
        (standing text true n).skipGap goal = ⟨m, .ok false⟩ := by
      rw [skipGap, if_neg hgoal, htext]
      exact gap_opens _ hfirst m _
    have hspelled (goal : LexicalGoal) (hgoal : goal ≠ .templateTail) :=
      next_spelled hbehind hm (List.cons_ne_nil c more) hrest (hgap goal hgoal) (helement goal hgoal)
    exact ⟨fun goal hgoal => (hspelled goal hgoal).1, (hspelled .division (by decide)).2⟩

end Scanner

end EcmaCheck

namespace EcmaCheck.Grammar

variable {α β : Type}

/-! ## Seeing sights -/

/-- The current token and what is read behind it are the sights: tokens that are read whatever is expected, on one line,
and braces that are read again, with what comes next as the result. -/
def State.Awaits : State → List Sight → Prop
  | s, [] => s.token.kind = .endOfInput
  | s, .token kind :: sights => s.token.kind = kind ∧ s.token.newlineBefore = false ∧ ∃ token scanner,
      (∀ goal, goal ≠ .templateTail → s.scanner.next goal = (.ok token, scanner)) ∧
        ∀ t : State, t.token = token → t.scanner = scanner → t.Awaits sights
  | s, .resumption :: sights => s.token.kind = .punctuator .closeBrace ∧ s.token.newlineBefore = false ∧
      ∃ token scanner, s.scanner.rescan .templateTail s.token = (.ok token, scanner) ∧
        ∀ t : State, t.token = token → t.scanner = scanner → t.Awaits sights

/-- A state whose token and scanner are known awaits a token. -/
theorem State.Awaits.of_next {t : State} {token : Token} {scanner : Scanner} {kind : TokenKind} {sights : List Sight}
    (htoken : t.token = token) (hscanner : t.scanner = scanner) (hkind : token.kind = kind)
    (hline : token.newlineBefore = false) (hnext : ∃ next after,
      (∀ goal, goal ≠ .templateTail → scanner.next goal = (.ok next, after)) ∧
        ∀ u : State, u.token = next → u.scanner = after → u.Awaits sights) : t.Awaits (.token kind :: sights) := by
  subst htoken hscanner
  exact ⟨hkind, hline, hnext⟩

/-- What a text shows is awaited. -/
theorem awaits_of_shows {text rest : List Char} {n : Nat} {sights : List Sight} (hn : n ≤ text.length)
    (htext : (Scanner.standing text true n).rest = rest) (h : Shows sights rest) : ∃ token scanner,
      (∀ goal, goal ≠ .templateTail → (Scanner.standing text true n).next goal = (.ok token, scanner)) ∧
        ∀ t : State, t.token = token → t.scanner = scanner → t.Awaits sights := by
  induction h generalizing n with
  | done spaces =>
    obtain ⟨place, newline, after, _, hnext⟩ := Spells.next_end (htext ▸ spells_spaces spaces)
    refine ⟨_, after, hnext, fun t htoken _ => ?_⟩
    change t.token.kind = .endOfInput
    rw [htoken]
  | lexeme spaces hfirst hreads h ih =>
    obtain ⟨hnext, hbehind, hle⟩ := Scanner.next_behind_spaces hn h.ne_nil htext hfirst hreads
    exact ⟨_, _, hnext, fun t htoken hscanner => .of_next htoken hscanner rfl rfl (ih hle hbehind)⟩
  | @span spaces opening last chunk sights rest h ih =>
    cases opening with
    | true =>
      obtain ⟨hnext, hbehind, hle⟩ := Scanner.next_behind_spaces hn h.ne_nil htext (by rfl) fun _ _ =>
        Lexical.element_span true true last chunk nofun rest
      exact ⟨_, _, hnext, fun t htoken hscanner => .of_next htoken hscanner rfl rfl (ih hle hbehind)⟩
    | false =>
      -- the brace by itself is read first, and the span from where the brace begins
      have hrest : (chunk.span false last).tail ++ rest ≠ [] := List.append_ne_nil_of_right_ne_nil _ h.ne_nil
      obtain ⟨hnext, _, _⟩ := Scanner.next_behind_spaces hn hrest (htext : _ = _ ++ (['}'] ++ _)) (by decide)
        fun goal hgoal => reads_whole (p := .closeBrace) rfl _ goal hgoal
      have hspan : chunk.span false last ++ rest ≠ [] := List.append_ne_nil_of_right_ne_nil _ h.ne_nil
      obtain ⟨hstart, hle⟩ := Scanner.rest_behind_spaces hn hspan htext
      obtain ⟨hagain, hbehind, hle'⟩ := Scanner.next_spelled (n := n + spaces) (m := 0) hstart hle
        (List.cons_ne_nil _ _) h.ne_nil rfl (Lexical.element_span true false last chunk (fun _ => rfl) rest)
      refine ⟨_, _, hnext, fun t htoken hscanner => ?_⟩
      change State.Awaits t (.resumption :: .token (.template (Lexical.templatePart false last) none) :: sights)
      refine ⟨congrArg Token.kind htoken, congrArg Token.newlineBefore htoken, ?_⟩
      rw [htoken, hscanner, Scanner.rescan_standing true _ hle rfl, hagain]
      exact ⟨_, _, rfl, fun u hutoken huscanner => .of_next hutoken huscanner rfl rfl (ih hle' hbehind)⟩

variable {all : List TokenKind} {s t : State} {sights rest : List Sight} {k : TokenKind} {p : Punctuator}
  {R : α → Prop} {S : β → Prop}

namespace State.Awaits

theorem kind (h : s.Awaits (.token k :: sights)) : s.token.kind = k :=
  h.1

/-- The kind of the current token. -/
theorem kind_eq (h : s.Awaits sights) : s.token.kind = firstKind sights := by
  cases sights with
  | nil => exact h
  | cons sight sights => cases sight <;> exact h.1

/-- Only the token and the scanner matter. -/
theorem of_eq (h : s.Awaits sights) (htoken : t.token = s.token) (hscanner : t.scanner = s.scanner) :
    t.Awaits sights := by
  cases sights with
  | nil =>
    change t.token.kind = .endOfInput
    rw [htoken]
    exact h
  | cons sight sights =>
    cases sight <;>
    · unfold State.Awaits at h ⊢
      rw [htoken, hscanner]
      exact h

end State.Awaits

/-- The state awaits the sights, and with those that have been consumed they are all the tokens. -/
structure State.Sees (all : List TokenKind) (s : State) (sights : List Sight) : Prop where
  awaits : s.Awaits sights
  consumed : s.consumed.reverse.map Token.kind ++ tokenKinds sights = all

namespace State.Sees

theorem kind (h : s.Sees all (.token k :: sights)) : s.token.kind = k :=
  h.awaits.kind

theorem kind_eq (h : s.Sees all sights) : s.token.kind = firstKind sights :=
  h.awaits.kind_eq

theorem line (h : s.Sees all (.token k :: sights)) : s.token.newlineBefore = false :=
  h.awaits.2.1

/-- Only the token, the scanner and what has been consumed matter. -/
theorem of_eq (h : s.Sees all sights) (htoken : t.token = s.token) (hscanner : t.scanner = s.scanner)
    (hconsumed : t.consumed = s.consumed) : t.Sees all sights :=
  ⟨h.awaits.of_eq htoken hscanner, hconsumed ▸ h.consumed⟩

end State.Sees

/-- A state that sees the sights in the surroundings of another. -/
structure State.Finds (all : List TokenKind) (s t : State) (sights : List Sight) : Prop extends s.Agrees t where
  sees : t.Sees all sights

namespace State.Finds

theorem refl (h : s.Sees all sights) : s.Finds all s sights :=
  ⟨.refl s, h⟩

theorem of_agrees {u : State} (ht : s.Agrees t) (hu : t.Finds all u sights) : s.Finds all u sights :=
  ⟨ht.trans hu.toAgrees, hu.sees⟩

end State.Finds

/-- A recognition that began in `s` gave a result of which `holds` says more, and sees the sights, unless a limit cut it
off. -/
def Passes (all : List TokenKind) (s : State) (sights : List Sight) (holds : α → Prop) :
    EStateM.Result Fault State α → Prop :=
  Ends Fault.IsLimit fun a t => s.Finds all t sights ∧ holds a

namespace Passes

variable {r : EStateM.Result Fault State α} {x : Recognizer α} {f : α → Recognizer β}

/-- What passes from a state passes from one that leads to it. -/
theorem of_agrees (ht : s.Agrees t) (h : Passes all t sights R r) : Passes all s sights R r :=
  Ends.imp h fun _ _ ha => ⟨.of_agrees ht ha.1, ha.2⟩

protected theorem bind (ht : s.Agrees t) (hx : Passes all t sights R (x t))
    (hf : ∀ a u, s.Finds all u sights → R a → Passes all s rest S (f a u)) : Passes all s rest S ((x >>= f) t) :=
  Ends.bind hx fun a u ha => hf a u (.of_agrees ht ha.1) ha.2

theorem discard {y : Recognizer α} (h : Passes all s sights R (y s)) :
    Passes all s sights (fun _ => True) ((Functor.discard y : Recognizer Unit) s) :=
  Passes.bind (f := fun _ => pure ()) (.refl s) h fun _ _ hu _ => ⟨hu, trivial⟩

/-! ### Tokens -/

section

variable {f : Unit → Recognizer β} {goal : LexicalGoal}

theorem lastAdvance (hs : s.Sees all (.token k :: sights)) (hgoal : goal ≠ .templateTail) :
    Passes all s sights (fun _ => True) (advanceWith goal s) := by
  obtain ⟨⟨hkind, _, token, scanner, hnext, hawaits⟩, hconsumed⟩ := hs
  have hrun : advanceWith goal s = .ok () { s with consumed := s.token :: s.consumed, scanner, token } := by
    unfold advanceWith
    rw [hnext goal hgoal]
    rfl
  rw [hrun]
  refine ⟨⟨⟨rfl, rfl⟩, hawaits _ rfl rfl, ?_⟩, trivial⟩
  rw [← hconsumed, List.reverse_cons, List.map_append, List.append_assoc]
  exact congrArg (s.consumed.reverse.map Token.kind ++ · :: tokenKinds sights) hkind

theorem advanceWith (ht : s.Finds all t (.token k :: sights)) (hgoal : goal ≠ .templateTail)
    (hf : ∀ u, s.Finds all u sights → Passes all s rest S (f () u)) :
    Passes all s rest S ((Grammar.advanceWith goal >>= f) t) :=
  Passes.bind ht.toAgrees (lastAdvance ht.sees hgoal) fun _ u hu _ => hf u hu

theorem advance (ht : s.Finds all t (.token k :: sights))
    (hf : ∀ u, s.Finds all u sights → Passes all s rest S (f () u)) : Passes all s rest S ((Grammar.advance >>= f) t) :=
  advanceWith ht (goalAfter_ne_templateTail t.token) hf

theorem lastExpect (hs : s.Sees all (.token (.punctuator p) :: sights)) (hgoal : goal ≠ .templateTail) :
    Passes all s sights (fun _ => True) (expectWith p goal s) := by
  have hat : s.token.isPunctuator p = true := (isPunctuator_of_kind hs.kind p).trans (decide_eq_true rfl)
  have hrun : expectWith p goal s = Grammar.advanceWith goal s := congrFun (if_pos hat) s
  rw [hrun]
  exact lastAdvance hs hgoal

theorem expect (ht : s.Finds all t (.token (.punctuator p) :: sights))
    (hf : ∀ u, s.Finds all u sights → Passes all s rest S (f () u)) :
    Passes all s rest S ((Grammar.expect p >>= f) t) :=
  Passes.bind ht.toAgrees (lastExpect ht.sees (goalAfter_ne_templateTail t.token)) fun _ u hu _ => hf u hu

theorem eat {f : Bool → Recognizer β} (ht : s.Finds all t (.token (.punctuator p) :: sights))
    (hf : ∀ u, s.Finds all u sights → Passes all s rest S (f true u)) :
    Passes all s rest S ((Grammar.eat p >>= f) t) := by
  have hat : t.token.isPunctuator p = true := (isPunctuator_of_kind ht.sees.kind p).trans (decide_eq_true rfl)
  have hrun : (Grammar.eat p >>= f) t = (Grammar.advance >>= fun _ => f true) t := by
    unfold Grammar.eat
    rw [bind_assoc, isAt_bind, hat, if_pos rfl, bind_assoc]
    rfl
  rw [hrun]
  exact advance ht hf

/-- A brace is read again. -/
theorem rescan {f : Unit → Recognizer β} (ht : s.Finds all t (.resumption :: sights))
    (hf : ∀ u, s.Finds all u sights → Passes all s rest S (f () u)) :
    Passes all s rest S ((Grammar.rescan .templateTail >>= f) t) := by
  obtain ⟨⟨_, _, token, scanner, hagain, hawaits⟩, hconsumed⟩ := ht.sees
  have hrun : Grammar.rescan .templateTail t = .ok () { t with scanner, token } := by
    unfold Grammar.rescan
    rw [hagain]
    rfl
  rw [bind_of_ok hrun]
  exact hf _ ⟨⟨ht.surroundings, ht.isModule⟩, hawaits _ rfl rfl, hconsumed⟩

end

/-! ### Repetitions -/

section

variable {γ : Type} {turn : γ → Recognizer (Turn γ β)} {a : γ}

/-- The next turn is the last. -/
theorem finish (hturn : Passes all s sights (fun r => ∃ b, r = .done b ∧ S b) (turn a s)) (n : Nat) :
    Passes all s sights S (repeatTurns turn n a s) := by
  cases n with
  | zero => exact .inr rfl
  | succ n =>
    refine Passes.bind (x := turn a) (.refl s) hturn fun r u hu hr => ?_
    obtain ⟨b, rfl, hb⟩ := hr
    exact ⟨hu, hb⟩

/-- The next turn is followed by others. -/
theorem again {R : γ → Prop} (ht : s.Agrees t)
    (hturn : Passes all t sights (fun r => ∃ b, r = .again b ∧ R b) (turn a t))
    (hthen : ∀ b u n, s.Finds all u sights → R b → Passes all s rest S (repeatTurns turn n b u)) (n : Nat) :
    Passes all s rest S (repeatTurns turn n a t) := by
  cases n with
  | zero => exact .inr rfl
  | succ n =>
    refine Passes.bind (x := turn a) ht hturn fun r u hu hr => ?_
    obtain ⟨b, rfl, hb⟩ := hr
    exact hthen b _ n ⟨⟨hu.surroundings, hu.isModule⟩, hu.sees.of_eq rfl rfl rfl⟩ hb

end

end Passes

end EcmaCheck.Grammar
