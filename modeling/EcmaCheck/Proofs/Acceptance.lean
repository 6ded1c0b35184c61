import EcmaCheck.Proofs.Check
import EcmaCheck.Proofs.Code
import EcmaCheck.Proofs.Division
import EcmaCheck.Proofs.Following.Resuming
import EcmaCheck.Proofs.Printed.Program

/-!
# Accepted scripts

A text is accepted as a script if its code is recognized and ends the text (`code_of_accepted`, `accepted_of_code`). It
need not be shown that enough turns are granted, since they always are. If one text closes a block with its last
character, so does another that goes on alike (`closing_iff_of_alongside`), and where the first ends while the second
closes a block the brace is the last character of the second (`closing_of_ended`).
-/

namespace EcmaCheck

open Grammar Lexical Scanner

/-- A text is accepted if it is recognized. -/
theorem checkBuffer_encode_eq_ok {options : Options} {text : List Char} : checkBuffer options (Utf8.encode text) = .ok ↔
    ∃ t, run (options.sourceType = .module) options.maxDepth (.carrying text true) = .ok () t := by
  have hcheck : checkBuffer options (Utf8.encode text) =
      Outcome.ofFault? (Grammar.fault? (options.sourceType = .module) options.maxDepth (.carrying text true)) := by
    unfold checkBuffer
    rw [bufferFault?_encode]
  rw [hcheck, Outcome.ofFault?_eq_ok]
  unfold Grammar.fault?
  generalize run (options.sourceType = .module) options.maxDepth (.carrying text true) = r
  cases r with
  | ok _ t => exact iff_of_true rfl ⟨t, rfl⟩
  | error f t =>
    refine iff_of_false ?_ ?_
    · rintro ⟨⟩
    · rintro ⟨_, ⟨⟩⟩

/-- The bytes of the text are accepted as a script with the limit. -/
def Accepted (limit : Nat) (text : List Char) : Prop :=
  checkBuffer ⟨.script, limit⟩ (Utf8.encode text) = .ok

theorem accepted_iff {limit : Nat} {text : List Char} :
    Accepted limit text ↔ ∃ t, run false limit (.carrying text true) = .ok () t :=
  checkBuffer_encode_eq_ok

namespace Grammar

/-- Only turns may have been missing. -/
def Stalled (f : Fault) : Prop :=
  ∃ p, f = .stalled p

theorem stalled_stalled (p : Position) : Stalled (.stalled p) :=
  ⟨p, rfl⟩

/-- What follows another recognition ends where it says, or stalls. -/
theorem ends_of_follows {α : Type} {post : α → α → State → State → Prop} {a : α} {t : State}
    {r : EStateM.Result Fault State α} (h : Following.Follows post a t r) :
    Ends Stalled (fun a' t' => post a a' t t') r := by
  cases r <;> exact h

variable {limit : Nat} {text : List Char}

/-- The state of a script whose first token has been read. -/
def State.begun (text : List Char) (token : Token) (scanner : Scanner) : State :=
  { State.initial false (.carrying text true) with scanner, token }

theorem start_eq_ok {s : State} : start (.initial false (.carrying text true)) = .ok () s ↔
    ∃ token scanner, (standing text true 0).next .regExp = (.ok token, scanner) ∧ s = .begun text token scanner := by
  have hrun : start (.initial false (.carrying text true)) =
      (State.initial false (.carrying text true)).receive ((standing text true 0).next .regExp) := by
    rw [← ofSource_carrying]
    rfl
  rw [hrun]
  rcases (standing text true 0).next .regExp with ⟨f | token, scanner⟩
  · constructor
    · rintro ⟨⟩
    · rintro ⟨_, _, ⟨⟩, _⟩
  · constructor
    · rintro ⟨⟩
      exact ⟨token, scanner, rfl, rfl⟩
    · rintro ⟨_, _, ⟨⟩, rfl⟩
      rfl

/-- The code of an accepted text is recognized, without its end being consumed. -/
theorem code_of_accepted (h : Accepted limit text) : ∃ token scanner d t,
    (standing text true 0).next .regExp = (.ok token, scanner) ∧
      code (derive limit) true (State.begun text token scanner).turns {} (.begun text token scanner) = .ok d t ∧
        t.token.isEnd = true ∧ Unended t.input := by
  obtain ⟨t, hrun⟩ := accepted_iff.mp h
  obtain ⟨_, s, hstart, _⟩ := bind_eq_ok.mp hrun
  obtain ⟨⟨d, hcode⟩, hend⟩ := (program_eq_ok hstart).mp hrun
  obtain ⟨token, scanner, hnext, rfl⟩ := start_eq_ok.mp hstart
  have hpassed := passed_finalState false limit text true
  rw [hrun] at hpassed
  exact ⟨token, scanner, d, t, hnext, hcode, hend, fun u hu => (hpassed.consumed u hu).1⟩

/-- A text is accepted if its code ends it, unless turns are missing. -/
theorem accepted_of_code {token : Token} {scanner : Scanner}
    (hnext : (standing text true 0).next .regExp = (.ok token, scanner))
    (hcode : Ends Stalled (fun _ t => t.token.isEnd = true)
      (code (derive limit) true (State.begun text token scanner).turns {} (.begun text token scanner))) :
    Accepted limit text := by
  have hstart := start_eq_ok.mpr ⟨token, scanner, hnext, rfl⟩
  rw [accepted_iff]
  cases hrun : code (derive limit) true (State.begun text token scanner).turns {} (.begun text token scanner) with
  | ok d t =>
    rw [hrun] at hcode
    exact ⟨t, (program_eq_ok hstart).mpr ⟨⟨d, hrun⟩, hcode⟩⟩
  | error f t =>
    rw [hrun] at hcode
    obtain ⟨p, rfl⟩ := hcode
    have hfault : fault? false limit (.carrying text true) = some (.stalled p) := by
      unfold fault? run
      rw [program_error_of_code hstart hrun]
    exact absurd rfl (fault_in hfault).kind

/-! ## The last character -/

/-- Behind its last character a text ends. -/
theorem isEnd_next_length (text : List Char) :
    ∃ token scanner, (standing text true text.length).next .regExp = (.ok token, scanner) ∧ token.isEnd = true := by
  have hrest : (standing text true text.length).rest = ['\n'] := by
    rw [rest_standing_true (Nat.le_refl _), List.drop_length]
    rfl
  have hgap : (standing text true text.length).skipGap .regExp = ⟨text.length - text.length + 1, .ok true⟩ := by
    rw [skipGap, if_neg (by decide), hrest, Nat.sub_self, gap_of_not_marked (by rintro ⟨_, ⟨⟩⟩), gapFrom_terminator rfl,
      gapFrom_nil]
  have hnext := next_ends hgap (advance_standing_end true (Nat.le_refl _)).1
  exact ⟨_, _, Prod.ext hnext rfl, rfl⟩

theorem eq_of_standing {n m : Nat} (hn : n ≤ text.length) (hm : m ≤ text.length)
    (h : standing text true n = standing text true m) : n = m := by
  have hrest := congrArg (fun s => s.rest.length) h
  simp only [rest_standing_true hn, rest_standing_true hm, List.length_append, List.length_drop] at hrest
  omega

/-- The token closes a block, and the text ends with it. -/
structure Closing (text : List Char) (i : Input) : Prop where
  brace : i.token.kind = .punctuator .closeBrace
  scanner : i.scanner = standing text true text.length

theorem Closing.expect_ends {E : Fault → Prop} {s : State} (h : Closing text s.input) :
    Ends E (fun _ t => t.token.isEnd = true) (expectWith .closeBrace .regExp s) := by
  obtain ⟨token, scanner, hnext, hend⟩ := isEnd_next_length text
  have hscanner : s.scanner = standing text true text.length := h.scanner
  obtain ⟨t, ht, hsteps⟩ := advanceWith_steps (hscanner ▸ hnext)
  have hexpect : expectWith .closeBrace .regExp s = .ok () t :=
    (congrFun (if_pos (Token.isPunctuator_iff.mpr h.brace)) s).trans ht
  rw [hexpect]
  change t.token.isEnd = true
  rw [hsteps.token, hend]

open Resuming

variable {text₁ text₂ : List Char} {k₁ k₂ : Nat} {closed : Bool} {i j : Input}

/-- The brace that closes the block of the second is its last character. -/
theorem closing_of_ended (hr : Resumes text₁ text₂ k₁ k₂ closed) (h : Ended text₁ text₂ k₁ k₂ closed i j) :
    Closing text₂ j := by
  have hlength := hr.rest.length_eq
  have hsecond := hr.rest.le_second
  have hclosed := h.closed
  subst hclosed
  rw [List.length_append, show (blockEnd true).length = 2 from rfl] at hlength
  refine ⟨h.brace, h.scanner.trans (congrArg _ ?_)⟩
  omega

/-- What stands alongside the end of a script has ended, if the second closes a block there. -/
theorem ended_of_isEnd (hclosed : closed = true)
    (h : Alongside text₁ text₂ k₁ k₂ closed false i j ∨ Ended text₁ text₂ k₁ k₂ closed i j)
    (hend : i.token.isEnd = true) : Ended text₁ text₂ k₁ k₂ closed i j := by
  rcases h with halongside | hended
  · cases halongside.reached with
    | amid span _ hs _ _ h₁ =>
      rw [h₁, hs.isEnd_token] at hend
      cases hend
    | atEnd _ _ hopen => cases hopen.symm.trans hclosed
  · exact hended

/-- Texts that end alike close a block alike with their last characters. -/
theorem closing_iff_of_alongside (hr : Resumes text₁ text₂ k₁ k₂ false)
    (h : Alongside text₁ text₂ k₁ k₂ false false i j) :
    Closing text₁ i ↔ Closing text₂ j := by
  have hlength := hr.rest.length_eq
  have hfirst := hr.rest.le_first
  have hsecond := hr.rest.le_second
  rw [List.length_append, show (blockEnd false).length = 0 from rfl] at hlength hfirst
  cases h.reached with
  | amid span newline hs hn _ h₁ hscanner₁ h₂ hscanner₂ =>
    have hkind : i.token.kind = j.token.kind := by
      rw [h₁, h₂]
      rfl
    have hlt := hs.first_lt
    have hbehind := hs.behind_le
    constructor
    · intro hclosing
      have heq := eq_of_standing hbehind (Nat.le_refl _) (hscanner₁.symm.trans hclosing.scanner)
      refine ⟨hkind ▸ hclosing.brace, hscanner₂.trans (congrArg _ ?_)⟩
      omega
    · intro hclosing
      have heq := eq_of_standing (by omega) (Nat.le_refl _) (hscanner₂.symm.trans hclosing.scanner)
      refine ⟨hkind ▸ hclosing.brace, hscanner₁.trans (congrArg _ ?_)⟩
      omega
  | atEnd _ _ _ h₁ h₂ =>
    refine iff_of_false (fun hclosing => ?_) fun hclosing => ?_
    · cases (congrArg Token.kind h₁).symm.trans hclosing.brace
    · cases (congrArg Token.kind h₂).symm.trans hclosing.brace

end Grammar

end EcmaCheck
