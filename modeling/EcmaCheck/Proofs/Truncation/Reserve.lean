import EcmaCheck.Proofs.Comparison
import EcmaCheck.Proofs.Truncation.Alongside

/-!
# Levels in reserve behind the cut

A recognition of `kept` may be given levels in reserve for where it is no longer clear of the cut (`deriveReserving`).
The tokens that it has left to consume there do not earn more than three levels. With the three that a production may
open before it consumes one, a reserve of six lasts (`derives_reserve`). So it fails for want of levels only where it is
clear of the cut. A recognition of the whole fails there as well, while one of `kept` with as many levels more
everywhere does what the one with a reserve does (`ne_tooDeep_of_accepted`).
-/

namespace EcmaCheck

open Lexical Scanner

namespace Grammar

/-! ## Recognizing with a reserve -/

open Classical in
/-- Recognizes nested productions as `derive` does. Where no level is left, those in reserve may be opened unless the
recognition is clear of the cut. -/
noncomputable def deriveReserving (text : List Char) (reserve : Nat) : Nat → Derivation
  | 0, p => do
    let s ← get
    if Clear text s.input then derive 0 p else derive reserve p
  | levels + 1, p => deeper (expand (deriveReserving text reserve levels) p)

variable {text : List Char} {reserve : Nat}

theorem deriveReserving_of_clear {p : Production} {s : State} (h : Clear text s.input) :
    deriveReserving text reserve 0 p s = derive 0 p s :=
  congrFun (if_pos h) s

theorem deriveReserving_of_not_clear {p : Production} {s : State} (h : ¬ Clear text s.input) :
    deriveReserving text reserve 0 p s = derive reserve p s :=
  congrFun (if_neg h) s

instance (levels : Nat) (p : Production) : Moves (deriveReserving text reserve levels p) := by
  induction levels generalizing p with
  | zero =>
    unfold deriveReserving
    infer_instance
  | succ levels ih =>
    unfold deriveReserving
    infer_instance

namespace Simulation

variable {sim : Simulation} {k limit gap : Nat}

/-- Where no level is left, a recognition with a reserve corresponds to another one as either way does. -/
theorem derives_reserving_zero
    (hclear : ∀ (p : Production) {b : Bool} {c : Nat} {s₁ s₂ : State}, sim.At b k c s₁ s₂ → p.rank ≤ c →
      (p.takesToken = true → s₁.token.isEnd = false) → Clear text s₁.input →
      sim.Yields (sim.result p) p.endsOperand k (c + 1) (derive 0 p s₁) (derive gap p s₂))
    (hnot : ∀ (p : Production) {b : Bool} {c : Nat} {s₁ s₂ : State}, sim.At b k c s₁ s₂ → p.rank ≤ c →
      (p.takesToken = true → s₁.token.isEnd = false) → ¬ Clear text s₁.input →
      sim.Yields (sim.result p) p.endsOperand k (c + 1) (derive (reserve + 1) p s₁) (derive gap p s₂)) :
    sim.Derives k (deriveReserving text (reserve + 1) 0) (derive gap) where
  production p {b c s₁ s₂} hs hc he := by
    by_cases h : Clear text s₁.input
    · rw [deriveReserving_of_clear h]
      exact hclear p hs hc he h
    · rw [deriveReserving_of_not_clear h]
      exact hnot p hs hc he h
  atEnd allowIn s hend := by
    by_cases h : Clear text s.input
    · rw [deriveReserving_of_clear h]
      exact ⟨_, _, rfl, rfl⟩
    · rw [deriveReserving_of_not_clear h]
      exact deeper_atEnd allowIn hend
  opensFunction {s} := by
    by_cases h : Clear text s.input
    · rw [deriveReserving_of_clear h]
      exact .of_error rfl
    · rw [deriveReserving_of_not_clear h]
      exact opens_deeper

/-- They correspond as deep as the first goes if they do so where no level is left to it. -/
theorem derives_reserving (hzero : sim.Derives limit (deriveReserving text reserve 0) (derive gap)) {levels : Nat}
    (hk : k + levels = limit) : sim.Derives k (deriveReserving text reserve levels) (derive (levels + gap)) := by
  induction levels generalizing k with
  | zero =>
    subst hk
    rw [Nat.zero_add]
    exact hzero
  | succ levels ih =>
    have hinner := ih (k := k + 1) (by omega)
    rw [Nat.succ_add]
    exact hinner.deeper

end Simulation

namespace Truncation

variable {kept lost : List Char}

/-- The whole follows a recognition with a reserve, which is never drawn on before the recognition fails clear of the
cut. -/
theorem derives_whole (limit : Nat) :
    (simulation kept lost).Derives limit (deriveReserving kept (reserve + 1) 0) (derive 0) := by
  apply Simulation.derives_reserving_zero
  · intro p b c s₁ s₂ _ _ _ _
    exact .error trivial trivial
  · intro p b c s₁ s₂ hs _ _ hnot hreach
    obtain ⟨n, _, hstands⟩ := hs.input.stands
    have hfinish := Simulation.Outcome.reaches_of_moves inferInstance hreach
    exact absurd (clear_of_canFinish hstands hfinish) hnot

/-! ## What the reserve lasts for -/

/-- Where a recognition stands that has come from the origin. -/
structure Onward (text : List Char) (origin : Input → Prop) (i : Input) : Prop where
  stands : ∃ n, i.consumed.length ≤ n ∧ Stands text true n i.token i.scanner
  unended : Unended i
  origin : origin i

/-- Faults other than that the text nests too deep are the same. -/
def SameFault (f g : Fault) : Prop :=
  g = f ∧ f.diagnostic.kind ≠ .tooDeep

variable {origin : Input → Prop} {i i' : Input} {goal : LexicalGoal} {n : Nat}

/-- No more tokens are consumed than turns are granted. -/
theorem Onward.turns (h : Onward text origin i) :
    i.consumed.length + 2 ≤ (Source.carrying text true).text.length + 2 := by
  obtain ⟨n, hn, hstands⟩ := h.stands
  have hle := le_length_of_stands hstands
  simp only [Source.carrying, List.length_append]
  omega

theorem Onward.advance (horigin : ∀ {i j : Input}, origin i → i.Leads true j → origin j) (h : Onward text origin i)
    (hend : i.token.isEnd = false) (hgoal : goal ≠ .templateTail) (hadvance : i.advance goal = .ok i') :
    Onward text origin i' := by
  obtain ⟨n, hn, hstands⟩ := h.stands
  obtain ⟨m, hlt, _, _, hnext, _⟩ := stands_of_advance hstands hend hgoal hadvance
  have hconsumed : i'.consumed = i.token :: i.consumed := by
    rw [(Input.eq_of_receive hadvance).2]
    rfl
  refine ⟨⟨m, ?_, hnext⟩, ?_, horigin h.origin (.advance hgoal hadvance (.done i'))⟩
  · rw [hconsumed, List.length_cons]
    omega
  · rw [Unended, hconsumed]
    exact List.forall_mem_cons.mpr ⟨hend, h.unended⟩

theorem Onward.rescan (horigin : ∀ {i j : Input}, origin i → i.Leads true j → origin j) (h : Onward text origin i)
    (hgoal : Rereads i.token goal) (hrescan : i.rescan goal = .ok i') : Onward text origin i' := by
  obtain ⟨n, hn, hstands⟩ := h.stands
  obtain ⟨hagain, heq⟩ := Input.eq_of_receive hrescan
  have hconsumed : i'.consumed = i.consumed := by rw [heq]
  refine ⟨⟨n, hconsumed ▸ hn, hstands.rescan hgoal hagain⟩, ?_, horigin h.origin (.rescan hgoal hrescan (.done i'))⟩
  rw [Unended, hconsumed]
  exact h.unended

/-- What is read of one text twice. -/
theorem agree_twice {r : Except Fault Token × Scanner} {post : Input → Input → Prop}
    (hlexical : ∀ {f}, r.1 = .error f → ∃ e p, f = .lexical e p ∧ e.Printable)
    (hpost : ∀ i', i.receive r = .ok i' → post i' i') :
    AgreeUpTo (fun _ => False) False SameFault post (i.receive r) (i.receive r) := by
  rcases r with ⟨f | token, scanner⟩
  · exact ⟨rfl, ne_tooDeep_of_lexical (hlexical rfl)⟩
  · exact hpost _ rfl

/-- Two recognitions of one text from the origin on, which are not meant to fail clear of the cut. Neither is out of
levels. -/
def twice (text : List Char) (origin : Input → Prop)
    (horigin : ∀ {i j : Input}, origin i → i.Leads true j → origin j) (spent : Nat) : Simulation where
  known _ := True
  place := Eq
  stop := Eq
  breaks := False
  fault := SameFault
  cut _ := False
  finish ok i := ¬ FailsClear text ok i
  input _ i j := j = i ∧ Onward text origin i
  history := Unended
  turns₁ := (Source.carrying text true).text.length + 2
  turns₂ := (Source.carrying text true).text.length + 2
  spent
  fault_of_cut := False.elim
  fault_of_place := by
    rintro e p _ _ rfl
    exact ⟨rfl, by rintro ⟨⟩⟩
  fault_of_token h _ := ⟨by rw [h.start], by rintro ⟨⟩⟩
  fault_of_escape := by
    rintro p _ rfl
    exact ⟨rfl, by rintro ⟨⟩⟩
  fault_of_throw := False.elim
  offset_eq_iff := @offset_eq_iff_of_eq
  weaken h := h
  token_of_input h := by
    rw [h.1]
    exact alikeTokens_refl _
  stop_of_input h := by rw [h.1]
  history_of_input _ h := h.2.unended
  history_of_consume _ h hend := List.forall_mem_cons.mpr ⟨hend, h.2.unended⟩
  turns_of_input h := ⟨h.2.turns, h.2.turns⟩
  advance h hend hgoal _ := by
    rw [h.1]
    exact agree_twice printable_of_next fun _ hadvance => ⟨rfl, h.2.advance horigin hend hgoal hadvance⟩
  peek {_ i _} h _ _ := by
    rw [h.1]
    rcases hnext : (i.scanner.next i.token.goalAfter).1 with f | token
    · exact ⟨rfl, ne_tooDeep_of_lexical (printable_of_next hnext)⟩
    · exact ⟨rfl, .inl rfl⟩
  isEnd_next_eq h hend := by
    obtain ⟨n, _, hstands⟩ := h.2.stands
    exact isEnd_next_eq_of_stands hstands hend
  rescanRegExp h hdivision _ := by
    rw [h.1]
    obtain ⟨n, _, hstands⟩ := h.2.stands
    exact agree_twice printable_of_rescan fun _ hrescan =>
      ⟨⟨rfl, h.2.rescan horigin (.regExp hdivision) hrescan⟩, isDivision_of_rescan hstands hdivision hrescan⟩
  rescanTemplate h hbrace _ := by
    rw [h.1]
    exact agree_twice printable_of_rescan fun _ hrescan => ⟨rfl, h.2.rescan horigin (.template hbrace) hrescan⟩
  noteOmission h := ⟨congrArg _ h.1, { h.2 with origin := horigin h.2.origin (.noteOmission (.done _)) }⟩
  noteStart h _ := ⟨congrArg _ h.1, { h.2 with origin := horigin h.2.origin (.noteStart (.done _)) }⟩
  noteEnd h := ⟨congrArg _ h.1, { h.2 with origin := horigin h.2.origin (.noteEnd (.done _)) }⟩
  noteTurn h h' _ _ := by
    rw [h.1]
    exact ⟨congrArg _ h'.1, { h'.2 with origin := horigin h'.2.origin (.noteTurn _ (.done _)) }⟩

/-- Two recognitions of one text. -/
abbrev throughout (text : List Char) : Simulation :=
  twice text (fun _ => True) (fun _ _ => trivial) 0

/-- Two recognitions of one text from the input on. -/
abbrev behind (text : List Char) (i : Input) (spent : Nat) : Simulation :=
  twice text (i.Leads true ·) Input.Leads.trans spent

/-! ## Six levels -/

variable {k spent : Nat}

/-- Six levels below a place that is not clear of the cut, the tokens behind it have not earned another one. -/
theorem derives_exhausted {p : Production} (h : Stands text true n i.token i.scanner) (hnot : ¬ Clear text i)
    (hspent : i.earned + 3 = spent + p.rank + k) :
    (behind text i spent).Derives (k + 6) (derive 0) (derive 0) where
  production q {b c s₁ s₂} hs hc _ := by
    have hcredit : c + (k + 6) + spent ≤ s₁.input.earned + 3 := hs.credit
    have hearned : s₁.input.earned ≤ i.earned + 3 :=
      earned_le_of_not_clear h hs.input.2.origin hs.input.2.unended hnot
    have hleast := p.rank_le
    have hrank := q.rank_pos
    omega
  atEnd _ _ _ := ⟨_, _, rfl, rfl⟩
  opensFunction := .of_error rfl

/-- What corresponds from an input on does so throughout. -/
theorem yields_of_behind {p : Production} {b : Bool} {c c' : Nat} {r₁ r₂ : EStateM.Result Fault State p.Result}
    (hc : c ≤ c' + spent) (h : (behind text i spent).Yields ((behind text i spent).result p) b k c' r₁ r₂) :
    (throughout text).Yields ((throughout text).result p) b k c r₁ r₂ := by
  intro hreach
  specialize h hreach
  cases r₁ with
  | ok a₁ t₁ =>
    cases r₂ with
    | ok a₂ t₂ =>
      obtain ⟨hvalue, hat⟩ := h
      constructor
      · cases p <;> first | exact hvalue | exact { hvalue with }
      · have hcredit : c' + k + spent ≤ t₁.input.earned + 3 := hat.credit
        have hcredit' : c + k + 0 ≤ t₁.input.earned + 3 := by omega
        exact { hat with input := ⟨hat.input.1, { hat.input.2 with origin := trivial }⟩, credit := hcredit' }
    | error => exact h
  | error => cases r₂ <;> exact h

/-- A reserve of six levels is never used up: unless it fails clear of the cut, a recognition that has one does what
one does that has as many levels more throughout. -/
theorem derives_reserve (limit : Nat) :
    (throughout text).Derives limit (deriveReserving text 6 0) (derive 6) := by
  apply Simulation.derives_reserving_zero
  · intro p b c s₁ s₂ hs _ _ hclear hreach
    exact absurd ⟨rfl, hs.input.2.unended, hclear⟩ hreach
  · intro p b c s₁ s₂ hs hc he hnot
    obtain ⟨n, _, hstands⟩ := hs.input.2.stands
    have hcredit : c + limit + 0 ≤ s₁.input.earned + 3 := hs.credit
    obtain ⟨spent, hspent⟩ : ∃ spent, s₁.input.earned + 3 = spent + p.rank + limit :=
      ⟨s₁.input.earned + 3 - (p.rank + limit), by omega⟩
    have hexhausted : (behind text s₁.input spent).Derives (limit + 6) (derive 0) (derive 0) :=
      derives_exhausted hstands hnot hspent
    have hderives : (behind text s₁.input spent).Derives limit (derive 6) (derive 6) :=
      Simulation.derives_derive hexhausted rfl
    have hearned : p.rank + limit + spent ≤ s₁.input.earned + 3 := by omega
    have hfrom : (behind text s₁.input spent).At b limit p.rank s₁ s₂ :=
      { hs with input := ⟨hs.input.1, { hs.input.2 with origin := .done _ }⟩, credit := hearned }
    exact yields_of_behind (by omega) (hderives.production p hfrom (Nat.le_refl _) he)

theorem start_twice (isModule : Bool) (text : List Char) :
    (throughout text).Outcome (fun _ _ => (throughout text).At false 0 3)
      (start (.initial isModule (.carrying text true))) (start (.initial isModule (.carrying text true))) := by
  refine Simulation.At.receive (fun _ => List.forall_mem_nil _)
    (fun _ => agree_twice printable_of_next fun i' hreceive => ?_)
    fun _ _ _ _ (h : (throughout text).input false _ _) => ?_
  · obtain ⟨hnext, heq⟩ := Input.eq_of_receive hreceive
    have hstands : Stands text true 0 i'.token i'.scanner := by
      simp only [State.initial, ofSource_carrying] at hnext
      exact stands_of_next (by decide) (Nat.zero_le _) hnext
    have hconsumed : i'.consumed = [] := by rw [heq]; rfl
    refine ⟨rfl, ⟨0, by rw [hconsumed]; exact Nat.le_refl 0, hstands⟩, ?_, trivial⟩
    rw [Unended, hconsumed]
    exact List.forall_mem_nil _
  · exact ⟨h, rfl, rfl, rfl, rfl, Nat.le_refl 0, rfl, rfl, rfl, rfl, rfl, Nat.le_refl 3⟩

/-! ## Without a reserve -/

/-- What one recognition does with a reserve, one that has as many levels more throughout does as well, as long as the
first is not out of levels. -/
theorem derives_limits (limit : Nat) :
    (Comparison.simulation (.limits true) text).Derives limit (deriveReserving text (reserve + 1) 0)
      (derive (reserve + 1)) := by
  have hzero {limit difference : Nat} :
      (Comparison.simulation (.limits true) text).Derives limit (derive 0) (derive difference) :=
    Comparison.derives_zero trivial
  apply Simulation.derives_reserving_zero
  · intro p b c s₁ s₂ hs hc he _
    exact hzero.production p hs hc he
  · intro p b c s₁ s₂ hs hc he _
    have hreserve : (Comparison.simulation (.limits true) text).Derives limit (derive (reserve + 1))
        (derive (reserve + 1)) := Simulation.derives_derive (@hzero _ 0) rfl
    exact hreserve.production p hs hc he

/-! ## Programs -/

/-- Recognizes a text as a program, with six levels in reserve. -/
noncomputable def runReserving (isModule : Bool) (limit : Nat) (text : List Char) : EStateM.Result Fault State Unit :=
  program (deriveReserving text 6 limit) (.initial isModule (.carrying text true))

theorem run_whole (isModule : Bool) (limit : Nat) (kept lost : List Char) :
    (simulation kept lost).Outcome (fun _ _ => (simulation kept lost).At false 0 3) (runReserving isModule limit kept)
      (run isModule limit (.carrying (kept ++ lost) true)) :=
  Simulation.program_outcome (Simulation.derives_reserving (derives_whole limit) (Nat.zero_add limit))
    (start_outcome isModule kept lost)

theorem run_twice (isModule : Bool) (limit : Nat) (text : List Char) :
    (throughout text).Outcome (fun _ _ => (throughout text).At false 0 3) (runReserving isModule limit text)
      (run isModule (limit + 6) (.carrying text true)) :=
  Simulation.program_outcome (Simulation.derives_reserving (derives_reserve limit) (Nat.zero_add limit))
    (start_twice isModule text)

theorem run_limits (isModule : Bool) (limit : Nat) (text : List Char) :
    (Comparison.simulation (.limits true) text).Corresponds
      (fun _ _ => (Comparison.simulation (.limits true) text).At false 0 3) (runReserving isModule limit text)
      (run isModule (limit + 6) (.carrying text true)) :=
  Comparison.corresponds_of_outcome (Simulation.program_outcome
    (Simulation.derives_reserving (derives_limits limit) (Nat.zero_add limit))
    (@Comparison.start_outcome (.limits true) text isModule))

/-- Where the whole is accepted, what is kept of it does not nest too deep for six levels more. -/
theorem ne_tooDeep_of_accepted {isModule : Bool} {limit : Nat} {f : Fault}
    (haccepted : fault? isModule limit (.carrying (kept ++ lost) true) = none)
    (hf : fault? isModule (limit + 6) (.carrying kept true) = some f) : f.diagnostic.kind ≠ .tooDeep := by
  have hwhole := run_whole isModule limit kept lost
  have htwice := run_twice isModule limit kept
  have hlimits := run_limits isModule limit kept
  unfold fault? at haccepted hf
  rcases h₂ : run isModule (limit + 6) (.carrying kept true) with ⟨_, t₂⟩ | ⟨g, t₂⟩ <;> rw [h₂] at hf htwice hlimits
  · cases hf
  cases hf
  rcases h₁ : runReserving isModule limit kept with ⟨_, t₁⟩ | ⟨e, t₁⟩ <;> rw [h₁] at hwhole htwice hlimits
  · have hends : ¬ FailsClear kept true t₁.input := fun h => absurd h.1 (by decide)
    exact absurd (htwice ⟨true, t₁.input, .done _, hends⟩) id
  by_cases hclear : FailsClear kept false t₁.input
  · -- the whole does not fail there, so it was a token that could not be read
    rcases h : run isModule limit (.carrying (kept ++ lost) true) with ⟨_, t⟩ | ⟨_, t⟩ <;> rw [h] at haccepted hwhole
    · have hcut := (hwhole hclear).1
      rw [hlimits.1.2.resolve_right hcut]
      exact hcut
    · cases haccepted
  · obtain ⟨hsame, hkind⟩ := (htwice hclear).1
    rw [hsame]
    exact hkind

end Truncation

end Grammar

end EcmaCheck
