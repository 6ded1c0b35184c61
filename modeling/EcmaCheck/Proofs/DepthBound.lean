import EcmaCheck.Proofs.DepthLimit

/-!
# Nesting in proportion to the text

The depth of a recognition never exceeds three levels for each token consumed, and three more. A recognition may be made
to check this whenever it opens a level (`deriveChecked`), which is the only way for it to get deeper. It runs in
lockstep with one that does not check (`derives_checked`), as every level that is opened has been earned by the tokens
consumed (`Simulation.At.credit`). So no check fails, and a limit that grows with the text is not reached
(`nesting_in_proportion`).
-/

namespace EcmaCheck

namespace Grammar

/-! ## Checking the depth -/

/-- Whether the depth is in proportion to the tokens consumed. -/
def State.InProportion (s : State) : Prop :=
  s.depth ≤ 3 * (s.consumed.length + 1)

instance (s : State) : Decidable s.InProportion :=
  inferInstanceAs (Decidable (_ ≤ _))

/-- Stops where the depth is out of proportion. -/
def checkDepth : Recognizer Unit := do
  let s ← get
  unless s.InProportion do throw (.stalled s.token.start)

/-- Recognizes nested productions as `derive` does, and checks the depth in each level that is opened. -/
def deriveChecked : Nat → Derivation
  | 0, p => derive 0 p
  | levels + 1, p => deeper do
    checkDepth
    expand (deriveChecked levels) p

/-- The fault of a source under a limit on nesting, where the depth is checked in each level that is opened. -/
def checkedFault? (isModule : Bool) (limit : Nat) (source : Source) : Option Fault :=
  match program (deriveChecked limit) (.initial isModule source) with
  | .ok .. => none
  | .error f _ => some f

theorem checkDepth_of_inProportion {s : State} (h : s.InProportion) : checkDepth s = .ok () s := by
  change (if s.InProportion then pure () else throw (.stalled s.token.start) : Recognizer Unit) s = _
  rw [if_pos h]
  rfl

theorem checkDepth_of_not_inProportion {s : State} (h : ¬ s.InProportion) :
    checkDepth s = .error (.stalled s.token.start) s := by
  change (if s.InProportion then pure () else throw (.stalled s.token.start) : Recognizer Unit) s = _
  rw [if_neg h]
  rfl

instance : Moves checkDepth := by
  unfold checkDepth
  infer_instance

instance (levels : Nat) (p : Production) : Moves (deriveChecked levels p) := by
  induction levels generalizing p with
  | zero =>
    unfold deriveChecked
    infer_instance
  | succ levels ih =>
    unfold deriveChecked
    infer_instance

/-! ## In lockstep with the check -/

/-- Faults that correspond less closely. -/
theorem AgreeUpTo.of_fault {α β : Type} {cut : Fault → Prop} {excuse : Prop} {fault fault' : Fault → Fault → Prop}
    {value : α → β → Prop} {x : Except Fault α} {y : Except Fault β} (hle : ∀ f g, fault f g → fault' f g)
    (h : AgreeUpTo cut excuse fault value x y) : AgreeUpTo cut excuse fault' value x y := by
  cases x <;> cases y <;> first | exact hle _ _ h | exact h

/-- A simulation in which faults need only correspond less closely. -/
def Simulation.withFault (sim : Simulation) (fault : Fault → Fault → Prop) (hle : ∀ f g, sim.fault f g → fault f g)
    (hbreaks : ¬ sim.breaks) : Simulation :=
  { sim with
    fault
    fault_of_cut := fun h => hle _ _ (sim.fault_of_cut h)
    fault_of_excuse := fun h f g => hle _ _ (sim.fault_of_excuse h f g)
    fault_of_place := fun he h => hle _ _ (sim.fault_of_place he h)
    fault_of_token := fun h he => hle _ _ (sim.fault_of_token h he)
    fault_of_escape := fun h => hle _ _ (sim.fault_of_escape h)
    fault_of_throw := fun h => absurd h hbreaks
    advance := fun h he hg hfinish => (sim.advance h he hg hfinish).of_fault hle
    peek := fun h hname hfinish => (sim.peek h hname hfinish).of_fault hle
    rescanRegExp := fun h hd hfinish => (sim.rescanRegExp h hd hfinish).of_fault hle
    rescanTemplate := fun h hp hfinish => (sim.rescanTemplate h hp hfinish).of_fault hle }

/-- Two recognitions of one text, under one limit. -/
def samely (text : List Char) (sentinel : Bool) : Simulation :=
  (Comparison.simulation (.ample sentinel) text).withFault (fun f g => f.In text ∧ g = f) (fun _ _ h => ⟨h.1, h.2.1⟩)
    (by rintro ⟨⟩)

variable {text : List Char} {sentinel : Bool}

theorem bind_checkDepth {α : Type} {body : Recognizer α} {s : State} (h : s.InProportion) :
    (checkDepth >>= fun _ => body) s = body s := by
  change EStateM.bind _ _ s = _
  simp only [EStateM.bind, checkDepth_of_inProportion h]

theorem deeper_eq_error {α : Type} {body : Recognizer α} {s t : State} {f : Fault}
    (h : body { s with depth := s.depth + 1 } = .error f t) : deeper body s = .error f t :=
  bind_eq_error.mpr (.inr ⟨_, _, rfl, bind_eq_error.mpr (.inl h)⟩)

/-- Every level that is opened has been earned, so that no check fails. -/
theorem derives_checked {limit levels depth : Nat} (hlimit : depth + levels = limit) :
    (samely text sentinel).Derives depth (deriveChecked levels) (derive levels) := by
  induction levels generalizing depth with
  | zero =>
    refine ⟨fun p b c s₁ s₂ hs _ _ => ?_, fun _ _ _ => ⟨_, _, rfl, rfl⟩, fun _ => .inl trivial⟩
    have hplace := hs.tokens.start
    change (samely text sentinel).Outcome _ (.error (.tooDeep s₁.depth s₁.token.start) s₁)
      (.error (.tooDeep s₂.depth s₂.token.start) s₂)
    refine .error ⟨⟨hplace.1, nofun, trivial⟩, ?_⟩ hs.history
    rw [hs.depth₁, hs.depth₂, hplace.2]
  | succ levels ih =>
    have hinner : (samely text sentinel).Derives (depth + 1) (deriveChecked levels) (derive levels) := ih (by omega)
    constructor
    · intro p b c s₁ s₂ hs hc he
      cases c with
      | zero => cases p <;> cases hc
      | succ c =>
        refine hs.deeper fun t₁ t₂ ht htoken => ?_
        have hearned : t₁.InProportion := by
          have hcredit := ht.credit
          have hearned : t₁.input.earned ≤ 2 * t₁.consumed.length := t₁.input.earned_le
          have hdepth := ht.depth₁
          unfold State.InProportion
          omega
        rw [bind_checkDepth hearned]
        exact hinner.expand p ht hc fun h => htoken ▸ he h
    · intro allowIn s hend
      by_cases h : State.InProportion { s with depth := s.depth + 1 }
      · have hinside : (State.token { s with depth := s.depth + 1 }).isEnd = true := hend
        obtain ⟨t, ht⟩ : Simulation.Refuses (expandAssignment (deriveChecked levels) allowIn) _ :=
          Simulation.Refuses.expandAssignment hinside
        exact ⟨unexpectedFault s.token, t, deeper_eq_error ((bind_checkDepth h).trans ht), rfl⟩
      · exact ⟨.stalled s.token.start, _,
          deeper_eq_error (bind_eq_error.mpr (.inl (checkDepth_of_not_inProportion h))), rfl⟩
    · exact fun _ => .inl trivial

/-- The first token is the same in both. -/
theorem samely_start (isModule : Bool) (text : List Char) (sentinel : Bool) :
    (samely text sentinel).Outcome (fun _ _ => (samely text sentinel).At false 0 3)
      (start (.initial isModule (.carrying text sentinel))) (start (.initial isModule (.carrying text sentinel))) := by
  have hstart := Comparison.corresponds_of_outcome (@Comparison.start_outcome (.ample sentinel) text isModule)
  intro _
  cases hrun : start (.initial isModule (.carrying text sentinel)) with
  | ok _ s =>
    simp only [Comparison.first, Comparison.second, hrun] at hstart
    exact { hstart with }
  | error f s =>
    simp only [Comparison.first, Comparison.second, hrun] at hstart
    exact ⟨⟨hstart.1.1, rfl⟩, hstart.2⟩

/-- Checking the depth does not change what is found. -/
theorem checkedFault?_eq (isModule : Bool) (limit : Nat) (text : List Char) (sentinel : Bool) :
    checkedFault? isModule limit (.carrying text sentinel) = fault? isModule limit (.carrying text sentinel) := by
  have hrun := Simulation.program_outcome (derives_checked (Nat.zero_add limit)) (samely_start isModule text sentinel)
  have hreach : (samely text sentinel).Reaches
      (program (deriveChecked limit) (.initial isModule (.carrying text sentinel))) := by
    cases program (deriveChecked limit) (.initial isModule (.carrying text sentinel)) with
    | ok _ t => exact ⟨true, t.input, .done _, trivial⟩
    | error => trivial
  specialize hrun hreach
  unfold checkedFault? fault? run
  rcases h₁ : program (deriveChecked limit) (.initial isModule (.carrying text sentinel)) with ⟨_, t₁⟩ | ⟨f, t₁⟩ <;>
    rcases h₂ : program (derive limit) (.initial isModule (.carrying text sentinel)) with ⟨_, t₂⟩ | ⟨g, t₂⟩ <;>
    rw [h₁, h₂] at hrun
  · exact hrun.elim
  · exact hrun.1.2.elim
  · exact congrArg some hrun.1.2.symm

end Grammar

/-! ## The bound -/

/-- A text has no more characters than bytes. -/
theorem length_le_length_encode (text : List Char) : text.length ≤ (Utf8.encode text).length := by
  rw [Utf8.length_encode]
  induction text with
  | nil => exact Nat.le_refl 0
  | cons c rest ih =>
    have hc : 0 < c.utf8Size := Char.utf8Size_pos c
    have hsum : byteLength (c :: rest) = c.utf8Size + byteLength rest := rfl
    rw [List.length_cons]
    omega

/-- Nesting never outgrows the text. A limit of three levels for each byte, and three more, is not reached. Whatever the
limit, the depth is at most three times the number of tokens consumed, and three more, in every level that is opened: a
recognition that stops where this is not so finds what one finds that does not check it, and never stops there. -/
theorem nesting_in_proportion :
    (∀ (sourceType : SourceType) (text : List Char) (limit : Nat), 3 * ((Utf8.encode text).length + 1) ≤ limit →
      ∀ r, checkBuffer ⟨sourceType, limit⟩ (Utf8.encode text) ≠ .tooDeep r) ∧
    ∀ (isModule : Bool) (limit : Nat) (text : List Char),
      Grammar.checkedFault? isModule limit (.ofText text) = Grammar.fault? isModule limit (.ofText text) ∧
        ∀ p, Grammar.checkedFault? isModule limit (.ofText text) ≠ some (.stalled p) := by
  constructor
  · intro sourceType text limit hlimit
    have hlength := length_le_length_encode text
    exact checkBuffer_of_ample_limit sourceType (by omega)
  · intro isModule limit text
    obtain ⟨own, sentinel, hsource⟩ := Source.ofText_eq text
    rw [hsource]
    have hchecked := Grammar.checkedFault?_eq isModule limit own sentinel
    refine ⟨hchecked, ?_⟩
    intro p hp
    rw [hchecked] at hp
    exact (fault_in hp).kind rfl

/-- Five bytes are checked with eighteen levels at the most. -/
theorem nesting_in_proportion_brackets :
    ∀ r, checkBuffer ⟨.script, 18⟩ (Utf8.encode "[[[[[".toList) ≠ .tooDeep r :=
  nesting_in_proportion.1 .script "[[[[[".toList 18 (by decide)

end EcmaCheck
