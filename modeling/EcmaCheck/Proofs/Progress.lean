import EcmaCheck.Proofs.Division

/-!
# Progress

A recognition never moves back. It consumes tokens one behind the other and never the end of the text, and no repetition
takes another turn at the end of the text or without having got behind the token that its turn began with. So the turns
that are granted for the length of a text always suffice (`recognition_progresses`).
-/

namespace EcmaCheck.Grammar

/-- A recognition that came here has moved on with every token that it consumed and with every turn that another one
followed. -/
structure State.Progressed (s : State) : Prop where
  /-- The end of the text is not consumed. -/
  consumed : ∀ t ∈ s.consumed, t.isEnd = false
  /-- A token begins behind the one consumed before it. -/
  ordered : s.consumed.Pairwise fun later earlier => BeginsBefore earlier later
  /-- So does the current token, unless nothing could be read behind it. -/
  current : (∀ t ∈ s.consumed, BeginsBefore t s.token) ∨ s.consumed.head? = some s.token
  /-- A turn that another one followed did not begin at the end of the text, and ended behind the token that it began
  with. -/
  repeated : ∀ turn ∈ s.repeated, turn.1.isEnd = false ∧ BeginsBefore turn.1 turn.2

/-- What has been passed of a text has been passed in its order. -/
theorem Comparison.Passed.progressed {c : Comparison} {text : List Char} {s : State} (h : c.Passed text s.input) :
    s.Progressed where
  consumed t ht := (h.consumed t ht).1
  ordered := h.ordered
  current := h.current
  repeated := h.repeated

theorem length_ofText_le (text : List Char) : (Source.ofText text).text.length ≤ text.length := by
  unfold Source.ofText
  split
  · rw [List.length_dropLast]
    exact Nat.sub_le _ _
  · exact Nat.le_refl _

/-- A program that succeeds has come to the end of the text. -/
theorem isEnd_of_program {nested : Derivation} {s t : State} {u : Unit} (h : program nested s = .ok u t) :
    t.token.isEnd = true := by
  obtain ⟨_, s₁, _, h⟩ := bind_eq_ok.mp h
  obtain ⟨_, s₂, _, h⟩ := bind_eq_ok.mp h
  obtain ⟨_, s₃, _, h⟩ := bind_eq_ok.mp h
  by_cases hend : s₃.token.isEnd = true
  · cases (congrFun (if_pos hend) s₃).symm.trans h
    exact hend
  · cases (congrFun (if_neg hend) s₃).symm.trans h

/-- Every recognition of a text moves on, and so it ends with all tokens consumed but the end of the text, or with a
fault other than that the turns have run out, of which there are two more than characters. -/
theorem recognition_progresses (isModule : Bool) (limit : Nat) (text : List Char) :
    (State.initial isModule (.ofText text)).turns ≤ text.length + 2 ∧
      match run isModule limit (.ofText text) with
      | .ok _ s => s.Progressed ∧ s.token.isEnd = true ∧ ∀ t ∈ s.consumed, BeginsBefore t s.token
      | .error f s => s.Progressed ∧ ∀ p, f ≠ .stalled p := by
  refine ⟨Nat.add_le_add_right (length_ofText_le text) 2, ?_⟩
  obtain ⟨own, sentinel, hsource⟩ := Source.ofText_eq text
  rw [hsource]
  have hrun := Comparison.run_corresponds (.limits sentinel) own isModule limit 0 trivial
  simp only [Comparison.first, Comparison.second, Nat.add_zero] at hrun
  cases h : run isModule limit (.carrying own sentinel) with
  | ok _ s =>
    rw [h] at hrun
    exact ⟨hrun.history.progressed, isEnd_of_program h, hrun.input.behind⟩
  | error f s =>
    rw [h] at hrun
    refine ⟨hrun.2.progressed, ?_⟩
    rintro p rfl
    exact hrun.1.1.kind rfl

/-- Each statement of a list takes a turn. -/
example : (finalState (run false 9 (.ofText "a; b".toList))).repeated.map
    (fun turn => (turn.1.start.offset, turn.2.start.offset)) = [(3, 4), (0, 3)] := by decide +kernel

end EcmaCheck.Grammar
