import EcmaCheck.Proofs.Comparison

/-!
# Regular expressions and division

Whether a `/` begins a regular expression or divides is decided by what the grammar expects there. In every recognition,
a primary expression never begins with a `/` that was read as an operator, and the token after an expression is the one
that is read there when a `/` divides.
-/

namespace EcmaCheck.Grammar

/-- The state in which a recognition ended or stopped. -/
def finalState : EStateM.Result Fault State Unit → State
  | .ok _ s | .error _ s => s

/-- What is known of the tokens passed when a recognition of a text ends. -/
theorem passed_finalState (isModule : Bool) (limit : Nat) (text : List Char) (sentinel : Bool) :
    (Comparison.limits sentinel).Passed text (finalState (run isModule limit (.carrying text sentinel))).input := by
  have hrun := Comparison.run_corresponds (.limits sentinel) text isModule limit 0 trivial
  simp only [Comparison.first, Comparison.second, Nat.add_zero] at hrun
  cases h : run isModule limit (.carrying text sentinel) with
  | ok _ s => rw [h] at hrun; exact hrun.history
  | error f s => rw [h] at hrun; exact hrun.2

/-- Operands begin with no division, and the tokens after them are read as after an operand. -/
theorem slash_read_by_grammar (isModule : Bool) (limit : Nat) (text : List Char) :
    (∀ t ∈ (finalState (run isModule limit (.ofText text))).operandStarts,
      t.kind ≠ .punctuator .slash ∧ t.kind ≠ .punctuator .slashAssign) ∧
    ∀ e ∈ (finalState (run isModule limit (.ofText text))).operandEnds,
      e.2.kind ≠ .regExp ∧
        ∃ t, (((Scanner.ofSource (.ofText text)).moveTo e.1).next .division).1 = .ok t ∧
          t.kind = e.2.kind ∧ t.start = e.2.start ∧ t.stop = e.2.stop := by
  obtain ⟨own, sentinel, hsource⟩ := Source.ofText_eq text
  rw [hsource]
  have hpassed := passed_finalState isModule limit own sentinel
  constructor
  · intro t ht
    exact Comparison.isDivision_eq_false_iff.mp (hpassed.starts t ht)
  · intro e he
    obtain ⟨hkind, hnext⟩ := hpassed.ends e he
    exact ⟨hkind, e.2, hnext, rfl, rfl, rfl⟩

/-- The `/` behind `/a/` divides, and the one before `a` begins a regular expression. -/
theorem slash_read_by_grammar_both :
    ∃ e ∈ (finalState (run false 9 (.ofText "/a/ / b".toList))).operandEnds,
      e.1.offset = 3 ∧ e.2.kind = .punctuator .slash ∧
        ∃ t, (((Scanner.ofSource (.ofText "/a/ / b".toList)).moveTo e.1).next .division).1 = .ok t ∧
          t.kind = e.2.kind := by
  have h : ∃ e ∈ (finalState (run false 9 (.ofText "/a/ / b".toList))).operandEnds,
      e.1.offset = 3 ∧ e.2.kind = .punctuator .slash := by decide +kernel
  obtain ⟨e, he, hoffset, hslash⟩ := h
  obtain ⟨_, t, ht, hkind, _⟩ := (slash_read_by_grammar false 9 "/a/ / b".toList).2 e he
  exact ⟨e, he, hoffset, hslash, t, ht, hkind⟩

end EcmaCheck.Grammar
