import EcmaCheck.Grammar.Program

/-!
# Code

The code of a program or of a body is its directives and the statements behind them. It is taken turn by turn (`code`),
so that it can also be told what is left of it behind some of its directives. A program is accepted if its code is and
ends the text (`program_eq_ok`).
-/

namespace EcmaCheck.Grammar

/-- One turn of the directives. -/
def directiveTurn (nested : Derivation) (d : Directives) : Recognizer (Turn Directives Directives) := do
  let first ← token
  match first.kind with
  | .string legacyOctalEscape =>
    discard (expression nested true)
    let isDirective := (← get).previousEnd.offset = first.stop.offset
    consumeSemicolon
    if isDirective then return .again (← noteDirective first legacyOctalEscape d) else return .done d
  | _ => return .done d

theorem directives_eq (nested : Derivation) : directives nested = loop {} (directiveTurn nested) := rfl

/-- One turn of a statement list. -/
def statementTurn (nested : Derivation) (topLevel : Bool) (_ : Unit) : Recognizer (Turn Unit Unit) := do
  let t ← token
  if t.isEnd || t.isPunctuator .closeBrace then return .done ()
  nested (.statementListItem topLevel)
  return .again ()

theorem statementList_eq (nested : Derivation) (topLevel : Bool) :
    statementList nested topLevel = loop () (statementTurn nested topLevel) := rfl

/-- The code of a program or of a body, of whose directives some may have been taken already. -/
def code (nested : Derivation) (topLevel : Bool) (turns : Nat) (d : Directives) : Recognizer Directives := do
  let d ← repeatTurns (directiveTurn nested) turns d
  statementList nested topLevel
  return d

variable {α β : Type} {nested : Derivation} {s t : State}

/-! ## Where there is no code -/

theorem repeatTurns_done {turn : α → Recognizer (Turn α β)} {a : α} {b : β} (h : turn a s = .ok (.done b) s) (n : Nat) :
    repeatTurns turn n a s = .ok b s ∨ ∃ p, repeatTurns turn n a s = .error (.stalled p) s := by
  cases n with
  | zero => exact .inr ⟨_, rfl⟩
  | succ n => exact .inl (bind_eq_ok.mpr ⟨_, s, rfl, bind_eq_ok.mpr ⟨_, s, h, rfl⟩⟩)

/-- What is no string is no directive. -/
theorem directiveTurn_of_not (h : s.token.isString = false) (d : Directives) :
    directiveTurn nested d s = .ok (.done d) s := by
  refine bind_eq_ok.mpr ⟨s.token, s, rfl, ?_⟩
  unfold Token.isString at h
  cases hkind : s.token.kind with
  | string =>
    rw [hkind] at h
    cases h
  | _ => rfl

/-- Where a list of statements ends there is no code. -/
theorem code_ends (h : (s.token.isEnd || s.token.isPunctuator .closeBrace) = true) (topLevel : Bool) (n : Nat)
    (d : Directives) :
    code nested topLevel n d s = .ok d s ∨ ∃ p, code nested topLevel n d s = .error (.stalled p) s := by
  have hstring : s.token.isString = false := by
    unfold Token.isEnd Token.isPunctuator at h
    unfold Token.isString
    cases hkind : s.token.kind with
    | string =>
      rw [hkind] at h
      cases h
    | _ => rfl
  have hstatement : statementTurn nested topLevel () s = .ok (.done ()) s := by
    refine bind_eq_ok.mpr ⟨s.token, s, rfl, ?_⟩
    rw [if_pos h]
    rfl
  rcases repeatTurns_done (directiveTurn_of_not hstring d) n with hd | ⟨p, hd⟩
  · rcases repeatTurns_done hstatement s.turns with hl | ⟨p, hl⟩
    · exact .inl (bind_eq_ok.mpr ⟨_, s, hd, bind_eq_ok.mpr ⟨_, s, hl, rfl⟩⟩)
    · exact .inr ⟨p, bind_eq_error.mpr (.inr ⟨_, s, hd, bind_eq_error.mpr (.inl hl)⟩)⟩
  · exact .inr ⟨p, bind_eq_error.mpr (.inl hd)⟩

/-! ## Programs and bodies -/

theorem program_eq_ok (hstart : start s = .ok () t) {u : State} :
    program nested s = .ok () u ↔ (∃ d, code nested true t.turns {} t = .ok d u) ∧ u.token.isEnd = true := by
  constructor
  · intro h
    obtain ⟨_, _, hstart', h⟩ := bind_eq_ok.mp h
    cases hstart.symm.trans hstart'
    obtain ⟨_, v, hdirectives, h⟩ := bind_eq_ok.mp h
    obtain ⟨d, v', hturns, hreturn⟩ := bind_eq_ok.mp hdirectives
    cases hreturn
    obtain ⟨_, w, hlist, h⟩ := bind_eq_ok.mp h
    obtain ⟨_, _, htoken, h⟩ := bind_eq_ok.mp h
    cases htoken
    by_cases hend : w.token.isEnd = true
    · cases (congrFun (if_pos hend) w).symm.trans h
      exact ⟨⟨d, bind_eq_ok.mpr ⟨d, _, hturns, bind_eq_ok.mpr ⟨(), _, hlist, rfl⟩⟩⟩, hend⟩
    · cases (congrFun (if_neg hend) w).symm.trans h
  · rintro ⟨⟨d, hcode⟩, hend⟩
    obtain ⟨d, v, hturns, hcode⟩ := bind_eq_ok.mp hcode
    obtain ⟨_, w, hlist, hreturn⟩ := bind_eq_ok.mp hcode
    cases hreturn
    have hdirectives : (Functor.discard (directives nested) : Recognizer Unit) t = .ok () v :=
      bind_eq_ok.mpr ⟨d, v, hturns, rfl⟩
    refine bind_eq_ok.mpr ⟨(), t, hstart, bind_eq_ok.mpr ⟨(), v, hdirectives, bind_eq_ok.mpr ⟨(), u, hlist, ?_⟩⟩⟩
    exact bind_eq_ok.mpr ⟨u.token, u, rfl, congrFun (if_pos hend) u⟩

theorem program_error_of_code (hstart : start s = .ok () t) {u : State} {f : Fault}
    (h : code nested true t.turns {} t = .error f u) : program nested s = .error f u := by
  refine bind_eq_error.mpr (.inr ⟨(), t, hstart, bind_eq_error.mpr ?_⟩)
  rcases bind_eq_error.mp h with hturns | ⟨d, v, hturns, h⟩
  · exact .inl (bind_eq_error.mpr (.inl hturns))
  · refine .inr ⟨(), v, bind_eq_ok.mpr ⟨d, v, hturns, rfl⟩, ?_⟩
    rcases bind_eq_error.mp h with hlist | ⟨_, _, _, hreturn⟩
    · exact bind_eq_error.mpr (.inl hlist)
    · cases hreturn

end EcmaCheck.Grammar
