import EcmaCheck.Proofs.Check
import EcmaCheck.Proofs.Division
import EcmaCheck.Proofs.Spacing.Alongside

/-!
# The verdict does not depend on spacing

Where a token ends that the recognition of a text has passed, white space and comments may be inserted: the outcome is
of the same kind, and an error is told in the same words (`checkBuffer_spacing`). The place of the error moves with
what stands there.
-/

namespace EcmaCheck

open Lexical Scanner Grammar

namespace Insertion

variable {t : Insertion} {n : Nat} {goal : LexicalGoal} {i j : Input} {b : Bool}

/-- The recognition has come to a token that ends at the place. -/
abbrev There (t : Insertion) (_ : Bool) (i : Input) : Prop :=
  t.EndsThere i.consumed

/-! ## Passing tokens -/

theorem Alongside.advance (ht : Spacing t.inserted) (h : t.Alongside i j) (hend : i.token.isEnd = false)
    (hgoal : goal ≠ .templateTail) (hfinish : i.consume.MayFinish t.There (i.advance goal)) :
    Agree Fault.ToldAs t.Alongside (i.advance goal) (j.advance goal) := by
  have hstop := (alike_of_reached h.reached).stop hend
  obtain ⟨n, _, hlt, hn, ⟨hbehind, hread⟩ | ⟨_, hnot, hread⟩⟩ := next_reached ht h.reached hend hgoal
  · exact hread.agree (i := i.consume) (j := j.consume) hbehind hlt hn fun _ _ _ _ _ hreached => ⟨hreached, hstop⟩
  · exact hread.agree (i := i.consume) (j := j.consume) hnot hlt hfinish fun _ _ _ _ _ hreached => ⟨hreached, hstop⟩

theorem Alongside.peek (ht : Spacing t.inserted) (h : t.Alongside i j) (hname : i.token.isName = true)
    (hpeek : i.MayPeek t.There) :
    Agree Fault.ToldAs (AlikeKinds False) (i.scanner.next i.token.goalAfter).1
      (j.scanner.next i.token.goalAfter).1 := by
  have hgoal := Token.goalAfter_ne_templateTail i.token
  obtain ⟨n, hscanner, hlt, hn, ⟨hbehind, hread⟩ | ⟨hstop, hnot, hread⟩⟩ :=
    next_reached ht h.reached (Token.isEnd_of_isName hname) hgoal
  · exact Comparison.agree_of_receive (hread.agree (i := i) (j := j) hbehind (Nat.le_of_lt hlt) hn
      fun _ _ _ _ _ hreached => (alike_of_reached hreached).toAlikeKinds)
  have hbefore : ¬ t.EndsThere i.consumed := fun ⟨u, hu, hthere⟩ => hnot ⟨u, List.mem_cons_of_mem _ hu, hthere⟩
  cases hread with
  | stops hfails => exact absurd (hpeek.fails hfails) hbefore
  | reads span hs hle h₁ h₂ =>
    rw [h₁, h₂]
    have hreached : Reached t [] (standing t.plain true span.behind) (standing t.whole true span.behind)
        (span.token t.plain) (span.token t.whole) :=
      .front span { hs with le_first := Nat.zero_le _ } hle not_endsThere_nil rfl rfl rfl rfl
    exact (alike_of_reached hreached).toAlikeKinds
  | @misses token scanner hnext hm =>
    exfalso
    have hok : (i.scanner.next i.token.goalAfter).1 = .ok token := congrArg Prod.fst hnext
    by_cases hkind : i.token.goalAfter = .division ∨ token.kind ≠ .regExp
    · -- under whatever goal the token is read, it misses the place
      obtain ⟨ok, k, hleads, hthere⟩ := hpeek.canFinish hok
      obtain ⟨goal', token', scanner', hgoal', hnext', hgets⟩ := exists_next_of_leads hleads hname hbefore hstop hthere
      rw [hscanner] at hnext hnext'
      exact hgets (hm.under hn hgoal hgoal' hkind hnext hnext')
    · -- the goal is the one that the name implies
      obtain ⟨hdivision, hregExp⟩ := not_or.mp hkind
      rcases hpeek.mayOpen hok hdivision (Classical.not_not.mp hregExp) with hthere | hopen
      · exact hbefore hthere
      · rw [Input.advance, hnext] at hopen
        obtain ⟨ok, k, hleads, hthere⟩ := hopen
        exact not_endsThere hleads hm hnot hthere

/-! ## Reading again -/

theorem Alongside.rescan (ht : Spacing t.inserted) {post : Input → Input → Prop} (h : t.Alongside i j)
    (hend : i.token.isEnd = false) (hgoal : goal = .templateTail → i.token.isPunctuator .closeBrace = true)
    (hfinish : i.MayFinish t.There (i.rescan goal))
    (hpost : ∀ i' j', t.Alongside i' j' → (goal = .regExp → isDivision i'.token = false) → post i' j') :
    Agree Fault.ToldAs post (i.rescan goal) (j.rescan goal) := by
  obtain ⟨n, hle, hn, hdivision, ⟨hbehind, hread⟩ | ⟨hnot, hread⟩⟩ := rescan_reached ht h.reached hend hgoal
  · exact hread.agree hbehind hle hn fun _ _ _ _ hrun hreached =>
      hpost _ _ ⟨hreached, h.previousEnd⟩ (hdivision _ hrun)
  · exact hread.agree hnot hle hfinish fun _ _ _ _ hrun hreached =>
      hpost _ _ ⟨hreached, h.previousEnd⟩ (hdivision _ hrun)

theorem Alongside.rescanRegExp (ht : Spacing t.inserted) (h : t.Alongside i j) (hdivision : isDivision i.token = true)
    (hfinish : i.MayFinish t.There (i.rescan .regExp)) :
    Agree Fault.ToldAs (fun i j => t.Alongside i j ∧ isDivision i.token = false) (i.rescan .regExp)
      (j.rescan .regExp) :=
  h.rescan ht (Comparison.isEnd_of_isDivision hdivision) (fun h => absurd h (by decide)) hfinish
    fun _ _ h hdivision => ⟨h, hdivision rfl⟩

theorem Alongside.rescanTemplate (ht : Spacing t.inserted) (h : t.Alongside i j)
    (hbrace : i.token.isPunctuator .closeBrace = true) (hfinish : i.MayFinish t.There (i.rescan .templateTail)) :
    Agree Fault.ToldAs t.Alongside (i.rescan .templateTail) (j.rescan .templateTail) :=
  h.rescan ht (Token.isEnd_of_isPunctuator hbrace) (fun _ => hbrace) hfinish fun _ _ h _ => h

/-! ## Lockstep -/

/-- Whether the text goes on does not depend on what is expected. -/
theorem Alongside.isEnd_next_eq (ht : Spacing t.inserted) {goal' : LexicalGoal} {token token' : Token}
    (h : t.Alongside i j) (hend : i.token.isEnd = false) (hgoal : goal ≠ .templateTail) (hgoal' : goal' ≠ .templateTail)
    (hok : (i.scanner.next goal).1 = .ok token) (hok' : (i.scanner.next goal').1 = .ok token') :
    token.isEnd = token'.isEnd := by
  obtain ⟨n, hscanner, _, hn, _⟩ := next_reached ht h.reached hend hgoal
  rw [hscanner] at hok hok'
  rw [(scans _ hn fun h => absurd h hgoal).isEnd_eq hok hgoal,
    (scans _ hn fun h => absurd h hgoal').isEnd_eq hok' hgoal']

/-- No more tokens are consumed than turns are granted. -/
theorem Alongside.turns (h : t.Alongside i j) :
    i.consumed.length + 2 ≤ (Source.carrying t.plain true).text.length + 2 ∧
      i.consumed.length + 2 ≤ (Source.carrying t.whole true).text.length + 2 := by
  have hlength := length_le_of_reached h.reached
  have hwhole := length_whole (t := t)
  simp only [Source.carrying, List.length_append]
  omega

/-- The recognitions of both texts run in lockstep. -/
def simulation (ht : Spacing t.inserted) : Simulation where
  known _ := True
  place _ _ := True
  stop := t.Stops
  breaks := False
  fault := Fault.ToldAs
  cut _ := False
  finish := t.There
  input _ := t.Alongside
  history _ := True
  turns₁ := (Source.carrying t.plain true).text.length + 2
  turns₂ := (Source.carrying t.whole true).text.length + 2
  fault_of_cut := False.elim
  fault_of_place _ _ := ⟨rfl, rfl⟩
  fault_of_token _ _ := ⟨rfl, rfl⟩
  fault_of_escape _ := ⟨rfl, rfl⟩
  fault_of_throw := False.elim
  offset_eq_iff := stops_iff
  weaken h := h
  token_of_input h := alike_of_reached h.reached
  stop_of_input h := h.previousEnd
  history_of_input _ _ := trivial
  history_of_consume _ _ _ := trivial
  turns_of_input h := h.turns
  advance h hend hgoal hfinish := .of_agree (h.advance ht hend hgoal hfinish)
  peek h hname hpeek := .of_agree (h.peek ht hname hpeek)
  isEnd_next_eq h := h.isEnd_next_eq ht
  rescanRegExp h hdivision hfinish := .of_agree (h.rescanRegExp ht hdivision hfinish)
  rescanTemplate h hbrace hfinish := .of_agree (h.rescanTemplate ht hbrace hfinish)
  noteOmission h := { h with }
  noteStart h _ := { h with }
  noteEnd h := { h with }
  noteTurn _ h _ _ := { h with }

/-- Where the first has no level left, both nest too deep. -/
theorem derives_zero (ht : Spacing t.inserted) (limit : Nat) : (simulation ht).Derives limit (derive 0) (derive 0) where
  production _ {_ _ s₁ s₂} hs _ _ := by
    have htold : Fault.ToldAs (.tooDeep s₁.depth s₁.token.start) (.tooDeep s₂.depth s₂.token.start) := by
      rw [hs.depth₁, hs.depth₂]
      exact ⟨rfl, rfl⟩
    exact .error htold trivial
  atEnd _ _ _ := ⟨_, _, rfl, rfl⟩
  opensFunction := .of_error rfl

theorem start_outcome (ht : Spacing t.inserted) (isModule : Bool) :
    (simulation ht).Outcome (fun _ _ => (simulation ht).At false 0 3)
      (start (.initial isModule (.carrying t.plain true))) (start (.initial isModule (.carrying t.whole true))) := by
  have hread : Approaches t .regExp 0 ((ofSource (.carrying t.plain true)).next .regExp)
      ((ofSource (.carrying t.whole true)).next .regExp) := by
    rw [ofSource_carrying, ofSource_carrying]
    exact next_front (closed_of_spacing ht) (Nat.zero_le _) fun h => absurd h (by decide)
  have hagree (hfinish : (State.initial isModule (.carrying t.plain true)).input.MayFinish t.There
      ((State.initial isModule (.carrying t.plain true)).input.receive
        ((ofSource (.carrying t.plain true)).next .regExp))) :
      Agree Fault.ToldAs t.Alongside
        ((State.initial isModule (.carrying t.plain true)).input.receive
          ((ofSource (.carrying t.plain true)).next .regExp))
        ((State.initial isModule (.carrying t.whole true)).input.receive
          ((ofSource (.carrying t.whole true)).next .regExp)) :=
    hread.agree not_endsThere_nil (Nat.le_refl 0) hfinish fun _ _ _ _ _ hreached =>
      ⟨hreached, (if_pos (Nat.zero_le _)).symm⟩
  refine Simulation.At.receive (fun _ => trivial) (fun hfinish => .of_agree (hagree hfinish)) fun _ _ _ _ h => ?_
  exact ⟨h, rfl, rfl, rfl, rfl, Nat.le_refl 0, rfl, rfl, rfl, rfl, rfl, Nat.le_refl 3⟩

/-- Both recognitions end alike, if the first has passed a token that ends at the place. -/
theorem run_corresponds (ht : Spacing t.inserted) (isModule : Bool) (limit : Nat)
    (hthere : t.EndsThere (finalState (run isModule limit (.carrying t.plain true))).consumed) :
    (simulation ht).Corresponds (fun _ _ => (simulation ht).At false 0 3)
      (run isModule limit (.carrying t.plain true)) (run isModule limit (.carrying t.whole true)) := by
  refine Simulation.program_outcome (Simulation.derives_derive (derives_zero ht limit) (Nat.zero_add limit))
    (start_outcome ht isModule) ?_
  change (simulation ht).Reaches (run isModule limit (.carrying t.plain true))
  cases hrun : run isModule limit (.carrying t.plain true) with
  | ok _ s =>
    rw [hrun] at hthere
    exact ⟨true, s.input, .done _, hthere⟩
  | error f s =>
    rw [hrun] at hthere
    exact hthere

end Insertion

/-! ## Outcomes -/

/-- The outcomes are of the same kind, and errors are told alike, wherever they are. -/
def Outcome.ToldAs : Outcome → Outcome → Prop
  | ok, ok => True
  | invalid r, invalid s | tooDeep r, tooDeep s => s.kind = r.kind ∧ s.message = r.message
  | internalError detail, internalError detail' => detail' = detail
  | _, _ => False

theorem Outcome.toldAs_of_fault {f g : Fault} (h : f.ToldAs g) : (ofFault? (some f)).ToldAs (ofFault? (some g)) := by
  change (ofState ⟨some (.ofDiagnostic f.diagnostic)⟩).ToldAs (ofState ⟨some (.ofDiagnostic g.diagnostic)⟩)
  rw [ErrorRecord.ofDiagnostic_fault, ErrorRecord.ofDiagnostic_fault, h.kind, h.message]
  cases f.diagnostic.kind with
  | lexical | grammatical | tooDeep => exact ⟨rfl, rfl⟩
  | internal => rfl

/-- Where a token ends that has been passed, spacing may be inserted. -/
theorem checkBuffer_spacing (options : Options) (text spacing : List Char) (u : Token) (hspacing : Spacing spacing)
    (hu : u ∈ (finalState (run (options.sourceType = .module) options.maxDepth (.carrying text true))).consumed) :
    (checkBuffer options (Utf8.encode text)).ToldAs
      (checkBuffer options ((Utf8.encode text).take u.stop.offset ++ Utf8.encode spacing ++
        (Utf8.encode text).drop u.stop.offset)) := by
  obtain ⟨hend, _, n, _, hn, _, hstop, _⟩ := (passed_finalState _ _ _ _).consumed u hu
  have hlength : u.stop.offset = (Utf8.encode (text.take n)).length := by
    rw [hstop, offset_placeAt hn, Utf8.length_encode]
  have hbytes : Utf8.encode text = Utf8.encode (text.take n) ++ Utf8.encode (text.drop n) := by
    rw [← Utf8.encode_append, List.take_append_drop]
  have htake : (Utf8.encode text).take u.stop.offset = Utf8.encode (text.take n) := by
    rw [hbytes, hlength, List.take_left]
  have hdrop : (Utf8.encode text).drop u.stop.offset = Utf8.encode (text.drop n) := by
    rw [hbytes, hlength, List.drop_left]
  let t : Insertion := ⟨text.take n, spacing, text.drop n⟩
  have hplain : t.plain = text := List.take_append_drop n text
  have hwhole : Utf8.encode (text.take n) ++ Utf8.encode spacing ++ Utf8.encode (text.drop n) =
      Utf8.encode t.whole := by
    rw [← Utf8.encode_append, ← Utf8.encode_append, List.append_assoc]
    rfl
  rw [htake, hdrop, hwhole, checkBuffer, checkBuffer, bufferFault?_encode, bufferFault?_encode]
  have hthere : t.EndsThere (finalState (run (options.sourceType = .module) options.maxDepth
      (.carrying t.plain true))).consumed := by
    rw [hplain]
    refine ⟨u, hu, hend, ?_⟩
    rw [hstop, offset_placeAt hn]
  have hrun := Insertion.run_corresponds (t := t) hspacing _ _ hthere
  rw [hplain] at hrun
  unfold Grammar.fault?
  rcases h₁ : run (options.sourceType = .module) options.maxDepth (.carrying text true) with ⟨_, t₁⟩ | ⟨f, t₁⟩ <;>
    rcases h₂ : run (options.sourceType = .module) options.maxDepth (.carrying t.whole true) with ⟨_, t₂⟩ | ⟨g, t₂⟩ <;>
    rw [h₁, h₂] at hrun
  · trivial
  · exact hrun.elim
  · exact hrun.1.elim
  · exact Outcome.toldAs_of_fault hrun.1

/-- The call may be spaced, and the name behind it stands wrong as before. -/
theorem checkBuffer_spacing_call :
    ∃ u ∈ (finalState (run false 1024 (.carrying "f(a) g".toList true))).consumed, u.stop.offset = 2 ∧
      (checkBuffer {} (Utf8.encode "f(a) g".toList)).ToldAs
        (checkBuffer {} ((Utf8.encode "f(a) g".toList).take u.stop.offset ++ Utf8.encode " /* h */\t".toList ++
          (Utf8.encode "f(a) g".toList).drop u.stop.offset)) := by
  have hu : ∃ u ∈ (finalState (run false 1024 (.carrying "f(a) g".toList true))).consumed, u.stop.offset = 2 := by
    decide +kernel
  have hpadding : Padding " /* h */\t".toList :=
    .whiteSpace (by decide) (@Padding.blockComment [' ', 'h', ' '] ['\t'] (by decide) (by simp [isLineTerminator])
      (.whiteSpace (by decide) .nil))
  obtain ⟨u, hu, hstop⟩ := hu
  exact ⟨u, hu, hstop, checkBuffer_spacing {} _ _ u ⟨⟨' ', _, rfl, by decide⟩, hpadding⟩ hu⟩

end EcmaCheck
