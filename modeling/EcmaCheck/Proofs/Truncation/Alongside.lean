import EcmaCheck.Proofs.Omission.Reading
import EcmaCheck.Proofs.Truncation.Reading

/-!
# Recognitions of a text that is cut off and of the whole

As long as the recognition of `kept` may still fail clear of the cut, it runs in lockstep with the recognition of
`kept ++ lost` (`Truncation.simulation`), as both read the same tokens. Where it can no longer get clear nothing is said
of the two.
-/

namespace EcmaCheck

open Lexical Scanner Grammar

variable {kept lost text : List Char} {n : Nat} {goal : LexicalGoal}

/-! ## Looking ahead -/

/-- Whether a line ends in a gap does not depend on what is expected behind it. -/
theorem Span.Read.newlineBefore_eq {goal' : LexicalGoal} {span span' : Span} (hgoal : goal ≠ .templateTail)
    (hgoal' : goal' ≠ .templateTail) (h : span.Read text goal n) (h' : span'.Read text goal' n) :
    span'.newlineBefore = span.newlineBefore := by
  have hskip := skipGap_eq (standing text true n) hgoal hgoal'
  have hgap := h'.gap.symm.trans (hskip.trans h.gap)
  exact Except.ok.inj (congrArg Reading.result hgap)

/-- Where a division was read, a regular expression begins behind the same gap. -/
theorem Span.Read.regExp_of_division {span : Span} {token : Token} {scanner : Scanner}
    (h : span.Read text .division n) (hdivision : isDivision (span.token text) = true)
    (hnext : (standing text true n).next .regExp = (.ok token, scanner)) :
    token.kind = .regExp ∧ token.newlineBefore = span.newlineBefore := by
  have hfirst := h.le_first
  have hlt := h.first_lt
  have hle := h.behind_le
  have hkind := kind_of_next_regExp (by omega) (by decide) h.next hdivision hnext
  refine ⟨hkind, ?_⟩
  cases gives (by omega) (fun h => absurd h (by decide)) hnext with
  | ends hend =>
    rw [Token.isEnd, hkind] at hend
    cases hend
  | reads span' _ hread htoken =>
    rw [htoken]
    exact h.newlineBefore_eq (by decide) (by decide) hread

/-- What is read at the start of an operand is of the same kind in the longer text if the token there, read as after an
operand, ends ahead of the cut. -/
theorem Span.Read.alike_regExp {span : Span} {token token' : Token} (h : span.Read kept .division n)
    (hleaves : Leaves kept span.kind span.behind) (hok : ((standing kept true n).next .regExp).1 = .ok token)
    (hok' : ((standing (kept ++ lost) true n).next .regExp).1 = .ok token') : AlikeKinds False token token' := by
  have hfirst := h.le_first
  have hlt := h.first_lt
  have hbehind := hleaves.lt
  have hwhole : span.Read (kept ++ lost) .division n := h.append hleaves
  have hsame : span.token (kept ++ lost) = span.token kept := token_append hlt hbehind
  cases hdivision : isDivision (span.token kept) with
  | false =>
    have hnext := next_regExp_eq (by omega) (by decide) h.next hdivision
    have hnext' := next_regExp_eq (by rw [List.length_append]; omega) (by decide) hwhole.next (hsame ▸ hdivision)
    cases hok.symm.trans (congrArg Prod.fst hnext)
    cases hok'.symm.trans (congrArg Prod.fst hnext')
    rw [hsame]
    exact ⟨rfl, .inl rfl⟩
  | true =>
    obtain ⟨hkind, hnewline⟩ := h.regExp_of_division hdivision (Prod.ext hok rfl)
    obtain ⟨hkind', hnewline'⟩ := hwhole.regExp_of_division (hsame ▸ hdivision) (Prod.ext hok' rfl)
    exact ⟨hkind'.trans hkind.symm, .inl (hnewline'.trans hnewline.symm)⟩

namespace Grammar

namespace Truncation

variable (kept lost : List Char)

/-- The two have read the same tokens. The current one ends ahead of the cut, where the scanners stand. -/
structure Alongside (i j : Input) : Prop where
  stands : ∃ n, i.consumed.length ≤ n ∧ Stands kept true n i.token i.scanner
  ahead : Ahead kept i.token
  same : j = { i with scanner := (ofSource (.carrying (kept ++ lost) true)).moveTo i.token.stop }

/-- A recognition fails clear of the cut. -/
def FailsClear (ok : Bool) (i : Input) : Prop :=
  ok = false ∧ Unended i ∧ Clear kept i

variable {kept lost} {i j : Input}

/-! ## Getting clear -/

theorem clear_of_canFinish (h : Stands kept true n i.token i.scanner) (hfinish : i.CanFinish (FailsClear kept)) :
    Clear kept i := by
  obtain ⟨ok, k, hleads, _, hk, hclear⟩ := hfinish
  exact clear_of_leads h hleads hk hclear

/-- The token that ends ahead, as a span, and where the scanners stand. -/
theorem Alongside.exists_span (h : Alongside kept lost i j) :
    ∃ (span : Span) (goal : LexicalGoal), span.Within kept goal i.consumed.length ∧ span.behind < kept.length ∧
      i.token = span.token kept ∧ i.scanner = standing kept true span.behind ∧ j.token = i.token ∧
      j.scanner = standing (kept ++ lost) true span.behind := by
  obtain ⟨n, hn, hstands⟩ := h.stands
  have hahead := h.ahead
  have hsame := h.same
  cases hstands with
  | atEnd newline _ _ htoken =>
    rw [htoken] at hahead
    exact absurd hahead (not_ahead_endToken _)
  | @amid span goal hs _ htoken hscanner =>
    have hstop : i.token.stop = placeAt kept span.behind := congrArg Token.stop htoken
    have hlt : span.behind < kept.length := ((ahead_iff hs.behind_le hstop).mp hahead).lt
    refine ⟨span, goal, { hs with le_first := Nat.le_trans hn hs.le_first }, hlt, htoken, hscanner, ?_, ?_⟩
    · rw [hsame]
    · have hplace : placeAt (kept ++ lost) span.behind = placeAt kept span.behind := placeAt_append hlt
      rw [hsame, hstop, ← hplace, ofSource_carrying, moveTo_placeAt true (by rw [List.length_append]; omega)]

/-! ## Reading -/

/-- If the first token ends ahead of the cut, the same token is read of the longer text. -/
def Repeats (kept lost : List Char) (r₁ r₂ : Except Fault Token × Scanner) : Prop :=
  ∀ token, r₁.1 = .ok token → Ahead kept token →
    r₂ = (.ok token, (ofSource (.carrying (kept ++ lost) true)).moveTo token.stop)

theorem repeats_next (hn : n ≤ kept.length) (hgoal : goal = .templateTail → kept[n]? = some '}') :
    Repeats kept lost ((standing kept true n).next goal) ((standing (kept ++ lost) true n).next goal) := by
  intro token hok hahead
  obtain ⟨span, hs, hread, hleaves, rfl, _⟩ := read_of_next hn hgoal (Prod.ext hok rfl) hahead
  have hbehind := hleaves.lt
  have hsame : span.token (kept ++ lost) = span.token kept := token_append hs.first_lt hbehind
  have hlength : span.behind ≤ (kept ++ lost).length := by
    rw [List.length_append]
    omega
  have hplace : (ofSource (.carrying (kept ++ lost) true)).moveTo (span.token (kept ++ lost)).stop =
      standing (kept ++ lost) true span.behind := by
    rw [ofSource_carrying]
    exact moveTo_placeAt true hlength
  rw [(hread.append hleaves).next, ← hsame, hplace]

theorem repeats_rescan {m m' : Nat} {token : Token} (hn : n < kept.length) (htoken : token.start = placeAt kept n)
    (hgoal : goal = .templateTail → kept[n]? = some '}') :
    Repeats kept lost ((standing kept true m).rescan goal token)
      ((standing (kept ++ lost) true m').rescan goal token) := by
  intro token' hok hahead
  have htoken' : token.start = placeAt (kept ++ lost) n := htoken.trans (placeAt_append hn).symm
  obtain ⟨again, hnext, rfl⟩ := next_of_rescan (Nat.le_of_lt hn) htoken (Prod.ext hok rfl)
  rw [rescan_standing true m' (by rw [List.length_append]; omega) htoken',
    repeats_next (Nat.le_of_lt hn) hgoal again (congrArg Prod.fst hnext) hahead]
  rfl

theorem ne_tooDeep_of_lexical {f : Fault} (h : ∃ e p, f = .lexical e p ∧ e.Printable) :
    f.diagnostic.kind ≠ .tooDeep := by
  obtain ⟨e, p, rfl, _⟩ := h
  change ErrorKind.lexical ≠ .tooDeep
  decide

/-- What the two receive, if the first gets ahead of the cut. -/
theorem Repeats.agree {r₁ r₂ : Except Fault Token × Scanner} {post : Input → Input → Prop} {old : Scanner}
    (h : Repeats kept lost r₁ r₂) (hlexical : ∀ {f}, r₁.1 = .error f → ∃ e p, f = .lexical e p ∧ e.Printable)
    (hpost : ∀ token scanner, r₁ = (.ok token, scanner) → Ahead kept token ∧
      post { i with scanner, token }
        { i with scanner := (ofSource (.carrying (kept ++ lost) true)).moveTo token.stop, token }) :
    AgreeUpTo (·.diagnostic.kind ≠ .tooDeep) True (fun _ _ => True) post (i.receive r₁)
      (Input.receive { i with scanner := old } r₂) := by
  rcases r₁ with ⟨f | token, scanner⟩
  · rcases r₂ with ⟨_ | _, _⟩
    · trivial
    · exact ne_tooDeep_of_lexical (hlexical rfl)
  · obtain ⟨hahead, hpost⟩ := hpost token scanner rfl
    rw [h token rfl hahead]
    exact hpost

/-! ## Passing tokens -/

/-- What the two read from the same index, if the first may still fail clear of the cut. -/
theorem agree_next {old : Scanner} (hn : n ≤ kept.length) (hgoal : goal ≠ .templateTail) (hle : i.consumed.length ≤ n)
    (hfinish : i.MayFinish (FailsClear kept) (i.receive ((standing kept true n).next goal))) :
    AgreeUpTo (·.diagnostic.kind ≠ .tooDeep) True (fun _ _ => True) (Alongside kept lost)
      (i.receive ((standing kept true n).next goal))
      (Input.receive { i with scanner := old } ((standing (kept ++ lost) true n).next goal)) := by
  apply (repeats_next hn fun h => absurd h hgoal).agree printable_of_next
  intro token scanner hnext
  have hreceive : i.receive ((standing kept true n).next goal) = .ok { i with scanner, token } :=
    congrArg i.receive hnext
  rw [hreceive] at hfinish
  have hstands := stands_of_next hgoal hn hnext
  have hclear := clear_of_canFinish hstands hfinish
  exact ⟨hclear.token, ⟨n, hle, hstands⟩, hclear.token, rfl⟩

theorem Alongside.advance (h : Alongside kept lost i j) (hgoal : goal ≠ .templateTail)
    (hfinish : i.consume.MayFinish (FailsClear kept) (i.advance goal)) :
    AgreeUpTo (·.diagnostic.kind ≠ .tooDeep) True (fun _ _ => True) (Alongside kept lost) (i.advance goal)
      (j.advance goal) := by
  obtain ⟨span, _, hs, _, _, hscanner, _, hscanner'⟩ := h.exists_span
  have hlt : i.consumed.length < span.behind := Nat.lt_of_le_of_lt hs.le_first hs.first_lt
  have hsame := h.same
  rw [Input.advance, hscanner] at hfinish
  rw [Input.advance, Input.advance, hscanner, hscanner']
  subst hsame
  exact agree_next (i := i.consume) hs.behind_le hgoal hlt hfinish

/-- Behind a name that is clear of the cut, tokens of the same kind are read. -/
theorem alike_next_of_clear {token token' : Token} (h : Clear kept i) (hname : i.token.isName = true)
    (hn : n ≤ kept.length) (hstop : i.token.stop = placeAt kept n)
    (hok : ((standing kept true n).next i.token.goalAfter).1 = .ok token)
    (hok' : ((standing (kept ++ lost) true n).next i.token.goalAfter).1 = .ok token') :
    AlikeKinds False token token' := by
  obtain ⟨u, hu, hahead⟩ := h.next hname
  rw [ofSource_carrying, hstop, moveTo_placeAt true hn] at hu
  have hdivision : LexicalGoal.division = .templateTail → kept[n]? = some '}' := fun h => absurd h (by decide)
  cases hgoal : i.token.goalAfter with
  | templateTail => exact absurd hgoal (Token.goalAfter_ne_templateTail _)
  | division =>
    rw [hgoal] at hok hok'
    have hrepeats : Repeats kept lost ((standing kept true n).next .division)
        ((standing (kept ++ lost) true n).next .division) := repeats_next hn hdivision
    have hwhole := congrArg Prod.fst (hrepeats u hu hahead)
    cases hok.symm.trans hu
    cases hok'.symm.trans hwhole
    exact ⟨rfl, .inl rfl⟩
  | regExp =>
    rw [hgoal] at hok hok'
    obtain ⟨span, _, hread, hleaves, _⟩ := read_of_next hn hdivision (Prod.ext hu rfl) hahead
    exact hread.alike_regExp hleaves hok hok'

/-- Looking at the next token sends the grammar the same way. -/
theorem Alongside.peek (h : Alongside kept lost i j) (hname : i.token.isName = true)
    (hpeek : i.MayPeek (FailsClear kept)) :
    AgreeUpTo (·.diagnostic.kind ≠ .tooDeep) True (fun _ _ => True) (AlikeKinds False)
      (i.scanner.next i.token.goalAfter).1 (j.scanner.next i.token.goalAfter).1 := by
  obtain ⟨span, _, hs, _, htoken, hscanner, _, hscanner'⟩ := h.exists_span
  obtain ⟨n, _, hstands⟩ := h.stands
  rcases hok : (i.scanner.next i.token.goalAfter).1 with f | token <;>
    rcases hok' : (j.scanner.next i.token.goalAfter).1 with f' | token'
  · trivial
  · exact ne_tooDeep_of_lexical (printable_of_next hok)
  · trivial
  · have hclear := clear_of_canFinish hstands (hpeek.canFinish hok)
    exact alike_next_of_clear hclear hname hs.behind_le (congrArg Token.stop htoken) (hscanner ▸ hok) (hscanner' ▸ hok')

/-! ## Reading again -/

theorem Alongside.rescan {post : Input → Input → Prop} (h : Alongside kept lost i j) (hgoal : Rereads i.token goal)
    (hfinish : i.MayFinish (FailsClear kept) (i.rescan goal))
    (hpost : ∀ i' j', i.rescan goal = .ok i' → Alongside kept lost i' j' → post i' j') :
    AgreeUpTo (·.diagnostic.kind ≠ .tooDeep) True (fun _ _ => True) post (i.rescan goal) (j.rescan goal) := by
  obtain ⟨span, _, hs, hlt, htoken, hscanner, htoken', hscanner'⟩ := h.exists_span
  obtain ⟨n, hn, hstands⟩ := h.stands
  have hfirst : span.first < kept.length := Nat.lt_trans hs.first_lt hlt
  have hrepeats : Repeats kept lost (i.scanner.rescan goal i.token) (j.scanner.rescan goal j.token) := by
    rw [hscanner, hscanner', htoken']
    exact repeats_rescan hfirst (congrArg Token.start htoken) (hs.getElem?_of_rereads (htoken ▸ hgoal))
  have hsame := h.same
  subst hsame
  apply hrepeats.agree printable_of_rescan
  intro token scanner hrescan
  have hinput : i.rescan goal = .ok { i with scanner, token } := congrArg i.receive hrescan
  rw [hinput] at hfinish
  have hagain := hstands.rescan hgoal hrescan
  have hclear := clear_of_canFinish hagain hfinish
  exact ⟨hclear.token, hpost _ _ hinput ⟨⟨n, hn, hagain⟩, hclear.token, rfl⟩⟩

/-! ## Lockstep -/

theorem alikeTokens_refl (t : Token) : AlikeTokens (fun _ => True) Eq Eq False t t := by
  refine ⟨⟨rfl, .inl rfl⟩, rfl, rfl, fun _ => rfl, ?_, trivial⟩
  cases t.malformedEscape? with
  | none => exact .none
  | some => exact .some rfl

/-- No more tokens are consumed than turns are granted. -/
theorem Alongside.turns (h : Alongside kept lost i j) :
    i.consumed.length + 2 ≤ (Source.carrying kept true).text.length + 2 ∧
      i.consumed.length + 2 ≤ (Source.carrying (kept ++ lost) true).text.length + 2 := by
  obtain ⟨n, hn, hstands⟩ := h.stands
  have hle := le_length_of_stands hstands
  simp only [Source.carrying, List.length_append]
  omega

/-- The recognitions of the text that is cut off and of the whole run in lockstep. -/
def simulation (kept lost : List Char) : Simulation where
  known _ := True
  place := Eq
  stop := Eq
  breaks := False
  fault _ _ := True
  cut f := f.diagnostic.kind ≠ .tooDeep
  excuse := True
  finish := FailsClear kept
  input _ := Alongside kept lost
  history _ := True
  turns₁ := (Source.carrying kept true).text.length + 2
  turns₂ := (Source.carrying (kept ++ lost) true).text.length + 2
  fault_of_cut _ := trivial
  fault_of_excuse _ _ _ := trivial
  history_of_excuse _ _ := trivial
  fault_of_place _ _ := trivial
  fault_of_token _ _ := trivial
  fault_of_escape _ := trivial
  fault_of_throw := False.elim
  offset_eq_iff := @offset_eq_iff_of_eq
  weaken h := h
  token_of_input h := by
    rw [h.same]
    exact alikeTokens_refl _
  stop_of_input h := by
    rw [h.same]
    rfl
  history_of_input _ _ := trivial
  history_of_consume _ _ _ := trivial
  turns_of_input h := h.turns
  advance h _ hgoal hfinish := h.advance hgoal hfinish
  peek h hname hpeek := h.peek hname hpeek
  isEnd_next_eq h hend := by
    obtain ⟨n, _, hstands⟩ := h.stands
    exact isEnd_next_eq_of_stands hstands hend
  rescanRegExp h hdivision hfinish := by
    obtain ⟨n, _, hstands⟩ := h.stands
    exact h.rescan (.regExp hdivision) hfinish fun _ _ hrescan h =>
      ⟨h, isDivision_of_rescan hstands hdivision hrescan⟩
  rescanTemplate h hbrace hfinish := h.rescan (.template hbrace) hfinish fun _ _ _ h => h
  noteOmission h := ⟨h.stands, h.ahead, congrArg Input.noteOmission h.same⟩
  noteStart h _ := ⟨h.stands, h.ahead, congrArg Input.noteStart h.same⟩
  noteEnd h := ⟨h.stands, h.ahead, congrArg Input.noteEnd h.same⟩
  noteTurn h h' _ _ := by
    refine ⟨h'.stands, h'.ahead, ?_⟩
    rw [h.same]
    exact congrArg (Input.noteTurn _) h'.same

theorem start_outcome (isModule : Bool) (kept lost : List Char) :
    (simulation kept lost).Outcome (fun _ _ => (simulation kept lost).At false 0 3)
      (start (.initial isModule (.carrying kept true)))
      (start (.initial isModule (.carrying (kept ++ lost) true))) := by
  have hscanner (text : List Char) : ofSource (.carrying text true) = standing text true 0 :=
    ofSource_carrying text true
  refine Simulation.At.receive (fun _ => trivial) (fun hfinish => ?_) fun _ _ _ _ (h : Alongside kept lost _ _) => ?_
  · simp only [State.initial, hscanner] at hfinish ⊢
    exact agree_next (Nat.zero_le _) (by decide) (Nat.le_refl 0) hfinish
  · exact ⟨h, rfl, rfl, rfl, rfl, Nat.le_refl 0, rfl, rfl, rfl, rfl, rfl, Nat.le_refl 3⟩

end Truncation

end Grammar

end EcmaCheck
