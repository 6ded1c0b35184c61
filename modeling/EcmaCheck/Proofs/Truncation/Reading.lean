import EcmaCheck.Proofs.InStep
import EcmaCheck.Proofs.Spacing.Missing

/-!
# Reading a text that is cut off

What is read of a text `kept` is read of every text `kept ++ lost` as well, where a character of `kept` is left behind
it (`Leaves`), since no reading looks further ahead than that (`Span.Read.append`). Only a point in front of another one
has to leave a character more. A recognition of `kept` is clear of the cut while its current token ends like this, and
the next one too if the current one is a name, behind which the grammar may look (`Clear`). From other places it does
not get clear any more (`clear_of_leads`), and the tokens that it has left to consume are worth three levels at the most
(`earned_le_of_not_clear`).
-/

namespace EcmaCheck

open Lexical Scanner

/-! ## Before the cut -/

variable {kept lost text : List Char} {n : Nat} {goal : LexicalGoal} {span : Span}

theorem placeAt_append (h : n < kept.length) : placeAt (kept ++ lost) n = placeAt kept n := by
  have htake : Position.start.advance false n ((kept ++ lost).take kept.length) =
      Position.start.advance false n (kept ++ lost) := Position.advance_take .start h
  rw [List.take_left] at htake
  exact htake.symm

theorem token_append (hs : span.first < span.behind) (h : span.behind < kept.length) :
    span.token (kept ++ lost) = span.token kept := by
  have hfirst : span.first ≤ kept.length := by omega
  rw [Span.token, Span.token, placeAt_append h, placeAt_append (by omega), List.drop_append_of_le_length hfirst,
    List.take_append_of_le_length (by rw [List.length_drop]; omega)]

theorem rest_standing_append (h : n ≤ kept.length) :
    (standing (kept ++ lost) true n).rest = kept.drop n ++ (lost ++ ['\n']) := by
  rw [rest_standing_true (by rw [List.length_append]; omega), List.drop_append_of_le_length h, List.append_assoc]

theorem skipGap_append {k : Nat} {newline : Bool} (h : (standing kept true n).skipGap goal = ⟨k, .ok newline⟩)
    (hlt : n + k + 1 < kept.length) : (standing (kept ++ lost) true n).skipGap goal = ⟨k, .ok newline⟩ := by
  unfold skipGap at h ⊢
  split
  · rename_i hgoal
    rwa [if_pos hgoal] at h
  · rename_i hgoal
    rw [if_neg hgoal, rest_standing_true (by omega)] at h
    have hposition : (standing (kept ++ lost) true n).position = (standing kept true n).position :=
      placeAt_append (by omega)
    have hlength : k + 1 < (kept.drop n).length := by
      rw [List.length_drop]
      omega
    rw [rest_standing_append (by omega), hposition]
    exact gap_closed h (by omega) (.inl hlength)

/-- Behind a token that ends at the index, the text goes on as far as its reading has looked. -/
structure Leaves (text : List Char) (kind : TokenKind) (n : Nat) : Prop where
  lt : n < text.length
  points : kind = .punctuator .dot → text[n]? = some '.' → n + 1 < text.length

theorem element_append {m : Nat} {kind : TokenKind} (h : element true goal (standing kept true n).rest = ⟨m, .ok kind⟩)
    (hpos : 0 < m) (hleaves : Leaves kept kind (n + m)) :
    element true goal (standing (kept ++ lost) true n).rest = ⟨m, .ok kind⟩ := by
  have hlt := hleaves.lt
  have hlength : (kept.drop n).length = kept.length - n := List.length_drop
  rw [rest_standing_true (by omega)] at h
  rw [rest_standing_append (by omega)]
  refine element_closed (List.length_pos_iff.mp (by omega)) (fun _ => ⟨List.cons_ne_nil _ _, by simp⟩)
    (fun hpoint => absurd hpoint.2 (by decide)) h hpos (by omega) (.inl (by omega)) fun hdot hpoint => .inl ?_
  by_cases hone : m = 1
  · subst hone
    have hmore := hleaves.points hdot (List.getElem?_drop ▸ hpoint)
    omega
  · omega

/-- A token that leaves enough of the text is read of the longer text as well. -/
theorem Span.Read.append (h : span.Read kept goal n) (hleaves : Leaves kept span.kind span.behind) :
    span.Read (kept ++ lost) goal n := by
  have hfirst := h.le_first
  have hlt := h.first_lt
  have hbehind := hleaves.lt
  have hend : span.first + (span.behind - span.first) = span.behind := Nat.add_sub_cancel' (Nat.le_of_lt hlt)
  refine ⟨hfirst, hlt, by rw [List.length_append]; omega, skipGap_append h.gap (by omega), ?_⟩
  exact element_append h.element (by omega) (by rwa [hend])

/-! ## Ahead of the cut -/

/-- The text goes on behind the token as far as its reading has looked. -/
def Ahead (text : List Char) (t : Token) : Prop :=
  ∃ n, Leaves text t.kind n ∧ t.stop = placeAt text n

theorem ahead_iff {t : Token} (hn : n ≤ text.length) (hstop : t.stop = placeAt text n) :
    Ahead text t ↔ Leaves text t.kind n := by
  constructor
  · rintro ⟨m, hleaves, hplace⟩
    rwa [eq_of_placeAt_eq hn (Nat.le_of_lt hleaves.lt) (hstop.symm.trans hplace)]
  · exact fun h => ⟨n, h, hstop⟩

theorem not_ahead_endToken (newline : Bool) : ¬ Ahead text (endToken text newline) :=
  fun h => Nat.lt_irrefl _ ((ahead_iff (Nat.le_refl _) rfl).mp h).lt

/-- A token that ends ahead is a span, behind which the scanner stands. -/
theorem Scanner.read_of_next {token : Token} {scanner : Scanner} (hn : n ≤ text.length)
    (hgoal : goal = .templateTail → text[n]? = some '}') (h : (standing text true n).next goal = (.ok token, scanner))
    (hahead : Ahead text token) : ∃ span : Span, span.Within text goal n ∧ span.Read text goal n ∧
      Leaves text span.kind span.behind ∧ token = span.token text ∧ scanner = standing text true span.behind := by
  cases gives hn hgoal h with
  | reads span hs hread htoken hscanner =>
    subst htoken
    exact ⟨span, hs, hread, (ahead_iff hs.behind_le rfl).mp hahead, rfl, hscanner⟩
  | ends hend =>
    cases scans goal hn hgoal with
    | fails _ _ hfails => cases (hfails true).symm.trans (congrArg Prod.fst h)
    | ends _ _ _ hends =>
      have htoken := Except.ok.inj ((hends true).symm.trans (congrArg Prod.fst h))
      rw [← htoken] at hahead
      exact absurd hahead (not_ahead_endToken _)
    | reads span hs _ hreads =>
      have htoken := Except.ok.inj (congrArg Prod.fst ((hreads true).symm.trans h))
      rw [← htoken, hs.isEnd_token] at hend
      cases hend

/-- Where a token ends ahead, so does what is read there as after an operand. -/
theorem Span.Read.division (h : span.Read text goal n) (hgoal : goal ≠ .templateTail)
    (hleaves : Leaves text span.kind span.behind) :
    ∃ u, ((standing text true n).next .division).1 = .ok u ∧ Ahead text u := by
  have hfirst := h.le_first
  have hlt := h.first_lt
  have hbehind := hleaves.lt
  have hplace : n + (span.first - n) = span.first := Nat.add_sub_cancel' hfirst
  have hgap : (standing text true n).skipGap .division = ⟨span.first - n, .ok span.newlineBefore⟩ := by
    rw [← h.gap, skipGap, skipGap, if_neg hgoal, if_neg (by decide)]
  obtain ⟨m, kind, helement, hm, hdot⟩ : ∃ m kind,
      Lexical.element true .division (standing text true span.first).rest = ⟨m, .ok kind⟩ ∧
        m ≤ span.behind - span.first ∧
        (kind = .punctuator .dot → m = span.behind - span.first ∧ span.kind = kind) := by
    cases goal with
    | division => exact ⟨_, _, h.element, Nat.le_refl _, fun _ => ⟨rfl, rfl⟩⟩
    | regExp => exact exists_division_of_regExp h.element
    | templateTail => exact absurd rfl hgoal
  have hnext := next_element hgap (by omega) (by rw [hplace]; exact helement) (by omega)
  rw [hnext]
  refine ⟨_, rfl, n + (span.first - n) + m, ⟨by omega, fun hkind => ?_⟩, rfl⟩
  obtain ⟨hm, hsame⟩ := hdot hkind
  have hend : n + (span.first - n) + m = span.behind := by omega
  rw [hend]
  exact hleaves.points (hsame.trans hkind)

namespace Grammar

variable {i i' j : Input} {ok : Bool}

/-! ## Passing tokens -/

/-- The levels that the tokens of the text may be worth, if each takes a single character. -/
def worthAtMost (text : List Char) : Nat :=
  text.length + text.count '{'

theorem worth_add_worthAtMost_le (hs : span.Within text goal n) :
    (span.token text).worth + worthAtMost (text.drop span.behind) ≤ worthAtMost (text.drop n) := by
  have hfirst := hs.le_first
  have hlt := hs.first_lt
  have hle := hs.behind_le
  have hcount {k m : Nat} (h : k ≤ m) : (text.drop m).count '{' ≤ (text.drop k).count '{' :=
    (List.drop_sublist_drop_left text h).count_le '{'
  unfold worthAtMost
  rw [List.length_drop, List.length_drop]
  cases hbrace : (span.token text).isPunctuator .openBrace with
  | false =>
    have hworth : (span.token text).worth = 1 := if_neg (Bool.eq_false_iff.mp hbrace)
    have hbehind : (text.drop span.behind).count '{' ≤ (text.drop n).count '{' := hcount (by omega)
    omega
  | true =>
    have hworth : (span.token text).worth = 2 := if_pos hbrace
    have hopen : text[span.first]? = some '{' := hs.getElem?_first (Token.isPunctuator_iff.mp hbrace) rfl
    have hbehind : (text.drop span.behind).count '{' ≤ (text.drop (span.first + 1)).count '{' := hcount hlt
    have hcons : (text.drop span.first).count '{' = (text.drop (span.first + 1)).count '{' + 1 := by
      rw [List.drop_eq_getElem_cons (by omega), (List.getElem?_eq_some_iff.mp hopen).2, List.count_cons_self]
    have hdrop : (text.drop span.first).count '{' ≤ (text.drop n).count '{' := hcount hfirst
    omega

theorem earned_of_advance (h : i.advance goal = .ok i') : i'.earned = i.token.worth + i.earned := by
  rw [(Input.eq_of_receive h).2]
  exact Input.earned_consume i.token i

theorem stands_of_advance (h : Stands text true n i.token i.scanner) (hend : i.token.isEnd = false)
    (hgoal : goal ≠ .templateTail) (hadvance : i.advance goal = .ok i') :
    ∃ m, n < m ∧ i.token.stop = placeAt text m ∧ m ≤ text.length ∧ Stands text true m i'.token i'.scanner ∧
      i.token.worth + worthAtMost (text.drop m) ≤ worthAtMost (text.drop n) := by
  cases h with
  | atEnd _ _ _ htoken => rw [htoken] at hend; cases hend
  | amid span hs _ htoken hscanner =>
    have hnext := (Input.eq_of_receive hadvance).1
    rw [hscanner] at hnext
    have hfirst := hs.le_first
    have hlt := hs.first_lt
    have hworth : i.token.worth + worthAtMost (text.drop span.behind) ≤ worthAtMost (text.drop n) :=
      htoken ▸ worth_add_worthAtMost_le hs
    exact ⟨span.behind, by omega, congrArg Token.stop htoken, hs.behind_le, stands_of_next hgoal hs.behind_le hnext,
      hworth⟩

/-! ## Clear of the cut -/

/-- The current token ends ahead of the cut, and so does the next one, read as after an operand, if the current one is a
name. -/
structure Clear (text : List Char) (i : Input) : Prop where
  token : Ahead text i.token
  next : i.token.isName = true →
    ∃ u, (((ofSource (.carrying text true)).moveTo i.token.stop).next .division).1 = .ok u ∧ Ahead text u

/-- Where the next token ends ahead, the recognition is clear of the cut. -/
theorem clear_of_advance (h : Stands text true n i.token i.scanner) (hend : i.token.isEnd = false)
    (hgoal : goal ≠ .templateTail) (hadvance : i.advance goal = .ok i') (hahead : Ahead text i'.token) :
    Clear text i := by
  cases h with
  | atEnd _ _ _ htoken => rw [htoken] at hend; cases hend
  | amid span hs _ htoken hscanner =>
    have hnext := (Input.eq_of_receive hadvance).1
    rw [hscanner] at hnext
    obtain ⟨span', _, hread, hleaves, _⟩ := read_of_next hs.behind_le (fun h => absurd h hgoal) hnext hahead
    have hfirst := hread.le_first
    have hlt := hread.first_lt
    have hbehind := hleaves.lt
    have hstop : i.token.stop = placeAt text span.behind := congrArg Token.stop htoken
    refine ⟨⟨span.behind, ⟨by omega, fun _ _ => by omega⟩, hstop⟩, fun _ => ?_⟩
    rw [ofSource_carrying, hstop, moveTo_placeAt true hs.behind_le]
    exact hread.division hgoal hleaves

theorem not_point_of_rereads {t : Token} (h : Rereads t goal) : t.kind ≠ .punctuator .dot := by
  intro hdot
  cases h with
  | regExp h | template h => simp [isDivision, Token.isPunctuator, hdot] at h

/-- A token that is read again does not get shorter. -/
theorem ahead_of_rescan (h : Stands text true n i.token i.scanner) (hgoal : Rereads i.token goal)
    (hrescan : i.rescan goal = .ok i') (hahead : Ahead text i'.token) : Ahead text i.token := by
  have hpoint := not_point_of_rereads hgoal
  cases h with
  | atEnd _ _ _ htoken => exact absurd hgoal (not_rereads_of_isEnd (by rw [htoken]; rfl) goal)
  | amid span hs hgap htoken hscanner =>
    have hread := (Input.eq_of_receive hrescan).1
    have hstop : i.token.stop = placeAt text span.behind := congrArg Token.stop htoken
    rw [htoken] at hgoal hread
    rw [hscanner] at hread
    obtain ⟨again, hnext, hagain⟩ := next_of_rescan hs.first_le rfl hread
    rw [hagain] at hahead
    obtain ⟨span', _, hread, hleaves, _⟩ := read_of_next hs.first_le (hs.getElem?_of_rereads hgoal) hnext hahead
    have hbehind := hs.behind_le_again hgoal hread
    have hlt := hleaves.lt
    exact ⟨span.behind, ⟨by omega, fun hdot => absurd hdot hpoint⟩, hstop⟩

theorem clear_of_rescan (h : Stands text true n i.token i.scanner) (hgoal : Rereads i.token goal)
    (hrescan : i.rescan goal = .ok i') (hahead : Ahead text i'.token) : Clear text i :=
  ⟨ahead_of_rescan h hgoal hrescan hahead, fun hname => absurd hgoal (not_rereads_of_isName hname goal)⟩

/-- Whether the text goes on does not depend on what is expected. -/
theorem isEnd_next_eq_of_stands {goal' : LexicalGoal} {token token' : Token} (h : Stands text true n i.token i.scanner)
    (hend : i.token.isEnd = false) (hgoal : goal ≠ .templateTail) (hgoal' : goal' ≠ .templateTail)
    (hok : (i.scanner.next goal).1 = .ok token) (hok' : (i.scanner.next goal').1 = .ok token') :
    token.isEnd = token'.isEnd := by
  cases h with
  | atEnd _ _ _ htoken => rw [htoken] at hend; cases hend
  | amid span hs _ _ hscanner =>
    rw [hscanner] at hok hok'
    rw [(scans _ hs.behind_le fun h => absurd h hgoal).isEnd_eq hok hgoal,
      (scans _ hs.behind_le fun h => absurd h hgoal').isEnd_eq hok' hgoal']

/-- A division that is read again is none any more. -/
theorem isDivision_of_rescan (h : Stands text true n i.token i.scanner) (hdivision : isDivision i.token = true)
    (hrescan : i.rescan .regExp = .ok i') : isDivision i'.token = false := by
  cases h with
  | atEnd _ _ _ htoken => rw [htoken] at hdivision; cases hdivision
  | amid span hs _ htoken hscanner =>
    have hread := (Input.eq_of_receive hrescan).1
    rw [hscanner] at hread
    have hscans := rescans .regExp span.behind i.token hs.first_le (congrArg Token.start htoken)
      fun h => absurd h (by decide)
    exact Comparison.isDivision_eq_false_iff.mpr (hscans.not_division (congrArg Prod.fst hread))

theorem le_length_of_stands (h : Stands text true n i.token i.scanner) : n ≤ text.length := by
  cases h with
  | atEnd _ hn => exact hn
  | amid span hs => exact Nat.le_trans hs.le_first hs.first_le

/-- The current token is consumed only if it is not the end of the text. -/
theorem isEnd_of_advance (hadvance : i.advance goal = .ok i') (hleads : i'.Leads ok j)
    (hj : ∀ t ∈ j.consumed, t.isEnd = false) : i.token.isEnd = false := by
  apply hj
  apply hleads.consumed_suffix.subset
  rw [(Input.eq_of_receive hadvance).2]
  exact List.mem_cons_self

/-- A recognition that gets clear of the cut was so before. -/
theorem clear_of_leads (h : Stands text true n i.token i.scanner) (hleads : i.Leads ok j)
    (hj : ∀ t ∈ j.consumed, t.isEnd = false) (hclear : Clear text j) : Clear text i := by
  induction hleads generalizing n with
  | done => exact hclear
  | fails | misreads => exact { hclear with }
  | advance hgoal hadvance hleads ih =>
    have hend := isEnd_of_advance hadvance hleads hj
    obtain ⟨m, _, _, _, hstands, _⟩ := stands_of_advance h hend hgoal hadvance
    exact clear_of_advance h hend hgoal hadvance (ih hstands hj hclear).token
  | rescan hgoal hrescan _ ih =>
    have hstands := h.rescan hgoal (Input.eq_of_receive hrescan).1
    exact clear_of_rescan h hgoal hrescan (ih hstands hj hclear).token
  | noteOmission _ ih | noteStart _ ih | noteEnd _ ih | noteTurn _ _ ih => exact { ih h hj hclear with }

/-! ## Tokens behind the cut -/

theorem worth_le_of_stands (h : Stands text true n i.token i.scanner) (hend : i.token.isEnd = false) :
    i.token.worth ≤ worthAtMost (text.drop n) := by
  cases h with
  | atEnd _ _ _ htoken => rw [htoken] at hend; cases hend
  | amid span hs _ htoken =>
    rw [htoken]
    exact Nat.le_of_add_right_le (worth_add_worthAtMost_le hs)

/-- No more is earned than the rest of the text may be worth. -/
theorem earned_le_of_stands (h : Stands text true n i.token i.scanner) (hleads : i.Leads ok j)
    (hj : ∀ t ∈ j.consumed, t.isEnd = false) : j.earned ≤ i.earned + worthAtMost (text.drop n) := by
  induction hleads generalizing n with
  | done | fails => exact Nat.le_add_right _ _
  | @misreads i =>
    have hworth := worth_le_of_stands h (hj _ List.mem_cons_self)
    change i.token.worth + i.earned ≤ _
    omega
  | advance hgoal hadvance hleads ih =>
    obtain ⟨m, _, _, _, hstands, hworth⟩ := stands_of_advance h (isEnd_of_advance hadvance hleads hj) hgoal hadvance
    have hrest := ih hstands hj
    rw [earned_of_advance hadvance] at hrest
    omega
  | rescan hgoal hrescan _ ih =>
    have hrest := ih (h.rescan hgoal (Input.eq_of_receive hrescan).1) hj
    rwa [(Input.eq_of_receive hrescan).2] at hrest
  | noteOmission _ ih | noteStart _ ih | noteEnd _ ih | noteTurn _ _ ih => exact ih h hj

/-- Behind a token that does not end ahead of the cut, there is no other one, unless both are points. -/
theorem worth_add_le_of_not_ahead {t : Token} (hn : n ≤ text.length) (hstop : t.stop = placeAt text n)
    (hnot : ¬ Ahead text t) : t.worth + worthAtMost (text.drop n) ≤ 2 := by
  by_cases hlt : n < text.length
  · have hleaves : ¬ Leaves text t.kind n := mt (ahead_iff hn hstop).mpr hnot
    have hpoints : t.kind = .punctuator .dot ∧ text[n]? = some '.' := by
      by_contra hpoints
      exact hleaves ⟨hlt, fun hdot hpoint => absurd ⟨hdot, hpoint⟩ hpoints⟩
    obtain ⟨hdot, hpoint⟩ := hpoints
    have hlast : ¬ n + 1 < text.length := fun hmore => hleaves ⟨hlt, fun _ _ => hmore⟩
    have hworth : t.worth = 1 := if_neg (by rw [Token.isPunctuator, hdot]; decide)
    have hdrop : text.drop n = ['.'] := by
      rw [List.drop_eq_getElem_cons hlt, (List.getElem?_eq_some_iff.mp hpoint).2, List.drop_eq_nil_of_le (by omega)]
    rw [hworth, hdrop]
    decide
  · rw [List.drop_eq_nil_of_le (Nat.le_of_not_lt hlt)]
    exact t.worth_le

/-- From a token that does not end ahead of the cut, two levels are earned at the most. -/
theorem earned_le_of_not_ahead (h : Stands text true n i.token i.scanner) (hleads : i.Leads ok j)
    (hj : ∀ t ∈ j.consumed, t.isEnd = false) (hnot : ¬ Ahead text i.token) : j.earned ≤ i.earned + 2 := by
  induction hleads generalizing n with
  | done | fails => exact Nat.le_add_right _ _
  | @misreads i =>
    have hworth := i.token.worth_le
    change i.token.worth + i.earned ≤ _
    omega
  | advance hgoal hadvance hleads ih =>
    obtain ⟨m, _, hstop, hle, hstands, _⟩ := stands_of_advance h (isEnd_of_advance hadvance hleads hj) hgoal hadvance
    have hrest := earned_le_of_stands hstands hleads hj
    have hworth := worth_add_le_of_not_ahead hle hstop hnot
    rw [earned_of_advance hadvance] at hrest
    omega
  | rescan hgoal hrescan _ ih =>
    have hagain := ih (h.rescan hgoal (Input.eq_of_receive hrescan).1) hj (mt (ahead_of_rescan h hgoal hrescan) hnot)
    rwa [(Input.eq_of_receive hrescan).2] at hagain
  | noteOmission _ ih | noteStart _ ih | noteEnd _ ih | noteTurn _ _ ih => exact ih h hj hnot

theorem worth_of_isName {t : Token} (h : t.isName = true) : t.worth = 1 := by
  refine if_neg fun hbrace => ?_
  rw [Token.isName, Token.isPunctuator_iff.mp hbrace] at h
  cases h

/-- Unless it is clear of the cut, a recognition earns three more levels at the most. -/
theorem earned_le_of_not_clear (h : Stands text true n i.token i.scanner) (hleads : i.Leads ok j)
    (hj : ∀ t ∈ j.consumed, t.isEnd = false) (hnot : ¬ Clear text i) : j.earned ≤ i.earned + 3 := by
  by_cases hahead : Ahead text i.token
  · -- the current token is a name, behind which nothing ends ahead
    have hname : i.token.isName = true := by
      by_contra hname
      exact hnot ⟨hahead, fun h => absurd h hname⟩
    have hworth := worth_of_isName hname
    clear hahead
    induction hleads generalizing n with
    | done | fails => exact Nat.le_add_right _ _
    | @misreads i =>
      change i.token.worth + i.earned ≤ _
      omega
    | advance hgoal hadvance hleads ih =>
      have hend := isEnd_of_advance hadvance hleads hj
      obtain ⟨m, _, _, _, hstands, _⟩ := stands_of_advance h hend hgoal hadvance
      have hrest := earned_le_of_not_ahead hstands hleads hj (mt (clear_of_advance h hend hgoal hadvance) hnot)
      rw [earned_of_advance hadvance] at hrest
      omega
    | rescan hgoal => exact absurd hgoal (not_rereads_of_isName hname _)
    | noteOmission _ ih | noteStart _ ih | noteEnd _ ih | noteTurn _ _ ih =>
      exact ih h hj (fun hclear => hnot { hclear with }) hname hworth
  · exact Nat.le_succ_of_le (earned_le_of_not_ahead h hleads hj hahead)

end Grammar

end EcmaCheck
