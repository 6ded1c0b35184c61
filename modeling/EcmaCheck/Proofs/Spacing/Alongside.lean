import EcmaCheck.Proofs.Comparison
import EcmaCheck.Proofs.Spacing.Missing

/-!
# Recognitions with and without spacing

White space and comments are inserted into a text (`Spacing`). As long as the recognition of the text may still
come to a token that ends at the place, the recognitions of both texts run in lockstep (`Insertion.simulation`): before
the place they read the same tokens, and behind it the second reads those of the first that much later.
-/

namespace EcmaCheck

open Lexical Scanner Grammar

/-- The second fault is told as the first is, wherever it is. -/
structure Fault.ToldAs (f g : Fault) : Prop where
  kind : g.diagnostic.kind = f.diagnostic.kind
  message : g.diagnostic.message = f.diagnostic.message

/-- White space and block comments in which no line ends, beginning with white space. -/
structure Lexical.Spacing (w : List Char) : Prop where
  first : ∃ c rest, w = c :: rest ∧ isWhiteSpace c = true
  padding : Padding w

namespace Insertion

variable (t : Insertion)

/-- Corresponding ends of tokens. -/
def Stops (p q : Position) : Prop :=
  q.offset = if p.offset ≤ byteLength t.before then p.offset else byteLength t.inserted + p.offset

/-- The scanners and their tokens; the first has consumed the tokens given. Before the place both have read the same
token, and behind it tokens alike. -/
inductive Reached (consumed : List Token) (scanner₁ scanner₂ : Scanner) (token₁ token₂ : Token) : Prop
  | front (span : Span) {goal : LexicalGoal} (hs : span.Within t.plain goal consumed.length)
    (hle : span.behind ≤ t.before.length) (hnot : ¬ t.EndsThere consumed) (h₁ : token₁ = span.token t.plain)
    (h₂ : token₂ = span.token t.whole) (hscanner₁ : scanner₁ = standing t.plain true span.behind)
    (hscanner₂ : scanner₂ = standing t.whole true span.behind)
  | behind (span : Span) {goal : LexicalGoal} (hs : span.Within t.plain goal consumed.length)
    (hne : t.before ≠ []) (hle : t.before.length ≤ span.first) (h₁ : token₁ = span.token t.plain)
    (h₂ : token₂ = (span.later t.inserted.length).token t.whole)
    (hscanner₁ : scanner₁ = standing t.plain true span.behind)
    (hscanner₂ : scanner₂ = standing t.whole true (t.inserted.length + span.behind))
  | atEnd (newline : Bool) (hn : consumed.length ≤ t.plain.length) (h₁ : token₁ = endToken t.plain newline)
    (h₂ : token₂ = endToken t.whole newline)

/-- Where the two stand in their texts. -/
structure Alongside (i j : Input) : Prop where
  reached : Reached t i.consumed i.scanner j.scanner i.token j.token
  previousEnd : t.Stops i.previousEnd j.previousEnd

variable {t} {n : Nat} {goal : LexicalGoal} {consumed : List Token} {scanner₁ scanner₂ : Scanner}
  {token₁ token₂ : Token}

theorem closed_of_spacing (ht : Spacing t.inserted) : t.Closed := by
  obtain ⟨c, rest, hinserted, hc⟩ := ht.first
  exact ⟨c, rest, hinserted, closes_of_isWhiteSpace hc⟩

/-! ## Places -/

theorem offset_before : (placeAt t.plain t.before.length).offset = byteLength t.before := by
  rw [offset_placeAt before_le, plain, List.take_left]

theorem stops_front (hn : n ≤ t.before.length) : t.Stops (placeAt t.plain n) (placeAt t.whole n) := by
  rw [Stops, offset_front hn, if_pos]
  exact offset_before ▸ offset_placeAt_le hn before_le

theorem stops_behind (hn : t.before.length < n) (hle : n ≤ t.plain.length) :
    t.Stops (placeAt t.plain n) (placeAt t.whole (t.inserted.length + n)) := by
  rw [Stops, offset_behind (Nat.le_of_lt hn) hle, if_neg]
  exact Nat.not_le_of_lt (offset_before ▸ offset_placeAt_lt hn hle)

theorem stops_iff {p₁ p₂ q₁ q₂ : Position} (hp : t.Stops p₁ p₂) (hq : t.Stops q₁ q₂) :
    p₁.offset = q₁.offset ↔ p₂.offset = q₂.offset := by
  unfold Stops at hp hq
  split at hp <;> split at hq <;> omega

/-! ## Tokens -/

theorem rel_malformedEscape (h : token₂.kind = token₁.kind) :
    Option.Rel (fun _ _ : Position => True) token₁.malformedEscape? token₂.malformedEscape? := by
  unfold Token.malformedEscape?
  rw [h]
  split
  · exact .some trivial
  · exact .none

theorem alike_of_reached (h : Reached t consumed scanner₁ scanner₂ token₁ token₂) :
    AlikeTokens (fun _ => True) (fun _ _ => True) t.Stops False token₁ token₂ := by
  have hkind : token₂.kind = token₁.kind := by
    cases h with
    | front _ _ _ _ h₁ h₂ | behind _ _ _ _ h₁ h₂ | atEnd _ _ h₁ h₂ => rw [h₁, h₂]; rfl
  refine ⟨⟨hkind, .inl ?_⟩, ?_, trivial, fun hend => ?_, rel_malformedEscape hkind, trivial⟩ <;> cases h with
  | front span hs hle _ h₁ h₂ =>
    rw [h₁, h₂]
    first | exact lexeme_front hle hs.first_lt | exact stops_front hle | rfl
  | behind span hs _ hle h₁ h₂ =>
    rw [h₁, h₂]
    first | exact lexeme_behind hle | exact stops_behind (Nat.lt_of_le_of_lt hle hs.first_lt) hs.behind_le | rfl
  | atEnd _ _ h₁ h₂ =>
    first
    | rw [h₁] at hend
      cases hend
    | rw [h₁, h₂]
      rfl

theorem length_le_of_reached (h : Reached t consumed scanner₁ scanner₂ token₁ token₂) :
    consumed.length ≤ t.plain.length := by
  cases h with
  | front _ hs | behind _ hs => exact Nat.le_trans hs.le_first hs.first_le
  | atEnd _ hn => exact hn

/-! ## Reading -/

/-- Readings before the place. -/
inductive Approaches (t : Insertion) (goal : LexicalGoal) (n : Nat) (r₁ r₂ : Except Fault Token × Scanner) : Prop
  | stops {f : Fault} (h : r₁.1 = .error f)
  | misses {token : Token} {scanner : Scanner} (h : r₁ = (.ok token, scanner)) (hm : t.Missed token scanner)
  | reads (span : Span) (hs : span.Within t.plain goal n) (hle : span.behind ≤ t.before.length)
    (h₁ : r₁ = (.ok (span.token t.plain), standing t.plain true span.behind))
    (h₂ : r₂ = (.ok (span.token t.whole), standing t.whole true span.behind))

theorem next_front (ht : t.Closed) (hn : n ≤ t.plain.length)
    (hgoal : goal = .templateTail → t.plain[n]? = some '}') :
    Approaches t goal n ((standing t.plain true n).next goal) ((standing t.whole true n).next goal) := by
  rcases hnext : (standing t.plain true n).next goal with ⟨f | token, scanner⟩
  · exact .stops rfl
  cases gives hn hgoal hnext with
  | ends hend hrest => exact .misses rfl (.ends hend hrest)
  | reads span hs h htoken hscanner =>
    rw [htoken, hscanner]
    by_cases hm : t.Misses span
    · exact .misses rfl (.of_read hs h hm)
    · obtain ⟨hle, hsplit⟩ := not_or.mp hm
      have hle := Nat.le_of_not_lt hle
      exact .reads span hs hle rfl (ht.read_front hle hsplit h).next

theorem not_atStart {text : List Char} (hpos : 0 < n) (hn : n ≤ text.length) :
    decide ((standing text true n).position.offset = 0) = false :=
  decide_eq_false (Nat.ne_of_gt (Nat.zero_lt_of_lt (offset_placeAt_lt hpos hn)))

/-- At the place, the insertion belongs to the gap. -/
theorem next_there (ht : Spacing t.inserted) (hne : t.before ≠ []) (hgoal : goal ≠ .templateTail) :
    t.Alike goal t.before.length ((standing t.plain true t.before.length).next goal)
      ((standing t.whole true t.before.length).next goal) := by
  have hpos := List.length_pos_iff.mpr hne
  have hle := before_le (t := t)
  have hlength := length_whole (t := t)
  refine next_behind (Nat.le_refl _) hle (fun h => absurd h hgoal) (Nat.add_comm _ _) ?_
  have hrest := drop_whole_front (t := t) (Nat.le_refl _) ['\n']
  have hrest' := drop_plain_front (t := t) (Nat.le_refl _) ['\n']
  rw [List.drop_length, List.nil_append] at hrest hrest'
  rw [skipGap, skipGap, if_neg hgoal, if_neg hgoal, rest_standing_true (by omega), rest_standing_true hle, hrest,
    hrest', not_atStart hpos (by omega), not_atStart hpos hle]
  exact gap_padding ht.padding _

/-- Behind the place, the second reads what the first does. -/
theorem next_later (hne : t.before ≠ []) (hn : t.before.length ≤ n) (hle : n ≤ t.plain.length)
    (hgoal : goal = .templateTail → t.plain[n]? = some '}') :
    t.Alike goal n ((standing t.plain true n).next goal)
      ((standing t.whole true (t.inserted.length + n)).next goal) := by
  have hpos := List.length_pos_iff.mpr hne
  have hlength := length_whole (t := t)
  refine next_behind (e := 0) hn hle hgoal rfl ?_
  have hlater (r : Reading Misreading Bool) : r.later 0 = r := by
    rcases r with ⟨k, m | newline⟩
    · simp only [Reading.later, Nat.zero_add]
      rfl
    · simp only [Reading.later, Nat.zero_add]
      rfl
  rw [hlater, skipGap, skipGap, rest_behind hn hle, not_atStart (by omega) (by omega), not_atStart (by omega) hle]

/-- What is read behind a token in both texts. -/
theorem next_reached (ht : Spacing t.inserted) (h : Reached t consumed scanner₁ scanner₂ token₁ token₂)
    (hend : token₁.isEnd = false) (hgoal : goal ≠ .templateTail) :
    ∃ n, scanner₁ = standing t.plain true n ∧ consumed.length < n ∧ n ≤ t.plain.length ∧
      ((t.before ≠ [] ∧ t.before.length ≤ n) ∧ t.Alike goal n (scanner₁.next goal) (scanner₂.next goal) ∨
        token₁.stop.offset ≠ byteLength t.before ∧ ¬ t.EndsThere (token₁ :: consumed) ∧
          Approaches t goal n (scanner₁.next goal) (scanner₂.next goal)) := by
  cases h with
  | atEnd _ _ h₁ =>
    rw [h₁] at hend
    cases hend
  | front span hs hle hnot h₁ h₂ hscanner₁ hscanner₂ =>
    refine ⟨span.behind, hscanner₁, Nat.lt_of_le_of_lt hs.le_first hs.first_lt, hs.behind_le, ?_⟩
    rw [hscanner₁, hscanner₂]
    by_cases hlt : span.behind < t.before.length
    · have hstop : token₁.stop.offset ≠ byteLength t.before := by
        rw [h₁, ← offset_before]
        exact Nat.ne_of_lt (offset_placeAt_lt hlt before_le)
      refine .inr ⟨hstop, not_endsThere_cons hnot fun _ => hstop, ?_⟩
      exact next_front (closed_of_spacing ht) hs.behind_le fun h => absurd h hgoal
    · have heq : span.behind = t.before.length := by omega
      have hpos := hs.first_lt
      rw [heq]
      have hne : t.before ≠ [] := List.length_pos_iff.mp (by omega)
      exact .inl ⟨⟨hne, Nat.le_refl _⟩, next_there ht hne hgoal⟩
  | behind span hs hne hle h₁ h₂ hscanner₁ hscanner₂ =>
    have hlt := hs.first_lt
    refine ⟨span.behind, hscanner₁, Nat.lt_of_le_of_lt hs.le_first hs.first_lt, hs.behind_le, ?_⟩
    rw [hscanner₁, hscanner₂]
    exact .inl ⟨⟨hne, by omega⟩, next_later hne (by omega) hs.behind_le fun h => absurd h hgoal⟩

/-! ## Reading again -/

theorem Missed.again {token : Token} {scanner : Scanner} (h : t.Missed token scanner) (newline : Bool) :
    t.Missed { token with newlineBefore := newline } scanner := by
  cases h with
  | ends hend hrest => exact .ends hend hrest
  | across span hs hlt htoken hscanner =>
    exact .across { span with newlineBefore := newline } { hs with } hlt (htoken ▸ rfl) hscanner
  | point span hs hsplit hbehind htoken hscanner =>
    exact .point { span with newlineBefore := newline } { hs with } hsplit hbehind (htoken ▸ rfl) hscanner

/-- A reading that is known to have been made behind a line end or not. -/
def again (newline : Bool) (r : Except Fault Token × Scanner) : Except Fault Token × Scanner :=
  (r.1.map fun token => { token with newlineBefore := newline }, r.2)

theorem Approaches.again {r₁ r₂ : Except Fault Token × Scanner} (h : Approaches t goal n r₁ r₂) (newline : Bool) :
    Approaches t goal n (Insertion.again newline r₁) (Insertion.again newline r₂) := by
  cases h with
  | @stops f h => exact .stops (f := f) (by rw [Insertion.again, h]; rfl)
  | misses h hm =>
    subst h
    exact .misses rfl (hm.again newline)
  | reads span hs hle h₁ h₂ =>
    subst h₁ h₂
    exact .reads { span with newlineBefore := newline } { hs with } hle rfl rfl

theorem Alike.again {r₁ r₂ : Except Fault Token × Scanner} (h : t.Alike goal n r₁ r₂) (newline : Bool) :
    t.Alike goal n (Insertion.again newline r₁) (Insertion.again newline r₂) := by
  cases h with
  | @fails e p q h₁ h₂ =>
    exact .fails (e := e) (p := p) (q := q) (by rw [Insertion.again, h₁]; rfl) (by rw [Insertion.again, h₂]; rfl)
  | ends _ h₁ h₂ => exact .ends newline (by rw [Insertion.again, h₁]; rfl) (by rw [Insertion.again, h₂]; rfl)
  | reads span hs h₁ h₂ =>
    subst h₁ h₂
    exact .reads { span with newlineBefore := newline } { hs with } rfl rfl

theorem rescan_again {text : List Char} {token : Token} (m : Nat) (hn : n ≤ text.length)
    (htoken : token.start = placeAt text n) :
    (standing text true m).rescan goal token = Insertion.again token.newlineBefore ((standing text true n).next goal) :=
  rescan_standing true m hn htoken

/-- What is read again in both texts. -/
theorem rescan_reached (ht : Spacing t.inserted) (h : Reached t consumed scanner₁ scanner₂ token₁ token₂)
    (hend : token₁.isEnd = false) (hgoal : goal = .templateTail → token₁.isPunctuator .closeBrace = true) :
    ∃ n, consumed.length ≤ n ∧ n ≤ t.plain.length ∧
      (∀ token, (scanner₁.rescan goal token₁).1 = .ok token → goal = .regExp → isDivision token = false) ∧
      ((t.before ≠ [] ∧ t.before.length ≤ n) ∧
          t.Alike goal n (scanner₁.rescan goal token₁) (scanner₂.rescan goal token₂) ∨
        ¬ t.EndsThere consumed ∧ Approaches t goal n (scanner₁.rescan goal token₁) (scanner₂.rescan goal token₂)) := by
  have hnewline : token₂.newlineBefore = token₁.newlineBefore :=
    (alike_of_reached h).newlineBefore.resolve_right fun h => h.1
  have hwhole := length_whole (t := t)
  have hbrace {span : Span} {goal' : LexicalGoal} {n : Nat} (hs : span.Within t.plain goal' n)
      (h₁ : token₁ = span.token t.plain) (htail : goal = .templateTail) : t.plain[span.first]? = some '}' :=
    hs.getElem?_first (Token.isPunctuator_iff.mp (h₁ ▸ hgoal htail)) rfl
  have hdivision (m : Nat) {n : Nat} (hn : n ≤ t.plain.length) (hstart : token₁.start = placeAt t.plain n)
      (token : Token) (hrun : ((standing t.plain true m).rescan goal token₁).1 = .ok token) (hregExp : goal = .regExp) :
      isDivision token = false := by
    subst hregExp
    exact Comparison.isDivision_eq_false_iff.mpr
      ((rescans .regExp m token₁ hn hstart fun h => absurd h (by decide)).not_division hrun)
  cases h with
  | atEnd _ _ h₁ =>
    rw [h₁] at hend
    cases hend
  | front span hs hle hnot h₁ h₂ hscanner₁ hscanner₂ =>
    have hfirst := hs.first_le
    have hstart : token₁.start = placeAt t.plain span.first := h₁ ▸ rfl
    refine ⟨span.first, hs.le_first, hfirst, hscanner₁ ▸ hdivision _ hfirst hstart, .inr ⟨hnot, ?_⟩⟩
    rw [hscanner₁, hscanner₂, rescan_again _ hfirst hstart, rescan_again (n := span.first) _ (by omega) (h₂ ▸ rfl),
      hnewline]
    exact (next_front (closed_of_spacing ht) hfirst (hbrace hs h₁)).again _
  | behind span hs hne hle h₁ h₂ hscanner₁ hscanner₂ =>
    have hfirst := hs.first_le
    have hstart : token₁.start = placeAt t.plain span.first := h₁ ▸ rfl
    refine ⟨span.first, hs.le_first, hfirst, hscanner₁ ▸ hdivision _ hfirst hstart, .inl ⟨⟨hne, hle⟩, ?_⟩⟩
    rw [hscanner₁, hscanner₂, rescan_again _ hfirst hstart,
      rescan_again (n := t.inserted.length + span.first) _ (by omega) (h₂ ▸ rfl), hnewline]
    exact (next_later hne hle hfirst (hbrace hs h₁)).again _

/-! ## Agreement -/

variable {i j : Input} {post : Input → Input → Prop} {r₁ r₂ : Except Fault Token × Scanner}

/-- What both receive behind the place. -/
theorem Alike.agree (h : t.Alike goal n r₁ r₂) (hn : t.before ≠ [] ∧ t.before.length ≤ n)
    (hle : i.consumed.length ≤ n) (hlength : n ≤ t.plain.length)
    (hpost : ∀ scanner₁ scanner₂ token₁ token₂, r₁.1 = .ok token₁ →
      Reached t i.consumed scanner₁ scanner₂ token₁ token₂ →
      post { i with scanner := scanner₁, token := token₁ } { j with scanner := scanner₂, token := token₂ }) :
    Agree Fault.ToldAs post (i.receive r₁) (j.receive r₂) := by
  cases h with
  | fails h₁ h₂ =>
    rw [Input.receive_of_error h₁, Input.receive_of_error h₂]
    exact ⟨rfl, rfl⟩
  | ends newline h₁ h₂ =>
    rw [Input.receive_of_ok h₁, Input.receive_of_ok h₂]
    exact hpost _ _ _ _ h₁ (.atEnd newline (Nat.le_trans hle hlength) rfl rfl)
  | reads span hs h₁ h₂ =>
    subst h₁ h₂
    have hs' : span.Within t.plain goal i.consumed.length := { hs with le_first := Nat.le_trans hle hs.le_first }
    exact hpost _ _ _ _ rfl (.behind span hs' hn.1 (Nat.le_trans hn.2 hs.le_first) rfl rfl rfl rfl)

/-- What both receive before the place, if the first gets there. -/
theorem Approaches.agree (h : Approaches t goal n r₁ r₂) (hnot : ¬ t.EndsThere i.consumed) (hle : i.consumed.length ≤ n)
    (hfinish : i.MayFinish (fun _ i => t.EndsThere i.consumed) (i.receive r₁))
    (hpost : ∀ scanner₁ scanner₂ token₁ token₂, r₁.1 = .ok token₁ →
      Reached t i.consumed scanner₁ scanner₂ token₁ token₂ →
      post { i with scanner := scanner₁, token := token₁ } { j with scanner := scanner₂, token := token₂ }) :
    Agree Fault.ToldAs post (i.receive r₁) (j.receive r₂) := by
  cases h with
  | stops h =>
    rw [Input.receive_of_error h] at hfinish
    obtain ⟨_, hthere⟩ := hfinish
    exact absurd hthere hnot
  | misses h hm =>
    subst h
    obtain ⟨ok, k, hleads, hthere⟩ := hfinish
    exact absurd hthere (not_endsThere hleads hm hnot)
  | reads span hs hbefore h₁ h₂ =>
    subst h₁ h₂
    have hs' : span.Within t.plain goal i.consumed.length := { hs with le_first := Nat.le_trans hle hs.le_first }
    exact hpost _ _ _ _ rfl (.front span hs' hbefore hnot rfl rfl rfl rfl)

end Insertion

end EcmaCheck
