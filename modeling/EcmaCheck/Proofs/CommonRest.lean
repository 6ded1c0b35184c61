import EcmaCheck.Proofs.Insertion

/-!
# Texts that go on alike

Two texts go on alike behind a place of each (`CommonRest`). Behind these places the second is read as the first is. The
second may also close a block where the first ends (`Resumes`), and is then read alike up to the closing brace.
-/

namespace EcmaCheck

open Lexical Scanner

/-- The span that lies as far behind `k₂` as this one lies behind `k₁`. -/
def Span.moved (k₁ k₂ : Nat) (span : Span) : Span :=
  { span with first := k₂ + (span.first - k₁), behind := k₂ + (span.behind - k₁) }

/-- Two texts go on alike behind a place of each, also where the gap is skipped that a token may have before it. -/
structure CommonRest (text₁ text₂ : List Char) (k₁ k₂ : Nat) : Prop where
  le_first : k₁ ≤ text₁.length
  le_second : k₂ ≤ text₂.length
  drop : text₂.drop k₂ = text₁.drop k₁
  skipGap {n : Nat} {goal : LexicalGoal} : k₁ ≤ n → n ≤ text₁.length →
    (standing text₂ true (k₂ + (n - k₁))).skipGap goal = (standing text₁ true n).skipGap goal

/-- A text begins with the mark of a line that may only stand at its start. -/
def Marked (text : List Char) : Prop :=
  ['#', '!'] <+: text

theorem gap_of_not_marked {text : List Char} (h : ¬ Marked text) (atStart : Bool) :
    gap atStart text = gapFrom 0 false text := by
  rw [gap]
  rintro line rfl
  exact h ⟨line, rfl⟩

theorem not_marked_line {text : List Char} (h : ¬ Marked text) (tail : List Char) :
    ¬ Marked (text ++ '\n' :: tail) := by
  rintro ⟨line, hline⟩
  match text with
  | [] => exact absurd (List.cons.inj hline).1 (by decide)
  | [c] => exact absurd (List.cons.inj (List.cons.inj hline).2).1 (by decide)
  | c :: d :: more =>
    have hc : '#' = c := (List.cons.inj hline).1
    have hd : '!' = d := (List.cons.inj (List.cons.inj hline).2).1
    exact h ⟨more, hc ▸ hd ▸ rfl⟩

/-- Behind whatever begins them, texts with the same rest go on alike, if it is not marked. -/
theorem CommonRest.of_append (front₁ front₂ : List Char) {rest : List Char} (h : ¬ Marked rest) :
    CommonRest (front₁ ++ rest) (front₂ ++ rest) front₁.length front₂.length where
  le_first := List.length_append ▸ Nat.le_add_right ..
  le_second := List.length_append ▸ Nat.le_add_right ..
  drop := by rw [List.drop_left, List.drop_left]
  skipGap {n goal} hn hle := by
    obtain ⟨m, rfl⟩ := Nat.exists_eq_add_of_le hn
    rw [List.length_append] at hle
    have hrest (front : List Char) :
        (standing (front ++ rest) true (front.length + m)).rest = rest.drop m ++ ['\n'] := by
      rw [rest_standing_true (by rw [List.length_append]; omega), ← List.drop_drop, List.drop_left]
    unfold Scanner.skipGap
    split
    · rfl
    rw [Nat.add_sub_cancel_left, hrest, hrest]
    cases m with
    | zero =>
      have hmarked : ¬ Marked (rest.drop 0 ++ ['\n']) := not_marked_line h []
      rw [gap_of_not_marked hmarked, gap_of_not_marked hmarked]
    | succ m =>
      have hstart (front : List Char) (hle : m + 1 ≤ rest.length) :
          decide ((standing (front ++ rest) true (front.length + (m + 1))).position.offset = 0) = false := by
        refine decide_eq_false (Nat.ne_of_gt (Nat.zero_lt_of_lt (offset_placeAt_lt (m := 0) ?_ ?_)))
        · omega
        · rw [List.length_append]
          omega
      rw [hstart front₁ (by omega), hstart front₂ (by omega)]

namespace CommonRest

variable {text₁ text₂ : List Char} {k₁ k₂ n : Nat} {goal : LexicalGoal} (h : CommonRest text₁ text₂ k₁ k₂)

include h

/-! ## Places -/

theorem length_eq : text₂.length - k₂ = text₁.length - k₁ := by
  rw [← List.length_drop, ← List.length_drop, h.drop]

theorem le_length (hn : n ≤ text₁.length) : k₂ + (n - k₁) ≤ text₂.length := by
  have := h.length_eq
  have := h.le_first
  have := h.le_second
  omega

theorem drop_moved (hn : k₁ ≤ n) : text₂.drop (k₂ + (n - k₁)) = text₁.drop n := by
  rw [← List.drop_drop, h.drop, List.drop_drop, Nat.add_sub_cancel' hn]

theorem rest_moved (hn : k₁ ≤ n) (hle : n ≤ text₁.length) :
    (standing text₂ true (k₂ + (n - k₁))).rest = (standing text₁ true n).rest := by
  rw [rest_standing_true hle, rest_standing_true (h.le_length hle), h.drop_moved hn]

/-- Places lie as far apart in both texts. -/
theorem offset_moved (hn : k₁ ≤ n) (hle : n ≤ text₁.length) :
    (placeAt text₂ (k₂ + (n - k₁))).offset + byteLength (text₁.take k₁) =
      (placeAt text₁ n).offset + byteLength (text₂.take k₂) := by
  obtain ⟨m, rfl⟩ := Nat.exists_eq_add_of_le hn
  have hsplit (text : List Char) (k : Nat) : byteLength (text.take (k + m)) =
      byteLength (text.take k) + byteLength ((text.drop k).take m) := by
    rw [List.take_add, byteLength_append]
  rw [offset_placeAt hle, offset_placeAt (h.le_length hle), Nat.add_sub_cancel_left, hsplit, hsplit, h.drop]
  omega

/-! ## Reading -/

variable {span : Span}

theorem read_moved (hn : k₁ ≤ n) (hs : span.Read text₁ goal n) :
    (span.moved k₁ k₂).Read text₂ goal (k₂ + (n - k₁)) := by
  have hfirst := hs.le_first
  have hlt := hs.first_lt
  have hbehind := hs.behind_le
  refine ⟨?_, ?_, h.le_length hbehind, ?_, ?_⟩ <;> simp only [Span.moved]
  · omega
  · omega
  · rw [h.skipGap hn (by omega), hs.gap]
    congr 1
    omega
  · rw [h.rest_moved (by omega) (by omega), hs.element]
    congr 1
    omega

theorem lexeme_moved (hn : k₁ ≤ span.first) (hlt : span.first < span.behind) :
    ((span.moved k₁ k₂).token text₂).lexeme = (span.token text₁).lexeme := by
  have hlength : k₂ + (span.behind - k₁) - (k₂ + (span.first - k₁)) = span.behind - span.first := by omega
  simp only [Span.token, Span.moved, h.drop_moved hn, hlength]

end CommonRest

/-! ## Blocks -/

/-- The end of a block whose closing brace stands on a line of its own, if there is a block. -/
def blockEnd : Bool → List Char
  | false => []
  | true => ['\n', '}']

/-- Behind a place of each, the second text goes on as the first does, and may then close a block. -/
structure Resumes (text₁ text₂ : List Char) (k₁ k₂ : Nat) (closed : Bool) : Prop where
  le_length : k₁ ≤ text₁.length
  rest : CommonRest (text₁ ++ blockEnd closed) text₂ k₁ k₂

/-- The brace that closes the block. -/
def closingBrace (text : List Char) : Span :=
  ⟨.punctuator .closeBrace, text.length + 1, text.length + 2, true⟩

section

variable {text : List Char} {n : Nat} {goal : LexicalGoal} {span : Span}

theorem read_blockEnd (closed : Bool) (h : span.Read text goal n) : span.Read (text ++ blockEnd closed) goal n := by
  cases closed with
  | false => rwa [blockEnd, List.append_nil]
  | true =>
    have hplain : (Insertion.mk text ['\n', '}'] []).plain = text := List.append_nil _
    have hclosed : (Insertion.mk text ['\n', '}'] []).Closed := ⟨'\n', ['}'], rfl, by decide +kernel⟩
    exact hclosed.read_front h.behind_le (fun hsplit => absurd hsplit.2 Bool.false_ne_true) (hplain.symm ▸ h)

/-- No gap begins with a token. -/
theorem skipGap_first (hgoal : goal = .templateTail → text[n]? = some '}') (h : span.Read text goal n)
    (goal' : LexicalGoal) : (standing text true span.first).skipGap goal' = ⟨0, .ok false⟩ := by
  have hfirst := h.le_first
  have hlt := h.first_lt
  have hbehind := h.behind_le
  have hgap := h.gap
  unfold skipGap at hgap ⊢
  split
  · rfl
  by_cases hgoal' : goal = .templateTail
  · rw [if_pos hgoal'] at hgap
    have hzero : 0 = span.first - n := congrArg Reading.length hgap
    obtain rfl : n = span.first := by omega
    rw [rest_standing_of_char (hgoal hgoal'), gap]
    · exact gapFrom_other (by decide) (by decide) (by decide)
    · exact fun _ h => absurd (List.cons.inj h).1 (by decide)
  · rw [if_neg hgoal', rest_standing_true (by omega)] at hgap
    have hdrop : (text.drop n ++ ['\n']).drop (span.first - n) = (standing text true span.first).rest := by
      rw [rest_standing_true (by omega), List.drop_append_of_le_length (by rw [List.length_drop]; omega),
        List.drop_drop, Nat.add_sub_cancel' hfirst]
    rw [← hdrop]
    refine gap_still hgap fun hstart => ?_
    have hzero : span.first = 0 := by
      refine Nat.eq_zero_of_not_pos fun hpos => ?_
      have hoffset := offset_placeAt_lt hpos (Nat.le_trans (Nat.le_of_lt hlt) hbehind)
      exact Nat.not_lt_zero _ (of_decide_eq_true hstart ▸ hoffset)
    obtain rfl : n = 0 := by omega
    rw [hzero] at hstart
    exact ⟨by omega, hstart⟩

/-- A space or a line feed only tells of the token behind it whether it is on a line of its own. -/
theorem next_blank {c : Char} (hc : text[n]? = some c) (hblank : c = ' ' ∨ c = '\n') (hgoal : goal ≠ .templateTail) :
    (standing text true n).next goal =
      (((standing text true (n + 1)).next goal).1.map fun t => { t with newlineBefore := t.newlineBefore || c = '\n' },
        ((standing text true (n + 1)).next goal).2) := by
  have hlt : n < text.length := (List.getElem?_eq_some_iff.mp hc).1
  have hrest : (standing text true n).rest = c :: (standing text true (n + 1)).rest := by
    rw [rest_standing_of_char hc, rest_standing_true hlt]
  have hstart : decide ((standing text true (n + 1)).position.offset = 0) = false := by
    exact decide_eq_false (Nat.ne_of_gt (Nat.zero_lt_of_lt (offset_placeAt_lt (Nat.zero_lt_succ n) hlt)))
  have hskip : (standing text true n).skipGap goal =
      (((standing text true (n + 1)).skipGap goal).map (· || c = '\n')).later 1 := by
    rw [skipGap, skipGap, if_neg hgoal, if_neg hgoal, hrest, hstart]
    exact gap_blank hblank _
  have hadvance (k : Nat) : (standing text true n).advance (1 + k) = (standing text true (n + 1)).advance k := by
    rw [Nat.add_comm, Scanner.advance, bump_standing true hlt]
  unfold Scanner.next
  rw [hskip]
  rcases (standing text true (n + 1)).skipGap goal with ⟨k, m | newline⟩
  · rw [Reading.later_map_error]
    dsimp only
    rw [hadvance, hadvance]
    rfl
  · rw [Reading.later_map_ok]
    dsimp only
    rw [hadvance]
    split
    · rfl
    · rw [show (standing text true n).source = (standing text true (n + 1)).source from rfl]
      split <;> rfl

/-- Behind the start of a text the mark is no token. -/
theorem next_marked (hn : 0 < n) (hle : n ≤ text.length) (hmarked : Marked (text.drop n))
    (hgoal : goal ≠ .templateTail) :
    ∃ f, ((standing text true n).next goal).1 = .error f := by
  obtain ⟨line, hline⟩ := hmarked
  have hrest : (standing text true n).rest = '#' :: '!' :: (line ++ ['\n']) := by
    rw [rest_standing_true hle, ← hline]
    rfl
  have hstart : decide ((standing text true n).position.offset = 0) = false :=
    decide_eq_false (Nat.ne_of_gt (Nat.zero_lt_of_lt (offset_placeAt_lt hn hle)))
  have hgap : (standing text true n).skipGap goal = ⟨0, .ok false⟩ := by
    rw [skipGap, if_neg hgoal, hstart, gap_later, hrest]
    exact gapFrom_other (by decide) (by decide) (by decide)
  have hname : beginsName '!' = false := by decide +kernel
  have hdigit : isDecimalDigit '#' = false := by decide
  refine ⟨_, next_misread hgap ?_ (n := 1) (m := ⟨.bareNumberSign, 0⟩) ?_⟩
  · change (standing text true n).rest ≠ []
    rw [hrest]
    exact List.cons_ne_nil _ _
  · change element true goal (standing text true n).rest = _
    rw [hrest]
    simp [element, hname, hdigit]

/-- A token behind a blank is read behind it, where the text does not go on with the mark. -/
theorem exists_next_behind_blank {c : Char} {token : Token} {scanner : Scanner} (hc : text[n]? = some c)
    (hblank : c = ' ' ∨ c = '\n') (hgoal : goal ≠ .templateTail)
    (h : (standing text true n).next goal = (.ok token, scanner)) :
    ¬ Marked (text.drop (n + 1)) ∧ ∃ t, (standing text true (n + 1)).next goal = (.ok t, scanner) ∧
      token = { t with newlineBefore := t.newlineBefore || c = '\n' } := by
  have hlt : n < text.length := (List.getElem?_eq_some_iff.mp hc).1
  rw [next_blank hc hblank hgoal] at h
  refine ⟨fun hmarked => ?_, ?_⟩
  · obtain ⟨f, hf⟩ := next_marked (Nat.zero_lt_succ n) hlt hmarked hgoal
    rw [hf] at h
    cases h
  · rcases hread : (standing text true (n + 1)).next goal with ⟨f | t, after⟩
    · rw [hread] at h
      cases h
    · rw [hread] at h
      cases h
      exact ⟨t, rfl, rfl⟩

/-- Where the text ends, its block is closed. -/
theorem read_closingBrace (hn : n ≤ text.length) (hgoal : goal ≠ .templateTail)
    (h : (standing text true n).skipGap goal = ⟨text.length - n + 1, .ok true⟩) :
    (closingBrace text).Read (text ++ blockEnd true) goal n := by
  have hlength : (text ++ blockEnd true).length = text.length + 2 := List.length_append
  have hreads := skipGap_reads hn fun h => absurd h hgoal
  have hplain : ∃ newline, (standing text false n).skipGap goal = ⟨(text.drop n).length, .ok newline⟩ := by
    rw [h, ← List.length_drop] at hreads
    generalize (standing text false n).skipGap goal = r at hreads
    cases hreads with
    | @ends newline => exact ⟨newline, rfl⟩
    | goesOn hc =>
      rw [List.getElem?_eq_none (Nat.le_succ _)] at hc
      cases hc
  obtain ⟨newline, hplain⟩ := hplain
  refine ⟨?_, ?_, ?_, ?_, ?_⟩ <;> simp only [closingBrace]
  · omega
  · omega
  · omega
  · unfold skipGap at hplain ⊢
    rw [if_neg hgoal] at hplain ⊢
    have hoffset :
        (standing (text ++ blockEnd true) true n).position.offset = (standing text false n).position.offset := by
      change (placeAt _ n).offset = (placeAt _ n).offset
      rw [offset_placeAt (by omega), offset_placeAt hn, List.take_append_of_le_length hn]
    rw [rest_standing_true (by omega), List.drop_append_of_le_length hn, hoffset, List.append_assoc]
    refine (gap_line hplain ['}', '\n']).trans ?_
    rw [gapFrom_other (by decide) (by decide) (by decide)]
    change Reading.mk ((text.drop n).length + 1) _ = _
    rw [List.length_drop]
    congr 1
    omega
  · have hrest : (standing (text ++ blockEnd true) true (text.length + 1)).rest = ['}', '\n'] := by
      rw [rest_standing_true (by omega), ← List.drop_drop, List.drop_left]
      rfl
    have hone : text.length + 2 - (text.length + 1) = 1 := by omega
    rw [hrest, hone]
    cases goal with
    | regExp | division => rfl
    | templateTail => exact absurd rfl hgoal

end

namespace Resumes

variable {text₁ text₂ : List Char} {k₁ k₂ n : Nat} {closed : Bool} {goal : LexicalGoal}
  (h : Resumes text₁ text₂ k₁ k₂ closed)

/-- What the second reads where the first has read a token. -/
inductive Reads (text₁ text₂ : List Char) (k₁ k₂ : Nat) (closed : Bool) (goal : LexicalGoal) (n : Nat) (token : Token)
    (scanner : Scanner) (reading : Except Fault Token × Scanner) : Prop
  | ends (hgap : (standing text₁ true n).skipGap goal = ⟨text₁.length - n + 1, .ok true⟩)
    (htoken : token = endToken text₁ true) (hopen : closed = false) (hreading : reading.1 = .ok (endToken text₂ true))
  | closes (hgap : (standing text₁ true n).skipGap goal = ⟨text₁.length - n + 1, .ok true⟩)
    (htoken : token = endToken text₁ true) (hclosed : closed = true)
    (hreading : reading = (.ok (((closingBrace text₁).moved k₁ k₂).token text₂),
      standing text₂ true (k₂ + (text₁.length + 2 - k₁))))
  | reads (span : Span) (hs : span.Within text₁ goal n) (hread : span.Read text₁ goal n)
    (htoken : token = span.token text₁)
    (hscanner : scanner = standing text₁ true span.behind)
    (hreading : reading = (.ok ((span.moved k₁ k₂).token text₂), standing text₂ true (k₂ + (span.behind - k₁))))

theorem le_whole (hle : n ≤ text₁.length) : n ≤ (text₁ ++ blockEnd closed).length := by
  rw [List.length_append]
  omega

include h

/-- Places lie as far apart in both texts. -/
theorem offset_moved (hn : k₁ ≤ n) (hle : n ≤ text₁.length) :
    (placeAt text₂ (k₂ + (n - k₁))).offset + byteLength (text₁.take k₁) =
      (placeAt text₁ n).offset + byteLength (text₂.take k₂) := by
  have hmoved := h.rest.offset_moved hn (le_whole hle)
  rwa [List.take_append_of_le_length h.le_length, offset_placeAt (le_whole hle), List.take_append_of_le_length hle,
    ← offset_placeAt hle] at hmoved

theorem lexeme_moved {span : Span} (hn : k₁ ≤ span.first) (hs : span.Within text₁ goal n) :
    ((span.moved k₁ k₂).token text₂).lexeme = (span.token text₁).lexeme := by
  have hlt := hs.first_lt
  have hbehind := hs.behind_le
  rw [h.rest.lexeme_moved hn hlt]
  simp only [Span.token, List.drop_append_of_le_length hs.first_le]
  rw [List.take_append_of_le_length (by rw [List.length_drop]; omega)]

theorem next {token : Token} {scanner : Scanner} (hn : k₁ ≤ n) (hle : n ≤ text₁.length)
    (hgoal : goal = .templateTail → text₁[n]? = some '}')
    (hnext : (standing text₁ true n).next goal = (.ok token, scanner)) :
    Reads text₁ text₂ k₁ k₂ closed goal n token scanner ((standing text₂ true (k₂ + (n - k₁))).next goal) := by
  cases unfolds goal hle hgoal with
  | gapFails hgap => cases (next_fails hgap).symm.trans (congrArg Prod.fst hnext)
  | misreads hlt hgap helement =>
    obtain ⟨f, hf⟩ := next_misreads hlt hgap helement
    cases hf.symm.trans (congrArg Prod.fst hnext)
  | ends hgap =>
    have hend := advance_standing_end true hle
    have htoken := Except.ok.inj ((next_ends hgap hend.1).symm.trans (congrArg Prod.fst hnext))
    rw [show text₁.length - n + 1 = text₁.length - n + true.toNat from rfl, hend.2] at htoken
    have hplain : goal ≠ .templateTail := by
      rintro rfl
      cases congrArg Reading.length hgap
    cases closed with
    | true =>
      have hread := h.rest.read_moved hn (read_closingBrace hle hplain hgap)
      exact .closes hgap htoken.symm rfl hread.next
    | false =>
      have hrest := h.rest
      rw [blockEnd, List.append_nil] at hrest
      have hle₂ := hrest.le_length hle
      have hlength : text₁.length - n + 1 = text₂.length - (k₂ + (n - k₁)) + 1 := by
        have := hrest.length_eq
        omega
      have hend₂ := advance_standing_end true hle₂
      have hgap₂ := (hrest.skipGap hn hle).trans hgap
      rw [hlength] at hgap₂
      refine .ends hgap htoken.symm rfl ((next_ends hgap₂ hend₂.1).trans ?_)
      rw [show text₂.length - (k₂ + (n - k₁)) + 1 = text₂.length - (k₂ + (n - k₁)) + true.toNat from rfl, hend₂.2]
      rfl
  | reads span hs hread =>
    have hboth := hread.next.symm.trans hnext
    exact .reads span hs hread (Except.ok.inj (congrArg Prod.fst hboth)).symm (congrArg Prod.snd hboth).symm
      (h.rest.read_moved hn (read_blockEnd closed hread)).next

end Resumes

end EcmaCheck
