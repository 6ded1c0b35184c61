import EcmaCheck.Proofs.Lexical.Element
import EcmaCheck.Proofs.Lexical.Gap
import EcmaCheck.Scanner

/-!
# Scanning a text with and without a sentinel

A scanner before some character of a text (`Scanner.standing`) reads the same from the text by itself and from the text
with a sentinel after it: it fails at the same character, which is no line feed, or the text ends, or it reads the same
token and stands behind it (`Scanner.scans`). A sentinel only shows as a line end before the end of the text.
-/

namespace EcmaCheck

open Lexical

/-! ## Sources -/

/-- A text as a source, by itself or with a sentinel after it. -/
def Source.carrying (text : List Char) : Bool → Source
  | false => ⟨text, false⟩
  | true => ⟨text ++ ['\n'], true⟩

theorem Source.ofText_sentinel (text : List Char) : ofText (text ++ ['\n', '\x00']) = carrying text true := by
  have hlast : (text ++ ['\n', '\x00']).dropLast = text ++ ['\n'] := by
    rw [List.dropLast_append_of_ne_nil (List.cons_ne_nil _ _)]
    rfl
  simp only [ofText, carrying, List.reverse_append, List.reverse_cons, List.reverse_nil, List.nil_append,
    List.cons_append, hlast]

theorem Source.ofText_plain {text : List Char} (h : ¬ ['\n', '\x00'] <:+ text) : ofText text = carrying text false := by
  unfold ofText
  split
  · rename_i rest hreverse
    refine absurd ⟨rest.reverse, ?_⟩ h
    rw [← List.reverse_reverse text, hreverse]
    simp
  · rfl

/-- Every text is one by itself or one with a sentinel after it. -/
theorem Source.ofText_eq (text : List Char) : ∃ own sentinel, ofText text = carrying own sentinel := by
  by_cases h : ['\n', '\x00'] <:+ text
  · obtain ⟨own, rfl⟩ := h
    exact ⟨own, true, ofText_sentinel own⟩
  · exact ⟨text, false, ofText_plain h⟩

variable {text : List Char} {n : Nat}

/-! ## Standing in a text -/

namespace Scanner

/-- A scanner before the character with index `n` of a text. -/
def standing (text : List Char) (sentinel : Bool) (n : Nat) : Scanner :=
  ⟨.carrying text sentinel, (Source.carrying text sentinel).text.drop n, placeAt text n, none⟩

theorem ofSource_carrying (text : List Char) (sentinel : Bool) :
    ofSource (.carrying text sentinel) = standing text sentinel 0 := by
  rw [standing, placeAt_zero, List.drop_zero]
  rfl

theorem rest_standing_true (hn : n ≤ text.length) : (standing text true n).rest = text.drop n ++ ['\n'] :=
  drop_sentinel hn

theorem rest_standing_of_char {c : Char} (hc : text[n]? = some c) :
    (standing text true n).rest = c :: (text.drop (n + 1) ++ ['\n']) := by
  obtain ⟨hlt, rfl⟩ := List.getElem?_eq_some_iff.mp hc
  rw [rest_standing_true (Nat.le_of_lt hlt), List.drop_eq_getElem_cons hlt, List.cons_append]

theorem rest_standing_ne_nil (sentinel : Bool) (hn : n < text.length) : (standing text sentinel n).rest ≠ [] := by
  cases sentinel with
  | false =>
    change text.drop n ≠ []
    exact mt List.drop_eq_nil_iff.mp (Nat.not_le_of_lt hn)
  | true => rw [rest_standing_true (Nat.le_of_lt hn)]; exact List.append_ne_nil_of_right_ne_nil _ (List.cons_ne_nil _ _)

theorem take_rest_standing (sentinel : Bool) {k : Nat} (hn : n ≤ text.length) (hk : k ≤ text.length - n) :
    (standing text sentinel n).rest.take k = (text.drop n).take k := by
  cases sentinel with
  | false => rfl
  | true => rw [rest_standing_true hn, List.take_append_of_le_length (by rwa [List.length_drop])]

theorem bump_standing (sentinel : Bool) (hn : n < text.length) :
    (standing text sentinel n).bump = standing text sentinel (n + 1) := by
  have hplace := placeAt_succ (List.getElem?_eq_getElem hn)
  cases sentinel with
  | false =>
    rw [standing, standing, hplace, bump]
    simp only [Source.carrying, List.drop_eq_getElem_cons hn, Bool.false_and]
    rfl
  | true =>
    have hrest : (text ++ ['\n']).drop n = text[n] :: (text.drop (n + 1) ++ ['\n']) := by
      rw [drop_sentinel (Nat.le_of_lt hn), List.drop_eq_getElem_cons hn, List.cons_append]
    have hmore : (text.drop (n + 1) ++ ['\n']).isEmpty = false :=
      List.isEmpty_eq_false_iff.mpr (List.append_ne_nil_of_right_ne_nil _ (List.cons_ne_nil _ _))
    rw [standing, standing, hplace, bump]
    simp only [Source.carrying, hrest, step_sentinel, drop_sentinel hn, hmore, Bool.and_false]
    rfl

theorem advance_standing (sentinel : Bool) {k : Nat} (hk : n + k ≤ text.length) :
    (standing text sentinel n).advance k = standing text sentinel (n + k) := by
  induction k generalizing n with
  | zero => rfl
  | succ k ih =>
    rw [advance, bump_standing sentinel (by omega), ih (by omega), Nat.add_right_comm]
    rfl

theorem rest_advance (k : Nat) (s : Scanner) : (s.advance k).rest = s.rest.drop k := by
  induction k generalizing s with
  | zero => rfl
  | succ k ih =>
    rw [advance, ih, bump]
    rcases hrest : s.rest with _ | ⟨c, rest⟩
    · rw [List.drop_nil, hrest, List.drop_nil]
    · rfl

theorem position_advance (k : Nat) (s : Scanner) :
    (s.advance k).position = s.position.advance s.source.sentinel k s.rest := by
  induction k generalizing s with
  | zero => cases s.rest <;> rfl
  | succ k ih =>
    rw [advance, ih, bump]
    cases hrest : s.rest with
    | nil => rw [hrest]; cases k <;> rfl
    | cons => rfl

theorem advance_add (k m : Nat) (s : Scanner) : s.advance (k + m) = (s.advance k).advance m := by
  induction k generalizing s with
  | zero => rw [Nat.zero_add]; rfl
  | succ k ih => rw [Nat.succ_add]; exact ih s.bump

/-- Behind the last character the text ends, also if the sentinel has been passed. -/
theorem advance_standing_end (sentinel : Bool) (hn : n ≤ text.length) :
    let behind := (standing text sentinel n).advance (text.length - n + sentinel.toNat)
    behind.rest = [] ∧ behind.textEnd?.getD behind.position = placeAt text text.length := by
  dsimp only
  rw [advance_add, advance_standing sentinel (Nat.le_of_eq (Nat.add_sub_cancel' hn)), Nat.add_sub_cancel' hn]
  cases sentinel with
  | false => exact ⟨List.drop_length, rfl⟩
  | true =>
    have hrest := rest_standing_true (Nat.le_refl text.length)
    rw [List.drop_length] at hrest
    simp only [Bool.toNat_true, advance, bump, hrest]
    exact ⟨rfl, rfl⟩

theorem moveTo_placeAt {m : Nat} (sentinel : Bool) (hn : n ≤ text.length) :
    (standing text sentinel m).moveTo (placeAt text n) = standing text sentinel n := by
  have hrest : dropBytes (placeAt text n).offset (Source.carrying text sentinel).text =
      (Source.carrying text sentinel).text.drop n := by
    rw [offset_placeAt hn]
    cases sentinel with
    | false =>
      have h := dropBytes_byteLength [] hn
      rwa [List.append_nil, List.append_nil] at h
    | true => exact (dropBytes_byteLength ['\n'] hn).trans (drop_sentinel hn).symm
  rw [moveTo, standing, standing, hrest]

end Scanner

/-! ## Spans -/

/-- The characters that a token covers, as indices, and what it is. -/
structure Span where
  kind : TokenKind
  first : Nat
  behind : Nat
  newlineBefore : Bool

/-- The token that covers the span. -/
def Span.token (text : List Char) (span : Span) : Token :=
  ⟨span.kind, placeAt text span.first, placeAt text span.behind,
    String.ofList ((text.drop span.first).take (span.behind - span.first)), span.newlineBefore⟩

/-- The token where the text ends. -/
def endToken (text : List Char) (newlineBefore : Bool) : Token :=
  ⟨.endOfInput, placeAt text text.length, placeAt text text.length, "", newlineBefore⟩

/-- The span is one of the text from the index on, read under the goal. -/
structure Span.Within (text : List Char) (goal : LexicalGoal) (n : Nat) (span : Span) : Prop where
  le_first : n ≤ span.first
  first_lt : span.first < span.behind
  behind_le : span.behind ≤ text.length
  line : text[span.first]? ≠ some '\n'
  fits : Fits goal (text.drop span.first) (span.behind - span.first) span.kind

namespace Span.Within

variable {goal : LexicalGoal} {span : Span}

theorem first_le (hs : span.Within text goal n) : span.first ≤ text.length :=
  Nat.le_of_lt (Nat.lt_of_lt_of_le hs.first_lt hs.behind_le)

theorem isEnd_token (hs : span.Within text goal n) : (span.token text).isEnd = false := by
  have hkind := hs.fits.goesOn
  unfold Token.isEnd Span.token
  split
  · rename_i h
    exact absurd h hkind
  · rfl

/-- A punctuator begins with the first character of its spelling. -/
theorem getElem?_first {p : Punctuator} {c : Char} {rest : List Char} (hs : span.Within text goal n)
    (hkind : span.kind = .punctuator p) (hp : p.spelling = c :: rest) : text[span.first]? = some c := by
  obtain ⟨more, hmore⟩ := hs.fits.spelling hkind
  rw [← List.head?_drop, ← hmore, hp]
  rfl

end Span.Within

/-- The index behind the gap that may be at the index. -/
def gapEnd (text : List Char) (n : Nat) : Nat :=
  n + (Lexical.gap ((placeAt text n).offset = 0) (text.drop n)).length

/-- What is read from an index of the text, without or with a sentinel. -/
inductive Scans (text : List Char) (goal : LexicalGoal) (n : Nat) (run : Bool → Except Fault Token × Scanner) : Prop
  | fails {e : LexicalError} {k : Nat} {c : Char} (hc : text[k]? = some c) (hline : c ≠ '\n')
    (h : ∀ sentinel, (run sentinel).1 = .error (.lexical e (placeAt text k)))
  | ends (newline : Bool → Bool) (hnewline : newline false = true → newline true = true)
    (hend : goal ≠ .templateTail → gapEnd text n = text.length)
    (h : ∀ sentinel, (run sentinel).1 = .ok (endToken text (newline sentinel)))
  | reads (span : Span) (hs : span.Within text goal n) (hend : goal ≠ .templateTail → gapEnd text n < text.length)
    (h : ∀ sentinel, run sentinel = (.ok (span.token text), .standing text sentinel span.behind))

namespace Scans

variable {goal : LexicalGoal} {run : Bool → Except Fault Token × Scanner} {sentinel : Bool} {token : Token}

/-- A regular expression is only read where one may begin. -/
theorem regExp (h : Scans text goal n run) (ht : (run sentinel).1 = .ok token) (hkind : token.kind = .regExp) :
    goal = .regExp := by
  cases h with
  | fails _ _ h => rw [h] at ht; cases ht
  | ends _ _ _ h => rw [h] at ht; cases ht; cases hkind
  | reads span hs _ h => rw [h] at ht; cases ht; exact hs.fits.regExp hkind

/-- Where a regular expression may begin, nothing divides. -/
theorem not_division (h : Scans text .regExp n run) (ht : (run sentinel).1 = .ok token) :
    token.kind ≠ .punctuator .slash ∧ token.kind ≠ .punctuator .slashAssign := by
  cases h with
  | fails _ _ h => rw [h] at ht; cases ht
  | ends _ _ _ h => rw [h] at ht; cases ht; exact ⟨nofun, nofun⟩
  | reads span hs _ h => rw [h] at ht; cases ht; exact hs.fits.not_division

/-- Whether the text goes on does not depend on what is expected. -/
theorem isEnd_eq (h : Scans text goal n run) (ht : (run sentinel).1 = .ok token) (hgoal : goal ≠ .templateTail) :
    token.isEnd = decide (gapEnd text n = text.length) := by
  cases h with
  | fails _ _ h => rw [h] at ht; cases ht
  | ends _ _ hend h => rw [h] at ht; cases ht; exact (decide_eq_true (hend hgoal)).symm
  | reads span hs hend h =>
    rw [h] at ht
    cases ht
    rw [decide_eq_false (Nat.ne_of_lt (hend hgoal))]
    exact hs.isEnd_token

end Scans

namespace Scanner

variable {goal : LexicalGoal}

theorem next_fails {s : Scanner} {k : Nat} {m : Misreading} (h : s.skipGap goal = ⟨k, .error m⟩) :
    (s.next goal).1 = .error (.lexical m.error (s.advance m.place).position) := by
  simp only [next, h]

theorem next_ends {s : Scanner} {k : Nat} {newline : Bool} (h : s.skipGap goal = ⟨k, .ok newline⟩)
    (hrest : (s.advance k).rest = []) :
    (s.next goal).1 = .ok ⟨.endOfInput, (s.advance k).textEnd?.getD (s.advance k).position,
      (s.advance k).textEnd?.getD (s.advance k).position, "", newline⟩ := by
  simp only [next, h, hrest, List.isEmpty_nil, if_true]

theorem scanner_next_ends {s : Scanner} {k : Nat} {newline : Bool} (h : s.skipGap goal = ⟨k, .ok newline⟩)
    (hrest : (s.advance k).rest = []) : (s.next goal).2 = s.advance k := by
  simp only [next, h, hrest, List.isEmpty_nil, if_true]

theorem next_misread {s : Scanner} {k n : Nat} {newline : Bool} {m : Misreading} (h : s.skipGap goal = ⟨k, .ok newline⟩)
    (hrest : (s.advance k).rest ≠ [])
    (hr : element s.source.sentinel goal (s.advance k).rest = ⟨n, .error m⟩) :
    (s.next goal).1 = .error (.lexical m.error ((s.advance k).advance m.place).position) := by
  simp only [next, h, List.isEmpty_eq_false_iff.mpr hrest, Bool.false_eq_true, if_false, hr]

theorem next_token {s : Scanner} {k n : Nat} {newline : Bool} {kind : TokenKind} (h : s.skipGap goal = ⟨k, .ok newline⟩)
    (hrest : (s.advance k).rest ≠ [])
    (hr : element s.source.sentinel goal (s.advance k).rest = ⟨n, .ok kind⟩) :
    s.next goal = (.ok ⟨kind, (s.advance k).position, ((s.advance k).advance n).position,
      String.ofList ((s.advance k).rest.take n), newline⟩, (s.advance k).advance n) := by
  simp only [next, h, List.isEmpty_eq_false_iff.mpr hrest, Bool.false_eq_true, if_false, hr]

/-- A token other than the end of input is the element behind a gap. -/
theorem element_of_next {s after : Scanner} {token : Token} (h : s.next goal = (.ok token, after))
    (hkind : token.kind ≠ .endOfInput) :
    ∃ k newline n, s.skipGap goal = ⟨k, .ok newline⟩ ∧
      element s.source.sentinel goal (s.advance k).rest = ⟨n, .ok token.kind⟩ ∧
      token.lexeme = String.ofList ((s.advance k).rest.take n) := by
  rcases hgap : s.skipGap goal with ⟨k, e | newline⟩
  · simp only [next, hgap] at h
    cases h
  by_cases hrest : (s.advance k).rest = []
  · have hend := next_ends hgap hrest
    rw [h] at hend
    cases hend
    exact absurd rfl hkind
  rcases helement : element s.source.sentinel goal (s.advance k).rest with ⟨n, e | kind⟩
  · have herror := next_misread hgap hrest helement
    rw [h] at herror
    cases herror
  · rw [next_token hgap hrest helement] at h
    cases h
    exact ⟨k, newline, n, rfl, helement, rfl⟩

/-- The token that a gap and the element behind it make. -/
theorem next_element {sentinel newline : Bool} {k m : Nat} {kind : TokenKind}
    (hgap : (standing text sentinel n).skipGap goal = ⟨k, .ok newline⟩) (hlt : n + k < text.length)
    (helement : element sentinel goal (standing text sentinel (n + k)).rest = ⟨m, .ok kind⟩)
    (hle : n + k + m ≤ text.length) :
    (standing text sentinel n).next goal =
      (.ok (Span.token text ⟨kind, n + k, n + k + m, newline⟩), standing text sentinel (n + k + m)) := by
  have hbefore : (standing text sentinel n).advance k = standing text sentinel (n + k) :=
    advance_standing sentinel (Nat.le_of_lt hlt)
  have hne : ((standing text sentinel n).advance k).rest ≠ [] := by
    rw [hbefore]
    exact rest_standing_ne_nil sentinel hlt
  have hsentinel : (standing text sentinel n).source.sentinel = sentinel := by
    cases sentinel <;> rfl
  rw [next_token hgap hne (by rw [hsentinel, hbefore]; exact helement), hbefore, advance_standing sentinel hle]
  have hrest : m ≤ text.length - (n + k) := by omega
  simp only [Span.token, Nat.add_sub_cancel_left, take_rest_standing sentinel (Nat.le_of_lt hlt) hrest]
  rfl

theorem skipGap_reads (hn : n ≤ text.length) (hgoal : goal = .templateTail → text[n]? = some '}') :
    ReadsGap (text.drop n) ((standing text false n).skipGap goal) ((standing text true n).skipGap goal) := by
  unfold skipGap
  by_cases h : goal = .templateTail
  · rw [if_pos h, if_pos h]
    exact .goesOn (n := 0) (by rw [← List.head?_eq_getElem?, List.head?_drop]; exact hgoal h) (by decide)
  · rw [if_neg h, if_neg h, rest_standing_true hn]
    exact gap_reads _

/-- Both sources begin with the same element. -/
theorem element_standing {c : Char} (goal : LexicalGoal) (hc : text[n]? = some c) (hline : c ≠ '\n') :
    Reads (text.drop n) 1 (Fits goal (text.drop n)) (element false goal (standing text false n).rest)
      (element true goal (standing text true n).rest) := by
  obtain ⟨hlt, hget⟩ := List.getElem?_eq_some_iff.mp hc
  have hrest : text.drop n = c :: text.drop (n + 1) := by rw [List.drop_eq_getElem_cons hlt, hget]
  rw [rest_standing_true (Nat.le_of_lt hlt), show (standing text false n).rest = text.drop n from rfl, hrest]
  exact element_reads goal hline

/-- Behind a gap a token is read. -/
theorem scans_element {k : Nat} {c : Char} (newline : Bool) (hc : text[n + k]? = some c) (hline : c ≠ '\n')
    (hgap : ∀ sentinel, (standing text sentinel n).skipGap goal = ⟨k, .ok newline⟩)
    (hend : goal ≠ .templateTail → gapEnd text n < text.length) :
    Scans text goal n fun sentinel => (standing text sentinel n).next goal := by
  have hlt : n + k < text.length := (List.getElem?_eq_some_iff.mp hc).1
  have hbefore (sentinel : Bool) : (standing text sentinel n).advance k = standing text sentinel (n + k) :=
    advance_standing sentinel (Nat.le_of_lt hlt)
  have hne (sentinel : Bool) : ((standing text sentinel n).advance k).rest ≠ [] := by
    rw [hbefore]
    exact rest_standing_ne_nil sentinel hlt
  have hreads := element_standing goal hc hline
  rcases hr : element false goal (standing text false (n + k)).rest with ⟨m, e | kind⟩ <;> rw [hr] at hreads
  · obtain ⟨d, hd, hdline⟩ := hreads.error rfl
    rw [List.getElem?_drop] at hd
    have hle : n + k + e.place ≤ text.length := Nat.le_of_lt (List.getElem?_eq_some_iff.mp hd).1
    refine .fails (e := e.error) hd hdline fun sentinel => ?_
    obtain ⟨m', helement⟩ : ∃ m', element (standing text sentinel n).source.sentinel goal
        ((standing text sentinel n).advance k).rest = ⟨m', .error e⟩ := by
      rw [hbefore]
      cases sentinel with
      | false => exact ⟨m, hr⟩
      | true => exact hreads.error_eq
    rw [next_misread (hgap sentinel) (hne sentinel) helement, hbefore, advance_standing sentinel hle]
    rfl
  · obtain ⟨_, hpos, hle, hfits⟩ := hreads.ok rfl
    rw [List.length_drop] at hle
    simp only at hpos hle
    have hline' : text[n + k]? ≠ some '\n' := fun h => hline (Option.some.inj (hc.symm.trans h))
    refine .reads ⟨kind, n + k, n + k + m, newline⟩
      ⟨Nat.le_add_right n k, Nat.lt_add_of_pos_right hpos, Nat.add_le_of_le_sub' (Nat.le_of_lt hlt) hle, hline', ?_⟩
      hend fun sentinel => ?_
    · simp only [Nat.add_sub_cancel_left]
      exact hfits
    refine next_element (hgap sentinel) hlt ?_ (by omega)
    cases sentinel with
    | false => exact hr
    | true => exact hreads.ok_eq

theorem scans (goal : LexicalGoal) (hn : n ≤ text.length) (hgoal : goal = .templateTail → text[n]? = some '}') :
    Scans text goal n fun sentinel => (standing text sentinel n).next goal := by
  have hgap := skipGap_reads hn hgoal
  generalize hr : (standing text false n).skipGap goal = r at hgap
  generalize hr' : (standing text true n).skipGap goal = r' at hgap
  have hskip (sentinel : Bool) : (standing text sentinel n).skipGap goal = if sentinel then r' else r := by
    cases sentinel
    · exact hr
    · exact hr'
  have hlength : goal ≠ .templateTail → gapEnd text n = n + r.length := by
    intro h
    rw [← hr, skipGap, if_neg h]
    rfl
  cases hgap with
  | @fails k k' m c hc hline =>
    rw [List.getElem?_drop] at hc
    have hle : n + m.place ≤ text.length := Nat.le_of_lt (List.getElem?_eq_some_iff.mp hc).1
    refine .fails (e := m.error) (k := n + m.place) hc hline fun sentinel => ?_
    have hfails : (standing text sentinel n).skipGap goal = ⟨if sentinel then k' else k, .error m⟩ := by
      rw [hskip]
      cases sentinel <;> rfl
    rw [next_fails hfails, advance_standing sentinel hle]
    rfl
  | @ends newline =>
    rw [List.length_drop] at *
    refine .ends (newline || ·) (fun _ => Bool.or_true _) (fun h => ?_) fun sentinel => ?_
    · rw [hlength h]
      exact Nat.add_sub_cancel' hn
    have hends : (standing text sentinel n).skipGap goal =
        ⟨text.length - n + sentinel.toNat, .ok (newline || sentinel)⟩ := by
      rw [hskip]
      cases sentinel
      · rw [Bool.or_false]; rfl
      · rw [Bool.or_true]; rfl
    obtain ⟨hrest, hplace⟩ := advance_standing_end sentinel hn
    rw [next_ends hends hrest, hplace]
    rfl
  | @goesOn k newline c hc hline =>
    rw [List.getElem?_drop] at hc
    refine scans_element newline hc hline (fun sentinel => ?_) fun h => ?_
    · rw [hskip]
      cases sentinel <;> rfl
    · rw [hlength h]
      exact (List.getElem?_eq_some_iff.mp hc).1

end Scanner

/-- The span is what is read of a text with a sentinel from the index on: behind a gap the token. -/
structure Span.Read (text : List Char) (goal : LexicalGoal) (n : Nat) (span : Span) : Prop where
  le_first : n ≤ span.first
  first_lt : span.first < span.behind
  behind_le : span.behind ≤ text.length
  gap : (Scanner.standing text true n).skipGap goal = ⟨span.first - n, .ok span.newlineBefore⟩
  element : element true goal (Scanner.standing text true span.first).rest = ⟨span.behind - span.first, .ok span.kind⟩

theorem Span.Read.next {goal : LexicalGoal} {span : Span} (h : span.Read text goal n) :
    (Scanner.standing text true n).next goal = (.ok (span.token text), .standing text true span.behind) := by
  obtain ⟨hfirst, hlt, hbehind, hgap, helement⟩ := h
  have hplace : n + (span.first - n) = span.first := Nat.add_sub_cancel' hfirst
  have hend : span.first + (span.behind - span.first) = span.behind := Nat.add_sub_cancel' (Nat.le_of_lt hlt)
  have h := Scanner.next_element hgap (by omega) (by rw [hplace]; exact helement) (by omega)
  rwa [hplace, hend] at h

namespace Scanner

variable {goal : LexicalGoal}

/-- What a reading of a text with a sentinel consists of: a gap, and a token unless the text ends. -/
inductive Unfolds (text : List Char) (goal : LexicalGoal) (n : Nat) : Prop
  | gapFails {k : Nat} {m : Misreading} (hgap : (standing text true n).skipGap goal = ⟨k, .error m⟩)
  | ends (hgap : (standing text true n).skipGap goal = ⟨text.length - n + 1, .ok true⟩)
  | misreads {k l : Nat} {newline : Bool} {m : Misreading} (hlt : n + k < text.length)
    (hgap : (standing text true n).skipGap goal = ⟨k, .ok newline⟩)
    (helement : element true goal (standing text true (n + k)).rest = ⟨l, .error m⟩)
  | reads (span : Span) (hs : span.Within text goal n) (h : span.Read text goal n)

theorem unfolds (goal : LexicalGoal) (hn : n ≤ text.length) (hgoal : goal = .templateTail → text[n]? = some '}') :
    Unfolds text goal n := by
  have hgap := skipGap_reads hn hgoal
  generalize (standing text false n).skipGap goal = r at hgap
  generalize hr : (standing text true n).skipGap goal = r' at hgap
  cases hgap with
  | fails => exact .gapFails hr
  | ends => exact .ends (by rw [hr, List.length_drop])
  | @goesOn k newline c hc hline =>
    rw [List.getElem?_drop] at hc
    have hlt := (List.getElem?_eq_some_iff.mp hc).1
    have hreads := element_standing goal hc hline
    rcases helement : element true goal (standing text true (n + k)).rest with ⟨m, e | kind⟩
    · exact .misreads hlt hr helement
    · rw [helement] at hreads
      have hplain := hreads.result.symm
      obtain ⟨hlength, hpos, hle, hfits⟩ := hreads.ok hplain
      simp only at hlength
      rw [← hlength] at hpos hle hfits
      rw [List.length_drop] at hle
      have hfirst : n ≤ n + k := Nat.le_add_right n k
      have hbehind : n + k < n + k + m := Nat.lt_add_of_pos_right hpos
      have hend : n + k + m ≤ text.length := Nat.add_le_of_le_sub' (Nat.le_of_lt hlt) hle
      refine .reads ⟨kind, n + k, n + k + m, newline⟩ ⟨hfirst, hbehind, hend, ?_, ?_⟩ ⟨hfirst, hbehind, hend, ?_, ?_⟩
      · exact fun h => hline (Option.some.inj (hc.symm.trans h))
      · simp only [Nat.add_sub_cancel_left]
        exact hfits
      · simp only [Nat.add_sub_cancel_left]
        exact hr
      · simp only [Nat.add_sub_cancel_left]
        exact helement

/-- Nothing is read where the element behind the gap is none. -/
theorem next_misreads {k l : Nat} {newline : Bool} {m : Misreading} (hlt : n + k < text.length)
    (hgap : (standing text true n).skipGap goal = ⟨k, .ok newline⟩)
    (helement : element true goal (standing text true (n + k)).rest = ⟨l, .error m⟩) :
    ∃ f, ((standing text true n).next goal).1 = .error f := by
  have hbefore := advance_standing true (Nat.le_of_lt hlt)
  refine ⟨_, next_misread (n := l) (m := m) hgap ?_ ?_⟩
  · rw [hbefore]
    exact rest_standing_ne_nil true hlt
  · rw [hbefore]
    exact helement

/-- What a token that was read from the index on tells, and where its scanner stands. -/
inductive Gives (text : List Char) (goal : LexicalGoal) (n : Nat) (token : Token) (scanner : Scanner) : Prop
  | ends (hend : token.isEnd = true) (hrest : scanner.rest = [])
  | reads (span : Span) (hs : span.Within text goal n) (h : span.Read text goal n) (htoken : token = span.token text)
    (hscanner : scanner = standing text true span.behind)

theorem gives {token : Token} {scanner : Scanner} (hn : n ≤ text.length)
    (hgoal : goal = .templateTail → text[n]? = some '}')
    (h : (standing text true n).next goal = (.ok token, scanner)) : Gives text goal n token scanner := by
  cases unfolds goal hn hgoal with
  | gapFails hgap => exact nomatch (next_fails hgap).symm.trans (congrArg Prod.fst h)
  | misreads hlt hgap helement =>
    obtain ⟨f, hf⟩ := next_misreads hlt hgap helement
    exact nomatch hf.symm.trans (congrArg Prod.fst h)
  | ends hgap =>
    have hrest := (advance_standing_end true hn).1
    have htoken := Except.ok.inj ((next_ends hgap hrest).symm.trans (congrArg Prod.fst h))
    have hscanner : _ = scanner := (scanner_next_ends hgap hrest).symm.trans (congrArg Prod.snd h)
    exact .ends (htoken ▸ rfl) (hscanner ▸ hrest)
  | reads span hs hread =>
    have hnext := hread.next.symm.trans h
    exact .reads span hs hread (Except.ok.inj (congrArg Prod.fst hnext)).symm (congrArg Prod.snd hnext).symm

theorem rescan_standing (sentinel : Bool) (m : Nat) {token : Token} (hn : n ≤ text.length)
    (htoken : token.start = placeAt text n) : (standing text sentinel m).rescan goal token =
      (((standing text sentinel n).next goal).1.map fun again => { again with newlineBefore := token.newlineBefore },
        ((standing text sentinel n).next goal).2) := by
  rw [rescan, htoken, moveTo_placeAt sentinel hn]

/-- A token that was read again is one read from where it began, but for what is known of the gap before it. -/
theorem next_of_rescan {sentinel : Bool} {m : Nat} {old token : Token} {scanner : Scanner} (hn : n ≤ text.length)
    (hold : old.start = placeAt text n) (h : (standing text sentinel m).rescan goal old = (.ok token, scanner)) :
    ∃ again, (standing text sentinel n).next goal = (.ok again, scanner) ∧
      token = { again with newlineBefore := old.newlineBefore } := by
  rw [rescan_standing sentinel m hn hold] at h
  rcases hnext : (standing text sentinel n).next goal with ⟨_ | again, _⟩ <;> rw [hnext] at h <;> cases h
  exact ⟨again, rfl, rfl⟩

/-- Reading again from a token under another goal. -/
theorem rescans (goal : LexicalGoal) (m : Nat) (token : Token) (hn : n ≤ text.length)
    (htoken : token.start = placeAt text n) (hgoal : goal = .templateTail → text[n]? = some '}') :
    Scans text goal n fun sentinel => (standing text sentinel m).rescan goal token := by
  cases scans goal hn hgoal with
  | @fails e k c hc hline h =>
    refine .fails (e := e) hc hline fun sentinel => ?_
    rw [rescan_standing sentinel m hn htoken, h]
    rfl
  | ends _ _ hend h =>
    refine .ends (fun _ => token.newlineBefore) id hend fun sentinel => ?_
    rw [rescan_standing sentinel m hn htoken, h]
    rfl
  | reads span hs hend h =>
    refine .reads { span with newlineBefore := token.newlineBefore } { hs with } hend fun sentinel => ?_
    rw [rescan_standing sentinel m hn htoken, h]
    rfl

end Scanner

end EcmaCheck
