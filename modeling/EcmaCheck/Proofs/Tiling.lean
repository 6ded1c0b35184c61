import EcmaCheck.Proofs.Lexical.Trivia
import EcmaCheck.Proofs.Scanning

/-!
# Tokens tile their source

A source that is scanned to its end without an error, `/` being read as the goals say (`Scanner.drain`), is a gap, a
token, a gap and so on up to a last gap (`Tiles`): no character is lost, repeated or left behind, and each token tells
whether a line ends in the gap before it (`Scanner.drain_tiles`). So the spans of the tokens follow one another
(`Tiles.pairwise`).
-/

namespace EcmaCheck

open Lexical

/-- The tokens that the goals bring forth one after the other, up to the first end of input; nothing after an error, or
if the goals do not suffice. -/
def Scanner.drain : List LexicalGoal → Scanner → Option (List Token)
  | [], _ => none
  | goal :: goals, s =>
    match s.next goal with
    | (.error _, _) => none
    | (.ok token, after) => if token.isEnd then some [token] else (after.drain goals).map (token :: ·)

/-- The characters behind an offset are gap, token, gap and so on, up to a last gap behind which the input ends. -/
inductive Tiles : Nat → List Char → List Token → Prop
  | ends {offset : Nat} {gap : List Char} {token : Token} (hgap : IsGap (offset = 0) gap) (hend : token.isEnd = true)
    (hstart : offset ≤ token.start.offset) (hnewline : token.newlineBefore = gap.any isLineTerminator) :
    Tiles offset gap [token]
  | token {offset : Nat} {gap lexeme rest : List Char} {token : Token} {tokens : List Token}
    (hgap : IsGap (offset = 0) gap) (hend : token.isEnd = false)
    (hnewline : token.newlineBefore = gap.any isLineTerminator) (hne : lexeme ≠ [])
    (hlexeme : token.lexeme = String.ofList lexeme) (hstart : token.start.offset = offset + byteLength gap)
    (hstop : token.stop.offset = token.start.offset + byteLength lexeme) (hrest : Tiles token.stop.offset rest tokens) :
    Tiles offset (gap ++ lexeme ++ rest) (token :: tokens)

/-! ## Spans -/

/-- The span of a token holds a character, unless the input ends with the token, and those after it lie behind it. -/
structure Token.Precedes (first second : Token) : Prop where
  nonempty : first.start.offset < first.stop.offset
  stop_le : first.stop.offset ≤ second.start.offset

/-- Tokens that tile a source lie behind the offset. -/
theorem Tiles.le_start {offset : Nat} {text : List Char} {tokens : List Token} (h : Tiles offset text tokens) :
    ∀ token ∈ tokens, offset ≤ token.start.offset := by
  induction h with
  | ends _ _ hstart _ => simpa using hstart
  | token _ _ _ _ _ hstart hstop _ ih =>
    intro token htoken
    rcases List.mem_cons.mp htoken with rfl | htoken
    · omega
    · exact Nat.le_trans (by omega) (ih token htoken)

/-- Tokens that tile a source follow one another. -/
theorem Tiles.pairwise {offset : Nat} {text : List Char} {tokens : List Token} (h : Tiles offset text tokens) :
    tokens.Pairwise Token.Precedes := by
  induction h with
  | ends => exact List.pairwise_singleton _ _
  | token _ _ _ hne _ _ hstop hrest ih =>
    refine List.pairwise_cons.mpr ⟨fun second hsecond => ⟨?_, hrest.le_start second hsecond⟩, ih⟩
    have := byteLength_pos hne
    omega

/-! ## Scanning -/

variable {text : List Char} {m n : Nat}

/-- The offset behind some characters more. -/
theorem offset_placeAt_add {k : Nat} (h : n + k ≤ text.length) :
    (placeAt text (n + k)).offset = (placeAt text n).offset + byteLength ((text.drop n).take k) := by
  rw [offset_placeAt h, offset_placeAt (by omega), List.take_add, byteLength_append]

namespace Scanner

/-- What is left of a source is what is left behind some characters, and those characters. -/
theorem rest_standing_append (sentinel : Bool) {k : Nat} (h : n + k ≤ text.length) :
    (text.drop n).take k ++ (standing text sentinel (n + k)).rest = (standing text sentinel n).rest := by
  have hdrop : (standing text sentinel (n + k)).rest = (standing text sentinel n).rest.drop k := List.drop_drop.symm
  rw [hdrop, ← take_rest_standing sentinel (by omega) (by omega), List.take_append_drop]

/-- The gap before a token either ends the source or ends before a character of the text. -/
theorem length_gap_standing (sentinel : Bool) {k : Nat} {newline : Bool} (hn : n ≤ text.length)
    (h : Lexical.gap ((placeAt text n).offset = 0) (standing text sentinel n).rest = ⟨k, .ok newline⟩) :
    k = text.length - n + sentinel.toNat ∨ n + k < text.length := by
  have hgap : Lexical.ReadsGap (text.drop n) ((standing text false n).skipGap .regExp)
      ((standing text true n).skipGap .regExp) := skipGap_reads hn (by rintro ⟨⟩)
  have hskip : (standing text sentinel n).skipGap .regExp = ⟨k, .ok newline⟩ := h
  generalize hr : (standing text false n).skipGap .regExp = r at hgap
  generalize hr' : (standing text true n).skipGap .regExp = r' at hgap
  have hboth : (if sentinel then r' else r) = ⟨k, .ok newline⟩ := by
    cases sentinel
    · exact hr.symm.trans hskip
    · exact hr'.symm.trans hskip
  cases hgap with
  | ends =>
    left
    rw [← List.length_drop]
    cases sentinel <;> cases hboth <;> rfl
  | goesOn hc =>
    right
    rw [List.getElem?_drop] at hc
    have hlt := (List.getElem?_eq_some_iff.mp hc).1
    cases sentinel <;> cases hboth <;> exact hlt
  | fails =>
    cases sentinel <;> cases hboth

theorem length_rest_standing (sentinel : Bool) (hn : n ≤ text.length) :
    (standing text sentinel n).rest.length = text.length - n + sentinel.toNat := by
  cases sentinel with
  | false => exact List.length_drop
  | true => rw [rest_standing_true hn, List.length_append, List.length_drop]; rfl

/-- Before a token there is a gap, and either the source ends with it or the token begins behind it. -/
theorem gap_of_next (sentinel : Bool) {goal : LexicalGoal} {token : Token} {after : Scanner}
    (hgoal : goal ≠ .templateTail) (hn : n ≤ text.length)
    (h : (standing text sentinel n).next goal = (.ok token, after)) :
    ∃ gap more, gap ++ more = (standing text sentinel n).rest ∧ IsGap ((placeAt text n).offset = 0) gap ∧
      token.newlineBefore = gap.any isLineTerminator ∧
      (more = [] ∧ token.isEnd = true ∨
        n + gap.length < text.length ∧ token.start = placeAt text (n + gap.length)) := by
  have hskip : (standing text sentinel n).skipGap goal =
      Lexical.gap ((placeAt text n).offset = 0) (standing text sentinel n).rest := if_neg hgoal
  simp only [next, hskip] at h
  rcases hread : Lexical.gap ((placeAt text n).offset = 0) (standing text sentinel n).rest with ⟨k, e | newline⟩
  · simp only [hread] at h
    cases h
  obtain ⟨gap, ⟨more, hmore⟩, hgap, rfl, hnewline⟩ := gap_ok hread
  refine ⟨gap, more, hmore, hgap, ?_⟩
  have hlength := length_rest_standing sentinel hn
  rw [← hmore, List.length_append] at hlength
  have hlast : more ≠ [] → n + gap.length < text.length := by
    intro hmore
    have := List.length_pos_iff.mpr hmore
    rcases length_gap_standing sentinel hn hread with hends | hlt
    · omega
    · exact hlt
  simp only [hread] at h
  have hrest : ((standing text sentinel n).advance gap.length).rest = more := by
    rw [rest_advance, ← hmore, List.drop_left]
  split at h
  · rename_i hempty
    cases h
    exact ⟨hnewline, .inl ⟨by rwa [hrest, List.isEmpty_iff] at hempty, rfl⟩⟩
  · rename_i hempty
    have hlt := hlast (by rwa [hrest, List.isEmpty_iff] at hempty)
    have hplace := congrArg Scanner.position (advance_standing sentinel (Nat.le_of_lt hlt))
    split at h <;> cases h
    exact ⟨hnewline, .inr ⟨hlt, hplace⟩⟩

/-- A span behind a gap, with the tokens behind it. -/
theorem tiles_span (sentinel : Bool) {goal : LexicalGoal} {span : Span} {gap more : List Char} {tokens : List Token}
    (hs : span.Within text goal n) (hmore : gap ++ more = (standing text sentinel n).rest)
    (hgap : IsGap ((placeAt text n).offset = 0) gap) (hnewline : span.newlineBefore = gap.any isLineTerminator)
    (hfirst : span.first = n + gap.length)
    (hrest : Tiles (placeAt text span.behind).offset (standing text sentinel span.behind).rest tokens) :
    Tiles (placeAt text n).offset (gap ++ more) (span.token text :: tokens) := by
  have hlt := hs.first_lt
  have hle := hs.behind_le
  have hbehind : span.first + (span.behind - span.first) = span.behind := by omega
  have hgapped : (text.drop n).take gap.length = gap := by
    rw [← take_rest_standing sentinel (by omega) (by omega), ← hmore, List.take_left]
  -- what is left behind the gap begins with the lexeme
  have hcut : (text.drop span.first).take (span.behind - span.first) ++ (standing text sentinel span.behind).rest =
      (standing text sentinel span.first).rest := by
    have hle' : span.first + (span.behind - span.first) ≤ text.length := by omega
    have hsplit := rest_standing_append sentinel hle'
    rwa [hbehind] at hsplit
  have hmore' : (standing text sentinel span.first).rest = more := by
    have hle' : n + gap.length ≤ text.length := by omega
    have hsplit := rest_standing_append sentinel hle'
    rw [hgapped, ← hmore, ← hfirst] at hsplit
    exact List.append_cancel_left hsplit
  rw [hmore'] at hcut
  rw [← hcut, ← List.append_assoc]
  refine .token hgap hs.isEnd_token hnewline ?_ rfl ?_ ?_ hrest
  · rw [Ne, List.take_eq_nil_iff, List.drop_eq_nil_iff]
    omega
  · change (placeAt text span.first).offset = _
    rw [hfirst, offset_placeAt_add (by omega), hgapped]
  · change (placeAt text span.behind).offset = (placeAt text span.first).offset + _
    rw [← offset_placeAt_add (by omega), hbehind]

/-- From any place of the text on, the tokens tile what is left of the source. -/
theorem drain_standing (sentinel : Bool) {goals : List LexicalGoal} {tokens : List Token}
    (hgoals : ∀ goal ∈ goals, goal ≠ .templateTail) (hn : n ≤ text.length)
    (h : (standing text sentinel n).drain goals = some tokens) :
    Tiles (placeAt text n).offset (standing text sentinel n).rest tokens := by
  induction goals generalizing n tokens with
  | nil => cases h
  | cons goal goals ih =>
    have hgoal : goal ≠ .templateTail := hgoals goal List.mem_cons_self
    have hscans := scans goal hn (fun h => absurd h hgoal)
    rw [drain] at h
    rcases hnext : (standing text sentinel n).next goal with ⟨e | token, after⟩ <;> rw [hnext] at h
    · cases h
    obtain ⟨gap, more, hmore, hgap, hnewline, hplace⟩ := gap_of_next sentinel hgoal hn hnext
    simp only at h
    rw [← hmore]
    cases hscans with
    | fails _ _ hfails =>
      have := hfails sentinel
      rw [hnext] at this
      cases this
    | ends newline _ _ hends =>
      obtain rfl : token = endToken text (newline sentinel) := Except.ok.inj (by rw [← hends sentinel, hnext])
      rw [if_pos (by rfl)] at h
      cases h
      rcases hplace with ⟨rfl, hend⟩ | ⟨hlt, hstart⟩
      · rw [List.append_nil]
        exact .ends hgap rfl (offset_placeAt_le hn (Nat.le_refl _)) hnewline
      · exact absurd (eq_of_placeAt_eq (Nat.le_refl _) (Nat.le_of_lt hlt) hstart) (by omega)
    | reads span hs _ hreads =>
      obtain ⟨rfl, rfl⟩ : token = span.token text ∧ after = standing text sentinel span.behind := by
        have := hreads sentinel
        rw [hnext] at this
        cases this
        exact ⟨rfl, rfl⟩
      rw [if_neg (by rw [hs.isEnd_token]; exact Bool.false_ne_true)] at h
      obtain ⟨others, hothers, rfl⟩ := Option.map_eq_some_iff.mp h
      rcases hplace with ⟨_, hend⟩ | ⟨hlt, hstart⟩
      · rw [hs.isEnd_token] at hend
        cases hend
      · have hfirst : span.first = n + gap.length := eq_of_placeAt_eq hs.first_le (Nat.le_of_lt hlt) hstart
        have hrest := ih (fun goal hgoal => hgoals goal (List.mem_cons_of_mem _ hgoal)) hs.behind_le hothers
        exact tiles_span sentinel hs hmore hgap hnewline hfirst hrest

/-- A source that is scanned to its end without an error is tiled by its tokens and the gaps before them. -/
theorem drain_tiles {text : List Char} {goals : List LexicalGoal} {tokens : List Token}
    (hgoals : ∀ goal ∈ goals, goal ≠ .templateTail)
    (h : (ofSource (.ofText text)).drain goals = some tokens) :
    Tiles 0 (Source.ofText text).text tokens ∧ tokens.Pairwise Token.Precedes := by
  obtain ⟨own, sentinel, hsource⟩ := Source.ofText_eq text
  rw [hsource, ofSource_carrying] at h
  have htiles := drain_standing sentinel hgoals (Nat.zero_le _) h
  rw [placeAt_zero] at htiles
  rw [hsource]
  exact ⟨htiles, htiles.pairwise⟩

/-- A `#!` line, a comment and the line end that a sentinel is are gaps. -/
theorem drain_tiles_hashbang :
    ∃ tokens, (ofSource (.ofText "#!sh\na/**//x\n\x00".toList)).drain [.regExp, .division, .regExp, .regExp] =
        some tokens ∧ tokens.length = 4 ∧ Tiles 0 "#!sh\na/**//x\n".toList tokens := by
  have h : ∃ tokens, (ofSource (.ofText "#!sh\na/**//x\n\x00".toList)).drain
      [.regExp, .division, .regExp, .regExp] = some tokens ∧ tokens.length = 4 := by decide +kernel
  obtain ⟨tokens, h, hlength⟩ := h
  exact ⟨tokens, h, hlength, (drain_tiles (by decide) h).1⟩

end Scanner

end EcmaCheck
