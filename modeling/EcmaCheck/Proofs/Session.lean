import EcmaCheck.Proofs.Lexical.Padding
import EcmaCheck.Proofs.Undecoded

/-!
# Sessions

A session asks one scanner for tokens, has it read earlier tokens again, and keeps scanners to go back to. None of this
leaves a trace: what a scanner knows beyond its offset follows from the text (`Scanner.Consistent`), whatever it was
asked before and whether it failed at it. So its next answer is that of a fresh scanner that was moved to the same
offset, and a token that is read again under its goal is the same (`sessions_forget`).
-/

namespace EcmaCheck

open Lexical

/-! ## Places of a source -/

theorem Position.offset_advance (sentinel : Bool) (n : Nat) (p : Position) (text : List Char) :
    (p.advance sentinel n text).offset = p.offset + byteLength (text.take n) := by
  induction n generalizing p text with
  | zero => cases text <;> rfl
  | succ n ih =>
    cases text with
    | nil => rfl
    | cons c rest => rw [advance, ih, offset_step, List.take_succ_cons, byteLength, Nat.add_assoc]

/-- Seeking the offset of a place finds the place. -/
theorem Position.seek_advance {sentinel : Bool} {n : Nat} {p : Position} {text : List Char} (hn : n ≤ text.length) :
    p.seek sentinel (p.advance sentinel n text).offset text = p.advance sentinel n text := by
  induction n generalizing p text with
  | zero =>
    cases text with
    | nil => rfl
    | cons c rest => exact if_neg (Nat.lt_irrefl _)
  | succ n ih =>
    cases text with
    | nil => rfl
    | cons c rest =>
      have hlt : p.offset < (p.advance sentinel (n + 1) (c :: rest)).offset := by
        rw [offset_advance]
        exact Nat.lt_add_of_pos_right (byteLength_pos (List.cons_ne_nil _ _))
      rw [seek, if_pos hlt, advance]
      exact ih (Nat.le_of_succ_le_succ hn)

/-- An offset belongs to one place only. -/
theorem eq_of_byteLength_take_eq {text : List Char} {m n : Nat} (hm : m ≤ text.length) (hn : n ≤ text.length)
    (h : byteLength (text.take m) = byteLength (text.take n)) : m = n := by
  rw [← offset_placeAt hm, ← offset_placeAt hn] at h
  rcases Nat.lt_trichotomy m n with hlt | heq | hlt
  · exact absurd h (Nat.ne_of_lt (offset_placeAt_lt hlt hn))
  · exact heq
  · exact absurd h (Nat.ne_of_gt (offset_placeAt_lt hlt hm))

/-! ## What follows a gap -/

/-- Behind a gap there is none. -/
theorem Lexical.gapFrom_behind {whole text : List Char} {length n : Nat} {newline ended : Bool}
    (ht : whole.drop length = text) (h : gapFrom length newline text = ⟨n, .ok ended⟩) :
    gapFrom 0 false (whole.drop n) = ⟨0, .ok false⟩ := by
  fun_induction gapFrom length newline text with
  | case1 =>
    cases h
    rw [ht, gapFrom_nil]
  | case2 length newline c rest _ ih | case3 length newline c rest _ _ ih => exact ih (drop_eq_cons ht).2.2 h
  | case4 length newline line _ _ ih =>
    obtain ⟨_, _, hslash⟩ := drop_eq_cons ht
    obtain ⟨_, _, rfl⟩ := drop_eq_cons hslash
    exact ih (List.drop_drop ..).symm h
  | case5 length newline body k ended' _ _ _ ih =>
    obtain ⟨_, _, hslash⟩ := drop_eq_cons ht
    obtain ⟨_, _, rfl⟩ := drop_eq_cons hslash
    exact ih (List.drop_drop ..).symm h
  | case6 => cases h
  | case7 length newline rest hline hblock =>
    cases h
    rw [ht, gapFrom_slash]
    split
    · exact absurd rfl (hline _)
    · exact absurd rfl (hblock _)
    · rfl
  | case8 length newline c rest hline hspace hslash =>
    cases h
    rw [ht, gapFrom_other hline hspace hslash]

/-- Behind a gap there is none, wherever it began. -/
theorem Lexical.gap_behind {atStart ended : Bool} {n : Nat} {text : List Char} (h : gap atStart text = ⟨n, .ok ended⟩) :
    gap false (text.drop n) = ⟨0, .ok false⟩ := by
  fun_cases gap atStart text with
  | case1 line hstart =>
    rw [gap, if_pos hstart] at h
    rw [gap_later]
    exact gapFrom_behind (by rw [← List.drop_drop]; rfl) h
  | case2 line hstart =>
    rw [gap, if_neg hstart] at h
    cases h
    rfl
  | case3 text hmark =>
    rw [gap] at h
    · rw [gap_later]
      exact gapFrom_behind rfl h
    · exact hmark

/-! ## Scanners that agree with the text -/

namespace Scanner

variable {text : List Char} {goal : LexicalGoal} {s t after : Scanner} {token : Token}

/-- What the scanner holds is what the text says of its place. The place before a sentinel is known where the sentinel
has been passed, and may be known before. -/
structure Consistent (text : List Char) (s : Scanner) : Prop where
  source : s.source = .ofText text
  place : ∃ n ≤ (Source.ofText text).text.length, s.rest = (Source.ofText text).text.drop n ∧
    s.position = Position.start.advance (Source.ofText text).sentinel n (Source.ofText text).text
  textEnd : ∀ p, s.textEnd? = some p → (Source.ofText text).sentinel = true ∧
    p = Position.start.advance true ((Source.ofText text).text.length - 1) (Source.ofText text).text
  passed : (Source.ofText text).sentinel = true → s.rest = [] → s.textEnd? ≠ none

/-- The sentinel is a line feed. -/
theorem sentinel_ofText (h : (Source.ofText text).sentinel = true) :
    ∃ own, (Source.ofText text).text = own ++ ['\n'] := by
  obtain ⟨own, sentinel, hsource⟩ := Source.ofText_eq text
  rw [hsource] at h ⊢
  cases sentinel with
  | false => cases h
  | true => exact ⟨own, rfl⟩

theorem consistent_ofSource (text : List Char) : Consistent text (ofSource (.ofText text)) where
  source := rfl
  place := ⟨0, Nat.zero_le _, List.drop_zero.symm, by cases (Source.ofText text).text <;> rfl⟩
  textEnd _ h := by cases h
  passed h hrest := by
    obtain ⟨own, hown⟩ := sentinel_ofText h
    change (Source.ofText text).text = [] at hrest
    rw [hown] at hrest
    exact absurd hrest (List.append_ne_nil_of_right_ne_nil _ (List.cons_ne_nil _ _))

theorem Consistent.bump (h : Consistent text s) : Consistent text s.bump := by
  obtain ⟨n, hn, hrest, hposition⟩ := h.place
  unfold Scanner.bump
  split
  · exact h
  · rename_i c rest hcons
    obtain ⟨hc, hlt, hdrop⟩ := drop_eq_cons (hrest.symm.trans hcons)
    have hlast : rest = [] → n = (Source.ofText text).text.length - 1 := by
      rintro rfl
      have := List.drop_eq_nil_iff.mp hdrop
      omega
    refine ⟨h.source, ⟨n + 1, hlt, hdrop.symm, ?_⟩, fun p hp => ?_, fun hsentinel hnil => ?_⟩
    · rw [Position.advance_succ .start hc, hposition, hdrop, h.source]
    · simp only at hp
      split at hp
      · rename_i hend
        simp only [Bool.and_eq_true, List.isEmpty_iff, h.source] at hend
        cases hknown : s.textEnd? with
        | some q =>
          rw [hknown] at hp
          cases hp
          exact h.textEnd _ hknown
        | none =>
          rw [hknown] at hp
          cases hp
          exact ⟨hend.1, by rw [hposition, hlast hend.2, hend.1]⟩
      · exact h.textEnd p hp
    · simp only at hnil
      simp only [hnil, h.source, hsentinel, List.isEmpty_nil, Bool.and_self, if_true]
      cases s.textEnd? <;> exact Option.some_ne_none _

theorem Consistent.advance (h : Consistent text s) (n : Nat) : Consistent text (s.advance n) := by
  induction n generalizing s with
  | zero => exact h
  | succ n ih => exact ih h.bump

/-- The place is the one that the text has at its offset. -/
theorem Consistent.position_eq (h : Consistent text s) : s.position = positionAt text s.position.offset := by
  obtain ⟨n, hn, _, hposition⟩ := h.place
  rw [hposition]
  exact (Position.seek_advance hn).symm

/-- Two scanners with the same offset stand at the same place. -/
theorem Consistent.same_place (hs : Consistent text s) (ht : Consistent text t)
    (h : s.position.offset = t.position.offset) : s.source = t.source ∧ s.rest = t.rest ∧ s.position = t.position := by
  obtain ⟨m, hm, hrest, hposition⟩ := hs.place
  obtain ⟨n, hn, hrest', hposition'⟩ := ht.place
  rw [hposition, hposition', Position.offset_advance, Position.offset_advance] at h
  obtain rfl : m = n := eq_of_byteLength_take_eq hm hn (Nat.add_left_cancel h)
  exact ⟨hs.source.trans ht.source.symm, hrest.trans hrest'.symm, hposition.trans hposition'.symm⟩

/-- Where the text ends, two scanners tell the same place. -/
theorem Consistent.same_end (hs : Consistent text s) (ht : Consistent text t)
    (h : s.position.offset = t.position.offset) (hrest : s.rest = []) :
    s.textEnd?.getD s.position = t.textEnd?.getD t.position := by
  obtain ⟨_, hrests, hposition⟩ := hs.same_place ht h
  cases hsentinel : (Source.ofText text).sentinel with
  | false =>
    have hnone {u : Scanner} (hu : Consistent text u) : u.textEnd? = none := by
      cases hend : u.textEnd? with
      | none => rfl
      | some p => exact absurd (hu.textEnd p hend).1 (by rw [hsentinel]; exact Bool.false_ne_true)
    rw [hnone hs, hnone ht]
    exact hposition
  | true =>
    obtain ⟨p, hp⟩ := Option.ne_none_iff_exists'.mp (hs.passed hsentinel hrest)
    obtain ⟨q, hq⟩ := Option.ne_none_iff_exists'.mp (ht.passed hsentinel (hrests ▸ hrest))
    rw [hp, hq, (hs.textEnd p hp).2, (ht.textEnd q hq).2]
    rfl

/-- Where a scanner stands at the end of its source, whatever brought it there. -/
theorem Consistent.place_of_rest (hs : Consistent text s) (hrest : s.rest = []) :
    s.position = Position.start.advance (Source.ofText text).sentinel (Source.ofText text).text.length
      (Source.ofText text).text := by
  obtain ⟨n, hn, hdrop, hposition⟩ := hs.place
  rw [hposition, Nat.le_antisymm hn (List.drop_eq_nil_iff.mp (hdrop.symm.trans hrest))]

/-! ## What a scanner answers -/

/-- An answer moves the scanner along its source. -/
theorem exists_advance_of_next (goal : LexicalGoal) (s : Scanner) : ∃ n, (s.next goal).2 = s.advance n := by
  unfold next
  dsimp only
  split
  · exact ⟨_, rfl⟩
  · split
    · exact ⟨_, rfl⟩
    · split <;> exact ⟨_, (advance_add ..).symm⟩

theorem Consistent.next (hs : Consistent text s) (goal : LexicalGoal) : Consistent text (s.next goal).2 := by
  obtain ⟨n, hn⟩ := exists_advance_of_next goal s
  exact hn ▸ hs.advance n

/-- Two scanners with the same offset answer alike and move to the same place. -/
theorem Consistent.next_eq (hs : Consistent text s) (ht : Consistent text t)
    (h : s.position.offset = t.position.offset) (goal : LexicalGoal) :
    (s.next goal).1 = (t.next goal).1 ∧ (s.next goal).2.position = (t.next goal).2.position := by
  obtain ⟨hsource, hrest, hposition⟩ := hs.same_place ht h
  have hgap : s.skipGap goal = t.skipGap goal := by
    unfold skipGap
    rw [hrest, hposition]
  have hrests (n : Nat) : (s.advance n).rest = (t.advance n).rest := by
    rw [rest_advance, rest_advance, hrest]
  have hplaces (n : Nat) : (s.advance n).position = (t.advance n).position := by
    rw [position_advance, position_advance, hrest, hposition, hsource]
  rcases hskip : t.skipGap goal with ⟨k, e | newline⟩
  · simp only [Scanner.next, hgap, hskip, hplaces, and_self]
  by_cases hend : (t.advance k).rest = []
  · have hsame := (hs.advance k).same_end (ht.advance k) (congrArg _ (hplaces k)) ((hrests k).trans hend)
    rw [next_ends (hgap.trans hskip) ((hrests k).trans hend), next_ends hskip hend,
      scanner_next_ends (hgap.trans hskip) ((hrests k).trans hend), scanner_next_ends hskip hend, hsame]
    exact ⟨rfl, hplaces k⟩
  have hmore : (t.advance k).rest.isEmpty = false := List.isEmpty_eq_false_iff.mpr hend
  rcases helement : element t.source.sentinel goal (t.advance k).rest with ⟨m, e | kind⟩
  · simp only [Scanner.next, hgap, hskip, hrests, hsource, helement, hmore, Bool.false_eq_true, if_false, ← advance_add,
      hplaces, and_self]
  · simp only [Scanner.next, hgap, hskip, hrests, hsource, helement, hmore, Bool.false_eq_true, if_false, ← advance_add,
      hplaces, and_self]

/-- A scanner can be moved to wherever another one stands, except behind a sentinel. -/
theorem Consistent.moveTo (hs : Consistent text s) (ht : Consistent text t)
    (hbefore : (Source.ofText text).sentinel = true → t.rest ≠ []) :
    Consistent text (s.moveTo t.position) ∧ (s.moveTo t.position).rest = t.rest := by
  obtain ⟨n, hn, hrest, hposition⟩ := ht.place
  have hdrop : (s.moveTo t.position).rest = (Source.ofText text).text.drop n := by
    have hbytes := dropBytes_byteLength [] hn
    rw [List.append_nil, List.append_nil] at hbytes
    rw [Scanner.moveTo, hs.source, hposition, Position.offset_advance]
    simpa [Position.start] using hbytes
  refine ⟨⟨hs.source, ⟨n, hn, hdrop, hposition⟩, hs.textEnd, fun hsentinel hnil => ?_⟩, hdrop.trans hrest.symm⟩
  exact absurd (hrest.trans (hdrop.symm.trans hnil)) (hbefore hsentinel)

/-- The end of input is told at a place behind which only a sentinel is left. -/
theorem Consistent.exists_end (hs : Consistent text s) (hrest : s.rest = []) :
    ∃ t, Consistent text t ∧ t.position = s.textEnd?.getD s.position ∧
      t.rest = if (Source.ofText text).sentinel = true then ['\n'] else [] := by
  by_cases hsentinel : (Source.ofText text).sentinel = true
  · obtain ⟨p, hp⟩ := Option.ne_none_iff_exists'.mp (hs.passed hsentinel hrest)
    obtain ⟨own, hown⟩ := sentinel_ofText hsentinel
    refine ⟨_, (consistent_ofSource text).advance ((Source.ofText text).text.length - 1), ?_, ?_⟩
    · rw [hp, position_advance, Option.getD_some, (hs.textEnd p hp).2]
      exact congrArg (fun b => Position.start.advance b _ _) hsentinel
    · rw [rest_advance, if_pos hsentinel]
      change (Source.ofText text).text.drop _ = ['\n']
      rw [hown, List.length_append, List.length_singleton, Nat.add_sub_cancel, List.drop_left]
  · refine ⟨s, hs, ?_, hrest.trans (if_neg hsentinel).symm⟩
    cases hknown : s.textEnd? with
    | none => rfl
    | some p => exact absurd (hs.textEnd p hknown).1 hsentinel

/-- A token begins where a scanner can stand, before the sentinel if there is one. -/
theorem Consistent.exists_start (hs : Consistent text s) (h : s.next goal = (.ok token, after)) :
    ∃ t, Consistent text t ∧ t.position = token.start ∧ ((Source.ofText text).sentinel = true → t.rest ≠ []) := by
  rcases hskip : s.skipGap goal with ⟨k, e | newline⟩
  · exact nomatch (next_fails hskip).symm.trans (congrArg Prod.fst h)
  by_cases hend : (s.advance k).rest = []
  · cases (next_ends hskip hend).symm.trans (congrArg Prod.fst h)
    obtain ⟨t, ht, hposition, hrest⟩ := (hs.advance k).exists_end hend
    refine ⟨t, ht, hposition, fun hsentinel => ?_⟩
    rw [hrest, if_pos hsentinel]
    exact List.cons_ne_nil _ _
  · rcases helement : element s.source.sentinel goal (s.advance k).rest with ⟨m, e | kind⟩
    · exact nomatch (next_misread hskip hend helement).symm.trans (congrArg Prod.fst h)
    · cases (next_token hskip hend helement).symm.trans h
      exact ⟨s.advance k, hs.advance k, rfl, fun _ => hend⟩

/-- Where a token begins there is no gap before it. -/
theorem skipGap_behind {k : Nat} {newline : Bool} (hgoal : goal ≠ .templateTail)
    (hskip : s.skipGap goal = ⟨k, .ok newline⟩) (hrest : t.rest = (s.advance k).rest)
    (hposition : t.position = (s.advance k).position) (hne : (s.advance k).rest ≠ []) :
    ∃ newline', t.skipGap goal = ⟨0, .ok newline'⟩ := by
  rw [rest_advance] at hrest hne
  rw [position_advance] at hposition
  unfold skipGap at hskip ⊢
  rw [if_neg hgoal] at hskip ⊢
  rw [hrest]
  by_cases hzero : t.position.offset = 0
  · -- then nothing was skipped
    rw [hposition, Position.offset_advance] at hzero
    have hk : k = 0 := by
      refine Nat.eq_zero_of_not_pos fun hpos => ?_
      have htake : s.rest.take k ≠ [] := by
        rw [Ne, List.take_eq_nil_iff]
        rintro (rfl | hnil)
        · exact absurd hpos (Nat.lt_irrefl _)
        · exact hne (by rw [hnil, List.drop_nil])
      have := byteLength_pos htake
      omega
    subst hk
    rw [hposition, Position.offset_advance, List.drop_zero]
    exact ⟨newline, hskip⟩
  · simp only [hzero, decide_false]
    exact ⟨false, gap_behind hskip⟩

/-- What is left where the end of input is told is a gap. -/
theorem Consistent.skipGap_end (hs : Consistent text s) (hrest : s.rest = []) (ht : Consistent text t)
    (hgoal : goal ≠ .templateTail) (hposition : t.position = s.textEnd?.getD s.position) :
    ∃ k newline, t.skipGap goal = ⟨k, .ok newline⟩ ∧ (t.advance k).rest = [] := by
  obtain ⟨u, hu, hposition', hrest'⟩ := hs.exists_end hrest
  have hleft := (ht.same_place hu (congrArg _ (hposition.trans hposition'.symm))).2.1.trans hrest'
  have hgap : t.skipGap goal = gapFrom 0 false t.rest := by
    rw [skipGap, if_neg hgoal, hleft]
    split <;> rfl
  rw [hgap]
  by_cases hsentinel : (Source.ofText text).sentinel = true
  · rw [if_pos hsentinel] at hleft
    refine ⟨1, true, ?_, by rw [rest_advance, hleft]; rfl⟩
    rw [hleft, gapFrom_terminator rfl, gapFrom_nil]
  · rw [if_neg hsentinel] at hleft
    exact ⟨0, false, by rw [hleft, gapFrom_nil], hleft⟩

/-- From where a token begins it is read again, but for what is known of the gap before it. -/
theorem Consistent.reread (hs : Consistent text s) (ht : Consistent text t) (hgoal : goal ≠ .templateTail)
    (h : s.next goal = (.ok token, after)) (hstart : t.position = token.start) :
    ∃ newline, (t.next goal).1 = .ok { token with newlineBefore := newline } ∧
      (t.next goal).2.position = after.position := by
  rcases hskip : s.skipGap goal with ⟨k, e | newline⟩
  · exact nomatch (next_fails hskip).symm.trans (congrArg Prod.fst h)
  have hbetween := hs.advance k
  by_cases hend : (s.advance k).rest = []
  · obtain rfl : s.advance k = after := (scanner_next_ends hskip hend).symm.trans (congrArg Prod.snd h)
    cases (next_ends hskip hend).symm.trans (congrArg Prod.fst h)
    obtain ⟨m, newline', hskip', hend'⟩ := hbetween.skipGap_end hend ht hgoal hstart
    have hplace := ((ht.advance m).place_of_rest hend').trans (hbetween.place_of_rest hend).symm
    refine ⟨newline', ?_, ?_⟩
    · rw [next_ends hskip' hend', (ht.advance m).same_end hbetween (congrArg _ hplace) hend']
    · rw [scanner_next_ends hskip' hend', hplace]
  · rcases helement : element s.source.sentinel goal (s.advance k).rest with ⟨m, e | kind⟩
    · exact nomatch (next_misread hskip hend helement).symm.trans (congrArg Prod.fst h)
    · cases (next_token hskip hend helement).symm.trans h
      obtain ⟨hsource, hrest, hposition⟩ := ht.same_place hbetween (congrArg _ hstart)
      obtain ⟨newline', hskip'⟩ := skipGap_behind hgoal hskip hrest hposition hend
      have hstops : (t.advance m).position = ((s.advance k).advance m).position := by
        rw [position_advance, position_advance, hrest, hposition, hsource]
      have hagain : element t.source.sentinel goal t.rest = ⟨m, .ok kind⟩ := by
        rw [hrest, ht.source, ← hs.source]
        exact helement
      have hnext := next_token (s := t) hskip' (by rw [Scanner.advance, hrest]; exact hend) hagain
      refine ⟨newline', ?_, (congrArg (·.2.position) hnext).trans hstops⟩
      rw [hnext]
      simp only [Scanner.advance, hrest, hposition, hstops]

end Scanner

/-! ## Sessions -/

/-- A token that a session gave, with the goal it was read under and the place where the scanner stood then. -/
structure Given where
  token : Token
  goal : LexicalGoal
  behind : Position
  deriving DecidableEq, Repr

/-- A scanner with what it has given and the scanners that were kept of it. -/
structure Session where
  scanner : Scanner
  given : List Given
  kept : List Scanner

/-- What a session can be asked for. Tokens and kept scanners are told by when they came. -/
inductive Request where
  | next (goal : LexicalGoal)
  | rescan (index : Nat) (goal : LexicalGoal)
  | keep
  | restore (index : Nat)
  deriving DecidableEq, Repr

namespace Session

/-- The session before anything is asked. -/
def start (text : List Char) : Session :=
  ⟨.ofSource (.ofText text), [], []⟩

/-- Takes what the scanner answered. An error leaves it where the reading stopped. -/
def receive (s : Session) (goal : LexicalGoal) : Except Fault Token × Scanner → Session
  | (.ok token, scanner) => { s with scanner, given := s.given ++ [⟨token, goal, scanner.position⟩] }
  | (.error _, scanner) => { s with scanner }

/-- Serves a request; nothing is done for a token or a scanner that is not there. -/
def serve (s : Session) : Request → Session
  | .next goal => s.receive goal (s.scanner.next goal)
  | .rescan index goal =>
    match s.given[index]? with
    | some g => s.receive goal (s.scanner.rescan goal g.token)
    | none => s
  | .keep => { s with kept := s.kept ++ [s.scanner] }
  | .restore index =>
    match s.kept[index]? with
    | some scanner => { s with scanner }
    | none => s

/-- The session after the requests. -/
def after (text : List Char) (requests : List Request) : Session :=
  requests.foldl serve (start text)

/-- The token was read from a scanner that agrees with the text, before which a gap may have been known. -/
def ReadFrom (text : List Char) (g : Given) : Prop :=
  ∃ s token scanner, Scanner.Consistent text s ∧ s.next g.goal = (.ok token, scanner) ∧
    g.token = { token with newlineBefore := g.token.newlineBefore } ∧ g.behind = scanner.position

/-- All that the session holds agrees with the text. -/
structure Consistent (text : List Char) (s : Session) : Prop where
  scanner : s.scanner.Consistent text
  given : ∀ g ∈ s.given, ReadFrom text g
  kept : ∀ scanner ∈ s.kept, scanner.Consistent text

variable {text : List Char} {s : Session}

theorem consistent_start (text : List Char) : Consistent text (start text) :=
  ⟨Scanner.consistent_ofSource text, nofun, nofun⟩

theorem ReadFrom.exists_start {g : Given} (h : ReadFrom text g) : ∃ t, Scanner.Consistent text t ∧
    t.position = g.token.start ∧ ((Source.ofText text).sentinel = true → t.rest ≠ []) := by
  obtain ⟨s, token, scanner, hs, hnext, htoken, _⟩ := h
  obtain ⟨t, ht, hposition, hbefore⟩ := hs.exists_start hnext
  exact ⟨t, ht, by rw [hposition, htoken], hbefore⟩

/-- A scanner that goes back to the start of a token agrees with the text there. -/
theorem ReadFrom.moveTo {g : Given} (h : ReadFrom text g) {scanner : Scanner} (hs : scanner.Consistent text) :
    (scanner.moveTo g.token.start).Consistent text := by
  obtain ⟨t, ht, hstart, hbefore⟩ := h.exists_start
  rw [← hstart]
  exact (hs.moveTo ht hbefore).1

theorem Consistent.receive (h : Consistent text s) {goal : LexicalGoal} {answer : Except Fault Token × Scanner}
    (hscanner : answer.2.Consistent text)
    (htoken : ∀ token, answer.1 = .ok token → ReadFrom text ⟨token, goal, answer.2.position⟩) :
    Consistent text (s.receive goal answer) := by
  rcases answer with ⟨e | token, scanner⟩
  · exact { h with scanner := hscanner }
  · refine { h with scanner := hscanner, given := fun g hg => ?_ }
    rcases List.mem_append.mp hg with hg | hg
    · exact h.given g hg
    · cases List.mem_singleton.mp hg
      exact htoken token rfl

/-- A request keeps the session in agreement with the text. -/
theorem Consistent.serve (h : Consistent text s) (request : Request) : Consistent text (s.serve request) := by
  cases request with
  | next goal =>
    refine h.receive (h.scanner.next goal) fun token htoken => ?_
    exact ⟨s.scanner, token, (s.scanner.next goal).2, h.scanner, Prod.ext htoken rfl, rfl, rfl⟩
  | rescan index goal =>
    rw [Session.serve]
    split
    · rename_i g hindex
      have hmoved := (h.given g (List.mem_of_getElem? hindex)).moveTo h.scanner
      refine h.receive (hmoved.next goal) fun token htoken => ?_
      rcases hnext : (s.scanner.moveTo g.token.start).next goal with ⟨_ | again, scanner⟩ <;>
        rw [Scanner.rescan, hnext] at htoken <;> cases htoken
      exact ⟨_, again, scanner, hmoved, hnext, rfl, by rw [Scanner.rescan, hnext]⟩
    · exact h
  | keep =>
    refine { h with kept := fun scanner hscanner => ?_ }
    rcases List.mem_append.mp hscanner with hscanner | hscanner
    · exact h.kept scanner hscanner
    · cases List.mem_singleton.mp hscanner
      exact h.scanner
  | restore index =>
    rw [Session.serve]
    split
    · rename_i scanner hindex
      exact { h with scanner := h.kept scanner (List.mem_of_getElem? hindex) }
    · exact h

theorem consistent_after (text : List Char) (requests : List Request) : Consistent text (after text requests) := by
  have key : ∀ (requests : List Request) {s : Session}, Consistent text s →
      Consistent text (requests.foldl Session.serve s) := by
    intro requests
    induction requests with
    | nil => exact id
    | cons request requests ih => exact fun h => ih (h.serve request)
  exact key requests (consistent_start text)

/-- A token that is read again under its goal is the same, and the scanner stands behind it as before. -/
theorem ReadFrom.rescan {g : Given} (h : ReadFrom text g) (hgoal : g.goal ≠ .templateTail) {scanner : Scanner}
    (hs : scanner.Consistent text) : (scanner.rescan g.goal g.token).1 = .ok g.token ∧
      (scanner.rescan g.goal g.token).2.position = g.behind := by
  have hmoved := h.moveTo hs
  obtain ⟨s, token, after, hs, hnext, htoken, hbehind⟩ := h
  obtain ⟨newline, hagain, hposition⟩ := hs.reread hmoved hgoal hnext (by rw [Scanner.moveTo, htoken])
  refine ⟨?_, hposition.trans hbehind.symm⟩
  simp only [Scanner.rescan, hagain, Except.map]
  exact congrArg Except.ok htoken.symm

end Session

/-- At every point of a session the scanner stands where its offset lies in the text, a fresh scanner moved to that
offset answers every goal in the same way, and a token that was read under a goal for operands or for operators is read
again under it with the same result. -/
theorem sessions_forget (text : List Char) (requests : List Request) :
    let s := Session.after text requests
    let fresh (n : Nat) := (Scanner.ofSource (.ofText text)).advance n
    s.scanner.position = positionAt text s.scanner.position.offset ∧
      (∃ n, (fresh n).position.offset = s.scanner.position.offset) ∧
      (∀ n goal, (fresh n).position.offset = s.scanner.position.offset →
        (s.scanner.next goal).1 = ((fresh n).next goal).1 ∧
          (s.scanner.next goal).2.position = ((fresh n).next goal).2.position) ∧
      ∀ g ∈ s.given, g.goal ≠ .templateTail →
        (s.scanner.rescan g.goal g.token).1 = .ok g.token ∧
          (s.scanner.rescan g.goal g.token).2.position = g.behind := by
  have h := Session.consistent_after text requests
  have hfresh (n : Nat) := (Scanner.consistent_ofSource text).advance n
  refine ⟨h.scanner.position_eq, ?_, fun n goal hoffset => ?_, fun g hg hgoal => ?_⟩
  · obtain ⟨n, _, _, hposition⟩ := h.scanner.place
    exact ⟨n, by rw [Scanner.position_advance, hposition]; rfl⟩
  · exact h.scanner.next_eq (hfresh n) hoffset.symm goal
  · exact (h.given g hg).rescan hgoal h.scanner

/-- The end of input is told before the sentinel, also behind an error, and told again from there. -/
theorem sessions_forget_end :
    let s := Session.after "a\r#\n\x00".toList [.next .regExp, .next .division, .next .regExp, .rescan 1 .templateTail]
    ∃ g ∈ s.given, g.goal ≠ .templateTail ∧ g.token.isEnd = true ∧ g.token.start = ⟨2, 2, 3⟩ ∧ g.behind = ⟨3, 1, 4⟩ ∧
      (s.scanner.rescan g.goal g.token).1 = .ok g.token := by
  have h := (sessions_forget "a\r#\n\x00".toList
    [.next .regExp, .next .division, .next .regExp, .rescan 1 .templateTail]).2.2.2
  let last : Given := ⟨⟨.endOfInput, ⟨2, 2, 3⟩, ⟨2, 2, 3⟩, "", true⟩, .regExp, ⟨3, 1, 4⟩⟩
  have hlast : last ∈ (Session.after "a\r#\n\x00".toList
      [.next .regExp, .next .division, .next .regExp, .rescan 1 .templateTail]).given := by decide +kernel
  exact ⟨last, hlast, nofun, rfl, rfl, rfl, (h last hlast nofun).1⟩

end EcmaCheck
