import EcmaCheck.Scanner

/-!
# Places in a text

`placeAt text n` is the place before the character with index `n`, as scanning reaches it step by step. It is what the
text itself says about it: the offset counts the bytes before it (`offset_placeAt`), the line the line ends before it
(`line_placeAt`), and the column the characters since the last of them (`column_placeAt`), except between a CR and the
LF that belongs to it. A sentinel changes none of this (`step_sentinel`).
-/

namespace EcmaCheck

/-- The number of bytes of UTF-8 that the text takes. -/
def byteLength : List Char → Nat
  | [] => 0
  | c :: rest => c.utf8Size + byteLength rest

/-- The place before the character with index `n`, or after the text if there is none. -/
def placeAt (text : List Char) (n : Nat) : Position :=
  Position.start.advance false n text

/-- Whether a line ends with the character with index `i`. A CR does not end one if an LF follows. -/
def endsLine (text : List Char) (i : Nat) : Bool :=
  match text[i]? with
  | some c => isLineTerminator c && !(c = '\r' && text[i + 1]? = some '\n')
  | none => false

/-- The indices before `n` of the characters that end lines. -/
def lineEnds (text : List Char) (n : Nat) : List Nat :=
  (List.range n).filter (endsLine text)

/-- The index of the character after the last line end before `n`. -/
def lineStart (text : List Char) (n : Nat) : Nat :=
  ((lineEnds text n).getLast?.map (· + 1)).getD 0

/-- Whether the index lies between a CR and the LF that belongs to it. -/
def splitsPair (text : List Char) (n : Nat) : Prop :=
  0 < n ∧ text[n - 1]? = some '\r' ∧ text[n]? = some '\n'

/-! ## Scanning step by step -/

namespace Position

variable {sentinel : Bool} {text : List Char}

theorem advance_add (m n : Nat) (p : Position) :
    p.advance sentinel (m + n) text = (p.advance sentinel m text).advance sentinel n (text.drop m) := by
  induction m generalizing p text with
  | zero => rw [Nat.zero_add]; cases text <;> rfl
  | succ m ih =>
    cases text with
    | nil => rw [Nat.succ_add]; cases n <;> rfl
    | cons c rest => rw [Nat.succ_add]; exact ih (p.step sentinel c rest)

theorem advance_succ {n : Nat} {c : Char} (p : Position) (hc : text[n]? = some c) :
    p.advance sentinel (n + 1) text = (p.advance sentinel n text).step sentinel c (text.drop (n + 1)) := by
  obtain ⟨hn, rfl⟩ := List.getElem?_eq_some_iff.mp hc
  rw [advance_add, List.drop_eq_getElem_cons hn]
  rfl

end Position

theorem startsWithPairedFeed_iff {rest : List Char} :
    startsWithPairedFeed false rest = true ↔ rest.head? = some '\n' := by
  unfold startsWithPairedFeed
  split
  · simp
  · rename_i hne
    refine ⟨nofun, fun h => ?_⟩
    obtain ⟨more, rfl⟩ := List.head?_eq_some_iff.mp h
    exact absurd rfl (hne more)

/-- What lies more than a character ahead does not show. -/
theorem Position.advance_take {text : List Char} {n m : Nat} (p : Position) (h : n < m) :
    p.advance false n (text.take m) = p.advance false n text := by
  induction n generalizing p m text with
  | zero => cases text <;> cases m <;> rfl
  | succ n ih =>
    obtain ⟨m, rfl⟩ := Nat.exists_eq_succ_of_ne_zero (Nat.ne_zero_of_lt h)
    have hlt : n < m := Nat.lt_of_succ_lt_succ h
    cases text with
    | nil => rfl
    | cons c rest =>
      -- the step looks at the next character only
      have hstep : p.step false c (rest.take m) = p.step false c rest := by
        have hfeed : startsWithPairedFeed false (rest.take m) = startsWithPairedFeed false rest := by
          rw [Bool.eq_iff_iff, startsWithPairedFeed_iff, startsWithPairedFeed_iff, List.head?_take,
            if_neg (Nat.ne_zero_of_lt hlt)]
        simp only [step, hfeed]
      rw [List.take_succ_cons, advance, advance, hstep]
      exact ih _ hlt

/-- Before any character but a line feed it does not matter whether the last one is a sentinel. -/
theorem Position.advance_eq {text : List Char} {k : Nat} {c : Char} (sentinel : Bool) (p : Position)
    (hc : text[k]? = some c) (hline : c ≠ '\n') : p.advance sentinel k text = p.advance false k text := by
  induction k generalizing p text with
  | zero => cases text <;> rfl
  | succ k ih =>
    cases text with
    | nil => cases hc
    | cons d rest =>
      have hrest : rest[k]? = some c := hc
      have hfeed : startsWithPairedFeed sentinel rest = startsWithPairedFeed false rest := by
        unfold startsWithPairedFeed
        split
        · rename_i more
          have hmore : more ≠ [] := by
            rintro rfl
            cases k with
            | zero => exact hline (Option.some.inj hrest).symm
            | succ k => cases hrest
          simp [List.isEmpty_eq_false_iff.mpr hmore]
        · rfl
      rw [advance, advance, ih _ hrest, step, step, hfeed]

theorem startsWithPairedFeed_sentinel (rest : List Char) :
    startsWithPairedFeed true (rest ++ ['\n']) = startsWithPairedFeed false rest := by
  cases rest with
  | nil => rfl
  | cons c rest =>
    unfold startsWithPairedFeed
    by_cases hc : c = '\n'
    · subst hc; simp
    · simp [hc]

/-- The sentinel does not show in the places before it. -/
theorem step_sentinel (p : Position) (c : Char) (rest : List Char) :
    p.step true c (rest ++ ['\n']) = p.step false c rest := by
  simp only [Position.step, startsWithPairedFeed_sentinel]

theorem placeAt_zero (text : List Char) : placeAt text 0 = .start := by
  cases text <;> rfl

theorem placeAt_succ {text : List Char} {n : Nat} {c : Char} (hc : text[n]? = some c) :
    placeAt text (n + 1) = (placeAt text n).step false c (text.drop (n + 1)) :=
  Position.advance_succ .start hc

/-! ## Offsets -/

theorem byteLength_append (first second : List Char) :
    byteLength (first ++ second) = byteLength first + byteLength second := by
  induction first with
  | nil => simp only [List.nil_append, byteLength, Nat.zero_add]
  | cons c rest ih => simp only [List.cons_append, byteLength, ih, Nat.add_assoc]

theorem byteLength_take_succ {text : List Char} {n : Nat} {c : Char} (hc : text[n]? = some c) :
    byteLength (text.take (n + 1)) = byteLength (text.take n) + c.utf8Size := by
  obtain ⟨hn, rfl⟩ := List.getElem?_eq_some_iff.mp hc
  rw [List.take_succ_eq_append_getElem hn, byteLength_append]
  rfl

theorem offset_placeAt {text : List Char} {n : Nat} (hn : n ≤ text.length) :
    (placeAt text n).offset = byteLength (text.take n) := by
  induction n with
  | zero => rw [placeAt_zero]; rfl
  | succ n ih =>
    have hc : text[n]? = some text[n] := List.getElem?_eq_getElem hn
    rw [placeAt_succ hc, Position.offset_step, ih (Nat.le_of_lt hn), byteLength_take_succ hc]

theorem byteLength_take_le (text : List Char) (n : Nat) : byteLength (text.take n) ≤ byteLength text := by
  have h : byteLength text = byteLength (text.take n) + byteLength (text.drop n) := by
    rw [← byteLength_append, List.take_append_drop]
  omega

theorem byteLength_pos {text : List Char} (h : text ≠ []) : 0 < byteLength text := by
  cases text with
  | nil => exact absurd rfl h
  | cons c rest => exact Nat.lt_of_lt_of_le (Char.utf8Size_pos c) (Nat.le_add_right _ _)

/-- Skipping the bytes before a place skips the characters before it. -/
theorem dropBytes_byteLength {text : List Char} {n : Nat} (rest : List Char) (hn : n ≤ text.length) :
    dropBytes (byteLength (text.take n)) (text ++ rest) = text.drop n ++ rest := by
  induction n generalizing text with
  | zero => exact dropBytes.eq_1 _
  | succ n ih =>
    cases text with
    | nil => exact absurd hn (by simp)
    | cons c text =>
      have hc : 0 < c.utf8Size := Char.utf8Size_pos c
      have hsum : byteLength ((c :: text).take (n + 1)) = c.utf8Size + byteLength (text.take n) := rfl
      obtain ⟨k, hk⟩ : ∃ k, c.utf8Size + byteLength (text.take n) = k + 1 := ⟨_, (Nat.succ_pred (by omega)).symm⟩
      rw [hsum, hk, List.cons_append, dropBytes, if_pos (by omega), ← hk, Nat.add_sub_cancel_left]
      exact ih (Nat.le_of_succ_le_succ hn)

/-! ## The order of places -/

theorem offset_placeAt_lt {text : List Char} {m n : Nat} (hmn : m < n) (hn : n ≤ text.length) :
    (placeAt text m).offset < (placeAt text n).offset := by
  rw [offset_placeAt (by omega), offset_placeAt hn, ← Nat.add_sub_cancel' (Nat.le_of_lt hmn), List.take_add,
    byteLength_append]
  refine Nat.lt_add_of_pos_right (byteLength_pos ?_)
  rw [Ne, List.take_eq_nil_iff, List.drop_eq_nil_iff]
  omega

/-- Places of a text with the same offset are the same. -/
theorem eq_of_placeAt_eq {text : List Char} {m n : Nat} (hm : m ≤ text.length) (hn : n ≤ text.length)
    (h : placeAt text m = placeAt text n) :
    m = n := by
  rcases Nat.lt_trichotomy m n with hlt | rfl | hlt
  · exact absurd (congrArg Position.offset h) (Nat.ne_of_lt (offset_placeAt_lt hlt hn))
  · rfl
  · exact absurd (congrArg Position.offset h) (Nat.ne_of_gt (offset_placeAt_lt hlt hm))

theorem offset_placeAt_le {text : List Char} {m n : Nat} (hmn : m ≤ n) (hn : n ≤ text.length) :
    (placeAt text m).offset ≤ (placeAt text n).offset := by
  rcases Nat.eq_or_lt_of_le hmn with rfl | hlt
  · exact Nat.le_refl _
  · exact Nat.le_of_lt (offset_placeAt_lt hlt hn)

/-! ## Lines and columns -/

theorem endsLine_eq {text : List Char} {n : Nat} {c : Char} (hc : text[n]? = some c) :
    endsLine text n = (isLineTerminator c && !(c = '\r' && startsWithPairedFeed false (text.drop (n + 1)))) := by
  have hfeed : decide (text[n + 1]? = some '\n') = startsWithPairedFeed false (text.drop (n + 1)) := by
    rw [Bool.eq_iff_iff, startsWithPairedFeed_iff, List.head?_drop, decide_eq_true_iff]
  simp only [endsLine, hc, hfeed]

theorem lineEnds_succ (text : List Char) (n : Nat) :
    lineEnds text (n + 1) = lineEnds text n ++ if endsLine text n then [n] else [] := by
  simp only [lineEnds, List.range_succ, List.filter_append, List.filter_cons, List.filter_nil]

theorem lineStart_succ (text : List Char) (n : Nat) :
    lineStart text (n + 1) = if endsLine text n then n + 1 else lineStart text n := by
  unfold lineStart
  rw [lineEnds_succ]
  split
  · rw [List.getLast?_concat]; rfl
  · rw [List.append_nil]

theorem lineStart_le (text : List Char) (n : Nat) : lineStart text n ≤ n := by
  induction n with
  | zero => exact Nat.le_refl 0
  | succ n ih => rw [lineStart_succ]; split <;> omega

theorem line_step {text : List Char} {n : Nat} {c : Char} (hc : text[n]? = some c) (p : Position) :
    (p.step false c (text.drop (n + 1))).line = if endsLine text n then p.line + 1 else p.line := by
  rw [endsLine_eq hc, Position.step]
  by_cases hpair : (c = '\r' && startsWithPairedFeed false (text.drop (n + 1))) = true
  · rw [if_pos hpair, hpair, Bool.not_true, Bool.and_false]; rfl
  · rw [if_neg hpair, Bool.eq_false_iff.mpr hpair, Bool.not_false, Bool.and_true]
    split <;> rfl

theorem column_step {text : List Char} {n : Nat} {c : Char} (hc : text[n]? = some c) (p : Position)
    (hsplit : ¬ splitsPair text (n + 1)) :
    (p.step false c (text.drop (n + 1))).column = if endsLine text n then 1 else p.column + 1 := by
  rw [endsLine_eq hc, Position.step]
  by_cases hpair : (c = '\r' && startsWithPairedFeed false (text.drop (n + 1))) = true
  · refine absurd ⟨Nat.succ_pos n, ?_⟩ hsplit
    rw [Bool.and_eq_true, decide_eq_true_iff, startsWithPairedFeed_iff, List.head?_drop] at hpair
    exact ⟨by rw [← hpair.1]; exact hc, hpair.2⟩
  · rw [if_neg hpair, Bool.eq_false_iff.mpr hpair, Bool.not_false, Bool.and_true]
    split <;> rfl

theorem endsLine_of_splitsPair {text : List Char} {n : Nat} (h : splitsPair text n) : endsLine text n = true := by
  rw [endsLine_eq h.2.2]
  rfl

theorem line_placeAt {text : List Char} {n : Nat} (hn : n ≤ text.length) :
    (placeAt text n).line = 1 + (lineEnds text n).length := by
  induction n with
  | zero => rw [placeAt_zero]; rfl
  | succ n ih =>
    have hc : text[n]? = some text[n] := List.getElem?_eq_getElem hn
    rw [placeAt_succ hc, line_step hc, ih (Nat.le_of_lt hn), lineEnds_succ]
    split
    · rw [List.length_append, List.length_singleton, Nat.add_assoc]
    · rw [List.append_nil]

theorem column_placeAt {text : List Char} {n : Nat} (hn : n ≤ text.length) (hsplit : ¬ splitsPair text n) :
    (placeAt text n).column = 1 + (n - lineStart text n) := by
  induction n with
  | zero => rw [placeAt_zero]; rfl
  | succ n ih =>
    have hc : text[n]? = some text[n] := List.getElem?_eq_getElem hn
    rw [placeAt_succ hc, column_step hc _ hsplit, lineStart_succ]
    split
    · rw [Nat.sub_self]
    · rename_i hends
      have hle := lineStart_le text n
      rw [ih (Nat.le_of_lt hn) fun h => hends (endsLine_of_splitsPair h)]
      omega

end EcmaCheck
