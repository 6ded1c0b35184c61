import EcmaCheck.Lexical.Gap
import EcmaCheck.Proofs.Lexical.Reading

/-!
# Gaps with a sentinel

A gap that does not reach the end of the text is the same with a sentinel; one that does takes the sentinel as well and
has a line end in it (`gap_reads`).
-/

namespace EcmaCheck.Lexical

variable {text whole : List Char}

theorem blockComment_length_le (length : Nat) (newline : Bool) (text : List Char) :
    (blockComment length newline text).length ≤ length + text.length := by
  fun_induction blockComment length newline text with
  | case1 => exact Nat.le_refl _
  | case2 => simp only [List.length_cons]; omega
  | case3 length newline c rest _ ih => simp only [List.length_cons]; omega

theorem blockComment_sentinel (length : Nat) (newline : Bool) (text : List Char) :
    blockComment length newline (text ++ ['\n']) =
      match blockComment length newline text with
      | ⟨n, .ok ended⟩ => ⟨n, .ok ended⟩
      | ⟨n, .error e⟩ => ⟨n + 1, .error e⟩ := by
  fun_induction blockComment length newline text with
  | case1 => rfl
  | case2 => rfl
  | case3 length newline c rest hopen ih =>
    rw [List.cons_append, blockComment, ih]
    intro tail hc htail
    obtain ⟨rest', rfl⟩ := eq_cons_of_sentinel (by decide) htail
    exact hopen rest' hc rfl

theorem lineLength_sentinel : lineLength (text ++ ['\n']) = lineLength text :=
  congrArg List.length (takeWhile_sentinel rfl)

/-- The readings of a gap without and with a sentinel. -/
inductive ReadsGap (whole : List Char) : Reading Misreading Bool → Reading Misreading Bool → Prop
  /-- The gap takes all of the text. -/
  | ends {newline : Bool} : ReadsGap whole ⟨whole.length, .ok newline⟩ ⟨whole.length + 1, .ok true⟩
  /-- The gap ends before a token. -/
  | goesOn {n : Nat} {newline : Bool} {c : Char} (hc : whole[n]? = some c) (hline : c ≠ '\n') :
    ReadsGap whole ⟨n, .ok newline⟩ ⟨n, .ok newline⟩
  /-- A comment does not end. -/
  | fails {n n' : Nat} {m : Misreading} {c : Char} (hc : whole[m.place]? = some c) (hline : c ≠ '\n') :
    ReadsGap whole ⟨n, .error m⟩ ⟨n', .error m⟩

section

variable {length : Nat} {newline : Bool} {c : Char} {rest : List Char}

theorem gapFrom_nil : gapFrom length newline [] = ⟨length, .ok newline⟩ := by
  rw [gapFrom.eq_def]

theorem gapFrom_terminator (h : isLineTerminator c = true) :
    gapFrom length newline (c :: rest) = gapFrom (length + 1) true rest := by
  rw [gapFrom.eq_def]
  exact if_pos h

theorem gapFrom_space (h : ¬ isLineTerminator c = true) (hspace : isWhiteSpace c = true) :
    gapFrom length newline (c :: rest) = gapFrom (length + 1) newline rest := by
  rw [gapFrom.eq_def]
  exact (if_neg h).trans (if_pos hspace)

theorem gapFrom_other (h : ¬ isLineTerminator c = true) (hspace : ¬ isWhiteSpace c = true) (hslash : c ≠ '/') :
    gapFrom length newline (c :: rest) = ⟨length, .ok newline⟩ := by
  rw [gapFrom.eq_def]
  exact (if_neg h).trans ((if_neg hspace).trans (if_neg hslash))

theorem gapFrom_slash : gapFrom length newline ('/' :: rest) =
    match rest with
    | '/' :: line => gapFrom (length + 2 + lineLength line) newline (line.drop (lineLength line))
    | '*' :: body =>
      match blockComment 0 false body with
      | ⟨n, .ok ended⟩ => gapFrom (length + 2 + n) (newline || ended) (body.drop n)
      | ⟨n, .error e⟩ => ⟨length + 2 + n, .error ⟨e, length⟩⟩
    | _ => ⟨length, .ok newline⟩ := by
  rw [gapFrom.eq_def]
  simp only [show isLineTerminator '/' = false from rfl, show isWhiteSpace '/' = false from rfl, if_true]
  rfl

end

theorem gapFrom_reads (length : Nat) (newline : Bool) (text : List Char) (ht : whole.drop length = text)
    (hlen : length ≤ whole.length) :
    ReadsGap whole (gapFrom length newline text) (gapFrom length newline (text ++ ['\n'])) := by
  fun_induction gapFrom length newline text with
  | case1 length newline =>
    obtain rfl : length = whole.length := Nat.le_antisymm hlen (List.drop_eq_nil_iff.mp ht)
    rw [List.nil_append, gapFrom_terminator (c := '\n') rfl, gapFrom_nil]
    exact .ends
  | case2 length newline c rest hline ih =>
    obtain ⟨_, hlt, hrest⟩ := drop_eq_cons ht
    rw [List.cons_append, gapFrom_terminator hline]
    exact ih hrest hlt
  | case3 length newline c rest hline hspace ih =>
    obtain ⟨_, hlt, hrest⟩ := drop_eq_cons ht
    rw [List.cons_append, gapFrom_space hline hspace]
    exact ih hrest hlt
  | case4 length newline line hline hspace ih =>
    obtain ⟨_, _, hslash⟩ := drop_eq_cons ht
    obtain ⟨_, hlt, rfl⟩ := drop_eq_cons hslash
    have hle := lineLength_le (whole.drop (length + 1 + 1))
    have hend : length + 2 + lineLength (whole.drop (length + 1 + 1)) ≤ whole.length := by
      rw [List.length_drop] at hle
      omega
    rw [List.cons_append, List.cons_append, gapFrom_slash]
    simp only [lineLength_sentinel, drop_sentinel hle]
    exact ih (List.drop_drop ..).symm hend
  | case5 length newline body n ended hbody hline hspace ih =>
    obtain ⟨_, _, hslash⟩ := drop_eq_cons ht
    obtain ⟨_, hlt, rfl⟩ := drop_eq_cons hslash
    have hle := blockComment_length_le 0 false (whole.drop (length + 1 + 1))
    rw [hbody, Nat.zero_add] at hle
    rw [List.cons_append, List.cons_append, gapFrom_slash]
    simp only [blockComment_sentinel, hbody, drop_sentinel hle]
    rw [List.length_drop] at hle
    simp only at hle
    exact ih (List.drop_drop ..).symm (by omega)
  | case6 length newline body n e hbody hline hspace =>
    obtain ⟨hc, _, _⟩ := drop_eq_cons ht
    rw [List.cons_append, List.cons_append, gapFrom_slash]
    simp only [blockComment_sentinel, hbody]
    exact .fails hc (by decide)
  | case7 length newline rest hline hblock =>
    obtain ⟨hc, _, _⟩ := drop_eq_cons ht
    rw [List.cons_append, gapFrom_slash]
    split
    · rename_i hcons
      obtain ⟨_, h⟩ := eq_cons_of_sentinel (by decide) hcons
      exact (hline _ h).elim
    · rename_i hcons
      obtain ⟨_, h⟩ := eq_cons_of_sentinel (by decide) hcons
      exact (hblock _ h).elim
    · exact .goesOn hc (by decide)
  | case8 length newline c rest hline hspace hslash =>
    obtain ⟨hc, _, _⟩ := drop_eq_cons ht
    rw [List.cons_append, gapFrom_other hline hspace hslash]
    exact .goesOn hc (by rintro rfl; exact hline rfl)

/-- A gap, from its first character. -/
theorem gap_reads (atStart : Bool) : ReadsGap text (gap atStart text) (gap atStart (text ++ ['\n'])) := by
  fun_cases gap atStart text with
  | case1 line hstart =>
    have hle := lineLength_le line
    rw [List.cons_append, List.cons_append, gap, if_pos hstart, lineLength_sentinel, drop_sentinel hle]
    refine gapFrom_reads _ _ _ ?_ ?_
    · rw [Nat.add_comm]
      rfl
    · simp only [List.length_cons]
      omega
  | case2 line hstart =>
    rw [List.cons_append, List.cons_append, gap, if_neg hstart]
    exact .goesOn (show ('#' :: '!' :: line)[0]? = some '#' from rfl) (by decide)
  | case3 text hmark =>
    have hgap : gap atStart (text ++ ['\n']) = gapFrom 0 false (text ++ ['\n']) := by
      rw [gap]
      intro line hcons
      obtain ⟨rest, rfl⟩ := eq_cons_of_sentinel (by decide) hcons
      obtain ⟨rest, rfl⟩ := eq_cons_of_sentinel (by decide) (List.cons.inj hcons).2
      exact hmark _ rfl
    rw [hgap]
    exact gapFrom_reads 0 false text rfl (Nat.zero_le _)

end EcmaCheck.Lexical
