import EcmaCheck.Proofs.Lexical.Boundary

/-!
# Padding

Padding is white space and block comments in which no line ends. Behind it a gap is read as it is without it, only
later (`gap_padding`). So it is behind a single blank (`gap_blank`), of which it is only known besides whether it ends a
line. Where a gap has ended, no other one begins (`gap_still`).
-/

namespace EcmaCheck

/-- The reading as it is found `k` characters later. -/
def Reading.later {α : Type} (k : Nat) (r : Reading Misreading α) : Reading Misreading α :=
  ⟨k + r.length, r.result.mapError fun m => ⟨m.error, k + m.place⟩⟩

theorem Reading.later_map_ok {α β : Type} (f : α → β) (k n : Nat) (a : α) :
    ((⟨n, .ok a⟩ : Reading Misreading α).map f).later k = ⟨k + n, .ok (f a)⟩ :=
  rfl

theorem Reading.later_map_error {α β : Type} (f : α → β) (k n : Nat) (m : Misreading) :
    ((⟨n, .error m⟩ : Reading Misreading α).map f).later k = ⟨k + n, .error ⟨m.error, k + m.place⟩⟩ :=
  rfl

namespace Lexical

/-- White space and block comments in which no line ends. -/
inductive Padding : List Char → Prop
  | nil : Padding []
  | whiteSpace {c : Char} {rest : List Char} (h : isWhiteSpace c = true) (hrest : Padding rest) : Padding (c :: rest)
  | blockComment {body rest : List Char} (hend : ¬ ['*', '/'] <:+: body)
    (hline : ∀ c ∈ body, isLineTerminator c = false) (hrest : Padding rest) :
    Padding ('/' :: '*' :: (body ++ '*' :: '/' :: rest))

theorem blockComment_padding {body : List Char} (hend : ¬ ['*', '/'] <:+: body)
    (hline : ∀ c ∈ body, isLineTerminator c = false) (length : Nat) (newline : Bool) (rest : List Char) :
    blockComment length newline (body ++ '*' :: '/' :: rest) = ⟨length + body.length + 2, .ok newline⟩ := by
  induction body generalizing length newline with
  | nil => rfl
  | cons c body ih =>
    have hinner : ¬ ['*', '/'] <:+: body := fun h => hend (List.infix_cons h)
    rw [List.cons_append, blockComment, hline c List.mem_cons_self, Bool.or_false,
      ih hinner fun d hd => hline d (List.mem_cons_of_mem c hd), List.length_cons]
    · rw [Nat.add_assoc length 1, Nat.add_comm 1]
    · rintro more rfl hmore
      cases body with
      | nil => cases hmore
      | cons d body =>
        obtain ⟨rfl, _⟩ := List.cons.inj hmore
        exact hend ⟨[], body, rfl⟩

theorem gapFrom_padding {padding : List Char} (h : Padding padding) (length : Nat) (newline : Bool) (rest : List Char) :
    gapFrom length newline (padding ++ rest) = gapFrom (length + padding.length) newline rest := by
  induction h generalizing length with
  | nil => rfl
  | whiteSpace h _ ih =>
    rw [List.cons_append, gapFrom_space (Bool.eq_false_iff.mp (isLineTerminator_of_isWhiteSpace h)) h, ih,
      List.length_cons, Nat.add_assoc, Nat.add_comm 1]
  | @blockComment body more hend hline _ ih =>
    have hbody :
        '/' :: '*' :: (body ++ '*' :: '/' :: more) ++ rest = '/' :: '*' :: (body ++ '*' :: '/' :: (more ++ rest)) := by
      simp
    have hdrop : (body ++ '*' :: '/' :: (more ++ rest)).drop (0 + body.length + 2) = more ++ rest := by
      rw [Nat.zero_add, ← List.drop_drop, List.drop_left]
      rfl
    rw [hbody, gapFrom_slash]
    simp only [blockComment_padding hend hline, hdrop, Bool.or_false, ih]
    congr 1
    simp only [List.length_cons, List.length_append]
    omega

theorem gapFrom_later (k length : Nat) (newline : Bool) (text : List Char) :
    gapFrom (k + length) newline text = (gapFrom length newline text).later k := by
  fun_induction gapFrom length newline text with
  | case1 => exact gapFrom_nil
  | case2 length newline c rest hline ih => rw [gapFrom_terminator hline, Nat.add_assoc, ih]
  | case3 length newline c rest hline hspace ih => rw [gapFrom_space hline hspace, Nat.add_assoc, ih]
  | case4 length newline line hline hspace ih => rw [gapFrom_slash, ← ih]; simp only [Nat.add_assoc]
  | case5 length newline body n ended hbody hline hspace ih =>
    rw [gapFrom_slash, ← ih]
    simp only [hbody, Nat.add_assoc]
  | case6 length newline body n e hbody hline hspace =>
    rw [gapFrom_slash]
    simp only [hbody, Nat.add_assoc]
    rfl
  | case7 length newline rest hline hblock =>
    rw [gapFrom_slash]
    split
    · exact absurd rfl (hline _)
    · exact absurd rfl (hblock _)
    · rfl
  | case8 length newline c rest hline hspace hslash => exact gapFrom_other hline hspace hslash

theorem gap_later (text : List Char) : gap false text = gapFrom 0 false text := by
  fun_cases gap false text with
  | case1 line hstart => cases hstart
  | case2 line => exact (gapFrom_other (by decide) (by decide) (by decide)).symm
  | case3 => rfl

/-- Padding belongs to the gap behind it. -/
theorem gap_padding {padding : List Char} (h : Padding padding) (rest : List Char) :
    gap false (padding ++ rest) = (gap false rest).later padding.length := by
  rw [gap_later, gap_later, gapFrom_padding h, Nat.zero_add, ← gapFrom_later, Nat.add_zero]

/-! ## Behind a blank -/

theorem gapFrom_newline (length : Nat) (newline : Bool) (text : List Char) :
    gapFrom length true text = (gapFrom length newline text).map fun _ => true := by
  fun_induction gapFrom length newline text with
  | case1 => exact gapFrom_nil
  | case2 length newline c rest hline ih => exact (gapFrom_terminator hline).trans ih
  | case3 length newline c rest hline hspace ih => exact (gapFrom_space hline hspace).trans ih
  | case4 length newline line hline hspace ih =>
    rw [← ih]
    exact gapFrom_slash
  | case5 length newline body n ended hbody hline hspace ih =>
    rw [← ih, gapFrom_slash]
    simp only [hbody, Bool.true_or]
  | case6 length newline body n e hbody hline hspace =>
    rw [gapFrom_slash]
    simp only [hbody]
    rfl
  | case7 length newline rest hline hblock =>
    rw [gapFrom_slash]
    split
    · exact absurd rfl (hline _)
    · exact absurd rfl (hblock _)
    · rfl
  | case8 length newline c rest hline hspace hslash => exact gapFrom_other hline hspace hslash

/-- A space or a line feed belongs to the gap behind it. -/
theorem gap_blank {atStart : Bool} {c : Char} (hc : c = ' ' ∨ c = '\n') (rest : List Char) :
    gap atStart (c :: rest) = ((gap false rest).map (· || c = '\n')).later 1 := by
  have hfrom : gap atStart (c :: rest) = gapFrom 0 false (c :: rest) := by
    rw [gap]
    rintro _ h
    rcases hc with rfl | rfl <;> cases h
  rw [hfrom, gap_later]
  rcases hc with rfl | rfl
  · have hid : (· || decide (' ' = '\n')) = id := funext fun b => Bool.or_false b
    rw [gapFrom_space (by decide) (by decide), hid]
    refine (gapFrom_later 1 0 false rest).trans ?_
    rcases gapFrom 0 false rest with ⟨n, _ | _⟩ <;> rfl
  · have htrue : (· || decide ('\n' = '\n')) = fun _ => true := funext fun b => Bool.or_true b
    rw [gapFrom_terminator (by decide), htrue, ← gapFrom_newline]
    exact gapFrom_later 1 0 true rest

/-! ## Behind a gap -/

/-- No gap begins where one has ended. -/
theorem gapFrom_still {length n : Nat} {newline ended : Bool} {text : List Char}
    (h : gapFrom length newline text = ⟨n, .ok ended⟩) : gapFrom 0 false (text.drop (n - length)) = ⟨0, .ok false⟩ := by
  have hle : length ≤ n := (congrArg Reading.length h).subst (le_length_gapFrom ..)
  fun_induction gapFrom length newline text with
  | case1 =>
    rw [List.drop_nil]
    exact gapFrom_nil
  | case2 length newline c rest hline ih | case3 length newline c rest hline hspace ih =>
    have hmore : length + 1 ≤ n := (congrArg Reading.length h).subst (le_length_gapFrom ..)
    rw [show n - length = n - (length + 1) + 1 by omega, List.drop_succ_cons]
    exact ih h hmore
  | case4 length newline line hline hspace ih =>
    have hmore : length + 2 + lineLength line ≤ n := (congrArg Reading.length h).subst (le_length_gapFrom ..)
    rw [show n - length = lineLength line + (n - (length + 2 + lineLength line)) + 1 + 1 by omega, List.drop_succ_cons,
      List.drop_succ_cons, ← List.drop_drop]
    exact ih h hmore
  | case5 length newline body m ended' hbody hline hspace ih =>
    have hmore : length + 2 + m ≤ n := (congrArg Reading.length h).subst (le_length_gapFrom ..)
    rw [show n - length = m + (n - (length + 2 + m)) + 1 + 1 by omega, List.drop_succ_cons, List.drop_succ_cons,
      ← List.drop_drop]
    exact ih h hmore
  | case6 => cases congrArg Reading.result h
  | case7 length newline rest hline hblock =>
    cases h
    rw [Nat.sub_self, List.drop_zero, gapFrom_slash]
    split
    · exact absurd rfl (hline _)
    · exact absurd rfl (hblock _)
    · rfl
  | case8 length newline c rest hline hspace hslash =>
    cases h
    rw [Nat.sub_self, List.drop_zero]
    exact gapFrom_other hline hspace hslash

theorem gap_still {atStart atStart' ended : Bool} {n : Nat} {text : List Char} (h : gap atStart text = ⟨n, .ok ended⟩)
    (hstart : atStart' = true → n = 0 ∧ atStart = true) : gap atStart' (text.drop n) = ⟨0, .ok false⟩ := by
  have hstill : gapFrom 0 false (text.drop n) = ⟨0, .ok false⟩ := by
    fun_cases gap atStart text with
    | case1 line hmark =>
      rw [gap, if_pos hmark] at h
      have hmore : 2 + lineLength line ≤ n := (congrArg Reading.length h).subst (le_length_gapFrom ..)
      rw [show n = lineLength line + (n - (2 + lineLength line)) + 1 + 1 by omega, List.drop_succ_cons,
        List.drop_succ_cons, ← List.drop_drop]
      exact gapFrom_still h
    | case2 line hmark =>
      rw [gap, if_neg hmark] at h
      cases h
      exact gapFrom_other (by decide) (by decide) (by decide)
    | case3 text hmark =>
      rw [gap] at h
      · exact gapFrom_still h
      · exact hmark
  cases atStart' with
  | false => rw [gap_later, hstill]
  | true =>
    obtain ⟨rfl, rfl⟩ := hstart rfl
    rw [List.drop_zero] at hstill ⊢
    rw [gap]
    · exact hstill
    · rintro line rfl
      rw [gap, if_pos rfl] at h
      have hmore : 2 + lineLength line ≤ 0 := (congrArg Reading.length h).subst (le_length_gapFrom ..)
      omega

end Lexical

end EcmaCheck
