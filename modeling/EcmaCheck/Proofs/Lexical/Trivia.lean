import EcmaCheck.Proofs.Lexical.Gap

/-!
# What gaps are made of

`IsGap` is the grammar of gaps: white space, line terminators and comments in any order, behind a `#!` line where the
text begins. What is read as a gap is one, and the reading tells whether a line terminator is in it (`gap_ok`).
-/

namespace EcmaCheck.Lexical

/-- A piece of a gap. -/
inductive Trivia : List Char → Prop
  | whiteSpace {c : Char} (h : isWhiteSpace c = true) : Trivia [c]
  | lineTerminator {c : Char} (h : isLineTerminator c = true) : Trivia [c]
  /-- A comment that ends with its line. -/
  | lineComment {line : List Char} (h : ∀ c ∈ line, isLineTerminator c = false) : Trivia ('/' :: '/' :: line)
  /-- A comment that ends with the first `*/`. -/
  | blockComment {body : List Char} (h : ¬ ['*', '/'] <:+: body) : Trivia ('/' :: '*' :: (body ++ ['*', '/']))

/-- A concatenation of trivia; `atStart` admits a `#!` line before them. -/
inductive IsGap : Bool → List Char → Prop
  | nil {atStart : Bool} : IsGap atStart []
  | hashbang {line rest : List Char} (h : ∀ c ∈ line, isLineTerminator c = false) (hrest : IsGap false rest) :
    IsGap true ('#' :: '!' :: line ++ rest)
  | append {atStart : Bool} {piece rest : List Char} (h : Trivia piece) (hrest : IsGap false rest) :
    IsGap atStart (piece ++ rest)

theorem IsGap.of_later {text : List Char} {atStart : Bool} (h : IsGap false text) : IsGap atStart text := by
  cases h with
  | nil => exact .nil
  | append h hrest => exact .append h hrest

/-! ## Comments -/

/-- The characters before the next line terminator. -/
def lineBody (text : List Char) : List Char :=
  text.take (lineLength text)

theorem length_lineBody (text : List Char) : (lineBody text).length = lineLength text := by
  rw [lineBody, List.length_take, Nat.min_eq_left (lineLength_le text)]

theorem lineBody_append (text : List Char) : lineBody text ++ text.drop (lineLength text) = text :=
  List.take_append_drop _ _

theorem not_isLineTerminator_of_mem_lineBody (text : List Char) :
    ∀ c ∈ lineBody text, isLineTerminator c = false := by
  have hbody : lineBody text = text.takeWhile fun c => !isLineTerminator c :=
    (List.prefix_iff_eq_take.mp (List.takeWhile_prefix _)).symm
  have hall : (lineBody text).all (fun c => !isLineTerminator c) = true := by
    rw [hbody]
    exact List.all_takeWhile
  simpa using hall

theorem any_lineBody (text : List Char) : (lineBody text).any isLineTerminator = false := by
  simpa using not_isLineTerminator_of_mem_lineBody text

/-- A block comment is read up to the first `*/`. -/
theorem blockComment_ok {length n : Nat} {newline ended : Bool} {text : List Char}
    (h : blockComment length newline text = ⟨n, .ok ended⟩) :
    ∃ body, body ++ ['*', '/'] <+: text ∧ ¬ ['*', '/'] <:+: body ∧ n = length + body.length + 2 ∧
      ended = (newline || body.any isLineTerminator) := by
  fun_induction blockComment length newline text with
  | case1 => cases h
  | case2 length newline rest =>
    cases h
    exact ⟨[], ⟨rest, rfl⟩, by simp, rfl, by simp⟩
  | case3 length newline c rest hopen ih =>
    obtain ⟨body, ⟨more, rfl⟩, hbody, hn, hended⟩ := ih h
    refine ⟨c :: body, ⟨more, rfl⟩, ?_, ?_, ?_⟩
    · intro hinfix
      rcases List.infix_cons_iff.mp hinfix with hprefix | hinfix
      · obtain ⟨hc, hslash⟩ := List.cons_prefix_cons.mp hprefix
        obtain ⟨tail, rfl⟩ := hslash
        exact hopen (tail ++ ['*', '/'] ++ more) hc.symm rfl
      · exact hbody hinfix
    · rw [hn, List.length_cons]
      omega
    · rw [hended, List.any_cons, Bool.or_assoc]

/-! ## Gaps -/

/-- The text begins with a gap of `n` characters, and `ended` tells whether a line terminator is among them. -/
def BeginsWithGap (atStart : Bool) (text : List Char) (n : Nat) (ended : Bool) : Prop :=
  ∃ gap, gap <+: text ∧ IsGap atStart gap ∧ n = gap.length ∧ ended = gap.any isLineTerminator

namespace BeginsWithGap

variable {atStart ended : Bool} {text rest piece : List Char} {n : Nat}

theorem nil : BeginsWithGap atStart text 0 false :=
  ⟨[], List.nil_prefix, .nil, rfl, rfl⟩

theorem of_later (h : BeginsWithGap false text n ended) : BeginsWithGap atStart text n ended := by
  obtain ⟨gap, hprefix, hgap, hn, hended⟩ := h
  exact ⟨gap, hprefix, hgap.of_later, hn, hended⟩

theorem append (hpiece : Trivia piece) (h : BeginsWithGap false rest n ended) :
    BeginsWithGap false (piece ++ rest) (piece.length + n) (piece.any isLineTerminator || ended) := by
  obtain ⟨gap, hprefix, hgap, rfl, rfl⟩ := h
  exact ⟨piece ++ gap, (List.prefix_append_right_inj piece).mpr hprefix, .append hpiece hgap, by simp, by simp⟩

theorem hashbang {line : List Char} (h : BeginsWithGap false (line.drop (lineLength line)) n ended) :
    BeginsWithGap true ('#' :: '!' :: line) (2 + lineLength line + n) ended := by
  obtain ⟨gap, ⟨more, hmore⟩, hgap, rfl, rfl⟩ := h
  refine ⟨'#' :: '!' :: lineBody line ++ gap,
    ⟨more, ?_⟩, .hashbang (not_isLineTerminator_of_mem_lineBody line) hgap, ?_, ?_⟩
  · simp only [List.cons_append, List.append_assoc, hmore, lineBody_append]
  · simp only [List.cons_append, List.length_cons, List.length_append, length_lineBody]
    omega
  · simp [any_lineBody, show isLineTerminator '#' = false from rfl, show isLineTerminator '!' = false from rfl]

end BeginsWithGap

/-- A gap is read piece by piece. -/
theorem gapFrom_ok {length n : Nat} {newline ended : Bool} {text : List Char}
    (h : gapFrom length newline text = ⟨n, .ok ended⟩) :
    ∃ more endedMore, BeginsWithGap false text more endedMore ∧ n = length + more ∧ ended = (newline || endedMore) := by
  fun_induction gapFrom length newline text with
  | case1 | case7 | case8 =>
    cases h
    exact ⟨0, false, .nil, rfl, (Bool.or_false _).symm⟩
  | case2 length newline c rest hline ih =>
    obtain ⟨more, endedMore, hgap, hn, hended⟩ := ih h
    refine ⟨_, _, .append (.lineTerminator hline) hgap, ?_, ?_⟩
    · rw [hn, List.length_singleton, Nat.add_assoc]
    · simp [hended, hline]
  | case3 length newline c rest hline hspace ih =>
    obtain ⟨more, endedMore, hgap, hn, hended⟩ := ih h
    refine ⟨_, _, .append (.whiteSpace hspace) hgap, ?_, ?_⟩
    · rw [hn, List.length_singleton, Nat.add_assoc]
    · simp [hended, hline]
  | case4 length newline line hline hspace ih =>
    obtain ⟨more, endedMore, hgap, hn, hended⟩ := ih h
    have happend := hgap.append (.lineComment (not_isLineTerminator_of_mem_lineBody line))
    rw [List.cons_append, List.cons_append, lineBody_append] at happend
    refine ⟨_, _, happend, ?_, ?_⟩
    · simp only [hn, List.length_cons, length_lineBody]
      omega
    · simp [hended, any_lineBody, show isLineTerminator '/' = false from rfl]
  | case5 length newline body n' ended' hbody hline hspace ih =>
    obtain ⟨more, endedMore, hgap, hn, hended⟩ := ih h
    obtain ⟨comment, ⟨rest, rfl⟩, hcomment, hn', hended'⟩ := blockComment_ok hbody
    have hdrop : (comment ++ ['*', '/'] ++ rest).drop n' = rest := List.drop_left' (by simp [hn'])
    rw [hdrop] at hgap
    refine ⟨_, _, hgap.append (.blockComment hcomment), ?_, ?_⟩
    · simp only [hn, hn', List.length_append, List.length_cons, List.length_nil]
      omega
    · simp [hended, hended', Bool.or_assoc, show isLineTerminator '/' = false from rfl,
        show isLineTerminator '*' = false from rfl]
  | case6 => cases h

/-- What is read as a gap is one. -/
theorem gap_ok {atStart : Bool} {n : Nat} {ended : Bool} {text : List Char} (h : gap atStart text = ⟨n, .ok ended⟩) :
    BeginsWithGap atStart text n ended := by
  fun_cases gap atStart text with
  | case1 line hstart =>
    rw [gap, if_pos hstart] at h
    obtain ⟨more, endedMore, hgap, rfl, rfl⟩ := gapFrom_ok h
    rw [hstart]
    exact .hashbang hgap
  | case2 line hstart =>
    rw [gap, if_neg hstart] at h
    cases h
    exact .nil
  | case3 text hmark =>
    rw [gap] at h
    · obtain ⟨more, endedMore, hgap, rfl, rfl⟩ := gapFrom_ok h
      simpa using hgap.of_later
    · exact hmark

end EcmaCheck.Lexical
