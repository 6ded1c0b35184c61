import EcmaCheck.Proofs.Lexical.Element
import EcmaCheck.Proofs.Lexical.Gap

/-!
# Readings that end before a boundary

A reading of `head ++ tail` that takes nothing of `tail` looks at most at the first character of it, to see that it ends
there. So before a character that no token goes on with (`Closes`), gaps and tokens of `head` are read in the same way
(`gap_closed`, `element_closed`). There is one exception: the `?` of `?.5` is read as `?.` if the text is cut behind the
point. Nor does it depend on what follows where a character of `head` is left, as most readings look no further
(`Determined`). Those that do are gaps, which may go on with a comment, and the point before another one, which may be
an ellipsis.
-/

namespace EcmaCheck.Lexical

/-! ## Boundaries -/

/-- No token goes on with the character, and it makes no comment of a `/` or a `#` before it. -/
structure Closes (w : Char) : Prop where
  part : isIdentifierPart w = false
  escape : w ≠ '\\'
  comment : w ≠ '/'
  hashbang : w ≠ '!'
  spelling (p : Punctuator) : w ∉ p.spelling.tail

instance (w : Char) : Decidable (Closes w) :=
  decidable_of_iff
    (isIdentifierPart w = false ∧ w ≠ '\\' ∧ w ≠ '/' ∧ w ≠ '!' ∧ ∀ p ∈ Punctuator.all, w ∉ p.spelling.tail)
    ⟨fun ⟨part, escape, comment, hashbang, spelling⟩ =>
      ⟨part, escape, comment, hashbang, fun p => spelling p p.mem_all⟩,
      fun h => ⟨h.part, h.escape, h.comment, h.hashbang, fun p _ => h.spelling p⟩⟩

theorem closes_of_isWhiteSpace {w : Char} (h : isWhiteSpace w = true) : Closes w := by
  have hspaces : ∀ k < 11, Closes (Char.ofNat (0x2000 + k)) := by decide +kernel
  simp only [isWhiteSpace, Bool.or_eq_true, decide_eq_true_eq, Bool.and_eq_true] at h
  rcases h with ((((((((((rfl | rfl) | rfl) | rfl) | rfl) | rfl) | rfl) | ⟨hfirst, hlast⟩) | rfl) | rfl) | rfl)
  case inl.inl.inl.inr =>
    have hfirst : 0x2000 ≤ w.toNat := hfirst
    have hlast : w.toNat ≤ 0x200a := hlast
    have hw := hspaces (w.toNat - 0x2000) (by omega)
    rwa [Nat.add_sub_cancel' hfirst, Char.ofNat_toNat] at hw
  all_goals decide +kernel

theorem isLineTerminator_of_isWhiteSpace {w : Char} (h : isWhiteSpace w = true) : isLineTerminator w = false := by
  refine Bool.eq_false_iff.mpr fun hline => ?_
  simp only [isLineTerminator, Bool.or_eq_true, decide_eq_true_eq] at hline
  rcases hline with ((rfl | rfl) | rfl) | rfl <;> cases h

theorem isIdentifierPart_of_isHexDigit {c : Char} (h : isHexDigit c = true) : isIdentifierPart c = true := by
  have hall : ∀ n < 128, isHexDigit (Char.ofNat n) = true → isIdentifierPart (Char.ofNat n) = true := by decide +kernel
  have hle {a b : Char} (hab : (decide (a ≤ c) && decide (c ≤ b)) = true) : c.toNat ≤ b.toNat :=
    of_decide_eq_true (Bool.and_eq_true _ _ ▸ hab).2
  have hlt : c.toNat < 128 := by
    unfold isHexDigit hexDigit? at h
    split at h
    · exact Nat.lt_of_le_of_lt (hle ‹_›) (by decide)
    split at h
    · exact Nat.lt_of_le_of_lt (hle ‹_›) (by decide)
    split at h
    · exact Nat.lt_of_le_of_lt (hle ‹_›) (by decide)
    · cases h
  rw [← Char.ofNat_toNat c] at h ⊢
  exact hall _ hlt h

theorem isHexDigit_of_isDecimalDigit {c : Char} (h : isDecimalDigit c = true) : isHexDigit c = true := by
  have hten := isDigitOf_ten h
  unfold isDigitOf at hten
  unfold isHexDigit
  cases hd : hexDigit? c with
  | none => rw [hd] at hten; cases hten
  | some => rfl

namespace Closes

variable {w : Char} (h : Closes w)

include h

theorem ne_of_part {c : Char} (hc : isIdentifierPart c = true) : w ≠ c := by
  rintro rfl
  exact absurd hc (Bool.eq_false_iff.mp h.part)

theorem start : isIdentifierStart w = false :=
  Bool.eq_false_iff.mpr fun hw => h.ne_of_part (isIdentifierPart_of_isIdentifierStart hw) rfl

theorem admits (first : Bool) : admits first w = false := by
  cases first with
  | true => exact h.start
  | false => exact h.part

theorem hexDigit : isHexDigit w = false :=
  Bool.eq_false_iff.mpr fun hw => h.ne_of_part (isIdentifierPart_of_isHexDigit hw) rfl

theorem decimalDigit : isDecimalDigit w = false :=
  Bool.eq_false_iff.mpr fun hw => Bool.eq_false_iff.mp h.hexDigit (isHexDigit_of_isDecimalDigit hw)

theorem digitOf (radix : Nat) : isDigitOf radix w = false := by
  have hnone := h.hexDigit
  rw [isHexDigit, Option.isSome_eq_false_iff, Option.isNone_iff_eq_none] at hnone
  rw [isDigitOf, hnone]
  rfl

theorem point : w ≠ '.' := by
  rintro rfl
  exact h.spelling .ellipsis (by decide)

theorem star : w ≠ '*' := by
  rintro rfl
  exact h.spelling .power (by decide)

end Closes

/-- A reading of `n` characters of `head` ends there before `tail`: another character of `head` has shown that it does,
or no token goes on with what comes next. -/
def Determined (head tail : List Char) (n : Nat) : Prop :=
  n < head.length ∨ ∃ w more, tail = w :: more ∧ Closes w

/-- Where all of `head` has been read, what comes next closes. -/
theorem Determined.closes {head tail : List Char} {n : Nat} (h : Determined head tail n) (hn : head.length ≤ n) :
    ∃ w more, tail = w :: more ∧ Closes w :=
  h.resolve_left (Nat.not_lt_of_le hn)

/-- A reading that leaves as much of its text ends there as well. -/
theorem Determined.within {head head' tail : List Char} {m n : Nat} (h : Determined head tail n)
    (hle : head.length + m ≤ n + head'.length) : Determined head' tail m :=
  h.imp_left fun h => by omega

/-! ## Lists cut at a boundary -/

section

variable {head tail tail' : List Char} {test : Char → Bool}

/-- A run that ends within `head`, or stops behind it in both, is the same. -/
theorem takeWhile_cut (hle : ((head ++ tail).takeWhile test).length ≤ head.length)
    (hstop : ((head ++ tail).takeWhile test).length < head.length ∨ ∀ c ∈ tail'.head?, test c = false) :
    (head ++ tail').takeWhile test = (head ++ tail).takeWhile test := by
  induction head with
  | nil =>
    rw [List.nil_append, List.length_nil, Nat.le_zero, List.length_eq_zero_iff] at hle
    rw [List.nil_append, List.nil_append, hle]
    cases tail' with
    | nil => rfl
    | cons c _ =>
      have hc := (hstop.resolve_left (Nat.not_lt_zero _)) c rfl
      rw [List.takeWhile_cons, hc]
      rfl
  | cons c head ih =>
    simp only [List.cons_append, List.takeWhile_cons] at hle hstop ⊢
    split
    · rename_i hc
      simp only [hc, if_true, List.length_cons, Nat.add_le_add_iff_right, Nat.add_lt_add_iff_right] at hle hstop
      rw [ih hle hstop]
    · rfl

/-- The first character behind a part of `head`. -/
theorem head?_drop_cut {n : Nat} (h : n < head.length) :
    ((head ++ tail').drop n).head? = ((head ++ tail).drop n).head? := by
  rw [List.head?_drop, List.head?_drop, List.getElem?_append_left h, List.getElem?_append_left h]

theorem takeWhile_take_cut {n : Nat}
    (h : (((head ++ tail).take n).takeWhile test).length < head.length) :
    ((head ++ tail').take n).takeWhile test = ((head ++ tail).take n).takeWhile test := by
  induction head generalizing n with
  | nil => exact absurd h (Nat.not_lt_zero _)
  | cons c head ih =>
    cases n with
    | zero => rfl
    | succ n =>
      simp only [List.cons_append, List.take_succ_cons, List.takeWhile_cons] at h ⊢
      split
      · rename_i hc
        simp only [hc, if_true, List.length_cons, Nat.add_lt_add_iff_right] at h
        rw [ih h]
      · rfl

end

/-! ## Readers before a boundary -/

variable {ε α β : Type} {head tail tail' : List Char}

/-- What the reader takes of `head`, it also takes before `tail'` if it ends there. -/
def ClosedBy (tail' : List Char) (l : Lexer ε α) (head tail : List Char) : Prop :=
  ∀ n a, l (head ++ tail) = ⟨n, .ok a⟩ → n ≤ head.length → Determined head tail' n → l (head ++ tail') = ⟨n, .ok a⟩

namespace ClosedBy

open Lexer

protected theorem bind {first : Lexer ε α} {next : α → Lexer ε β} (h : ClosedBy tail' first head tail)
    (hn : ∀ n a, first (head ++ tail) = ⟨n, .ok a⟩ → n ≤ head.length → ClosedBy tail' (next a) (head.drop n) tail) :
    ClosedBy tail' (first >>= next) head tail := by
  intro n b hr hle hs
  rcases hf : first (head ++ tail) with ⟨m, e | a⟩
  · rw [reading_bind_error hf] at hr
    cases hr
  rw [reading_bind_ok hf] at hr
  rcases hb : next a ((head ++ tail).drop m) with ⟨k, r⟩
  rw [hb] at hr
  cases hr
  have hm : m ≤ head.length := Nat.le_trans (Nat.le_add_right m k) hle
  have hk : k ≤ (head.drop m).length := by
    rw [List.length_drop]
    change m + k ≤ head.length at hle
    omega
  have hfirst : Determined head tail' m := hs.within (by change head.length + m ≤ m + k + head.length; omega)
  have hnext : Determined (head.drop m) tail' k :=
    hs.within (by change head.length + k ≤ m + k + _; rw [List.length_drop]; omega)
  rw [List.drop_append_of_le_length hm] at hb
  rw [reading_bind_ok (h m a hf hm hfirst), List.drop_append_of_le_length hm, hn m a hf hm k b hb hk hnext]
  rfl

protected theorem pure {a : α} : ClosedBy tail' (Pure.pure a : Lexer ε α) head tail := by
  rintro _ _ ⟨⟩ _ _
  rfl

protected theorem fail {e : ε} : ClosedBy tail' (fail e : Lexer ε α) head tail := by
  rintro _ _ ⟨⟩

protected theorem ite {p : Prop} [Decidable p] {x y : Lexer ε α} (hx : p → ClosedBy tail' x head tail)
    (hy : ¬ p → ClosedBy tail' y head tail) : ClosedBy tail' (if p then x else y) head tail := by
  split
  · exact hx ‹p›
  · exact hy ‹¬ p›

/-- A part that is only read in some cases, with what follows it. -/
protected theorem optional {p : Prop} [Decidable p] {part : Lexer ε Unit} {next : Unit → Lexer ε β}
    (hp : p → ClosedBy tail' part head tail) (hn : ∀ head, ClosedBy tail' (next ()) head tail) :
    ClosedBy tail' (if p then part >>= next else next ()) head tail :=
  .ite (fun h => (hp h).bind fun _ _ _ _ => hn _) fun _ => hn head

/-- A look at the next character. Where that is the boundary, what goes on must not have taken anything. -/
protected theorem peek {next : Option Char → Lexer ε β} (h : ClosedBy tail' (next (head ++ tail).head?) head tail)
    (hend : head = [] → ∀ w, Closes w → ∀ a, next tail.head? tail = ⟨0, .ok a⟩ → ∀ more,
      next (some w) (w :: more) = ⟨0, .ok a⟩) :
    ClosedBy tail' (peek >>= next) head tail := by
  have hrun (t : List Char) : (peek >>= next : Lexer ε β) t = next t.head? t := by
    rw [reading_bind_ok (show (peek : Lexer ε (Option Char)) t = ⟨0, .ok t.head?⟩ from rfl)]
    simp only [Reading.after, Nat.zero_add, List.drop_zero]
  intro n a hr hle hs
  rw [hrun] at hr ⊢
  cases head with
  | nil =>
    obtain rfl := Nat.le_zero.mp hle
    obtain ⟨w, more, rfl, hw⟩ := hs.closes (Nat.le_refl 0)
    exact hend rfl w hw a hr more
  | cons c head => exact h n a hr hle hs

protected theorem skip (h : head ++ tail ≠ []) : ClosedBy tail' (skip : Lexer ε Unit) head tail := by
  rintro n _ hr hle _
  cases head with
  | nil =>
    obtain ⟨c, tail, rfl⟩ := List.exists_cons_of_ne_nil h
    cases hr
    exact absurd hle (by simp)
  | cons c head =>
    cases hr
    simp [skip]

protected theorem accept {c : Char} (hc : ∀ {w}, Closes w → w ≠ c) :
    ClosedBy tail' (accept c : Lexer ε Bool) head tail := by
  intro n b hr hle hs
  cases head with
  | nil =>
    obtain rfl := Nat.le_zero.mp hle
    obtain ⟨w, more, rfl, hw⟩ := hs.closes (Nat.le_refl 0)
    simp only [accept, List.nil_append] at hr ⊢
    split at hr <;> cases hr
    rw [if_neg (by simpa using hc hw)]
  | cons d head => exact hr

protected theorem run {test : Char → Bool} (h : ∀ {w}, Closes w → test w = false) :
    ClosedBy tail' (run test : Lexer ε (List Char)) head tail := by
  rintro n b hr hle hs
  cases hr
  have hstop : ((head ++ tail).takeWhile test).length < head.length ∨ ∀ c ∈ tail'.head?, test c = false := by
    refine hs.imp (fun hs => by omega) ?_
    rintro ⟨w, more, rfl, hw⟩ c hc
    rw [← Option.some.inj hc]
    exact h hw
  rw [run, takeWhile_cut hle hstop]

protected theorem discard {l : Lexer ε α} (h : ClosedBy tail' l head tail) :
    ClosedBy tail' (discard l : Lexer ε Unit) head tail :=
  h.bind fun _ _ _ _ => .pure

end ClosedBy

/-- The reader takes a character of the text if it succeeds. -/
def Takes (l : Lexer ε α) (text : List Char) : Prop :=
  ∀ n a, l text = ⟨n, .ok a⟩ → n ≠ 0

namespace Takes

open Lexer

variable {text : List Char}

theorem of_first {first : Lexer ε α} {next : α → Lexer ε β} (h : Takes first text) : Takes (first >>= next) text := by
  intro n b hr
  rcases hf : first text with ⟨m, e | a⟩
  · rw [reading_bind_error hf] at hr
    cases hr
  · rw [reading_bind_ok hf] at hr
    have hlength : m + _ = n := congrArg Reading.length hr
    have := h m a hf
    omega

theorem of_next {first : Lexer ε α} {next : α → Lexer ε β}
    (h : ∀ a, first text = ⟨0, .ok a⟩ → Takes (next a) text) : Takes (first >>= next) text := by
  rintro _ b hr rfl
  rcases hf : first text with ⟨m, e | a⟩
  · rw [reading_bind_error hf] at hr
    cases hr
  · rw [reading_bind_ok hf] at hr
    obtain ⟨hlength, hresult⟩ := Reading.mk.inj hr
    obtain ⟨rfl, hzero⟩ := Nat.add_eq_zero_iff.mp hlength
    rcases hb : next a text with ⟨k, r⟩
    rw [List.drop_zero, hb] at hresult hzero
    exact h a hf k b (by rw [hb, ← hresult]) hzero

protected theorem skip (h : text ≠ []) : Takes (skip : Lexer ε Unit) text := by
  obtain ⟨c, rest, rfl⟩ := List.exists_cons_of_ne_nil h
  rintro n _ ⟨⟩
  simp

protected theorem fail {e : ε} : Takes (fail e : Lexer ε α) text := by
  rintro _ _ ⟨⟩

protected theorem ite {p : Prop} [Decidable p] {x y : Lexer ε α} (hx : p → Takes x text) (hy : ¬ p → Takes y text) :
    Takes (if p then x else y) text := by
  split
  · exact hx ‹p›
  · exact hy ‹¬ p›

end Takes

/-! ## Gaps -/

section

variable {head tail tail' : List Char}

theorem lineLength_cut (h : lineLength (head ++ tail) < head.length) :
    lineLength (head ++ tail') = lineLength (head ++ tail) :=
  congrArg List.length (takeWhile_cut (Nat.le_of_lt h) (.inl h))

theorem blockComment_length_lt {length n : Nat} {newline ended : Bool} {text : List Char}
    (h : blockComment length newline text = ⟨n, .ok ended⟩) : length + 1 < n := by
  fun_induction blockComment length newline text with
  | case1 => cases h
  | case2 => cases h; exact Nat.lt_succ_self _
  | case3 length newline c rest _ ih => exact Nat.lt_of_succ_lt (ih h)

theorem blockComment_cut {length n : Nat} {newline ended : Bool}
    (h : blockComment length newline (head ++ tail) = ⟨n, .ok ended⟩) (hle : n ≤ length + head.length) :
    blockComment length newline (head ++ tail') = ⟨n, .ok ended⟩ := by
  have hlt := blockComment_length_lt h
  generalize ht : head ++ tail = text at h
  fun_induction blockComment length newline text generalizing head with
  | case1 => cases h
  | case2 length newline rest =>
    cases h
    obtain ⟨rfl, rfl⟩ | ⟨head, rfl, hrest⟩ := List.append_eq_cons_iff.mp ht
    · rw [List.length_nil] at hle
      omega
    obtain ⟨rfl, rfl⟩ | ⟨head, rfl, rfl⟩ := List.append_eq_cons_iff.mp hrest.symm
    · simp only [List.length_cons, List.length_nil] at hle
      omega
    · rfl
  | case3 length newline c rest hopen ih =>
    obtain ⟨rfl, rfl⟩ | ⟨head, rfl, rfl⟩ := List.append_eq_cons_iff.mp ht
    · rw [List.length_nil] at hle
      omega
    · have hmore := blockComment_length_lt h
      rw [List.length_cons] at hle
      rw [List.cons_append, blockComment]
      · exact ih (by omega) hmore rfl h
      · intro more hc hmore'
        cases head with
        | nil => simp only [List.length_nil] at hle; omega
        | cons d head => exact hopen _ hc (by rw [List.cons_append, (List.cons.inj hmore').1])

theorem le_length_gapFrom (length : Nat) (newline : Bool) (text : List Char) :
    length ≤ (gapFrom length newline text).length := by
  fun_induction gapFrom length newline text with
  | case1 | case7 | case8 => exact Nat.le_refl _
  | case2 | case3 | case4 | case5 => omega
  | case6 => simp only; omega

/-- A gap has looked at two characters, as it goes on with comments. -/
theorem gapFrom_closed {length n : Nat} {newline ended : Bool}
    (h : gapFrom length newline (head ++ tail) = ⟨n, .ok ended⟩) (hlt : n < length + head.length)
    (hs : Determined head tail' (n - length + 1)) : gapFrom length newline (head ++ tail') = ⟨n, .ok ended⟩ := by
  have hle : length ≤ n := (congrArg Reading.length h).subst (le_length_gapFrom ..)
  generalize ht : head ++ tail = text at h
  fun_induction gapFrom length newline text generalizing head with
  | case1 length newline =>
    obtain ⟨rfl, rfl⟩ := List.append_eq_nil_iff.mp ht
    exact absurd hlt (Nat.not_lt_of_le hle)
  | case2 length newline c rest hline ih =>
    have hmore : length + 1 ≤ n := (congrArg Reading.length h).subst (le_length_gapFrom ..)
    obtain ⟨rfl, rfl⟩ | ⟨head, rfl, rfl⟩ := List.append_eq_cons_iff.mp ht
    · exact absurd hlt (Nat.not_lt_of_le hle)
    · rw [List.cons_append, gapFrom_terminator hline]
      rw [List.length_cons] at hlt
      exact ih (by omega) (hs.within (by rw [List.length_cons]; omega)) hmore rfl h
  | case3 length newline c rest hline hspace ih =>
    have hmore : length + 1 ≤ n := (congrArg Reading.length h).subst (le_length_gapFrom ..)
    obtain ⟨rfl, rfl⟩ | ⟨head, rfl, rfl⟩ := List.append_eq_cons_iff.mp ht
    · exact absurd hlt (Nat.not_lt_of_le hle)
    · rw [List.cons_append, gapFrom_space hline hspace]
      rw [List.length_cons] at hlt
      exact ih (by omega) (hs.within (by rw [List.length_cons]; omega)) hmore rfl h
  | case4 length newline line hline hspace ih =>
    have hmore : length + 2 + lineLength line ≤ n := (congrArg Reading.length h).subst (le_length_gapFrom ..)
    obtain ⟨rfl, rfl⟩ | ⟨head, rfl, hrest⟩ := List.append_eq_cons_iff.mp ht
    · exact absurd hlt (Nat.not_lt_of_le hle)
    obtain ⟨rfl, rfl⟩ | ⟨head, rfl, rfl⟩ := List.append_eq_cons_iff.mp hrest.symm
    · simp only [List.length_cons, List.length_nil] at hlt
      omega
    · rw [List.length_cons, List.length_cons] at hlt
      have hinside : lineLength (head ++ tail) < head.length := by omega
      rw [List.drop_append_of_le_length (Nat.le_of_lt hinside)] at h ih
      rw [List.cons_append, List.cons_append, gapFrom_slash]
      simp only [lineLength_cut hinside, List.drop_append_of_le_length (Nat.le_of_lt hinside)]
      exact ih (by rw [List.length_drop]; omega)
        (hs.within (by simp only [List.length_cons, List.length_drop]; omega)) hmore rfl h
  | case5 length newline body m ended' hbody hline hspace ih =>
    have hmore : length + 2 + m ≤ n := (congrArg Reading.length h).subst (le_length_gapFrom ..)
    obtain ⟨rfl, rfl⟩ | ⟨head, rfl, hrest⟩ := List.append_eq_cons_iff.mp ht
    · exact absurd hlt (Nat.not_lt_of_le hle)
    obtain ⟨rfl, rfl⟩ | ⟨head, rfl, rfl⟩ := List.append_eq_cons_iff.mp hrest.symm
    · simp only [List.length_cons, List.length_nil] at hlt
      omega
    · rw [List.length_cons, List.length_cons] at hlt
      have hinside : m ≤ head.length := by omega
      rw [List.drop_append_of_le_length hinside] at h ih
      rw [List.cons_append, List.cons_append, gapFrom_slash]
      simp only [blockComment_cut hbody (by omega), List.drop_append_of_le_length hinside]
      exact ih (by rw [List.length_drop]; omega)
        (hs.within (by simp only [List.length_cons, List.length_drop]; omega)) hmore rfl h
  | case6 => cases h
  | case7 length newline rest hline hblock =>
    obtain ⟨rfl, rfl⟩ | ⟨head, rfl, rfl⟩ := List.append_eq_cons_iff.mp ht
    · exact absurd hlt (Nat.not_lt_of_le hle)
    have hnext {d : Char} {more : List Char} (hd : ∀ w, Closes w → w ≠ d) (hcons : head ++ tail' = d :: more) :
        ∃ rest, head = d :: rest := by
      cases head with
      | nil =>
        obtain ⟨w, _, rfl, hw⟩ := hs.closes (by rw [List.length_singleton]; omega)
        exact absurd (List.cons.inj hcons).1 (hd w hw)
      | cons c rest => exact ⟨rest, by rw [(List.cons.inj hcons).1]⟩
    rw [List.cons_append, gapFrom_slash, ← h]
    split
    · rename_i hcons
      obtain ⟨rest, rfl⟩ := hnext (fun _ hw => hw.comment) hcons
      exact absurd rfl (hline _)
    · rename_i hcons
      obtain ⟨rest, rfl⟩ := hnext (fun _ hw => hw.star) hcons
      exact absurd rfl (hblock _)
    · rfl
  | case8 length newline c rest hline hspace hslash =>
    obtain ⟨rfl, rfl⟩ | ⟨head, rfl, rfl⟩ := List.append_eq_cons_iff.mp ht
    · exact absurd hlt (Nat.not_lt_of_le hle)
    · rw [List.cons_append, gapFrom_other hline hspace hslash, h]

theorem gap_closed {atStart ended : Bool} {n : Nat} (h : gap atStart (head ++ tail) = ⟨n, .ok ended⟩)
    (hlt : n < head.length) (hs : Determined head tail' (n + 1)) : gap atStart (head ++ tail') = ⟨n, .ok ended⟩ := by
  generalize ht : head ++ tail = text at h
  revert h
  fun_cases gap atStart text with
  | case1 line hstart =>
    intro h
    have hmore : 2 + lineLength line ≤ n := (congrArg Reading.length h).subst (le_length_gapFrom ..)
    obtain ⟨rfl, rfl⟩ | ⟨head, rfl, hrest⟩ := List.append_eq_cons_iff.mp ht
    · exact absurd hlt (Nat.not_lt_zero _)
    obtain ⟨rfl, rfl⟩ | ⟨head, rfl, rfl⟩ := List.append_eq_cons_iff.mp hrest.symm
    · simp only [List.length_cons, List.length_nil] at hlt
      omega
    · rw [List.length_cons, List.length_cons] at hlt
      have hinside : lineLength (head ++ tail) < head.length := by omega
      rw [List.drop_append_of_le_length (Nat.le_of_lt hinside)] at h
      rw [List.cons_append, List.cons_append, gap, if_pos hstart, lineLength_cut hinside,
        List.drop_append_of_le_length (Nat.le_of_lt hinside)]
      exact gapFrom_closed h (by rw [List.length_drop]; omega)
        (hs.within (by simp only [List.length_cons, List.length_drop]; omega))
  | case2 line hstart =>
    rintro ⟨⟩
    obtain ⟨rfl, rfl⟩ | ⟨head, rfl, hrest⟩ := List.append_eq_cons_iff.mp ht
    · exact absurd hlt (Nat.not_lt_zero _)
    cases head with
    | nil =>
      obtain ⟨w, more, rfl, hw⟩ := hs.closes (Nat.le_refl 1)
      rw [List.cons_append, List.nil_append, gap]
      · exact gapFrom_other (by decide) (by decide) (by decide)
      · intro line hcons
        exact absurd (List.cons.inj (List.cons.inj hcons).2).1 hw.hashbang
    | cons d head =>
      obtain ⟨rfl, rfl⟩ := List.cons.inj hrest
      rw [List.cons_append, List.cons_append, gap, if_neg hstart]
  | case3 text hmark =>
    intro h
    have hsame : gap atStart (head ++ tail') = gapFrom 0 false (head ++ tail') := by
      rw [gap]
      intro line hcons
      obtain ⟨rfl, _⟩ | ⟨head, rfl, hrest⟩ := List.append_eq_cons_iff.mp hcons
      · exact absurd hlt (Nat.not_lt_zero _)
      cases head with
      | nil =>
        obtain ⟨w, more, rfl, hw⟩ := hs.closes (by rw [List.length_singleton]; omega)
        exact hw.hashbang (List.cons.inj hrest.symm).1
      | cons d head =>
        obtain rfl := (List.cons.inj hrest).1
        exact hmark (head ++ tail) ht.symm
    rw [hsame]
    exact gapFrom_closed (ht ▸ h) (by omega) hs

end

/-! ## Gaps to the end of the text -/

theorem lineLength_line (line rest : List Char) : lineLength (line ++ '\n' :: rest) = lineLength line := by
  have hcut : (line ++ '\n' :: rest).takeWhile (fun c => !isLineTerminator c) =
      (line ++ []).takeWhile fun c => !isLineTerminator c :=
    takeWhile_cut (by rw [List.append_nil]; exact lineLength_le line) (.inr (by simp; decide))
  rw [List.append_nil] at hcut
  exact congrArg List.length hcut

/-- A gap that takes the rest of a text goes on behind the end of its line. -/
theorem gapFrom_line {length : Nat} {newline ended : Bool} {text : List Char}
    (h : gapFrom length newline text = ⟨length + text.length, .ok ended⟩) (rest : List Char) :
    gapFrom length newline (text ++ '\n' :: rest) = gapFrom (length + text.length + 1) true rest := by
  fun_induction gapFrom length newline text with
  | case1 => exact gapFrom_terminator rfl
  | case2 length newline c text hline ih =>
    rw [List.length_cons, Nat.add_comm text.length, ← Nat.add_assoc] at h ⊢
    rw [List.cons_append, gapFrom_terminator hline, ih h]
  | case3 length newline c text hline hspace ih =>
    rw [List.length_cons, Nat.add_comm text.length, ← Nat.add_assoc] at h ⊢
    rw [List.cons_append, gapFrom_space hline hspace, ih h]
  | case4 length newline line hline hspace ih =>
    have hle := lineLength_le line
    have hlength : length + ('/' :: '/' :: line).length =
        length + 2 + lineLength line + (line.drop (lineLength line)).length := by
      simp only [List.length_cons, List.length_drop]
      omega
    rw [hlength] at h ⊢
    rw [List.cons_append, List.cons_append, gapFrom_slash]
    simp only [lineLength_line, List.drop_append_of_le_length hle]
    exact ih h
  | case5 length newline body m ended' hbody hline hspace ih =>
    have hle := blockComment_length_le 0 false body
    rw [hbody, Nat.zero_add] at hle
    simp only at hle
    have hlength : length + ('/' :: '*' :: body).length = length + 2 + m + (body.drop m).length := by
      simp only [List.length_cons, List.length_drop]
      omega
    have hwhole : blockComment 0 false (body ++ []) = ⟨m, .ok ended'⟩ := by rwa [List.append_nil]
    have hcut : blockComment 0 false (body ++ '\n' :: rest) = ⟨m, .ok ended'⟩ := blockComment_cut hwhole (by omega)
    rw [hlength] at h ⊢
    rw [List.cons_append, List.cons_append, gapFrom_slash]
    simp only [hcut, List.drop_append_of_le_length hle]
    exact ih h
  | case6 => cases congrArg Reading.result h
  | case7 | case8 =>
    have hlength := congrArg Reading.length h
    simp only [List.length_cons] at hlength
    omega

theorem gap_line {atStart ended : Bool} {text : List Char} (h : gap atStart text = ⟨text.length, .ok ended⟩)
    (rest : List Char) : gap atStart (text ++ '\n' :: rest) = gapFrom (text.length + 1) true rest := by
  fun_cases gap atStart text with
  | case1 line hstart =>
    have hle := lineLength_le line
    have hlength : ('#' :: '!' :: line).length = 2 + lineLength line + (line.drop (lineLength line)).length := by
      simp only [List.length_cons, List.length_drop]
      omega
    rw [gap, if_pos hstart, hlength] at h
    rw [List.cons_append, List.cons_append, gap, if_pos hstart, lineLength_line, List.drop_append_of_le_length hle,
      gapFrom_line h, hlength]
  | case2 line hstart =>
    rw [gap, if_neg hstart] at h
    cases congrArg Reading.length h
  | case3 text hmark =>
    have hgap : gap atStart (text ++ '\n' :: rest) = gapFrom 0 false (text ++ '\n' :: rest) := by
      rw [gap]
      intro line hcons
      obtain ⟨_, hcons⟩ | ⟨head, rfl, hrest⟩ := List.append_eq_cons_iff.mp hcons
      · exact absurd (List.cons.inj hcons).1 (by decide)
      obtain ⟨_, hcons⟩ | ⟨head, rfl, _⟩ := List.append_eq_cons_iff.mp hrest.symm
      · exact absurd (List.cons.inj hcons).1 (by decide)
      · exact hmark head rfl
    rw [gap] at h
    · rw [hgap, gapFrom_line (by rw [h, Nat.zero_add]), Nat.zero_add]
    · exact hmark

end EcmaCheck.Lexical
