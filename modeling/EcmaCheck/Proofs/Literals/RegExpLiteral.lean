import EcmaCheck.Proofs.Literals.TemplateSpan

/-!
# Regular expression literals

A slash closes a regular expression literal if it is neither escaped nor in a class, where a class goes from an
unescaped `[` to the next unescaped `]` (`ClosesRegExp`). The reader of the body finds the first such slash, unless a
line ends before it (`regExpBody_takes`), and the reader of the flags takes the run of identifier parts behind it if
they are flags (`regExpFlags_takes`). So the literals that are read are those of `BeginsRegExp`
(`Scanner.next_regExp`).
-/

namespace EcmaCheck

namespace Lexical

variable {text rest : List Char} {n k : Nat} {c : Char}

/-! ## Bodies -/

/-- The unescaped character with the index is `c`. -/
def StandsAt (c : Char) (text : List Char) (k : Nat) : Prop :=
  text[k]? = some c ∧ isEscaped text k = false

/-- A class that was opened before the index is still open there. -/
def InClass (text : List Char) (k : Nat) : Prop :=
  ∃ j < k, StandsAt '[' text j ∧ ∀ i < k, j < i → ¬ StandsAt ']' text i

/-- A slash that ends the body. -/
def ClosesRegExp (text : List Char) (k : Nat) : Prop :=
  StandsAt '/' text k ∧ ¬ InClass text k

/-- The first slash that ends the body, on the line where the body begins. -/
structure IsRegExpEnd (text : List Char) (k : Nat) : Prop where
  closes : ClosesRegExp text k
  first : ∀ j < k, ¬ ClosesRegExp text j
  line : ∀ c ∈ text.take k, isLineTerminator c = false

theorem not_inClass_zero : ¬ InClass text 0 := by
  rintro ⟨j, hj, _⟩
  exact absurd hj (Nat.not_lt_zero j)

theorem inClass_succ : InClass text (k + 1) ↔ StandsAt '[' text k ∨ InClass text k ∧ ¬ StandsAt ']' text k := by
  constructor
  · rintro ⟨j, hj, hopen, hnone⟩
    obtain hj | rfl := Nat.lt_succ_iff_lt_or_eq.mp hj
    · exact .inr ⟨⟨j, hj, hopen, fun i hi => hnone i (Nat.lt_succ_of_lt hi)⟩, hnone k (Nat.lt_succ_self k) hj⟩
    · exact .inl hopen
  · rintro (hopen | ⟨⟨j, hj, hopen, hnone⟩, hclose⟩)
    · refine ⟨k, Nat.lt_succ_self k, hopen, fun i hi hk => ?_⟩
      omega
    · refine ⟨j, Nat.lt_succ_of_lt hj, hopen, fun i hi hji => ?_⟩
      obtain hi | rfl := Nat.lt_succ_iff_lt_or_eq.mp hi
      · exact hnone i hi hji
      · exact hclose

/-- The body has been read up to the index, and goes on there with or without an open class. -/
structure Within (text : List Char) (n : Nat) (inClass : Bool) : Prop where
  isEscaped : isEscaped text n = false
  inClass : inClass = true ↔ InClass text n
  open_ : ∀ k < n, ¬ ClosesRegExp text k
  line : ∀ c ∈ text.take n, isLineTerminator c = false

namespace Within

variable {inClass : Bool}

theorem start : Within text 0 false where
  isEscaped := rfl
  inClass := iff_of_false Bool.false_ne_true not_inClass_zero
  open_ k hk := absurd hk (Nat.not_lt_zero k)
  line := by simp

theorem standsAt_iff (h : Within text n inClass) (hc : text[n]? = some c) {d : Char} : StandsAt d text n ↔ c = d := by
  rw [StandsAt, hc, h.isEscaped]
  simp

theorem take_succ (hline : ∀ c ∈ text.take n, isLineTerminator c = false) (hc : text[n]? = some c)
    (hend : isLineTerminator c = false) : ∀ c ∈ text.take (n + 1), isLineTerminator c = false := by
  rw [List.take_add_one, hc]
  intro d hd
  rcases List.mem_append.mp hd with hd | hd
  · exact hline d hd
  · rwa [List.mem_singleton.mp hd]

/-- A character that neither ends the body nor escapes the one behind it. -/
theorem character (h : Within text n inClass) (hc : text[n]? = some c) (hend : isLineTerminator c = false)
    (hslash : c ≠ '\\') (hopen : c = '/' → inClass = true) {inClass' : Bool}
    (hclass : inClass' = true ↔ c = '[' ∨ inClass = true ∧ c ≠ ']') : Within text (n + 1) inClass' where
  isEscaped := by simp [Lexical.isEscaped, hc, hslash]
  inClass := by rw [inClass_succ, h.standsAt_iff hc, h.standsAt_iff hc, ← h.inClass, hclass]
  open_ k hk := by
    obtain hk | rfl := Nat.lt_succ_iff_lt_or_eq.mp hk
    · exact h.open_ k hk
    · rintro ⟨hclose, hnot⟩
      exact hnot (h.inClass.mp (hopen ((h.standsAt_iff hc).mp hclose)))
  line := take_succ h.line hc hend

/-- A backslash and the character it escapes. -/
theorem escape (h : Within text n inClass) {d : Char} (htext : text.drop n = '\\' :: d :: rest)
    (hend : isLineTerminator d = false) : Within text (n + 2) inClass := by
  obtain ⟨hslash, _, hrest⟩ := drop_eq_cons htext
  obtain ⟨hd, _, _⟩ := drop_eq_cons hrest
  have hescaped : Lexical.isEscaped text (n + 1) = true := by simp [Lexical.isEscaped, hslash, h.isEscaped]
  have hnot (c : Char) : ¬ StandsAt c text (n + 1) := by
    rintro ⟨_, hc⟩
    rw [hescaped] at hc
    cases hc
  have hback {c : Char} (hc : c ≠ '\\') : ¬ StandsAt c text n := fun h' => hc ((h.standsAt_iff hslash).mp h').symm
  refine ⟨?_, ?_, fun k hk hclose => ?_, take_succ (take_succ h.line hslash (by decide +kernel)) hd hend⟩
  · rw [Lexical.isEscaped, hescaped]
    exact Bool.and_false _
  · have hopen : ¬ StandsAt '[' text n := hback (by decide)
    have hclose : ¬ StandsAt ']' text n := hback (by decide)
    rw [inClass_succ, inClass_succ, h.inClass]
    simp only [hnot, hopen, hclose, false_or, not_false_eq_true, and_true]
  · obtain hk | rfl : k < n + 1 ∨ k = n + 1 := by omega
    · obtain hk | rfl := Nat.lt_succ_iff_lt_or_eq.mp hk
      · exact h.open_ k hk hclose
      · exact hback (by decide) hclose.1
    · exact hnot _ hclose.1

/-- Where a line or the text ends, no slash behind closes the body on its line. -/
theorem not_isRegExpEnd (h : Within text n inClass)
    (hstop : ∀ k, n ≤ k → StandsAt '/' text k → ∃ j < k, ∃ c, text[j]? = some c ∧ isLineTerminator c = true) (k : Nat) :
    ¬ IsRegExpEnd text k := by
  intro hend
  have hle : n ≤ k := Nat.le_of_not_lt fun hk => h.open_ k hk hend.closes
  obtain ⟨j, hj, c, hc, hline⟩ := hstop k hle hend.closes.1
  have hmem : c ∈ text.take k := List.mem_of_getElem? ((List.getElem?_take_of_lt hj).trans hc)
  exact Bool.false_ne_true ((hend.line c hmem).symm.trans hline)

end Within

theorem IsRegExpEnd.unique {j k : Nat} (hj : IsRegExpEnd text j) (hk : IsRegExpEnd text k) : j = k :=
  Nat.le_antisymm (Nat.le_of_not_lt fun h => hj.first k h hk.closes) (Nat.le_of_not_lt fun h => hk.first j h hj.closes)

/-- How a body is read with the slash that closes it. -/
inductive RegExpBodyReads (text : List Char) : Reading LexicalError Unit → Prop
  | closes {k : Nat} (h : IsRegExpEnd text k) : RegExpBodyReads text ⟨k + 1, .ok ()⟩
  | leftOpen (n : Nat) (e : LexicalError) (h : ∀ k, ¬ IsRegExpEnd text k) : RegExpBodyReads text ⟨n, .error e⟩

theorem regExpBody_takes {whole : List Char} (inClass : Bool) (length : Nat) (text : List Char)
    (htext : whole.drop length = text) (h : Within whole length inClass) :
    RegExpBodyReads whole (regExpBody inClass length text) := by
  fun_induction regExpBody inClass length text with
  | case1 inClass length =>
    refine .leftOpen _ _ (h.not_isRegExpEnd fun k hk hslash => ?_)
    have hlt := (List.getElem?_eq_some_iff.mp hslash.1).1
    have hle := List.drop_eq_nil_iff.mp htext
    omega
  | case2 inClass length c rest hline =>
    obtain ⟨hc, _, _⟩ := drop_eq_cons htext
    refine .leftOpen _ _ (h.not_isRegExpEnd fun k hk hslash => ⟨length, ?_, c, hc, hline⟩)
    refine Nat.lt_of_le_of_ne hk ?_
    rintro rfl
    obtain rfl := (h.standsAt_iff hc).mp hslash
    exact absurd hline (by decide +kernel)
  | case3 inClass length hline =>
    obtain ⟨hc, _, hrest⟩ := drop_eq_cons htext
    refine .leftOpen _ _ (h.not_isRegExpEnd fun k hk hslash => ?_)
    have hlt := (List.getElem?_eq_some_iff.mp hslash.1).1
    have hle := List.drop_eq_nil_iff.mp hrest
    obtain rfl : k = length := by omega
    exact absurd ((h.standsAt_iff hc).mp hslash) (by decide)
  | case4 inClass length d more hd hline =>
    obtain ⟨hc, _, hrest⟩ := drop_eq_cons htext
    obtain ⟨hget, _, _⟩ := drop_eq_cons hrest
    refine .leftOpen _ _ (h.not_isRegExpEnd fun k hk hslash => ⟨length + 1, ?_, d, hget, hd⟩)
    refine Nat.lt_of_le_of_ne (Nat.lt_of_le_of_ne hk ?_) ?_
    · rintro rfl
      exact absurd ((h.standsAt_iff hc).mp hslash) (by decide)
    · rintro rfl
      obtain rfl := Option.some.inj (hget.symm.trans hslash.1)
      exact absurd hd (by decide +kernel)
  | case5 inClass length d more hd hline ih =>
    refine ih ?_ (h.escape htext (Bool.eq_false_iff.mpr hd))
    obtain ⟨_, _, hrest⟩ := drop_eq_cons htext
    exact (drop_eq_cons hrest).2.2
  | case6 inClass length rest hline hslash ih =>
    obtain ⟨hc, _, hrest⟩ := drop_eq_cons htext
    exact ih hrest (h.character hc rfl (by decide) (by simp) (by simp))
  | case7 inClass length rest hline hslash hopen ih =>
    obtain ⟨hc, _, hrest⟩ := drop_eq_cons htext
    exact ih hrest (h.character hc rfl (by decide) (by simp) (by simp))
  | case8 inClass length c rest hline hslash hopen hclose hend =>
    obtain ⟨hc, _, _⟩ := drop_eq_cons htext
    obtain ⟨rfl, rfl⟩ : c = '/' ∧ inClass = false := by simpa using hend
    refine .closes ⟨⟨(h.standsAt_iff hc).mpr rfl, fun hclass => ?_⟩, h.open_, h.line⟩
    exact Bool.false_ne_true (h.inClass.mpr hclass)
  | case9 inClass length c rest hline hslash hopen hclose hend ih =>
    obtain ⟨hc, _, hrest⟩ := drop_eq_cons htext
    refine ih hrest (h.character hc (Bool.eq_false_iff.mpr hline) hslash ?_ ?_)
    · simpa using hend
    · simp [hopen, hclose]

/-! ## Flags -/

/-- The flags that a literal may have: letters of `dgimsuvy`, each at most once, and not both `u` and `v`. -/
structure IsRegExpFlags (flags : List Char) : Prop where
  letters : ∀ c ∈ flags, c ∈ "dgimsuvy".toList
  nodup : flags.Nodup
  notBoth : ¬ ('u' ∈ flags ∧ 'v' ∈ flags)

/-- The text begins with a run of identifier parts, behind which there is no escape. -/
structure IsFlagRun (text flags rest : List Char) : Prop where
  eq : text = flags ++ rest
  parts : ∀ c ∈ flags, isIdentifierPart c = true
  maximal : rest.head?.any isIdentifierPart = false
  escape : rest.head? ≠ some '\\'

/-- How flags are read behind those in `seen`. -/
inductive RegExpFlagsRead (seen text : List Char) (length : Nat) : Reading LexicalError TokenKind → Prop
  | flags {run rest : List Char} (hrun : IsFlagRun text run rest) (h : IsRegExpFlags (run.reverse ++ seen)) :
    RegExpFlagsRead seen text length ⟨length + run.length, .ok .regExp⟩
  | malformed (n : Nat) (e : LexicalError)
    (h : ∀ run rest, IsFlagRun text run rest → ¬ IsRegExpFlags (run.reverse ++ seen)) :
    RegExpFlagsRead seen text length ⟨n, .error e⟩

theorem regExpFlags_ending (seen : List Char) (length : Nat) (hseen : ∀ c ∈ seen, c ∈ "dgimsuvy".toList)
    (hnodup : seen.Nodup) (hrest : rest.head?.any isIdentifierPart = false) (hslash : rest.head? ≠ some '\\') :
    RegExpFlagsRead seen rest length (regExpFlags.ending seen length) := by
  have hrun : IsFlagRun rest [] rest := ⟨rfl, by simp, hrest, hslash⟩
  unfold regExpFlags.ending
  split
  case isTrue hboth =>
    refine .malformed _ _ fun run behind hrun' hflags => hflags.notBoth ?_
    have hboth : 'u' ∈ seen ∧ 'v' ∈ seen := by simpa using hboth
    exact ⟨List.mem_append_right _ hboth.1, List.mem_append_right _ hboth.2⟩
  case isFalse hboth => exact .flags hrun ⟨hseen, hnodup, by simpa using hboth⟩

theorem IsFlagRun.uncons {flags : List Char} (h : IsFlagRun (c :: text) flags rest) :
    flags = [] ∧ isIdentifierPart c = false ∧ c ≠ '\\' ∨
      ∃ more, flags = c :: more ∧ isIdentifierPart c = true ∧ IsFlagRun text more rest := by
  obtain ⟨heq, hparts, hmaximal, hescape⟩ := h
  cases flags with
  | nil =>
    subst heq
    exact .inl ⟨rfl, hmaximal, fun hc => hescape (congrArg some hc)⟩
  | cons d more =>
    obtain ⟨rfl, rfl⟩ := List.cons.inj heq
    obtain ⟨hc, hmore⟩ := List.forall_mem_cons.mp hparts
    exact .inr ⟨more, rfl, hc, rfl, hmore, hmaximal, hescape⟩

theorem regExpFlags_takes (seen : List Char) (length : Nat) (text : List Char)
    (hseen : ∀ c ∈ seen, c ∈ "dgimsuvy".toList) (hnodup : seen.Nodup) :
    RegExpFlagsRead seen text length (regExpFlags seen length text) := by
  fun_induction regExpFlags seen length text with
  | case1 seen length => exact regExpFlags_ending seen length hseen hnodup rfl (by simp)
  | case2 seen length rest =>
    refine .malformed _ _ fun run behind hrun _ => ?_
    obtain ⟨_, _, hc⟩ | ⟨_, _, hc, _⟩ := hrun.uncons
    · exact hc rfl
    · exact absurd hc (by decide +kernel)
  | case3 seen length c rest hslash hpart =>
    refine regExpFlags_ending seen length hseen hnodup ?_ fun h => hslash (Option.some.inj h)
    simpa using hpart
  | case4 seen length c rest hslash hpart hflag =>
    refine .malformed _ _ fun run behind hrun hflags => ?_
    obtain ⟨_, hnot, _⟩ | ⟨more, rfl, _, _⟩ := hrun.uncons
    · exact hpart (by rw [hnot]; rfl)
    · rw [List.reverse_cons, List.append_assoc] at hflags
      have hmem : c ∈ "dgimsuvy".toList := hflags.letters c (by simp)
      have hnew : c ∉ seen := (List.nodup_cons.mp (List.nodup_append.mp hflags.nodup).2.1).1
      have hletter : c ∈ regExpFlagLetters := hmem
      simp [hletter, hnew] at hflag
  | case5 seen length c rest hslash hpart hflag ih =>
    obtain ⟨hletter, hnew⟩ : c ∈ regExpFlagLetters ∧ c ∉ seen := by simpa using hflag
    have hc : isIdentifierPart c = true := by simpa using hpart
    have hreads := ih (List.forall_mem_cons.mpr ⟨hletter, hseen⟩) (List.nodup_cons.mpr ⟨hnew, hnodup⟩)
    generalize regExpFlags (c :: seen) (length + 1) rest = r at hreads
    cases hreads with
    | @flags run behind hrun h =>
      have hrun' : IsFlagRun (c :: rest) (c :: run) behind :=
        ⟨by rw [hrun.eq]; rfl, List.forall_mem_cons.mpr ⟨hc, hrun.parts⟩, hrun.maximal, hrun.escape⟩
      rw [Nat.add_assoc, Nat.add_comm 1]
      refine .flags hrun' ?_
      rwa [List.reverse_cons, List.append_assoc]
    | malformed n e h =>
      refine .malformed _ _ fun run behind hrun hflags => ?_
      obtain ⟨_, hnot, _⟩ | ⟨more, rfl, _, hmore⟩ := hrun.uncons
      · rw [hc] at hnot
        cases hnot
      · rw [List.reverse_cons, List.append_assoc] at hflags
        exact h more behind hmore hflags

/-! ## Literals -/

/-- The text begins with the regular expression literal. -/
def BeginsRegExp (text literal : List Char) : Prop :=
  ∃ body flags rest, literal = '/' :: body ++ '/' :: flags ∧ text = '/' :: (body ++ '/' :: (flags ++ rest)) ∧
    body ≠ [] ∧ IsRegExpEnd (body ++ '/' :: (flags ++ rest)) body.length ∧
    IsFlagRun (flags ++ rest) flags rest ∧ IsRegExpFlags flags

theorem isRegExpFlags_reverse {flags : List Char} : IsRegExpFlags flags.reverse ↔ IsRegExpFlags flags := by
  constructor
  · rintro ⟨hletters, hnodup, hnotBoth⟩
    simp only [List.mem_reverse, List.nodup_reverse] at hletters hnodup hnotBoth
    exact ⟨hletters, hnodup, hnotBoth⟩
  · rintro ⟨hletters, hnodup, hnotBoth⟩
    refine ⟨?_, List.nodup_reverse.mpr hnodup, ?_⟩
    · simpa only [List.mem_reverse] using hletters
    · simpa only [List.mem_reverse] using hnotBoth

theorem IsFlagRun.eq_takeWhile {flags : List Char} (h : IsFlagRun text flags rest) :
    flags = text.takeWhile isIdentifierPart := by
  have hnone : rest.takeWhile isIdentifierPart = [] := by
    cases rest with
    | nil => rfl
    | cons c more => exact List.takeWhile_cons_of_neg (Bool.eq_false_iff.mp h.maximal)
  rw [h.eq, List.takeWhile_append_of_pos h.parts, hnone, List.append_nil]

theorem IsRegExpEnd.split (h : IsRegExpEnd text k) :
    text = text.take k ++ '/' :: text.drop (k + 1) ∧ k < text.length := by
  obtain ⟨hlt, hget⟩ := List.getElem?_eq_some_iff.mp h.closes.1.1
  refine ⟨?_, hlt⟩
  rw [← hget, ← List.drop_eq_getElem_cons hlt, List.take_append_drop]

/-- A literal told by the index of the slash that closes it. -/
theorem beginsRegExp_iff {literal : List Char} (hslash : text.head? ≠ some '/') :
    BeginsRegExp ('/' :: text) literal ↔ ∃ k flags rest, IsRegExpEnd text k ∧
      literal = '/' :: text.take k ++ '/' :: flags ∧ IsFlagRun (text.drop (k + 1)) flags rest ∧
        IsRegExpFlags flags := by
  constructor
  · rintro ⟨body, flags, rest, rfl, htext, _, hend, hrun, hflags⟩
    obtain rfl := (List.cons.inj htext).2
    refine ⟨body.length, flags, rest, hend, by rw [List.take_left], ?_, hflags⟩
    rwa [← List.drop_drop, List.drop_left]
  · rintro ⟨k, flags, rest, hend, rfl, hrun, hflags⟩
    obtain ⟨hsplit, hlt⟩ := hend.split
    have hlength : (text.take k).length = k := by
      rw [List.length_take]
      omega
    refine ⟨text.take k, flags, rest, rfl, ?_, fun hnil => hslash ?_, ?_, hrun.eq ▸ hrun, hflags⟩
    · rw [← hrun.eq, ← hsplit]
    · rw [hsplit, hnil]
      rfl
    · rw [← hrun.eq, ← hsplit, hlength]
      exact hend

end Lexical

open Lexical

/-- Where a slash begins a regular expression, the next token is one if and only if the literal is well-formed, and it
ends where the literal does. Otherwise the text is malformed: at the opening slash if the body is not closed on its
line, or else where the flags begin. -/
theorem Scanner.next_regExp {s : Scanner} {n : Nat} {newline : Bool} {text : List Char}
    (hgap : s.skipGap .regExp = ⟨n, .ok newline⟩) (hrest : (s.advance n).rest = '/' :: text)
    (hslash : text.head? ≠ some '/') :
    (∀ literal, s.next .regExp = (.ok ⟨.regExp, (s.advance n).position,
        ((s.advance n).advance literal.length).position, String.ofList literal, newline⟩,
        (s.advance n).advance literal.length) ↔ BeginsRegExp ('/' :: text) literal) ∧
    ((∀ literal, ¬ BeginsRegExp ('/' :: text) literal) →
      ∃ e, ((∀ k, ¬ IsRegExpEnd text k) → (s.next .regExp).1 = .error (.lexical e (s.advance n).position)) ∧
        ∀ k, IsRegExpEnd text k →
          (s.next .regExp).1 = .error (.lexical e ((s.advance n).advance (k + 2)).position)) := by
  have hne : (s.advance n).rest ≠ [] := hrest ▸ List.cons_ne_nil '/' text
  have helement : element s.source.sentinel .regExp (s.advance n).rest = regExp text := by
    rw [hrest]
    rfl
  have hbody := regExpBody_takes false 0 text rfl .start
  unfold regExp at helement
  generalize regExpBody false 0 text = r at helement hbody
  cases hbody with
  | leftOpen m e hopen =>
    have hnext := next_misread hgap hne helement
    have hnone (literal : List Char) : ¬ BeginsRegExp ('/' :: text) literal := by
      rw [beginsRegExp_iff hslash]
      rintro ⟨k, _, _, hend, _⟩
      exact hopen k hend
    refine ⟨fun literal => ⟨fun h => ?_, fun h => absurd h (hnone literal)⟩, fun _ => ⟨e, fun _ => hnext, ?_⟩⟩
    · rw [h] at hnext
      cases hnext
    · exact fun k hend => absurd hend (hopen k)
  | @closes k hend =>
    have hflags := regExpFlags_takes [] 0 (text.drop (k + 1)) (by simp) List.nodup_nil
    simp only [Nat.add_comm 1 (k + 1)] at helement
    generalize regExpFlags [] 0 (text.drop (k + 1)) = r at helement hflags
    cases hflags with
    | @flags run rest hrun hflags =>
      rw [List.append_nil, isRegExpFlags_reverse] at hflags
      have hbegins : BeginsRegExp ('/' :: text) ('/' :: text.take k ++ '/' :: run) :=
        (beginsRegExp_iff hslash).mpr ⟨k, run, rest, hend, rfl, hrun, hflags⟩
      have hlength : k + 2 + run.length = ('/' :: text.take k ++ '/' :: run).length := by
        have hlt := hend.split.2
        simp only [List.length_append, List.length_cons, List.length_take]
        omega
      have htake : ('/' :: text).take (k + 2 + run.length) = '/' :: text.take k ++ '/' :: run := by
        obtain ⟨body, flags, behind, hliteral, htext, _⟩ := hbegins
        have hsplit : '/' :: text = '/' :: body ++ '/' :: flags ++ behind := by
          rw [htext]
          simp
        rw [hlength, hliteral, hsplit, List.take_left]
      have hnext := next_token hgap hne helement
      rw [hrest, Reading.after] at hnext
      simp only [Nat.zero_add] at hnext
      rw [htake, hlength] at hnext
      refine ⟨fun literal => ⟨fun h => ?_, fun h => ?_⟩, fun hnone => absurd hbegins (hnone _)⟩
      · injection Except.ok.inj (congrArg Prod.fst (hnext.symm.trans h)) with _ _ _ hlexeme
        have hliteral := congrArg String.toList hlexeme
        rw [String.toList_ofList, String.toList_ofList] at hliteral
        exact hliteral ▸ hbegins
      · obtain ⟨j, run', rest', hj, rfl, hrun', _⟩ := (beginsRegExp_iff hslash).mp h
        obtain rfl := hj.unique hend
        obtain rfl : run' = run := hrun'.eq_takeWhile.trans hrun.eq_takeWhile.symm
        exact hnext
    | malformed m e hnot =>
      have hnext := next_misread hgap hne helement
      have hnone (literal : List Char) : ¬ BeginsRegExp ('/' :: text) literal := by
        rw [beginsRegExp_iff hslash]
        rintro ⟨j, run, rest, hj, _, hrun, hflags⟩
        obtain rfl := hj.unique hend
        refine hnot run rest hrun ?_
        rwa [List.append_nil, isRegExpFlags_reverse]
      refine ⟨fun literal => ⟨fun h => ?_, fun h => absurd h (hnone literal)⟩, fun _ => ⟨e, fun h => ?_, ?_⟩⟩
      · rw [h] at hnext
        cases hnext
      · exact absurd hend (h k)
      · intro j hj
        obtain rfl := hj.unique hend
        exact hnext

/-- A slash in a class, and another one behind a backslash. -/
theorem Scanner.next_regExp_class :
    let s := Scanner.ofSource (.ofText "/[/]\\//gi;".toList)
    let text := "[/]\\//gi;".toList
    s.skipGap .regExp = ⟨0, .ok false⟩ ∧ (s.advance 0).rest = '/' :: text ∧ text.head? ≠ some '/' ∧
    (∀ literal, s.next .regExp = (.ok ⟨.regExp, (s.advance 0).position,
        ((s.advance 0).advance literal.length).position, String.ofList literal, false⟩,
        (s.advance 0).advance literal.length) ↔ BeginsRegExp ('/' :: text) literal) ∧
    ((∀ literal, ¬ BeginsRegExp ('/' :: text) literal) →
      ∃ e, ((∀ k, ¬ IsRegExpEnd text k) → (s.next .regExp).1 = .error (.lexical e (s.advance 0).position)) ∧
        ∀ k, IsRegExpEnd text k →
          (s.next .regExp).1 = .error (.lexical e ((s.advance 0).advance (k + 2)).position)) := by
  intro s text
  have hgap : s.skipGap .regExp = ⟨0, .ok false⟩ := gapFrom_slash
  have hrest : (s.advance 0).rest = '/' :: text := by decide
  have hslash : text.head? ≠ some '/' := by decide
  exact ⟨hgap, hrest, hslash, next_regExp hgap hrest hslash⟩

end EcmaCheck
