import EcmaCheck.Proofs.Literals.Escape
import EcmaCheck.Proofs.Scanning

/-!
# Template spans

A template span ends with the first backtick or `${` that is not escaped, where a backslash escapes the one character
behind it (`isEscaped`). The reader takes more than one character of some escapes, also of malformed ones, but what it
takes behind the first has no meaning in a template (`templateFrom_takes`). So a span ends where it should, and its
first malformed escape is the one found by looking at each backslash by itself (`Scanner.next_template`).
-/

namespace EcmaCheck

namespace Lexical

variable {sentinel : Bool} {text rest : List Char}

/-! ## Escaped characters -/

/-- Whether the character with the index is behind a backslash that is not itself escaped. -/
def isEscaped (text : List Char) : Nat → Bool
  | 0 => false
  | k + 1 => text[k]? = some '\\' && !isEscaped text k

/-- An unescaped backtick or `${` behind the first character of the text. -/
def ClosesAt (text : List Char) (k : Nat) : Prop :=
  0 < k ∧ isEscaped text k = false ∧ (text[k]? = some '\x60' ∨ text[k]? = some '$' ∧ text[k + 1]? = some '{')

/-- A text that begins, behind a backslash, with an escape that a template may contain. -/
inductive TemplateEscape : List Char → Prop
  | code {text rest : List Char} (h : CodeEscape text rest) : TemplateEscape text
  | zero {rest : List Char} (h : rest.head?.any isDecimalDigit = false) : TemplateEscape ('0' :: rest)
  | character {c : Char} {rest : List Char} (hx : c ≠ 'x') (hu : c ≠ 'u') (hdigit : isDecimalDigit c = false) :
    TemplateEscape (c :: rest)

/-- An unescaped backslash that begins no well-formed escape. -/
def MalformedAt (text : List Char) (k : Nat) : Prop :=
  isEscaped text k = false ∧ text[k]? = some '\\' ∧ ¬ TemplateEscape (text.drop (k + 1))

/-- The first malformed escape before an index, if there is one. -/
def IsFirstMalformed (text : List Char) (n : Nat) : Option Nat → Prop
  | some k => k < n ∧ MalformedAt text k ∧ ∀ j < k, ¬ MalformedAt text j
  | none => ∀ k < n, ¬ MalformedAt text k

/-- What an escape takes: one character, and inert ones behind it. -/
theorem escape_takes {d : Char} {n : Nat} {result : Except LexicalError Bool}
    (h : escape sentinel (d :: rest) = ⟨n, result⟩) : ∃ more behind, rest = more ++ behind ∧ n = more.length + 1 ∧
      (∀ c ∈ more, IsInert c) ∧ (result = .ok false ↔ TemplateEscape (d :: rest)) := by
  have hreads := escape_reads sentinel d rest
  rw [h] at hreads
  generalize htext : d :: rest = text at hreads
  generalize hr : Reading.mk n result = r at hreads
  cases hreads with
  | @code c more behind hcode hmore =>
    cases htext
    cases hr
    exact ⟨more, behind, rfl, Nat.add_comm .., hmore, iff_of_true rfl (.code hcode)⟩
  | @malformed c more behind hmalformed hmore e =>
    cases htext
    cases hr
    refine ⟨more, behind, rfl, Nat.add_comm .., hmore, iff_of_false nofun fun hescape => ?_⟩
    have hmarked := hmalformed.marked
    cases hescape with
    | code hcode => exact hmalformed.missing _ hcode
    | zero => obtain ⟨⟨⟩⟩ | ⟨⟨⟩⟩ := hmarked
    | character hx hu =>
      obtain hmarked | hmarked := hmarked
      · exact hx (Option.some.inj hmarked)
      · exact hu (Option.some.inj hmarked)
  | @legacy c more behind hlegacy hmore =>
    cases htext
    cases hr
    refine ⟨more, behind, rfl, Nat.add_comm .., fun c hc => isInert_of_isOctalDigit (hmore c hc),
      iff_of_false nofun fun hescape => ?_⟩
    obtain ⟨hdigit, hzero⟩ := Bool.and_eq_true _ _ ▸ hlegacy
    cases hescape with
    | code hcode =>
      obtain hmarked | hmarked := hcode.marked <;> obtain rfl := Option.some.inj hmarked <;> cases hdigit
    | zero h => exact Bool.eq_false_iff.mp h hzero
    | character _ _ hnot => exact Bool.eq_false_iff.mp hnot hdigit
  | @pair behind =>
    cases htext
    cases hr
    have hinert : IsInert '\n' := by unfold IsInert; decide
    exact ⟨['\n'], _, rfl, rfl, List.forall_mem_singleton.mpr hinert,
      iff_of_true rfl (.character (by decide) (by decide) rfl)⟩
  | @single c behind hx hu hlegacy =>
    cases htext
    cases hr
    refine ⟨[], _, rfl, rfl, nofun, iff_of_true rfl ?_⟩
    by_cases hdigit : isDecimalDigit d = true
    · rw [beginsLegacyEscape, hdigit, Bool.true_and] at hlegacy
      obtain ⟨rfl, hrest⟩ : d = '0' ∧ rest.head?.any isDecimalDigit = false := by simpa using hlegacy
      exact .zero hrest
    · exact .character hx hu (Bool.eq_false_iff.mpr hdigit)

/-! ## What has been passed -/

namespace IsFirstMalformed

variable {n : Nat} {marked : Option Nat}

theorem succ (h : IsFirstMalformed text n marked) (hn : ¬ MalformedAt text n) :
    IsFirstMalformed text (n + 1) marked := by
  cases marked with
  | none =>
    intro k hk
    obtain hk | rfl := Nat.lt_succ_iff_lt_or_eq.mp hk
    · exact h k hk
    · exact hn
  | some k => exact ⟨Nat.lt_succ_of_lt h.1, h.2⟩

theorem or_some (h : IsFirstMalformed text n marked) (hn : MalformedAt text n) :
    IsFirstMalformed text (n + 1) (marked.or (some n)) := by
  cases marked with
  | none => exact ⟨Nat.lt_succ_self n, hn, h⟩
  | some k => exact ⟨Nat.lt_succ_of_lt h.1, h.2⟩

end IsFirstMalformed

/-- The characters before the index have been read: none of them closes the span, and the one with the index is not
escaped. -/
structure Passes (text : List Char) (n : Nat) (marked : Option Nat) : Prop where
  pos : 0 < n
  isEscaped : isEscaped text n = false
  open_ : ∀ k < n, ¬ ClosesAt text k
  marked : IsFirstMalformed text n marked

namespace Passes

variable {n : Nat} {marked : Option Nat} {c : Char}

theorem start (hc : c ≠ '\\') (body : List Char) : Passes (c :: body) 1 none := by
  have hslash : (c :: body)[0]? ≠ some '\\' := fun h => hc (Option.some.inj h)
  refine ⟨Nat.one_pos, ?_, ?_, ?_⟩
  · simp [Lexical.isEscaped, hc]
  · rintro k hk ⟨hpos, _⟩
    omega
  · rintro k hk ⟨_, hget, _⟩
    obtain rfl : k = 0 := by omega
    exact hslash hget

/-- A character that neither closes the span nor escapes the one behind it. -/
theorem character (h : Passes text n marked) (hc : text[n]? = some c) (hslash : c ≠ '\\') (hopen : ¬ ClosesAt text n) :
    Passes text (n + 1) marked where
  pos := Nat.succ_pos n
  isEscaped := by simp [Lexical.isEscaped, hc, hslash]
  open_ k hk := by
    obtain hk | rfl := Nat.lt_succ_iff_lt_or_eq.mp hk
    · exact h.open_ k hk
    · exact hopen
  marked := h.marked.succ fun hmalformed => hslash (Option.some.inj (hc.symm.trans hmalformed.2.1))

theorem inert {more : List Char} (hmore : ∀ d ∈ more, IsInert d) (h : Passes text n marked)
    (htext : text.drop n = more ++ rest) : Passes text (n + more.length) marked := by
  induction more generalizing n with
  | nil => exact h
  | cons d more ih =>
    obtain ⟨⟨hslash, hgrave, hdollar⟩, hmore⟩ := List.forall_mem_cons.mp hmore
    obtain ⟨hget, _, htext⟩ := drop_eq_cons htext
    have hopen : ¬ ClosesAt text n := by
      rintro ⟨_, _, hclose | ⟨hclose, _⟩⟩
      · exact hgrave (Option.some.inj (hget.symm.trans hclose))
      · exact hdollar (Option.some.inj (hget.symm.trans hclose))
    rw [List.length_cons, Nat.add_comm more.length, ← Nat.add_assoc]
    exact ih hmore (h.character hget hslash hopen) htext

/-- A backslash and the character it escapes. -/
theorem escape (h : Passes text n marked) {d : Char} {rest : List Char} {marked' : Option Nat}
    (htext : text.drop n = '\\' :: d :: rest) (hmarked : IsFirstMalformed text (n + 1) marked') :
    Passes text (n + 2) marked' := by
  obtain ⟨hslash, _, hrest⟩ := drop_eq_cons htext
  obtain ⟨hget, _, _⟩ := drop_eq_cons hrest
  have hescaped : Lexical.isEscaped text (n + 1) = true := by simp [Lexical.isEscaped, hslash, h.isEscaped]
  have hnot {P : Prop} (hn : Lexical.isEscaped text (n + 1) = false) : P := by
    rw [hescaped] at hn
    cases hn
  refine ⟨Nat.succ_pos _, ?_, fun k hk hclose => ?_, hmarked.succ fun hmalformed => hnot hmalformed.1⟩
  · rw [Lexical.isEscaped, hescaped]
    exact Bool.and_false _
  · obtain hk | rfl : k < n + 1 ∨ k = n + 1 := by omega
    · obtain hk | rfl := Nat.lt_succ_iff_lt_or_eq.mp hk
      · exact h.open_ k hk hclose
      · obtain ⟨_, _, hclose | ⟨hclose, _⟩⟩ := hclose <;> cases hslash.symm.trans hclose
    · exact hnot hclose.2.1

/-- An escape, with all that the reader takes of it. -/
theorem reads_escape (h : Passes text n marked) {d : Char} {m : Nat} {result : Except LexicalError Bool}
    {marked' : Option Nat} (htext : text.drop n = '\\' :: d :: rest)
    (hescape : Lexical.escape sentinel (d :: rest) = ⟨m, result⟩)
    (hmarked : result = .ok false ∧ marked' = marked ∨ result ≠ .ok false ∧ marked' = marked.or (some n)) :
    Passes text (n + 1 + m) marked' := by
  obtain ⟨more, behind, rfl, rfl, hmore, hresult⟩ := escape_takes hescape
  obtain ⟨hslash, _, hrest⟩ := drop_eq_cons htext
  obtain ⟨_, _, hinert⟩ := drop_eq_cons hrest
  have hfirst : IsFirstMalformed text (n + 1) marked' := by
    obtain ⟨hok, rfl⟩ | ⟨hnot, rfl⟩ := hmarked
    · exact h.marked.succ fun hmalformed => hmalformed.2.2 (hrest ▸ hresult.mp hok)
    · exact h.marked.or_some ⟨h.isEscaped, hslash, fun hescape => hnot (hresult.mpr (hrest ▸ hescape))⟩
  have hpasses := (h.escape htext hfirst).inert hmore hinert
  rwa [show n + 1 + (more.length + 1) = n + 2 + more.length by omega]

/-- Where the text ends, the span was not closed. -/
theorem not_closesAt (h : Passes text n marked) (htext : text.drop n = [] ∨ text.drop n = ['\\']) (k : Nat) :
    ¬ ClosesAt text k := by
  intro hclose
  have hle : n ≤ k := Nat.le_of_not_lt fun hk => h.open_ k hk hclose
  have hget : text[k]? = (text.drop n)[k - n]? := by rw [List.getElem?_drop, Nat.add_sub_cancel' hle]
  obtain ⟨_, _, hclose | ⟨hclose, _⟩⟩ := hclose
  all_goals
    rw [hget] at hclose
    rcases htext with htext | htext <;> rw [htext] at hclose
    · cases hclose
    · rcases hk : k - n with _ | m <;> rw [hk] at hclose <;> cases hclose

end Passes

/-! ## Reading -/

/-- How a template span is read. -/
inductive TemplateReads (text : List Char) (opening : Bool) : Reading Misreading TokenKind → Prop
  | closes {k : Nat} {marked : Option Nat} (h : ClosesAt text k) (hfirst : ∀ j < k, ¬ ClosesAt text j)
    (hmarked : IsFirstMalformed text k marked) : TemplateReads text opening
      ⟨k + (if text[k]? = some '\x60' then 1 else 2),
        .ok (.template (templatePart opening (text[k]? = some '\x60')) marked)⟩
  | leftOpen (n : Nat) (h : ∀ k, ¬ ClosesAt text k) :
    TemplateReads text opening ⟨n, .error ⟨.unterminatedTemplate, 0⟩⟩

theorem templateFrom_takes {whole : List Char} (opening : Bool) (marked : Option Nat) (length : Nat) (text : List Char)
    (htext : whole.drop length = text) (h : Passes whole length marked) :
    TemplateReads whole opening (templateFrom sentinel opening marked length text) := by
  fun_induction templateFrom sentinel opening marked length text with
  | case1 => exact .leftOpen _ (h.not_closesAt (.inl htext))
  | case2 marked length rest =>
    obtain ⟨hget, _, _⟩ := drop_eq_cons htext
    have hreads : TemplateReads whole opening _ := .closes ⟨h.pos, h.isEscaped, .inl hget⟩ h.open_ h.marked
    rwa [hget, if_pos rfl, decide_eq_true rfl] at hreads
  | case3 marked length c rest hc hopen =>
    obtain ⟨hget, _, hrest⟩ := drop_eq_cons htext
    obtain ⟨rfl, hbrace⟩ : c = '$' ∧ rest.head? = some '{' := by simpa using hopen
    rw [← hrest, List.head?_drop] at hbrace
    have hreads : TemplateReads whole opening _ :=
      .closes ⟨h.pos, h.isEscaped, .inr ⟨hget, hbrace⟩⟩ h.open_ h.marked
    rwa [hget, if_neg (by decide), decide_eq_false (by decide)] at hreads
  | case4 marked length rest n hescape hc hopen ih =>
    obtain ⟨_, _, hrest⟩ := drop_eq_cons htext
    cases rest with
    | nil =>
      cases hescape
      rw [List.drop_nil, templateFrom]
      exact .leftOpen _ (h.not_closesAt (.inr htext))
    | cons d rest =>
      exact ih (by rw [← List.drop_drop, hrest]) (h.reads_escape htext hescape (.inl ⟨rfl, rfl⟩))
  | case5 marked length rest n result hresult hescape hc hopen ih =>
    obtain ⟨_, _, hrest⟩ := drop_eq_cons htext
    cases rest with
    | nil =>
      cases hescape
      exact absurd rfl hresult
    | cons d rest =>
      exact ih (by rw [← List.drop_drop, hrest]) (h.reads_escape htext hescape (.inr ⟨hresult, rfl⟩))
  | case6 marked length c rest hc hopen hslash ih =>
    obtain ⟨hget, _, hrest⟩ := drop_eq_cons htext
    refine ih hrest (h.character hget hslash ?_)
    rintro ⟨_, _, hclose | ⟨hclose, hbrace⟩⟩
    · exact hc (Option.some.inj (hget.symm.trans hclose))
    · rw [← hrest, List.head?_drop] at hopen
      exact hopen (by simp [Option.some.inj (hget.symm.trans hclose), hbrace])

/-- A template span is read from a backtick, and from a brace where template text goes on. -/
theorem element_of_template (sentinel : Bool) {goal : LexicalGoal} {c : Char}
    (hopening : c = '\x60' ∨ c = '}' ∧ goal = .templateTail) (body : List Char) :
    element sentinel goal (c :: body) = templateFrom sentinel (c = '\x60') none 1 body := by
  obtain rfl | ⟨rfl, rfl⟩ := hopening <;> rfl

end Lexical

open Lexical

/-- Where a template span begins, the token ends behind the first unescaped backtick or `${`, and its first malformed
escape is that of the span. If the span is not closed, the text is malformed where it begins. -/
theorem Scanner.next_template {goal : LexicalGoal} {s : Scanner} {n : Nat} {newline : Bool} {c : Char}
    {body : List Char} (hgap : s.skipGap goal = ⟨n, .ok newline⟩) (hrest : (s.advance n).rest = c :: body)
    (hopening : c = '\x60' ∨ c = '}' ∧ goal = .templateTail) :
    (∀ k, ClosesAt (c :: body) k → (∀ j < k, ¬ ClosesAt (c :: body) j) →
      let behind := (s.advance n).advance (k + if (c :: body)[k]? = some '\x60' then 1 else 2)
      ∃ token marked, s.next goal = (.ok token, behind) ∧ token.start = (s.advance n).position ∧
        token.stop = behind.position ∧
        token.kind = .template (templatePart (c = '\x60') ((c :: body)[k]? = some '\x60')) marked ∧
        token.malformedEscape? = marked.map (fun j => ((s.advance n).advance j).position) ∧
        IsFirstMalformed (c :: body) k marked) ∧
    ((∀ k, ¬ ClosesAt (c :: body) k) →
      ∃ e, (s.next goal).1 = .error (.lexical e (s.advance n).position)) := by
  have hne : (s.advance n).rest ≠ [] := hrest ▸ List.cons_ne_nil c body
  have hslash : c ≠ '\\' := by
    obtain rfl | ⟨rfl, _⟩ := hopening <;> decide
  have hreads : TemplateReads (c :: body) (c = '\x60')
      (templateFrom s.source.sentinel (c = '\x60') none 1 body) :=
    templateFrom_takes _ none 1 body rfl (.start hslash body)
  have helement := element_of_template s.source.sentinel hopening body
  generalize templateFrom s.source.sentinel (c = '\x60') none 1 body = r at helement hreads
  rw [← hrest] at helement
  cases hreads with
  | @closes k marked hclose hfirst hmarked =>
    refine ⟨fun k' hclose' hfirst' => ?_, fun hnone => absurd hclose (hnone k)⟩
    obtain rfl : k' = k := by
      refine Nat.le_antisymm (Nat.le_of_not_lt fun hlt => hfirst' k hlt hclose) (Nat.le_of_not_lt fun hlt => ?_)
      exact hfirst k' hlt hclose'
    have hnext := next_token hgap hne helement
    refine ⟨_, marked, hnext, rfl, rfl, rfl, ?_, hmarked⟩
    cases marked with
    | none => rfl
    | some j =>
      have hlt : j < k' + if (c :: body)[k']? = some '\x60' then 1 else 2 := Nat.lt_add_right _ hmarked.1
      have hplace : ((s.advance n).advance j).position = (s.advance n).position.advance false j
          ((c :: body).take (k' + if (c :: body)[k']? = some '\x60' then 1 else 2)) := by
        rw [position_advance, hrest, Position.advance_eq _ _ hmarked.2.1.2.1 (by decide), Position.advance_take _ hlt]
      simp only [Token.malformedEscape?, Option.map_some, String.toList_ofList, hrest, hplace]
  | leftOpen m hnone => exact ⟨fun k hclose => absurd hclose (hnone k), fun _ => ⟨_, next_misread hgap hne helement⟩⟩

/-- A span between two substitutions, with a malformed escape that takes a brace. -/
theorem Scanner.next_template_middle :
    let s := Scanner.ofSource (.ofText "\x7d\\u\x7b$\x7b".toList)
    let body := "\\u\x7b$\x7b".toList
    s.skipGap .templateTail = ⟨0, .ok false⟩ ∧ (s.advance 0).rest = '}' :: body ∧
    (∀ k, ClosesAt ('}' :: body) k → (∀ j < k, ¬ ClosesAt ('}' :: body) j) →
      let behind := (s.advance 0).advance (k + if ('}' :: body)[k]? = some '\x60' then 1 else 2)
      ∃ token marked, s.next .templateTail = (.ok token, behind) ∧ token.start = (s.advance 0).position ∧
        token.stop = behind.position ∧
        token.kind = .template (templatePart ('}' = '\x60') (('}' :: body)[k]? = some '\x60')) marked ∧
        token.malformedEscape? = marked.map (fun j => ((s.advance 0).advance j).position) ∧
        IsFirstMalformed ('}' :: body) k marked) ∧
    ((∀ k, ¬ ClosesAt ('}' :: body) k) →
      ∃ e, (s.next .templateTail).1 = .error (.lexical e (s.advance 0).position)) := by
  intro s body
  have hgap : s.skipGap .templateTail = ⟨0, .ok false⟩ := rfl
  have hrest : (s.advance 0).rest = '}' :: body := by decide
  exact ⟨hgap, hrest, next_template hgap hrest (.inr ⟨rfl, rfl⟩)⟩

end EcmaCheck
