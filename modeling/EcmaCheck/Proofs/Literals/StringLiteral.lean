import EcmaCheck.Proofs.Literals.Escape
import EcmaCheck.Proofs.Scanning

/-!
# String literals

A string literal is a quote, characters and escapes (`StringItem`), and the same quote. Where a quote begins a token,
the token is the string literal there is. Without one the text is malformed: at a malformed escape, if characters and
escapes reach up to it, and else at the quote (`Scanner.next_string`).
-/

namespace EcmaCheck

namespace Lexical

variable {sentinel : Bool} {quote : Char} {text rest : List Char} {legacy : Bool}

/-! ## Characters and escapes -/

/-- A text that begins with a character or an escape of a string literal, whether that is a legacy octal escape, and
what follows. -/
inductive StringItem (sentinel : Bool) (quote : Char) : List Char → Bool → List Char → Prop
  | character {c : Char} {rest : List Char} (hquote : c ≠ quote) (hslash : c ≠ '\\') (hfeed : c ≠ '\n')
    (hreturn : c ≠ '\r') : StringItem sentinel quote (c :: rest) false rest
  | code {text rest : List Char} (h : CodeEscape text rest) : StringItem sentinel quote ('\\' :: text) false rest
  | pair {rest : List Char} (h : startsWithPairedFeed sentinel ('\n' :: rest) = true) :
    StringItem sentinel quote ('\\' :: '\r' :: '\n' :: rest) false rest
  | single {c : Char} {rest : List Char} (hx : c ≠ 'x') (hu : c ≠ 'u')
    (hpair : c = '\r' → startsWithPairedFeed sentinel rest = false) :
    StringItem sentinel quote ('\\' :: c :: rest) (beginsLegacyEscape c rest) rest

/-- A text that begins with characters and escapes, whether any of them is a legacy octal escape, and what follows. -/
inductive StringItems (sentinel : Bool) (quote : Char) : List Char → Bool → List Char → Prop
  | none {text : List Char} : StringItems sentinel quote text false text
  | more {text mid rest : List Char} {legacy legacy' : Bool} (hitem : StringItem sentinel quote text legacy mid)
    (hmore : StringItems sentinel quote mid legacy' rest) : StringItems sentinel quote text (legacy || legacy') rest

/-- The text begins with a string literal, which has a legacy octal escape or none. -/
def BeginsString (sentinel : Bool) (text literal : List Char) (legacy : Bool) : Prop :=
  ∃ quote body rest, (quote = '"' ∨ quote = '\'') ∧ text = quote :: body ∧ text = literal ++ rest ∧
    ∃ inside, literal = quote :: inside ++ [quote] ∧ StringItems sentinel quote body legacy (quote :: rest)

/-- Characters and escapes behind the quote that begins the text reach up to the malformed escape with the index. -/
def ReachesMalformed (sentinel : Bool) (text : List Char) (k : Nat) : Prop :=
  ∃ quote body legacy behind, text = quote :: body ∧ text.drop k = '\\' :: behind ∧
    StringItems sentinel quote body legacy ('\\' :: behind) ∧ MalformedCode behind

/-- A text begins with one character or escape. -/
theorem StringItem.unique {legacy' : Bool} {rest' : List Char} (h : StringItem sentinel quote text legacy rest)
    (h' : StringItem sentinel quote text legacy' rest') : legacy' = legacy ∧ rest' = rest := by
  cases h with
  | character _ hslash =>
    cases h' with
    | character => exact ⟨rfl, rfl⟩
    | code | pair | single => exact absurd rfl hslash
  | code h =>
    have hmarked := h.marked
    cases h' with
    | character _ hslash => exact absurd rfl hslash
    | code h' => exact ⟨rfl, h.unique h'⟩
    | pair => obtain ⟨⟨⟩⟩ | ⟨⟨⟩⟩ := hmarked
    | single hx hu =>
      obtain hmarked | hmarked := hmarked
      · exact absurd (Option.some.inj hmarked) hx
      · exact absurd (Option.some.inj hmarked) hu
  | pair h =>
    cases h' with
    | character _ hslash => exact absurd rfl hslash
    | code h' => obtain ⟨⟨⟩⟩ | ⟨⟨⟩⟩ := h'.marked
    | pair => exact ⟨rfl, rfl⟩
    | single _ _ hpair => exact absurd h (Bool.eq_false_iff.mp (hpair rfl))
  | single hx hu hpair =>
    cases h' with
    | character _ hslash => exact absurd rfl hslash
    | code h' =>
      obtain hmarked | hmarked := h'.marked
      · exact absurd (Option.some.inj hmarked) hx
      · exact absurd (Option.some.inj hmarked) hu
    | pair h' => exact absurd h' (Bool.eq_false_iff.mp (hpair rfl))
    | single => exact ⟨rfl, rfl⟩

/-- No character and no escape begins the text. -/
def IsStuck (sentinel : Bool) (quote : Char) (text : List Char) : Prop :=
  ∀ legacy rest, ¬ StringItem sentinel quote text legacy rest

namespace StringItems

theorem trans {mid : List Char} {legacy' : Bool} (h : StringItems sentinel quote text legacy mid)
    (h' : StringItems sentinel quote mid legacy' rest) : StringItems sentinel quote text (legacy || legacy') rest := by
  induction h with
  | none => exact h'
  | more hitem _ ih => exact Bool.or_assoc .. ▸ .more hitem (ih h')

theorem one (h : StringItem sentinel quote text legacy rest) : StringItems sentinel quote text legacy rest :=
  Bool.or_false legacy ▸ .more h .none

/-- Characters and escapes go on up to where none begins, which is in one place only. -/
theorem unique {legacy' : Bool} {rest' : List Char} (h : StringItems sentinel quote text legacy rest)
    (hrest : IsStuck sentinel quote rest) (h' : StringItems sentinel quote text legacy' rest')
    (hrest' : IsStuck sentinel quote rest') : legacy' = legacy ∧ rest' = rest := by
  induction h generalizing legacy' with
  | none =>
    cases h' with
    | none => exact ⟨rfl, rfl⟩
    | more hitem => exact absurd hitem (hrest _ _)
  | more hitem _ ih =>
    cases h' with
    | none => exact absurd hitem (hrest' _ _)
    | more hitem' hmore =>
      obtain ⟨rfl, rfl⟩ := hitem.unique hitem'
      obtain ⟨rfl, rfl⟩ := ih hrest hmore
      exact ⟨rfl, rfl⟩

end StringItems

/-! ## Where characters and escapes end -/

theorem slash_ne_quote (hquote : quote = '"' ∨ quote = '\'') : '\\' ≠ quote := by
  obtain rfl | rfl := hquote <;> decide

theorem isStuck_nil : IsStuck sentinel quote [] := by
  rintro _ _ ⟨⟩

theorem isStuck_quote (hslash : quote ≠ '\\') : IsStuck sentinel quote (quote :: rest) := by
  intro _ _ h
  cases h with
  | character hquote => exact hquote rfl
  | code | pair | single => exact hslash rfl

theorem isStuck_line {c : Char} (h : c = '\n' ∨ c = '\r') : IsStuck sentinel quote (c :: rest) := by
  intro _ _ hitem
  cases hitem with
  | character _ _ hfeed hreturn => exact h.elim hfeed hreturn
  | code | pair | single => obtain ⟨⟨⟩⟩ | ⟨⟨⟩⟩ := h

theorem isStuck_end : IsStuck sentinel quote ['\\'] := by
  intro _ _ hitem
  cases hitem with
  | character _ hslash => exact hslash rfl
  | code h => obtain ⟨⟨⟩⟩ | ⟨⟨⟩⟩ := h.marked

theorem isStuck_malformed (h : MalformedCode text) : IsStuck sentinel quote ('\\' :: text) := by
  intro _ _ hitem
  cases hitem with
  | character _ hslash => exact hslash rfl
  | code hcode => exact h.missing _ hcode
  | pair => obtain ⟨⟨⟩⟩ | ⟨⟨⟩⟩ := h.marked
  | single hx hu =>
    obtain hmarked | hmarked := h.marked
    · exact hx (Option.some.inj hmarked)
    · exact hu (Option.some.inj hmarked)

/-! ## Reading -/

/-- Octal digits are plain characters. -/
theorem stringItems_octal (hquote : quote = '"' ∨ quote = '\'') {ds : List Char} (hds : ∀ d ∈ ds, isOctalDigit d = true)
    (rest : List Char) : StringItems sentinel quote (ds ++ rest) false rest := by
  induction ds with
  | nil => exact .none
  | cons d ds ih =>
    obtain ⟨hd, hds⟩ := List.forall_mem_cons.mp hds
    have hnot {c : Char} (hc : isOctalDigit c = false) : d ≠ c := by
      rintro rfl
      exact Bool.eq_false_iff.mp hc hd
    refine .more (.character (hnot ?_) (hnot rfl) (hnot rfl) (hnot rfl)) (ih hds)
    obtain rfl | rfl := hquote <;> rfl

/-- What an escape takes is an escape, and plain characters if it takes octal digits. -/
theorem stringItems_escape (hquote : quote = '"' ∨ quote = '\'') {n : Nat} {octal : Bool} (hne : text ≠ [])
    (h : escape sentinel text = ⟨n, .ok octal⟩) : ∃ taken behind, text = taken ++ behind ∧ taken.length = n ∧
      StringItems sentinel quote ('\\' :: text) octal behind := by
  obtain ⟨c, rest, rfl⟩ := List.exists_cons_of_ne_nil hne
  have hreads := escape_reads sentinel c rest
  rw [h] at hreads
  generalize hr : Reading.mk n (Except.ok octal) = r at hreads
  generalize c :: rest = text at hreads
  cases hreads with
  | @code c more rest hcode =>
    cases hr
    exact ⟨c :: more, rest, rfl, Nat.add_comm .., .one (.code hcode)⟩
  | malformed => cases hr
  | @legacy c more rest hlegacy hmore =>
    cases hr
    refine ⟨c :: more, rest, rfl, Nat.add_comm .., ?_⟩
    have hnot {d : Char} (hd : isDecimalDigit d = false) : c ≠ d := by
      rintro rfl
      exact Bool.eq_false_iff.mp hd (Bool.and_eq_true _ _ ▸ hlegacy).1
    have hitem : StringItem sentinel quote ('\\' :: c :: (more ++ rest)) (beginsLegacyEscape c (more ++ rest))
        (more ++ rest) := .single (hnot rfl) (hnot rfl) fun h => absurd h (hnot rfl)
    rw [hlegacy] at hitem
    exact .more hitem (stringItems_octal hquote hmore rest)
  | @pair rest hfeed =>
    cases hr
    exact ⟨['\r', '\n'], rest, rfl, rfl, .one (.pair hfeed)⟩
  | @single c rest hx hu hlegacy hpair =>
    cases hr
    exact ⟨[c], rest, rfl, rfl, hlegacy ▸ .one (.single hx hu hpair)⟩

/-- A text that ends a line, or that ends, if only behind a backslash. -/
def LeavesOpen (text : List Char) : Prop :=
  text = [] ∨ text = ['\\'] ∨ text.head? = some '\n' ∨ text.head? = some '\r'

/-- How the rest of a string literal is read, of which `length` characters have been taken. -/
inductive StringReads (sentinel : Bool) (quote : Char) (legacy : Bool) (length : Nat) :
    List Char → Reading Misreading TokenKind → Prop
  | closes {taken rest : List Char} {legacy' : Bool}
    (h : StringItems sentinel quote (taken ++ quote :: rest) legacy' (quote :: rest)) :
    StringReads sentinel quote legacy length (taken ++ quote :: rest)
      ⟨length + taken.length + 1, .ok (.string (legacy || legacy'))⟩
  | malformed {taken behind : List Char} {legacy' : Bool} {n : Nat} {e : LexicalError}
    (h : StringItems sentinel quote (taken ++ '\\' :: behind) legacy' ('\\' :: behind))
    (hbehind : MalformedCode behind) :
    StringReads sentinel quote legacy length (taken ++ '\\' :: behind) ⟨n, .error ⟨e, length + taken.length⟩⟩
  | leftOpen {text rest : List Char} {legacy' : Bool} {n : Nat} (h : StringItems sentinel quote text legacy' rest)
    (hrest : LeavesOpen rest) : StringReads sentinel quote legacy length text ⟨n, .error ⟨.unterminatedString, 0⟩⟩

/-- Characters and escapes are taken first. -/
theorem StringReads.step {length : Nat} {legacy' : Bool} {taken rest : List Char} {r : Reading Misreading TokenKind}
    (hitems : StringItems sentinel quote (taken ++ rest) legacy' rest)
    (h : StringReads sentinel quote (legacy || legacy') (length + taken.length) rest r) :
    StringReads sentinel quote legacy length (taken ++ rest) r := by
  have hlength (more : List Char) : length + taken.length + more.length = length + (taken ++ more).length := by
    rw [List.length_append, Nat.add_assoc]
  cases h with
  | closes h =>
    rw [← List.append_assoc] at hitems ⊢
    rw [hlength, Bool.or_assoc]
    exact .closes (hitems.trans h)
  | malformed h hbehind =>
    rw [← List.append_assoc] at hitems ⊢
    rw [hlength]
    exact .malformed (hitems.trans h) hbehind
  | leftOpen h hrest => exact .leftOpen (hitems.trans h) hrest

theorem stringFrom_takes (hquote : quote = '"' ∨ quote = '\'') (legacy : Bool) (length : Nat) (text : List Char) :
    StringReads sentinel quote legacy length text (stringFrom sentinel quote legacy length text) := by
  fun_induction stringFrom sentinel quote legacy length text with
  | case1 => exact .leftOpen .none (.inl rfl)
  | case2 legacy length c rest hline =>
    have hline : c = '\n' ∨ c = '\r' := by simpa using hline
    exact .leftOpen .none (.inr (.inr (hline.imp (congrArg some) (congrArg some))))
  | case3 legacy length rest =>
    have h : StringReads sentinel quote legacy length ([] ++ quote :: rest) _ := .closes .none
    rwa [Bool.or_false] at h
  | case4 legacy length rest n octal hescape hline hquote' ih =>
    by_cases hrest : rest = []
    · subst hrest
      cases hescape
      rw [List.drop_nil, stringFrom]
      exact .leftOpen .none (.inr (.inl rfl))
    · obtain ⟨taken, behind, rfl, rfl, hitems⟩ := stringItems_escape hquote hrest hescape
      rw [List.drop_left] at ih ⊢
      change StringReads sentinel quote legacy length ('\\' :: taken ++ behind) _
      refine StringReads.step hitems ?_
      rwa [List.length_cons, Nat.add_comm taken.length, ← Nat.add_assoc]
  | case5 legacy length rest n e hescape hline hquote' =>
    change StringReads sentinel quote legacy length ([] ++ '\\' :: rest) _
    exact .malformed .none (malformed_of_escape hescape)
  | case6 legacy length c rest hline hquote' hslash ih =>
    obtain ⟨hfeed, hreturn⟩ : c ≠ '\n' ∧ c ≠ '\r' := by simpa using hline
    have hitems : StringItems sentinel quote ([c] ++ rest) false rest := .one (.character hquote' hslash hfeed hreturn)
    refine StringReads.step hitems ?_
    rwa [Bool.or_false]

theorem LeavesOpen.isStuck (h : LeavesOpen text) : IsStuck sentinel quote text := by
  obtain rfl | rfl | h | h := h
  · exact isStuck_nil
  · exact isStuck_end
  · obtain ⟨rest, rfl⟩ := List.head?_eq_some_iff.mp h
    exact isStuck_line (.inl rfl)
  · obtain ⟨rest, rfl⟩ := List.head?_eq_some_iff.mp h
    exact isStuck_line (.inr rfl)

/-- A quote is read as the begin of a string literal under every goal. -/
theorem element_of_quote (sentinel : Bool) (goal : LexicalGoal) (hquote : quote = '"' ∨ quote = '\'')
    (body : List Char) : element sentinel goal (quote :: body) = stringFrom sentinel quote false 1 body := by
  obtain rfl | rfl := hquote <;> rfl

section

variable {body : List Char}

/-- Where characters and escapes end with something else, there is no string literal. -/
theorem not_beginsString (hitems : StringItems sentinel quote body legacy rest) (hstuck : IsStuck sentinel quote rest)
    (hrest : rest.head? ≠ some quote) (literal : List Char) (legacy' : Bool) :
    ¬ BeginsString sentinel (quote :: body) literal legacy' := by
  rintro ⟨quote', body', rest', hquote, htext, _, _, _, hitems'⟩
  obtain ⟨rfl, rfl⟩ := List.cons.inj htext
  have hslash := (slash_ne_quote hquote).symm
  obtain ⟨_, rfl⟩ := hitems.unique hstuck hitems' (isStuck_quote hslash)
  exact hrest rfl

/-- Where characters and escapes leave the string open, they do not reach up to a malformed escape. -/
theorem LeavesOpen.not_reachesMalformed (h : LeavesOpen rest) (hitems : StringItems sentinel quote body legacy rest)
    (k : Nat) : ¬ ReachesMalformed sentinel (quote :: body) k := by
  rintro ⟨quote', body', legacy', behind, htext, _, hitems', hbehind⟩
  obtain ⟨rfl, rfl⟩ := List.cons.inj htext
  obtain ⟨_, rfl⟩ := hitems.unique h.isStuck hitems' (isStuck_malformed hbehind)
  obtain ⟨⟨⟩⟩ | h | ⟨⟨⟩⟩ | ⟨⟨⟩⟩ := h
  obtain rfl := (List.cons.inj h).2
  obtain ⟨⟨⟩⟩ | ⟨⟨⟩⟩ := hbehind.marked

theorem LeavesOpen.head?_ne (h : LeavesOpen rest) (hquote : quote = '"' ∨ quote = '\'') : rest.head? ≠ some quote := by
  obtain rfl | rfl | h | h := h
  · exact nofun
  all_goals obtain rfl | rfl := hquote
  · decide
  · decide
  all_goals
    rw [h]
    decide

/-- There is one string literal at most. -/
theorem BeginsString.unique {literal : List Char} (h : BeginsString sentinel text literal legacy)
    {literal' : List Char} {legacy' : Bool} (h' : BeginsString sentinel text literal' legacy') :
    literal' = literal ∧ legacy' = legacy := by
  obtain ⟨quote, body, rest, hquote, rfl, hsplit, inside, rfl, hitems⟩ := h
  obtain ⟨quote', body', rest', _, htext, hsplit', inside', rfl, hitems'⟩ := h'
  obtain ⟨rfl, rfl⟩ := List.cons.inj htext
  have hslash := (slash_ne_quote hquote).symm
  obtain ⟨rfl, hrest⟩ := hitems.unique (isStuck_quote hslash) hitems' (isStuck_quote hslash)
  obtain rfl := (List.cons.inj hrest).2
  exact ⟨List.append_cancel_right (hsplit'.symm.trans hsplit), rfl⟩

end

end Lexical

open Lexical

/-- Where a quote begins a token, the token is the string literal that the text begins with. If there is none, the text
is malformed: at the backslash of the malformed escape that characters and escapes reach up to, or at the quote. -/
theorem Scanner.next_string {goal : LexicalGoal} {s : Scanner} {n : Nat} {newline : Bool} {quote : Char}
    {body : List Char} (hgap : s.skipGap goal = ⟨n, .ok newline⟩) (hquote : quote = '"' ∨ quote = '\'')
    (hrest : (s.advance n).rest = quote :: body) :
    (∀ literal legacy, s.next goal = (.ok ⟨.string legacy, (s.advance n).position,
        ((s.advance n).advance literal.length).position, String.ofList literal, newline⟩,
        (s.advance n).advance literal.length) ↔
      BeginsString s.source.sentinel (quote :: body) literal legacy) ∧
    ((∀ literal legacy, ¬ BeginsString s.source.sentinel (quote :: body) literal legacy) →
      ∃ e k, (s.next goal).1 = .error (.lexical e ((s.advance n).advance k).position) ∧
        (ReachesMalformed s.source.sentinel (quote :: body) k ∨
          k = 0 ∧ ∀ j, ¬ ReachesMalformed s.source.sentinel (quote :: body) j)) := by
  have hne : (s.advance n).rest ≠ [] := hrest ▸ List.cons_ne_nil quote body
  have helement := element_of_quote s.source.sentinel goal hquote body
  have hreads : StringReads s.source.sentinel quote false 1 body (stringFrom s.source.sentinel quote false 1 body) :=
    stringFrom_takes hquote false 1 body
  generalize stringFrom s.source.sentinel quote false 1 body = r at helement hreads
  rw [← hrest] at helement
  cases hreads with
  | @closes taken rest legacy hitems =>
    have hlength : 1 + taken.length + 1 = (quote :: taken ++ [quote]).length := by
      rw [List.length_append, List.length_cons, Nat.add_comm 1]
      rfl
    have hsplit : quote :: (taken ++ quote :: rest) = quote :: taken ++ [quote] ++ rest := by simp
    have hbegins : BeginsString s.source.sentinel (quote :: (taken ++ quote :: rest)) (quote :: taken ++ [quote])
        legacy :=
      ⟨quote, _, rest, hquote, rfl, hsplit, taken, rfl, hitems⟩
    have hnext := next_token hgap hne helement
    rw [hrest, hlength, hsplit, List.take_left, Bool.false_or] at hnext
    refine ⟨fun literal legacy' => ⟨fun h => ?_, fun h => ?_⟩, fun hnone => absurd hbegins (hnone _ _)⟩
    · injection Except.ok.inj (congrArg Prod.fst (hnext.symm.trans h)) with hkind _ _ hlexeme
      cases hkind
      have hliteral := congrArg String.toList hlexeme
      rw [String.toList_ofList, String.toList_ofList] at hliteral
      exact hliteral ▸ hbegins
    · obtain ⟨rfl, rfl⟩ := hbegins.unique h
      exact hnext
  | @malformed taken behind legacy m e hitems hbehind =>
    have hnot := not_beginsString hitems (isStuck_malformed hbehind) fun h => slash_ne_quote hquote (Option.some.inj h)
    have hnext := next_misread hgap hne helement
    refine ⟨fun literal legacy => ⟨fun h => ?_, fun h => absurd h (hnot _ _)⟩, fun _ => ⟨e, _, hnext, .inl ?_⟩⟩
    · rw [h] at hnext
      cases hnext
    · refine ⟨quote, _, legacy, behind, rfl, ?_, hitems, hbehind⟩
      rw [Nat.add_comm, List.drop_succ_cons, List.drop_left]
  | @leftOpen _ rest legacy m hitems hopen =>
    have hnot := not_beginsString hitems hopen.isStuck (hopen.head?_ne hquote)
    have hnext := next_misread hgap hne helement
    refine ⟨fun literal legacy => ⟨fun h => ?_, fun h => absurd h (hnot _ _)⟩, fun _ => ⟨_, _, hnext, .inr ⟨rfl, ?_⟩⟩⟩
    · rw [h] at hnext
      cases hnext
    · exact hopen.not_reachesMalformed hitems

/-- A legacy octal escape in a string that ends where its own quote stands. -/
theorem Scanner.next_string_octal :
    let s := Scanner.ofSource (.ofText "'\\07\"';".toList)
    let body := "\\07\"';".toList
    s.skipGap .regExp = ⟨0, .ok false⟩ ∧ (s.advance 0).rest = '\'' :: body ∧
    (∀ literal legacy, s.next .regExp = (.ok ⟨.string legacy, (s.advance 0).position,
        ((s.advance 0).advance literal.length).position, String.ofList literal, false⟩,
        (s.advance 0).advance literal.length) ↔
      BeginsString s.source.sentinel ('\'' :: body) literal legacy) ∧
    ((∀ literal legacy, ¬ BeginsString s.source.sentinel ('\'' :: body) literal legacy) →
      ∃ e k, (s.next .regExp).1 = .error (.lexical e ((s.advance 0).advance k).position) ∧
        (ReachesMalformed s.source.sentinel ('\'' :: body) k ∨
          k = 0 ∧ ∀ j, ¬ ReachesMalformed s.source.sentinel ('\'' :: body) j)) := by
  intro s body
  have hgap : s.skipGap .regExp = ⟨0, .ok false⟩ :=
    gapFrom_other (by decide +kernel) (by decide +kernel) (by decide)
  have hrest : (s.advance 0).rest = '\'' :: body := by decide
  exact ⟨hgap, hrest, next_string hgap (.inr rfl) hrest⟩

end EcmaCheck
