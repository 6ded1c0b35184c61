import EcmaCheck.Proofs.Lexical.ClosedElement
import EcmaCheck.Proofs.Literals.StringLiteral
import EcmaCheck.Proofs.Literals.TemplateSpan

/-!
# Spellings of names

A name may be spelled in many ways: each of its characters stands as it is, or as a `u` escape of four digits or of any
number of digits in braces (`NameSpelling`). Every spelling is read as the name (`nameFrom_of_spelling`), and what is
read as a name is one of its spellings (`nameFrom_spells`); so the tokens of names and their spellings belong together
in both directions (`Scanner.next_name`).
-/

namespace EcmaCheck

namespace Lexical

variable {c : Char} {n length : Nat} {first escaped : Bool} {text rest name spelling : List Char}

/-- An escape that stands for the character, behind its backslash. -/
inductive CharacterEscape (c : Char) : List Char → Prop
  | four {ds : List Char} (hlength : ds.length = 4) (hds : ∀ d ∈ ds, isHexDigit d = true)
    (hvalue : hexValue ds = c.toNat) : CharacterEscape c ('u' :: ds)
  | braced {ds : List Char} (hne : ds ≠ []) (hds : ∀ d ∈ ds, isHexDigit d = true)
    (hvalue : hexValue ds = c.toNat) : CharacterEscape c ('u' :: '{' :: (ds ++ ['}']))

/-- A spelling of the characters one after the other, each as it is or as an escape. -/
inductive NameSpelling : List Char → List Char → Prop
  | nil : NameSpelling [] []
  | raw {c : Char} {name spelling : List Char} (h : NameSpelling name spelling) :
    NameSpelling (c :: name) (c :: spelling)
  | escaped {c : Char} {escape name spelling : List Char} (hc : CharacterEscape c escape)
    (h : NameSpelling name spelling) : NameSpelling (c :: name) ('\\' :: (escape ++ spelling))

/-- An identifier start and identifier parts behind it. -/
def IsName : List Char → Prop
  | [] => False
  | c :: rest => isIdentifierStart c = true ∧ ∀ d ∈ rest, isIdentifierPart d = true

/-- A text that no name goes on with. -/
def EndsName (text : List Char) : Prop :=
  text.head? ≠ some '\\' ∧ text.head?.any isIdentifierPart = false

/-! ## Escapes -/

theorem nameEscape_u {m code : Nat} (h : unicodeEscape text = ⟨m, .ok code⟩) :
    nameEscape first ('u' :: text) = if code.isValidChar && admits first (Char.ofNat code)
      then ⟨1 + m, .ok (Char.ofNat code)⟩ else ⟨1 + m, .error .unicodeEscape⟩ := by
  simp only [nameEscape, h]

/-- An escape is read up to its end if the name may have the character. -/
theorem nameEscape_of_escape {escape : List Char} (h : CharacterEscape c escape) (hc : admits first c = true)
    (rest : List Char) : nameEscape first (escape ++ rest) = ⟨escape.length, .ok c⟩ := by
  have hvalid : c.toNat.isValidChar := c.valid
  have hread {text : List Char} {m : Nat} (h : unicodeEscape text = ⟨m, .ok c.toNat⟩) :
      nameEscape first ('u' :: text) = ⟨1 + m, .ok c⟩ := by
    rw [nameEscape_u h, Char.ofNat_toNat, hc, decide_eq_true hvalid]
    rfl
  cases h with
  | @four ds hlength hds hvalue =>
    rw [List.cons_append, hread (hvalue ▸ unicodeEscape_four hlength hds rest), List.length_cons, hlength]
  | @braced ds hne hds hvalue =>
    have hle : hexValue ds ≤ 0x10FFFF := by
      rw [hvalue]
      rcases hvalid with hlt | ⟨_, hlt⟩ <;> omega
    have htext : 'u' :: '{' :: (ds ++ ['}']) ++ rest = 'u' :: '{' :: (ds ++ '}' :: rest) := by simp
    rw [htext, hread (hvalue ▸ unicodeEscape_braced hne hds hle rest)]
    simp only [List.length_cons, List.length_append, List.length_nil]
    congr 1
    omega

/-- An escape that is read stands for the character. -/
theorem escape_of_nameEscape (h : nameEscape first text = ⟨n, .ok c⟩) :
    ∃ escape rest, text = escape ++ rest ∧ escape.length = n ∧ CharacterEscape c escape ∧ admits first c = true := by
  revert h
  fun_cases nameEscape first text with
  | case1 | case3 | case4 => rintro ⟨⟩
  | case2 rest m code hread hadmits =>
    rintro ⟨⟩
    obtain ⟨hvalid, hadmits⟩ : code.isValidChar ∧ admits first (Char.ofNat code) = true := by simpa using hadmits
    have hcode : (Char.ofNat code).toNat = code := by
      rw [Char.ofNat, dif_pos hvalid]
      rfl
    obtain ⟨ds, rest, hds, rfl, ⟨rfl, hlength, rfl⟩ | ⟨rfl, hne, rfl⟩⟩ := digits_of_unicodeEscape hread
    · exact ⟨'u' :: ds, rest, rfl, by rw [List.length_cons, hlength], .four hlength hds hcode.symm, hadmits⟩
    · refine ⟨'u' :: '{' :: (ds ++ ['}']), rest, by simp, ?_, .braced hne hds hcode.symm, hadmits⟩
      simp only [List.length_cons, List.length_append, List.length_nil]
      omega

/-! ## Names -/

/-- The characters may stand in a name, the first of them at its start if `first` says so. -/
def AdmitsAll (first : Bool) : List Char → Prop
  | [] => True
  | c :: rest => admits first c = true ∧ AdmitsAll false rest

theorem admitsAll_false : AdmitsAll false name ↔ ∀ c ∈ name, isIdentifierPart c = true := by
  induction name with
  | nil => simp [AdmitsAll]
  | cons c name ih => rw [AdmitsAll, ih, List.forall_mem_cons]; rfl

theorem isName_iff : IsName name ↔ name ≠ [] ∧ AdmitsAll true name := by
  cases name with
  | nil => simp [IsName]
  | cons c name => simp only [IsName, AdmitsAll, admitsAll_false, ne_eq, reduceCtorEq, not_false_eq_true, true_and]; rfl

theorem admits_backslash (first : Bool) : admits first '\\' = false := by
  cases first <;> decide +kernel

theorem nameFrom_ends {before : List Char} (hrest : EndsName rest) (hbefore : before ≠ []) :
    nameFrom before escaped length rest = ⟨length, .ok ⟨before.reverse, escaped⟩⟩ := by
  cases rest with
  | nil => rw [nameFrom]
  | cons c rest =>
    have hslash : c ≠ '\\' := fun h => hrest.1 (congrArg some h)
    have hadmits : ¬ admits before.isEmpty c = true := by
      rw [List.isEmpty_eq_false_iff.mpr hbefore]
      exact Bool.eq_false_iff.mp hrest.2
    rw [nameFrom, if_neg hslash, if_neg hadmits]

/-- Every spelling of a name is read as the name. -/
theorem nameFrom_of_spelling (h : NameSpelling name spelling) {before : List Char} (hrest : EndsName rest)
    (hname : AdmitsAll before.isEmpty name) (hbefore : name = [] → before ≠ []) :
    nameFrom before escaped length (spelling ++ rest) =
      ⟨length + spelling.length, .ok ⟨before.reverse ++ name, escaped || decide ('\\' ∈ spelling)⟩⟩ := by
  induction h generalizing before escaped length with
  | nil =>
    rw [List.nil_append, List.append_nil, List.length_nil, Nat.add_zero, decide_eq_false List.not_mem_nil,
      Bool.or_false]
    exact nameFrom_ends hrest (hbefore rfl)
  | @raw c name spelling h ih =>
    have hmore : AdmitsAll (c :: before).isEmpty name := hname.2
    have hslash : c ≠ '\\' := by
      rintro rfl
      exact Bool.false_ne_true ((admits_backslash _).symm.trans hname.1)
    rw [List.cons_append, nameFrom, if_neg hslash, if_pos hname.1, ih hmore fun _ => List.cons_ne_nil _ _]
    simp only [List.reverse_cons, List.append_assoc, List.singleton_append, List.length_cons, List.mem_cons,
      hslash.symm, false_or, Nat.add_assoc, Nat.add_comm 1]
  | @escaped c escape name spelling hc h ih =>
    have hmore : AdmitsAll (c :: before).isEmpty name := hname.2
    have hread := nameEscape_of_escape hc hname.1 (spelling ++ rest)
    rw [List.cons_append, List.append_assoc, nameFrom, if_pos rfl, hread]
    simp only [List.drop_left]
    rw [ih hmore fun _ => List.cons_ne_nil _ _]
    simp only [List.reverse_cons, List.append_assoc, List.singleton_append, List.length_cons, List.mem_cons, true_or,
      decide_true, Bool.or_true, Bool.true_or, List.length_append]
    congr 1
    omega

/-- What is read as a name is a spelling of it. -/
theorem nameFrom_spells {before : List Char} {found : Name}
    (h : nameFrom before escaped length text = ⟨n, .ok found⟩) :
    ∃ name spelling rest, text = spelling ++ rest ∧ n = length + spelling.length ∧
      found = ⟨before.reverse ++ name, escaped || decide ('\\' ∈ spelling)⟩ ∧ NameSpelling name spelling ∧
      AdmitsAll before.isEmpty name := by
  fun_induction nameFrom before escaped length text with
  | case1 before escaped length =>
    cases h
    exact ⟨[], [], [], rfl, rfl, by simp, .nil, trivial⟩
  | case2 before escaped length rest m d hread ih =>
    obtain ⟨escape, tail, rfl, rfl, hescape, hd⟩ := escape_of_nameEscape hread
    rw [List.drop_left] at h ih
    obtain ⟨name, spelling, rest, rfl, rfl, rfl, hspelling, hname⟩ := ih h
    refine ⟨d :: name, '\\' :: (escape ++ spelling), rest, by simp, ?_, by simp, .escaped hescape hspelling, hd, hname⟩
    simp only [List.length_cons, List.length_append]
    omega
  | case3 => cases h
  | case4 before escaped length c rest hslash hc ih =>
    obtain ⟨name, spelling, rest, rfl, rfl, rfl, hspelling, hname⟩ := ih h
    refine ⟨c :: name, c :: spelling, rest, rfl, ?_, ?_, .raw hspelling, hc, hname⟩
    · rw [List.length_cons]
      omega
    · simp [Ne.symm hslash]
  | case5 before escaped length c rest hslash hc =>
    cases h
    exact ⟨[], [], c :: rest, rfl, rfl, by simp, .nil, trivial⟩

/-! ## Tokens of names -/

theorem beginsName_of_spelling (hname : IsName name) (h : NameSpelling name spelling) :
    ∃ c more, spelling = c :: more ∧ beginsName c = true := by
  cases h with
  | nil => cases hname
  | raw h => exact ⟨_, _, rfl, by rw [beginsName, hname.1, Bool.or_true]⟩
  | escaped hc h => exact ⟨_, _, rfl, rfl⟩

theorem nameFrom_of_isName (length : Nat) (hname : IsName name) (h : NameSpelling name spelling)
    (hrest : EndsName rest) :
    nameFrom [] false length (spelling ++ rest) =
      ⟨length + spelling.length, .ok ⟨name, decide ('\\' ∈ spelling)⟩⟩ := by
  obtain ⟨hne, hadmits⟩ := isName_iff.mp hname
  have hread : nameFrom [] false length (spelling ++ rest) =
      ⟨length + spelling.length, .ok ⟨[].reverse ++ name, false || decide ('\\' ∈ spelling)⟩⟩ :=
    nameFrom_of_spelling h hrest hadmits fun hnil => absurd hnil hne
  rwa [List.reverse_nil, List.nil_append, Bool.false_or] at hread

theorem element_of_numberSign (sentinel : Bool) (goal : LexicalGoal) (h : beginsName c = true) :
    element sentinel goal ('#' :: c :: rest) =
      (nameFrom [] false 1 (c :: rest)).map fun name => .privateName (String.ofList name.characters) := by
  have hname : (c :: rest).head?.any beginsName = true := h
  simp only [element, hname, show isDecimalDigit '#' = false from rfl, Char.reduceEq, decide_false, Bool.false_and,
    Bool.or_self, Bool.false_eq_true, if_false, if_true]

/-- Whether tokens of the kind carry a name. -/
def isNameKind : TokenKind → Bool
  | .identifier .. | .privateName _ | .keyword _ => true
  | _ => false

theorem isNameKind_template {opening : Bool} {r : Reading Misreading TokenKind} {kind : TokenKind}
    (h : TemplateReads text opening r) (hr : r.result = .ok kind) : isNameKind kind = false := by
  cases h with
  | closes => cases hr; rfl
  | leftOpen => cases hr

theorem isNameKind_string {sentinel legacy : Bool} {quote : Char} {r : Reading Misreading TokenKind} {kind : TokenKind}
    (h : StringReads sentinel quote legacy length text r) (hr : r.result = .ok kind) : isNameKind kind = false := by
  cases h with
  | closes => cases hr; rfl
  | malformed | leftOpen => cases hr

theorem isNameKind_numeral {kind : TokenKind} (h : ((numeral (c :: rest)).reportedAt 0).result = .ok kind) :
    isNameKind kind = false := by
  rcases hr : numeral (c :: rest) with ⟨m, e | found⟩
  · rw [hr] at h
    cases h
  · rw [hr] at h
    cases h
    rcases (numeral_kept (List.cons_ne_nil c rest)).ok (congrArg Reading.result hr) with rfl | ⟨legacy, rfl⟩ <;> rfl

theorem isNameKind_punctuator {kind : TokenKind}
    (h : ((((punctuatorFrom c rest).map TokenKind.punctuator).after 1).reportedAt 0).result = .ok kind) :
    isNameKind kind = false := by
  rcases hr : punctuatorFrom c rest with ⟨m, e | p⟩ <;> rw [hr] at h <;> cases h
  rfl

/-- Only where a name begins, or behind a number sign, a name is read. -/
theorem begins_of_element {sentinel : Bool} {goal : LexicalGoal} {kind : TokenKind}
    (h : element sentinel goal (c :: rest) = ⟨n, .ok kind⟩) (hkind : isNameKind kind = true) :
    beginsName c = true ∨ c = '#' ∧ rest.head?.any beginsName = true := by
  have hnot (hfalse : isNameKind kind = false) : beginsName c = true ∨ c = '#' ∧ rest.head?.any beginsName = true :=
    absurd hkind (Bool.eq_false_iff.mp hfalse)
  have hresult := congrArg Reading.result h
  rw [element] at hresult
  split at hresult
  case isTrue htail =>
    have hc : c ≠ '\\' := by
      rintro rfl
      exact Bool.false_ne_true htail
    exact hnot (isNameKind_template (templateFrom_takes false none 1 rest rfl (.start hc rest)) hresult)
  split at hresult
  case isTrue =>
    rcases hr : regExp rest with ⟨m, e | found⟩ <;> rw [hr] at hresult <;> cases hresult
    obtain rfl := kind_of_regExp hr
    exact hnot rfl
  split at hresult
  case isTrue hquote =>
    have hc : c = '"' ∨ c = '\'' := by simpa using hquote
    exact hnot (isNameKind_string (stringFrom_takes hc false 1 rest) hresult)
  split at hresult
  case isTrue hgrave =>
    have hc : c ≠ '\\' := by
      rintro rfl
      exact absurd hgrave (by decide)
    exact hnot (isNameKind_template (templateFrom_takes true none 1 rest rfl (.start hc rest)) hresult)
  split at hresult
  case isTrue => exact hnot (isNameKind_numeral hresult)
  split at hresult
  case isTrue hsign =>
    split at hresult
    case isTrue hbegins => exact .inr ⟨hsign, hbegins⟩
    case isFalse => cases hresult
  split at hresult
  case isTrue hbegins => exact .inl hbegins
  case isFalse => exact hnot (isNameKind_punctuator hresult)

/-- What is read where a name begins is a spelling of a name. -/
theorem name_of_nameFrom {found : Name} (hbegins : beginsName c = true)
    (h : nameFrom [] false length (c :: text) = ⟨n, .ok found⟩) :
    ∃ name spelling rest, c :: text = spelling ++ rest ∧ n = length + spelling.length ∧
      found = ⟨name, decide ('\\' ∈ spelling)⟩ ∧ IsName name ∧ NameSpelling name spelling := by
  have hpos := lt_length_nameFrom length text hbegins
  rw [h] at hpos
  obtain ⟨name, spelling, rest, htext, rfl, rfl, hspelling, hname⟩ := nameFrom_spells h
  refine ⟨name, spelling, rest, htext, rfl, ?_, isName_iff.mpr ⟨?_, hname⟩, hspelling⟩
  · rw [List.reverse_nil, List.nil_append, Bool.false_or]
  · rintro rfl
    cases hspelling
    exact Nat.lt_irrefl _ hpos

/-- The name that a keyword, an identifier or a private name is read from stands in the text. -/
theorem spelling_of_element {sentinel : Bool} {goal : LexicalGoal} {kind : TokenKind}
    (h : element sentinel goal text = ⟨n, .ok kind⟩) (hkind : isNameKind kind = true) :
    ∃ name spelling rest, IsName name ∧ NameSpelling name spelling ∧
      (text = spelling ++ rest ∧ n = spelling.length ∧ kind = nameKind ⟨name, decide ('\\' ∈ spelling)⟩ ∨
        text = '#' :: (spelling ++ rest) ∧ n = spelling.length + 1 ∧ kind = .privateName (String.ofList name)) := by
  cases text with
  | nil =>
    cases h
    cases hkind
  | cons c text =>
    rcases begins_of_element h hkind with hbegins | ⟨rfl, hbegins⟩
    · rw [element_of_beginsName sentinel goal hbegins] at h
      obtain ⟨found, hread, rfl⟩ := of_map h
      obtain ⟨name, spelling, rest, htext, rfl, rfl, hname, hspelling⟩ := name_of_nameFrom hbegins hread
      exact ⟨name, spelling, rest, hname, hspelling, .inl ⟨htext, Nat.zero_add _, rfl⟩⟩
    · obtain ⟨c, text, rfl⟩ := List.exists_cons_of_ne_nil (l := text) (by rintro rfl; cases hbegins)
      rw [element_of_numberSign sentinel goal hbegins] at h
      obtain ⟨found, hread, rfl⟩ := of_map h
      obtain ⟨name, spelling, rest, htext, rfl, rfl, hname, hspelling⟩ := name_of_nameFrom hbegins hread
      exact ⟨name, spelling, rest, hname, hspelling, .inr ⟨by rw [htext], Nat.add_comm 1 _, rfl⟩⟩

theorem nameKind_keyword {k : Keyword} (h : Keyword.ofName? (String.ofList name) = some k) :
    nameKind ⟨name, false⟩ = .keyword k := by
  simp only [nameKind, h]

theorem nameKind_identifier (h : escaped = true ∨ Keyword.ofName? (String.ofList name) = none) :
    nameKind ⟨name, escaped⟩ = .identifier (String.ofList name) escaped := by
  unfold nameKind
  split
  case h_1 k hescaped hk =>
    rcases h with rfl | hnone
    · cases hescaped
    · rw [hnone] at hk
      cases hk
  case h_2 => rfl

theorem nameKind_cases (name : List Char) (escaped : Bool) :
    nameKind ⟨name, escaped⟩ = .identifier (String.ofList name) escaped ∨
      ∃ k, escaped = false ∧ k.spelling = String.ofList name ∧ nameKind ⟨name, escaped⟩ = .keyword k := by
  cases escaped with
  | true => exact .inl (nameKind_identifier (.inl rfl))
  | false =>
    cases hk : Keyword.ofName? (String.ofList name) with
    | none => exact .inl (nameKind_identifier (.inr hk))
    | some k =>
      unfold Keyword.ofName? at hk
      exact .inr ⟨k, rfl, by simpa using List.find?_some hk, nameKind_keyword hk⟩

end Lexical

open Lexical

/-- Behind a gap of `n` characters, the next token has the kind and covers the lexeme. -/
def Scanner.Brings (s : Scanner) (goal : LexicalGoal) (n : Nat) (newline : Bool) (kind : TokenKind)
    (lexeme : List Char) : Prop :=
  s.next goal = (.ok ⟨kind, (s.advance n).position, ((s.advance n).advance lexeme.length).position,
    String.ofList lexeme, newline⟩, (s.advance n).advance lexeme.length)

/-- The token behind a gap, told by what is read of the text there. -/
theorem Scanner.brings_of_element {s : Scanner} {goal : LexicalGoal} {n : Nat} {newline : Bool} {kind : TokenKind}
    {lexeme rest : List Char} (hgap : s.skipGap goal = ⟨n, .ok newline⟩) (hrest : (s.advance n).rest = lexeme ++ rest)
    (hne : lexeme ≠ []) (h : element s.source.sentinel goal (lexeme ++ rest) = ⟨lexeme.length, .ok kind⟩) :
    s.Brings goal n newline kind lexeme := by
  unfold Brings
  rw [next_token hgap (hrest ▸ List.append_ne_nil_of_left_ne_nil hne rest) (hrest ▸ h), hrest, List.take_left]

/-- Every spelling of a name is read as the token that the name is: a keyword if it is one and is spelled without
escapes, or else an identifier that is marked as escaped if it is; and a private name behind a number sign. In turn, the
lexeme of every such token is a spelling of its name. -/
theorem Scanner.next_name :
    (∀ {goal : LexicalGoal} {s : Scanner} {n : Nat} {newline : Bool} {name spelling rest : List Char},
      IsName name → NameSpelling name spelling → EndsName rest → s.skipGap goal = ⟨n, .ok newline⟩ →
      ((s.advance n).rest = spelling ++ rest →
        (∀ k, '\\' ∉ spelling → Keyword.ofName? (String.ofList name) = some k →
          s.Brings goal n newline (.keyword k) spelling) ∧
        ('\\' ∈ spelling ∨ Keyword.ofName? (String.ofList name) = none →
          s.Brings goal n newline (.identifier (String.ofList name) ('\\' ∈ spelling)) spelling)) ∧
      ((s.advance n).rest = '#' :: (spelling ++ rest) →
        s.Brings goal n newline (.privateName (String.ofList name)) ('#' :: spelling))) ∧
    ∀ {goal : LexicalGoal} {s after : Scanner} {token : Token}, s.next goal = (.ok token, after) →
      (∀ identifier escaped, token.kind = .identifier identifier escaped → ∃ name spelling,
        identifier = String.ofList name ∧ token.lexeme = String.ofList spelling ∧ IsName name ∧
          NameSpelling name spelling ∧ (escaped = true ↔ '\\' ∈ spelling)) ∧
      (∀ k, token.kind = .keyword k → ∃ name spelling,
        k.spelling = String.ofList name ∧ token.lexeme = String.ofList spelling ∧ IsName name ∧
          NameSpelling name spelling ∧ '\\' ∉ spelling) ∧
      ∀ identifier, token.kind = .privateName identifier → ∃ name spelling,
        identifier = String.ofList name ∧ token.lexeme = String.ofList ('#' :: spelling) ∧ IsName name ∧
          NameSpelling name spelling := by
  constructor
  · intro goal s n newline name spelling rest hname hspelling hends hgap
    obtain ⟨c, more, hc, hbegins⟩ := beginsName_of_spelling hname hspelling
    have hne : spelling ≠ [] := hc ▸ List.cons_ne_nil c more
    constructor
    · intro hrest
      have hread : element s.source.sentinel goal (spelling ++ rest) =
          ⟨spelling.length, .ok (nameKind ⟨name, decide ('\\' ∈ spelling)⟩)⟩ := by
        have hfrom := nameFrom_of_isName 0 hname hspelling hends
        rw [hc, List.cons_append] at hfrom ⊢
        rw [element_of_beginsName _ goal hbegins, hfrom, Nat.zero_add]
        rfl
      have hbrings := brings_of_element hgap hrest hne hread
      constructor
      · intro k hplain hk
        rwa [decide_eq_false hplain, nameKind_keyword hk] at hbrings
      · intro hidentifier
        rwa [nameKind_identifier (hidentifier.imp_left decide_eq_true)] at hbrings
    · intro hrest
      refine brings_of_element hgap (by rw [hrest, List.cons_append]) (List.cons_ne_nil _ _) ?_
      have hfrom := nameFrom_of_isName 1 hname hspelling hends
      rw [hc, List.cons_append] at hfrom
      rw [hc, List.cons_append, List.cons_append, element_of_numberSign _ goal hbegins, hfrom, Nat.add_comm 1]
      rfl
  · intro goal s after token hnext
    have hspelled (hkind : isNameKind token.kind = true) : ∃ name spelling, IsName name ∧ NameSpelling name spelling ∧
        (token.lexeme = String.ofList spelling ∧ token.kind = nameKind ⟨name, decide ('\\' ∈ spelling)⟩ ∨
          token.lexeme = String.ofList ('#' :: spelling) ∧ token.kind = .privateName (String.ofList name)) := by
      obtain ⟨k, newline, m, _, helement, hlexeme⟩ := element_of_next hnext (by rintro h; rw [h] at hkind; cases hkind)
      obtain ⟨name, spelling, rest, hname, hspelling, ⟨hrest, rfl, hk⟩ | ⟨hrest, rfl, hk⟩⟩ :=
        spelling_of_element helement hkind
      · rw [hrest, List.take_left] at hlexeme
        exact ⟨name, spelling, hname, hspelling, .inl ⟨hlexeme, hk⟩⟩
      · rw [hrest, List.take_succ_cons, List.take_left] at hlexeme
        exact ⟨name, spelling, hname, hspelling, .inr ⟨hlexeme, hk⟩⟩
    refine ⟨fun identifier escaped hkind => ?_, fun k hkind => ?_, fun identifier hkind => ?_⟩
    · obtain ⟨name, spelling, hname, hspelling, ⟨hlexeme, hk⟩ | ⟨_, hk⟩⟩ := hspelled (by rw [hkind]; rfl)
      · rcases nameKind_cases name (decide ('\\' ∈ spelling)) with hidentifier | ⟨_, _, _, hkeyword⟩
        · cases hkind.symm.trans (hk.trans hidentifier)
          exact ⟨name, spelling, rfl, hlexeme, hname, hspelling, decide_eq_true_iff⟩
        · cases hkind.symm.trans (hk.trans hkeyword)
      · cases hkind.symm.trans hk
    · obtain ⟨name, spelling, hname, hspelling, ⟨hlexeme, hk⟩ | ⟨_, hk⟩⟩ := hspelled (by rw [hkind]; rfl)
      · rcases nameKind_cases name (decide ('\\' ∈ spelling)) with hidentifier | ⟨_, hplain, hword, hkeyword⟩
        · cases hkind.symm.trans (hk.trans hidentifier)
        · cases hkind.symm.trans (hk.trans hkeyword)
          exact ⟨name, spelling, hword, hlexeme, hname, hspelling, of_decide_eq_false hplain⟩
      · cases hkind.symm.trans hk
    · obtain ⟨name, spelling, hname, hspelling, ⟨_, hk⟩ | ⟨hlexeme, hk⟩⟩ := hspelled (by rw [hkind]; rfl)
      · rcases nameKind_cases name (decide ('\\' ∈ spelling)) with hidentifier | ⟨_, _, _, hkeyword⟩
        · cases hkind.symm.trans (hk.trans hidentifier)
        · cases hkind.symm.trans (hk.trans hkeyword)
      · cases hkind.symm.trans hk
        exact ⟨name, spelling, rfl, hlexeme, hname, hspelling⟩

/-- An escaped keyword is an identifier. -/
theorem Scanner.next_name_escaped :
    let s := Scanner.ofSource (.ofText " \\u\x7b0064\x7do;".toList)
    let spelling := "\\u\x7b0064\x7do".toList
    IsName ['d', 'o'] ∧ NameSpelling ['d', 'o'] spelling ∧ EndsName [';'] ∧ s.skipGap .regExp = ⟨1, .ok false⟩ ∧
      (s.advance 1).rest = spelling ++ [';'] ∧
      s.Brings .regExp 1 false (.identifier (String.ofList ['d', 'o']) true) spelling := by
  intro s spelling
  have hname : IsName ['d', 'o'] := ⟨by decide +kernel, List.forall_mem_singleton.mpr (by decide +kernel)⟩
  have hspelling : NameSpelling ['d', 'o'] spelling :=
    .escaped (.braced (List.cons_ne_nil '0' "064".toList) (List.all_eq_true.mp rfl) (by decide)) (.raw .nil)
  have hends : EndsName [';'] := ⟨by decide, by decide +kernel⟩
  have hgap : s.skipGap .regExp = ⟨1, .ok false⟩ :=
    (gapFrom_space (by decide +kernel) (by decide +kernel)).trans
      (gapFrom_other (by decide +kernel) (by decide +kernel) (by decide))
  have hrest : (s.advance 1).rest = spelling ++ [';'] := by decide
  exact ⟨hname, hspelling, hends, hgap, hrest,
    ((next_name.1 hname hspelling hends hgap).1 hrest).2 (.inl (by decide))⟩

end EcmaCheck
