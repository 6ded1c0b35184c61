import EcmaCheck.Lexical.Escape
import EcmaCheck.Proofs.Place

/-!
# Readings of a text with a sentinel

A reader that looks at one more line feed after the text before it does not see it, unless the text ends where it goes
on reading. `Kept` says this of a reader that stays within its text, and passes through the monad of lexers
(`Kept.bind`). `Reads` says it of a reading of a token: with the sentinel it gives the same, and an error is reported at
a character of the text that is no line feed.
-/

namespace EcmaCheck.Lexical

/-! ## The sentinel after a list -/

section Lists

variable {text : List Char} {test : Char → Bool} (h : test '\n' = false)

theorem drop_sentinel {n : Nat} (hn : n ≤ text.length) : (text ++ ['\n']).drop n = text.drop n ++ ['\n'] :=
  List.drop_append_of_le_length hn

include h

theorem takeWhile_sentinel : (text ++ ['\n']).takeWhile test = text.takeWhile test := by
  induction text with
  | nil => simp [h]
  | cons c text ih => simp only [List.cons_append, List.takeWhile_cons, ih]

theorem takeWhile_take_sentinel (n : Nat) :
    ((text ++ ['\n']).take n).takeWhile test = (text.take n).takeWhile test := by
  induction text generalizing n with
  | nil => cases n <;> simp [h]
  | cons c text ih =>
    cases n <;> simp only [List.cons_append, List.take_zero, List.take_succ_cons, List.takeWhile_cons, ih]

theorem any_head?_sentinel : (text ++ ['\n']).head?.any test = text.head?.any test := by
  cases text with
  | nil => exact h
  | cons => rfl

end Lists

theorem head?_sentinel {text : List Char} {c : Char} (hc : c ≠ '\n') :
    (text ++ ['\n']).head? = some c ↔ text.head? = some c := by
  cases text with
  | nil => simp [hc.symm]
  | cons => rfl

theorem eq_cons_of_sentinel {text rest : List Char} {c : Char} (hc : c ≠ '\n') (h : text ++ ['\n'] = c :: rest) :
    ∃ rest', text = c :: rest' :=
  List.head?_eq_some_iff.mp ((head?_sentinel hc).mp (congrArg List.head? h))

/-- The rest of a list from one of its characters on. -/
theorem drop_eq_cons {whole rest : List Char} {c : Char} {k : Nat} (h : whole.drop k = c :: rest) :
    whole[k]? = some c ∧ k < whole.length ∧ whole.drop (k + 1) = rest := by
  have hk : k < whole.length := by
    apply Nat.lt_of_not_le
    intro hle
    rw [List.drop_eq_nil_of_le hle] at h
    cases h
  rw [List.drop_eq_getElem_cons hk] at h
  cases h
  exact ⟨List.getElem?_eq_getElem hk, hk, rfl⟩

/-! ## Readers within their text -/

/-- What is read first counts to the length of the whole. -/
theorem length_le_bind {ε α β : Type} (first : Lexer ε α) (next : α → Lexer ε β) (text : List Char) :
    (first text).length ≤ ((first >>= next) text).length := by
  rcases h : first text with ⟨n, e | a⟩
  · simp only [Lexer.reading_bind_error h, Nat.le_refl]
  · rw [Lexer.reading_bind_ok h]
    exact Nat.le_add_right n _

/-- The reader stays within the text, a sentinel after it does not show, and what it finds satisfies `found`. -/
structure Kept {ε α : Type} (found : α → Prop) (l : Lexer ε α) (text : List Char) : Prop where
  length_le : (l text).length ≤ text.length
  sentinel : l (text ++ ['\n']) = l text
  ok {a : α} : (l text).result = .ok a → found a

namespace Kept

open Lexer

variable {ε α β : Type} {found : α → Prop} {found' : β → Prop} {text : List Char}

theorem of_eq {l l' : Lexer ε α} (h : Kept found l' text) (ht : l text = l' text)
    (hs : l (text ++ ['\n']) = l' (text ++ ['\n'])) : Kept found l text :=
  ⟨ht ▸ h.length_le, by rw [hs, ht, h.sentinel], ht ▸ h.ok⟩

protected theorem bind {first : Lexer ε α} {next : α → Lexer ε β} (h : Kept found first text)
    (hn : ∀ n a, first text = ⟨n, .ok a⟩ → Kept found' (next a) (text.drop n)) :
    Kept found' (first >>= next) text := by
  have hs := h.sentinel
  rcases hf : first text with ⟨n, e | a⟩
  · rw [hf] at hs
    refine ⟨?_, by rw [reading_bind_error hf, reading_bind_error hs], ?_⟩
    · have hle := h.length_le
      rw [hf] at hle
      rwa [reading_bind_error hf]
    · rw [reading_bind_error hf]
      nofun
  · have hle : n ≤ text.length := by simpa only [hf] using h.length_le
    obtain ⟨hlen, hsent, hok⟩ := hn n a hf
    rw [hf] at hs
    refine ⟨?_, ?_, ?_⟩
    · rw [reading_bind_ok hf]
      simp only [Reading.after]
      rw [List.length_drop] at hlen
      omega
    · rw [reading_bind_ok hf, reading_bind_ok hs, drop_sentinel hle, hsent]
    · rw [reading_bind_ok hf]
      exact hok

protected theorem pure {a : α} (h : found a) : Kept found (Pure.pure a : Lexer ε α) text :=
  ⟨Nat.zero_le _, rfl, fun ha => by cases ha; exact h⟩

protected theorem fail {e : ε} : Kept found (fail e : Lexer ε α) text :=
  ⟨Nat.zero_le _, rfl, nofun⟩

protected theorem ite {p : Prop} [Decidable p] {x y : Lexer ε α} (hx : p → Kept found x text)
    (hy : ¬ p → Kept found y text) : Kept found (if p then x else y) text := by
  split
  · exact hx ‹p›
  · exact hy ‹¬ p›

/-- A part that is only read in some cases, with what follows it. -/
protected theorem optional {p : Prop} [Decidable p] {part : Lexer ε Unit} {next : Unit → Lexer ε β}
    (hp : p → Kept (fun _ => True) part text) (hn : ∀ text, Kept found' (next ()) text) :
    Kept found' (if p then part >>= next else next ()) text :=
  .ite (fun h => (hp h).bind fun _ _ _ => hn _) fun _ => hn text

/-- A look at the next character that does not tell a line feed from the end of the text. -/
protected theorem peek {next : Option Char → Lexer ε β} (hline : next (some '\n') = next none)
    (h : Kept found' (next text.head?) text) : Kept found' (peek >>= next) text := by
  have hrun (t : List Char) : (peek >>= next : Lexer ε β) t = next t.head? t := by
    rw [reading_bind_ok (show (peek : Lexer ε (Option Char)) t = ⟨0, .ok t.head?⟩ from rfl)]
    simp only [Reading.after, Nat.zero_add, List.drop_zero]
  refine ⟨by rw [hrun]; exact h.length_le, ?_, by rw [hrun]; exact h.ok⟩
  rw [hrun, hrun, ← h.sentinel]
  cases text with
  | nil => exact congrFun hline _
  | cons => rfl

protected theorem skip (h : text ≠ []) : Kept (fun _ => True) (skip : Lexer ε Unit) text := by
  cases text with
  | nil => exact absurd rfl h
  | cons c text => exact ⟨by simp [skip], by simp [skip], fun _ => trivial⟩

protected theorem accept {c : Char} (hc : c ≠ '\n') : Kept (fun _ => True) (accept c : Lexer ε Bool) text := by
  refine ⟨?_, ?_, fun _ => trivial⟩
  · cases text with
    | nil => simp [accept]
    | cons d text => simp only [accept]; split <;> simp
  · simp only [accept, head?_sentinel hc]

protected theorem run {test : Char → Bool} (h : test '\n' = false) :
    Kept (fun _ => True) (run test : Lexer ε (List Char)) text :=
  ⟨(List.takeWhile_sublist _).length_le, by simp only [run, takeWhile_sentinel h], fun _ => trivial⟩

protected theorem discard {l : Lexer ε α} (h : Kept found l text) :
    Kept (fun _ => True) (discard l : Lexer ε Unit) text :=
  h.bind fun _ _ _ => .pure trivial

end Kept

/-! ## Readings of tokens -/

/-- The readings of a token without and with a sentinel, of whose characters `taken` had been read: both give the same.
What is found satisfies `found` with its length, and an error is reported at a character that is no line feed. -/
structure Reads {α : Type} (whole : List Char) (taken : Nat) (found : Nat → α → Prop)
    (r r' : Reading Misreading α) : Prop where
  result : r'.result = r.result
  ok {a : α} : r.result = .ok a → r'.length = r.length ∧ taken ≤ r.length ∧ r.length ≤ whole.length ∧ found r.length a
  error {m : Misreading} : r.result = .error m → ∃ c, whole[m.place]? = some c ∧ c ≠ '\n'

namespace Reads

variable {α β : Type} {whole : List Char} {taken : Nat} {found : Nat → α → Prop} {r r' : Reading Misreading α}

theorem of_ok {n : Nat} {a : α} (ht : taken ≤ n) (hn : n ≤ whole.length) (h : found n a) :
    Reads whole taken found ⟨n, .ok a⟩ ⟨n, .ok a⟩ :=
  ⟨rfl, fun ha => by cases ha; exact ⟨rfl, ht, hn, h⟩, nofun⟩

theorem of_error {n n' : Nat} {m : Misreading} {c : Char} (hc : whole[m.place]? = some c) (hline : c ≠ '\n') :
    Reads whole taken found ⟨n, .error m⟩ ⟨n', .error m⟩ :=
  ⟨rfl, nofun, fun hm => by cases hm; exact ⟨c, hc, hline⟩⟩

theorem ok_eq {n : Nat} {a : α} (h : Reads whole taken found ⟨n, .ok a⟩ r') : r' = ⟨n, .ok a⟩ := by
  obtain ⟨length, result⟩ := r'
  have hresult := h.result
  have hlength := (h.ok rfl).1
  simp only at hresult hlength
  rw [hresult, hlength]

theorem error_eq {n : Nat} {m : Misreading} (h : Reads whole taken found ⟨n, .error m⟩ r') :
    ∃ n', r' = ⟨n', .error m⟩ := by
  obtain ⟨length, result⟩ := r'
  have hresult := h.result
  simp only at hresult
  exact ⟨length, by rw [hresult]⟩

theorem mono {taken' : Nat} {found' : Nat → α → Prop} (h : Reads whole taken found r r') (ht : taken' ≤ taken)
    (hf : ∀ n a, taken ≤ n → n ≤ whole.length → found n a → found' n a) : Reads whole taken' found' r r' where
  result := h.result
  ok ha :=
    have ⟨hlen, hle, hn, hfound⟩ := h.ok ha
    ⟨hlen, Nat.le_trans ht hle, hn, hf _ _ hle hn hfound⟩
  error := h.error

protected theorem map {found' : Nat → β → Prop} {f : α → β} (h : Reads whole taken found r r')
    (hf : ∀ n a, found n a → found' n (f a)) : Reads whole taken found' (r.map f) (r'.map f) where
  result := congrArg (Except.map f) h.result
  ok {b} hb := by
    cases hr : r.result with
    | error m => simp only [Reading.map, hr] at hb; cases hb
    | ok a =>
      simp only [Reading.map, hr] at hb
      cases hb
      have ⟨hlen, hle, hn, hfound⟩ := h.ok hr
      exact ⟨hlen, hle, hn, hf _ _ hfound⟩
  error {m} hm := by
    cases hr : r.result with
    | error m' => simp only [Reading.map, hr] at hm; cases hm; exact h.error hr
    | ok a => simp only [Reading.map, hr] at hm; cases hm

end Reads

end EcmaCheck.Lexical
