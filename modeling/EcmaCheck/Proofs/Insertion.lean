import EcmaCheck.Proofs.Lexical.ClosedElement
import EcmaCheck.Proofs.Lexical.Padding
import EcmaCheck.Proofs.Scanning

/-!
# Insertions into a text

Characters are inserted at a place of a text (`Insertion`). What is read of the text before the place is read of the
whole in the same way, if no token goes on with the first of them (`next_front`). Where both are read behind the
insertion, they are read alike (`next_behind`).
-/

namespace EcmaCheck

open Lexical

/-- Characters that are inserted between those before and those after a place of a text. -/
structure Insertion where
  before : List Char
  inserted : List Char
  after : List Char

/-- The span that lies `k` characters later. -/
def Span.later (k : Nat) (span : Span) : Span :=
  { span with first := k + span.first, behind := k + span.behind }

namespace Insertion

variable (t : Insertion)

/-- The text without the insertion. -/
def plain : List Char := t.before ++ t.after

/-- The text with the insertion. -/
def whole : List Char := t.before ++ (t.inserted ++ t.after)

/-- No token goes on with the first character inserted. -/
def Closed : Prop :=
  ∃ w more, t.inserted = w :: more ∧ Closes w

variable {t} {n : Nat}

/-! ## Places -/

theorem length_whole : t.whole.length = t.inserted.length + t.plain.length := by
  simp only [whole, plain, List.length_append]
  omega

theorem before_le : t.before.length ≤ t.plain.length := by
  rw [plain, List.length_append]
  exact Nat.le_add_right _ _

theorem drop_plain_front (hn : n ≤ t.before.length) (rest : List Char) :
    t.plain.drop n ++ rest = t.before.drop n ++ (t.after ++ rest) := by
  rw [plain, List.drop_append_of_le_length hn, List.append_assoc]

theorem drop_whole_front (hn : n ≤ t.before.length) (rest : List Char) :
    t.whole.drop n ++ rest = t.before.drop n ++ (t.inserted ++ (t.after ++ rest)) := by
  rw [whole, List.drop_append_of_le_length hn, List.append_assoc, List.append_assoc]

theorem drop_behind (hn : t.before.length ≤ n) : t.whole.drop (t.inserted.length + n) = t.plain.drop n := by
  obtain ⟨k, rfl⟩ := Nat.exists_eq_add_of_le hn
  have hsum : t.inserted.length + (t.before.length + k) = t.before.length + (t.inserted.length + k) := by omega
  rw [whole, plain, hsum, ← List.drop_drop, ← List.drop_drop, ← List.drop_drop, List.drop_left, List.drop_left,
    List.drop_left]

theorem take_front (hn : n ≤ t.before.length) : t.whole.take n = t.plain.take n := by
  rw [whole, plain, List.take_append_of_le_length hn, List.take_append_of_le_length hn]

theorem offset_front (hn : n ≤ t.before.length) : (placeAt t.whole n).offset = (placeAt t.plain n).offset := by
  have hplain := Nat.le_trans hn before_le
  rw [offset_placeAt hplain, offset_placeAt (length_whole ▸ Nat.le_add_left_of_le hplain), take_front hn]

theorem offset_behind (hn : t.before.length ≤ n) (hle : n ≤ t.plain.length) :
    (placeAt t.whole (t.inserted.length + n)).offset = byteLength t.inserted + (placeAt t.plain n).offset := by
  obtain ⟨k, rfl⟩ := Nat.exists_eq_add_of_le hn
  have hsum : t.inserted.length + (t.before.length + k) = t.before.length + (t.inserted.length + k) := by omega
  have htake (first second : List Char) (k : Nat) :
      (first ++ second).take (first.length + k) = first ++ second.take k := by
    rw [List.take_append, List.take_of_length_le (Nat.le_add_right _ _), Nat.add_sub_cancel_left]
  rw [offset_placeAt hle, offset_placeAt (by rw [length_whole]; omega), hsum, whole, plain, htake, htake, htake,
    byteLength_append, byteLength_append, byteLength_append]
  omega

/-! ## Tokens -/

variable {span : Span} {goal : LexicalGoal}

theorem lexeme_front (h : span.behind ≤ t.before.length) (hlt : span.first < span.behind) :
    (span.token t.whole).lexeme = (span.token t.plain).lexeme := by
  have hfirst : span.first ≤ t.before.length := Nat.le_trans (Nat.le_of_lt hlt) h
  have hlength : span.behind - span.first ≤ (t.before.drop span.first).length := by
    rw [List.length_drop]
    omega
  have hwhole := drop_whole_front hfirst []
  have hplain := drop_plain_front hfirst []
  rw [List.append_nil] at hwhole hplain
  simp only [Span.token, hwhole, hplain, List.take_append_of_le_length hlength]

theorem lexeme_behind (h : t.before.length ≤ span.first) :
    ((span.later t.inserted.length).token t.whole).lexeme = (span.token t.plain).lexeme := by
  simp only [Span.token, Span.later, drop_behind h, Nat.add_sub_add_left]

/-! ## Reading -/

open Scanner

theorem rest_behind (hn : t.before.length ≤ n) (hle : n ≤ t.plain.length) :
    (standing t.whole true (t.inserted.length + n)).rest = (standing t.plain true n).rest := by
  rw [rest_standing_true hle, rest_standing_true (length_whole ▸ Nat.add_le_add_left hle _), drop_behind hn]

/-- What is read before the insertion is read of the whole as well. -/
theorem Closed.read_front (ht : t.Closed) (hle : span.behind ≤ t.before.length)
    (hpoint : ¬ SplitsPoint (t.before.drop span.first) (t.after ++ ['\n'])) (h : span.Read t.plain goal n) :
    span.Read t.whole goal n := by
  obtain ⟨w, more, hinserted, hw⟩ := ht
  obtain ⟨hfirst, hlt, hbehind, hgap, helement⟩ := h
  have hplain := before_le (t := t)
  have hwhole := length_whole (t := t)
  have hrest {n : Nat} (hn : n ≤ t.before.length) :
      (standing t.plain true n).rest = t.before.drop n ++ (t.after ++ ['\n']) ∧
        (standing t.whole true n).rest = t.before.drop n ++ w :: (more ++ (t.after ++ ['\n'])) := by
    rw [rest_standing_true (by omega), rest_standing_true (by omega), drop_plain_front hn,
      drop_whole_front hn, hinserted]
    exact ⟨rfl, rfl⟩
  refine ⟨hfirst, hlt, by omega, ?_, ?_⟩
  · unfold skipGap at hgap ⊢
    split
    · rename_i hgoal
      rwa [if_pos hgoal] at hgap
    · rename_i hgoal
      rw [if_neg hgoal, (hrest (by omega)).1] at hgap
      have hoffset : (standing t.whole true n).position.offset = (standing t.plain true n).position.offset :=
        offset_front (by omega)
      rw [(hrest (by omega)).2, hoffset]
      exact gap_closed hgap (by rw [List.length_drop]; omega) (.inr ⟨w, _, rfl, hw⟩)
  · rw [(hrest (by omega)).1] at helement
    rw [(hrest (by omega)).2]
    refine element_closed ?_ (fun _ => ⟨?_, List.cons_ne_nil _ _⟩) hpoint helement (by omega) ?_
      (.inr ⟨w, _, rfl, hw⟩) fun _ _ => .inr ⟨w, _, rfl, hw⟩
    · exact mt List.drop_eq_nil_iff.mp (by omega)
    · exact List.append_ne_nil_of_right_ne_nil _ (List.cons_ne_nil _ _)
    · rw [List.length_drop]
      omega

/-- Readings behind the insertion, without it and with it. -/
inductive Alike (t : Insertion) (goal : LexicalGoal) (n : Nat) (r₁ r₂ : Except Fault Token × Scanner) : Prop
  | fails {e : LexicalError} {p q : Position} (h₁ : r₁.1 = .error (.lexical e p)) (h₂ : r₂.1 = .error (.lexical e q))
  | ends (newline : Bool) (h₁ : r₁.1 = .ok (endToken t.plain newline)) (h₂ : r₂.1 = .ok (endToken t.whole newline))
  | reads (span : Span) (hs : span.Within t.plain goal n)
    (h₁ : r₁ = (.ok (span.token t.plain), standing t.plain true span.behind))
    (h₂ : r₂ = (.ok ((span.later t.inserted.length).token t.whole),
      standing t.whole true (t.inserted.length + span.behind)))

/-- Behind the insertion the texts are read alike. The whole may be read from further before, if all that is there
belongs to the gap. -/
theorem next_behind {n' e : Nat} (hn : t.before.length ≤ n) (hle : n ≤ t.plain.length)
    (hgoal : goal = .templateTail → t.plain[n]? = some '}') (he : n' + e = t.inserted.length + n)
    (hskip : (standing t.whole true n').skipGap goal = ((standing t.plain true n).skipGap goal).later e) :
    Alike t goal n ((standing t.plain true n).next goal) ((standing t.whole true n').next goal) := by
  have hwhole := length_whole (t := t)
  have hplace {k : Nat} : n' + (e + k) = t.inserted.length + (n + k) := by omega
  cases unfolds goal hle hgoal with
  | @gapFails k m hgap =>
    have hgap' : (standing t.whole true n').skipGap goal = ⟨e + k, .error ⟨m.error, e + m.place⟩⟩ := by
      rw [hskip, hgap]
      rfl
    have hfails := next_fails hgap'
    exact .fails (next_fails hgap) hfails
  | ends hgap =>
    have hlength : e + (t.plain.length - n + 1) = t.whole.length - n' + 1 := by omega
    have hgap' : (standing t.whole true n').skipGap goal = ⟨t.whole.length - n' + 1, .ok true⟩ := by
      rw [hskip, hgap, ← hlength]
      rfl
    have hend := advance_standing_end true hle
    have hend' : let behind := (standing t.whole true n').advance (t.whole.length - n' + true.toNat)
        behind.rest = [] ∧ behind.textEnd?.getD behind.position = placeAt t.whole t.whole.length :=
      advance_standing_end true (by omega)
    refine .ends true ((next_ends hgap hend.1).trans ?_) ((next_ends hgap' hend'.1).trans ?_)
    · rw [show t.plain.length - n + 1 = t.plain.length - n + true.toNat from rfl, hend.2]
      rfl
    · rw [show t.whole.length - n' + 1 = t.whole.length - n' + true.toNat from rfl, hend'.2]
      rfl
  | @misreads k l newline m hlt hgap helement =>
    have hgap' : (standing t.whole true n').skipGap goal = ⟨e + k, .ok newline⟩ := hskip.trans (by rw [hgap]; rfl)
    have hbefore := advance_standing true (Nat.le_of_lt hlt)
    have hbefore' :
        (standing t.whole true n').advance (e + k) = standing t.whole true (t.inserted.length + (n + k)) := by
      rw [← hplace]
      exact advance_standing true (by omega)
    refine .fails (next_misread hgap ?_ (by rw [hbefore]; exact helement))
      (next_misread hgap' ?_ (by rw [hbefore', rest_behind (by omega) (by omega)]; exact helement))
    · rw [hbefore]
      exact rest_standing_ne_nil true hlt
    · rw [hbefore']
      exact rest_standing_ne_nil true (by omega)
  | reads span hs h =>
    have hfirst := h.le_first
    have hlt := h.first_lt
    have hbehind := h.behind_le
    have hlater : (span.later t.inserted.length).Read t.whole goal n' := by
      refine ⟨?_, ?_, ?_, ?_, ?_⟩ <;> simp only [Span.later]
      · omega
      · omega
      · omega
      · have hlength : t.inserted.length + span.first - n' = e + (span.first - n) := by omega
        rw [hskip, h.gap, hlength]
        rfl
      · rw [rest_behind (by omega) (by omega), h.element, Nat.add_sub_add_left]
    exact .reads span hs h.next hlater.next

end Insertion

end EcmaCheck
