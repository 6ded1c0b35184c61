import EcmaCheck.Proofs.Session

/-!
# The order of positions

Reading a character moves on in the order of positions (`Position.lt_step`): to the next line, to the next column, or,
over a CR that an LF follows, to the next byte only. So positions are ordered as the offsets are at which a character
begins or the source ends, and any other offset has the position of the next of these (`positionAt_follows`).
-/

namespace EcmaCheck

/-- Whether a character of the source begins at the offset, or the source ends there. -/
def Source.IsBoundary (source : Source) (offset : Nat) : Prop :=
  ∃ n ≤ source.text.length, byteLength (source.text.take n) = offset

namespace Position

theorem lt_iff {p q : Position} : p < q ↔
    p.line < q.line ∨ p.line = q.line ∧ (p.column < q.column ∨ p.column = q.column ∧ p.offset < q.offset) := by
  change p ≤ q ∧ ¬ q ≤ p ↔ _
  simp only [le_iff]
  omega

theorem lt_trans {p q r : Position} (hpq : p < q) (hqr : q < r) : p < r := by
  rw [lt_iff] at *
  omega

variable {sentinel : Bool} {text : List Char}

/-- Every character moves on. Over the CR of a pair only the offset shows it. -/
theorem lt_step (sentinel : Bool) (p : Position) (c : Char) (rest : List Char) : p < p.step sentinel c rest := by
  rw [lt_iff, step]
  by_cases hpair : (c = '\r' && startsWithPairedFeed sentinel rest) = true
  · simp [hpair]
  · rw [if_neg hpair]
    cases isLineTerminator c <;> simp

theorem lt_advance {n : Nat} (p : Position) (hpos : 0 < n) (hn : n ≤ text.length) :
    p < p.advance sentinel n text := by
  induction n generalizing p text with
  | zero => exact absurd hpos (Nat.lt_irrefl 0)
  | succ n ih =>
    cases text with
    | nil => simp at hn
    | cons c rest =>
      have hstep : p < p.step sentinel c rest := lt_step sentinel p c rest
      rw [advance]
      cases n with
      | zero => simpa [advance] using hstep
      | succ n =>
        apply lt_trans hstep
        apply ih _ (Nat.succ_pos n)
        simpa using hn

theorem advance_lt_advance {m n : Nat} (p : Position) (hmn : m < n) (hn : n ≤ text.length) :
    p.advance sentinel m text < p.advance sentinel n text := by
  obtain ⟨k, rfl⟩ := Nat.exists_eq_add_of_lt hmn
  rw [Nat.add_assoc, advance_add]
  apply lt_advance _ (Nat.succ_pos k)
  rw [List.length_drop]
  omega

/-- Seeking stops behind the first characters that reach the offset, or behind all there are. -/
theorem exists_advance_of_seek (sentinel : Bool) (offset : Nat) (p : Position) (text : List Char) :
    ∃ n ≤ text.length, p.seek sentinel offset text = p.advance sentinel n text ∧
      (∀ m < n, p.offset + byteLength (text.take m) < offset) ∧
      (p.offset + byteLength (text.take n) < offset → n = text.length) := by
  induction text generalizing p with
  | nil => exact ⟨0, Nat.le_refl 0, rfl, by simp, fun _ => rfl⟩
  | cons c rest ih =>
    by_cases hreached : p.offset < offset
    · obtain ⟨n, hn, hseek, hbefore, hend⟩ := ih (p.step sentinel c rest)
      have hsum (k : Nat) : (p.step sentinel c rest).offset + byteLength (rest.take k) =
          p.offset + byteLength ((c :: rest).take (k + 1)) := by
        rw [offset_step, List.take_succ_cons, byteLength, Nat.add_assoc]
      refine ⟨n + 1, by simpa using hn, by rw [seek, if_pos hreached, advance, hseek], ?_, ?_⟩
      · intro m hm
        cases m with
        | zero => simpa [byteLength] using hreached
        | succ m =>
          rw [← hsum]
          exact hbefore m (by omega)
      · intro hshort
        rw [← hsum] at hshort
        rw [List.length_cons, hend hshort]
    · refine ⟨0, Nat.zero_le _, by rw [seek, if_neg hreached]; rfl, by simp, ?_⟩
      intro hshort
      exact absurd (by simpa [byteLength] using hshort) hreached

end Position

/-! ## Positions of offsets -/

/-- The offset of a boundary has the position of a scanner that stands there. -/
theorem positionAt_boundary {text : List Char} {n : Nat} (hn : n ≤ (Source.ofText text).text.length) :
    positionAt text (byteLength ((Source.ofText text).text.take n)) =
      Position.start.advance (Source.ofText text).sentinel n (Source.ofText text).text := by
  have hoffset := Position.offset_advance (Source.ofText text).sentinel n .start (Source.ofText text).text
  rw [Position.start, Nat.zero_add, ← Position.start] at hoffset
  rw [positionAt, ← hoffset]
  exact Position.seek_advance hn

/-- Positions follow the text. Of two boundaries the one with the smaller offset has the smaller position. Any offset
has the position in which a scanner stands after some number of characters: as few as take it to the offset or beyond,
and all that there are if none take it there. -/
theorem positionAt_follows (text : List Char) :
    (∀ first second, (Source.ofText text).IsBoundary first → (Source.ofText text).IsBoundary second → first < second →
      positionAt text first < positionAt text second) ∧
    ∀ offset, ∃ n ≤ (Source.ofText text).text.length,
      positionAt text offset = ((Scanner.ofSource (.ofText text)).advance n).position ∧
      (positionAt text offset).offset = byteLength ((Source.ofText text).text.take n) ∧
      (∀ m < n, byteLength ((Source.ofText text).text.take m) < offset) ∧
      (byteLength ((Source.ofText text).text.take n) < offset → n = (Source.ofText text).text.length) := by
  constructor
  · rintro _ _ ⟨m, hm, rfl⟩ ⟨n, hn, rfl⟩ hlt
    have hmn : m < n := by
      by_contra hle
      obtain ⟨k, rfl⟩ := Nat.exists_eq_add_of_le (Nat.le_of_not_lt hle)
      rw [List.take_add, byteLength_append] at hlt
      omega
    rw [positionAt_boundary hm, positionAt_boundary hn]
    exact Position.advance_lt_advance _ hmn hn
  · intro offset
    obtain ⟨n, hn, hseek, hbefore, hend⟩ := Position.exists_advance_of_seek (Source.ofText text).sentinel offset .start
      (Source.ofText text).text
    simp only [Position.start, Nat.zero_add] at hbefore hend
    have hposition : positionAt text offset = ((Scanner.ofSource (.ofText text)).advance n).position := by
      rw [Scanner.position_advance]
      exact hseek
    refine ⟨n, hn, hposition, ?_, hbefore, hend⟩
    rw [hposition, Scanner.position_advance, Position.offset_advance]
    exact Nat.zero_add _

/-- Reading the CR of a pair moves neither the line nor the column, and still its LF has the greater position. -/
theorem positionAt_follows_pair :
    positionAt ['a', '\r', '\n', 'b'] 1 < positionAt ['a', '\r', '\n', 'b'] 2 :=
  (positionAt_follows ['a', '\r', '\n', 'b']).1 1 2 ⟨1, by decide, rfl⟩ ⟨2, by decide, rfl⟩ (by decide)

end EcmaCheck
