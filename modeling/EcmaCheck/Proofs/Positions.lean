import EcmaCheck.Proofs.Check

/-!
# Reported positions

An error that is recorded for the bytes of a text is at a place of the text, and its line and column are those that the
text itself gives the place. The sentinel that is added before the text is scanned is not part of it.
-/

namespace EcmaCheck

/-- The record tells a character boundary of the text, how many lines end before it and how many characters stand
between the last of these ends and it. -/
theorem record_tells_place (options : Options) (text : List Char) {r : ErrorRecord}
    (h : (checkBuffer options (Utf8.encode text)).record? = some r) :
    r.offset ≤ (Utf8.encode text).length ∧
      ∃ n ≤ text.length, r.offset = (Utf8.encode (text.take n)).length ∧ r.line = 1 + (lineEnds text n).length ∧
        r.column = 1 + (n - lineStart text n) := by
  rw [checkBuffer, bufferFault?_encode] at h
  cases hf : Grammar.fault? (options.sourceType = .module) options.maxDepth (.carrying text true) with
  | none => rw [hf] at h; cases h
  | some f =>
    obtain ⟨⟨n, hn, hline, hp⟩, hkind⟩ := fault_in hf
    rw [hf, Outcome.record?_of_fault hkind, ErrorRecord.ofDiagnostic_fault, hp] at h
    cases h
    have hsplit : ¬ splitsPair text n := fun h => hline h.2.2
    simp only [Utf8.length_encode, offset_placeAt hn, line_placeAt hn, column_placeAt hn hsplit]
    exact ⟨byteLength_take_le text n, n, hn, rfl, rfl, rfl⟩

/-- A CR that ends the text ends its last line, as if no sentinel followed. -/
theorem record_tells_place_after_carriageReturn :
    ∃ r, (checkBuffer {} (Utf8.encode "function f() \x7b\r".toList)).record? = some r ∧ (r.line, r.column) = (2, 1) ∧
      ∃ n ≤ 15, r.offset = (Utf8.encode ("function f() \x7b\r".toList.take n)).length ∧
        r.line = 1 + (lineEnds "function f() \x7b\r".toList n).length := by
  have h : (checkBuffer {} (Utf8.encode "function f() \x7b\r".toList)).record? =
      some ⟨.grammatical, 2, 1, 15, "Unexpected end of input"⟩ := by decide +kernel
  obtain ⟨_, n, hn, hoffset, hline, _⟩ := record_tells_place _ _ h
  exact ⟨_, h, rfl, n, hn, hoffset, hline⟩

end EcmaCheck
