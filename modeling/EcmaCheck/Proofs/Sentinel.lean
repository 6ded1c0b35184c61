import EcmaCheck.Proofs.Check

/-!
# Transparency of the sentinel

A text is judged the same by itself and with the sentinel that is added to a buffer: it is a program with both or with
neither, and the error has the same place. Its wording differs only after a `throw` that ends the text, where the
sentinel shows as the line break that may not stand there.
-/

namespace EcmaCheck

/-- A text that does not itself end in a sentinel is judged as its bytes are. -/
theorem sentinel_transparent (options : Options) (text : List Char) (h : ¬ ['\n', '\x00'] <:+ text) :
    (fault? options text = none ↔ checkBuffer options (Utf8.encode text) = .ok) ∧
      ∀ f, fault? options text = some f →
        ∃ r, (checkBuffer options (Utf8.encode text)).record? = some r ∧
          r.line = f.position.line ∧ r.column = f.position.column ∧ r.offset = f.position.offset ∧
          (r.message ≠ "Illegal newline after throw" →
            r.kind = f.diagnostic.kind ∧ r.message = f.diagnostic.message) := by
  rw [checkBuffer, bufferFault?_encode, fault?, Source.ofText_plain h]
  have hfinds := Grammar.Comparison.finds .sentinels text (options.sourceType = .module) options.maxDepth 0 rfl
  simp only [Grammar.Comparison.first, Grammar.Comparison.second, Nat.add_zero] at hfinds
  cases hplain : Grammar.fault? (options.sourceType = .module) options.maxDepth (.carrying text false) with
  | none =>
    rw [hplain] at hfinds
    cases hsentinel : Grammar.fault? (options.sourceType = .module) options.maxDepth (.carrying text true) with
    | none =>
      refine ⟨⟨fun _ => rfl, fun _ => rfl⟩, ?_⟩
      intro f hf
      cases hf
    | some g => rw [hsentinel] at hfinds; exact hfinds.elim
  | some f =>
    rw [hplain] at hfinds
    cases hsentinel : Grammar.fault? (options.sourceType = .module) options.maxDepth (.carrying text true) with
    | none => rw [hsentinel] at hfinds; exact hfinds.2.elim
    | some g =>
      rw [hsentinel] at hfinds
      have hrecord := Outcome.record?_of_fault (fault_in hsentinel).kind
      refine ⟨⟨fun hf => ?_, fun hok => ?_⟩, ?_⟩
      · cases hf
      · cases hrecord.symm.trans (congrArg Outcome.record? hok)
      · rintro _ ⟨⟩
        refine ⟨_, hrecord, ?_⟩
        rw [ErrorRecord.ofDiagnostic_fault]
        obtain rfl | rfl := hfinds.2
        · exact ⟨rfl, rfl, rfl, fun _ => ⟨rfl, rfl⟩⟩
        · exact ⟨rfl, rfl, rfl, fun hmessage => absurd rfl hmessage⟩

/-- After a `throw` that ends the text the wording differs, and nothing else. -/
theorem sentinel_transparent_after_throw :
    ∃ f r, fault? {} "throw".toList = some f ∧ (checkBuffer {} (Utf8.encode "throw".toList)).record? = some r ∧
      r.offset = f.position.offset ∧ f.diagnostic.message = "Unexpected end of input" ∧
      r.message = "Illegal newline after throw" := by
  have hf : fault? {} "throw".toList = some (.grammatical .unexpectedEnd ⟨1, 6, 5⟩) := by decide +kernel
  obtain ⟨r, hr, _, _, hoffset, _⟩ := (sentinel_transparent {} "throw".toList (by decide)).2 _ hf
  have hthrow : (checkBuffer {} (Utf8.encode "throw".toList)).record? =
      some ⟨.grammatical, 1, 6, 5, "Illegal newline after throw"⟩ := by decide +kernel
  refine ⟨_, r, hf, hr, hoffset, rfl, ?_⟩
  rw [hthrow] at hr
  cases hr
  rfl

end EcmaCheck
