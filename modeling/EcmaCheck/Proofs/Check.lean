import EcmaCheck.Check
import EcmaCheck.Proofs.Comparison
import EcmaCheck.Proofs.Utf8

/-!
# Checking encoded texts

The bytes of a text are checked as the text with a sentinel after it (`bufferFault?_encode`). A fault of the text is
recorded as it is told, and no other outcome has a record (`Outcome.record?_of_fault`).
-/

namespace EcmaCheck

open Grammar (Comparison)

/-! ## Faults -/

/-- The fault of the bytes of a text is that of the text with a sentinel after it. -/
theorem bufferFault?_encode (options : Options) (text : List Char) :
    bufferFault? options (Utf8.encode text ++ sentinel) =
      Grammar.fault? (options.sourceType = .module) options.maxDepth (.carrying text true) := by
  have hencode : Utf8.encode text ++ sentinel = Utf8.encode (text ++ ['\n', '\x00']) := by
    rw [Utf8.encode_append]
    rfl
  rw [bufferFault?, hencode, Utf8.decodePrefix_encode]
  simp only [List.isEmpty_nil, if_true, fault?, Source.ofText_sentinel]

/-- A fault of a text is at a place of it. -/
theorem fault_in {text : List Char} {sentinel isModule : Bool} {limit : Nat} {f : Fault}
    (h : Grammar.fault? isModule limit (.carrying text sentinel) = some f) : f.In text := by
  have hfinds := Comparison.finds (.limits sentinel) text isModule limit 0 trivial
  simp only [Comparison.first, Comparison.second, Nat.add_zero, h] at hfinds
  exact hfinds.1

/-! ## Outcomes -/

theorem ErrorRecord.ofDiagnostic_fault (f : Fault) : ofDiagnostic f.diagnostic =
    ⟨f.diagnostic.kind, f.position.line, f.position.column, f.position.offset, f.diagnostic.message⟩ := by
  rw [ofDiagnostic, f.position?_diagnostic]
  rfl

namespace Outcome

/-- The outcome of a check that found the given fault, if any. -/
abbrev ofFault? (fault? : Option Fault) : Outcome :=
  ofDiagnostic? (fault?.map Fault.diagnostic)

theorem ofFault?_eq_ok {f? : Option Fault} : ofFault? f? = ok ↔ f? = none := by
  cases f? with
  | none => exact iff_of_true rfl rfl
  | some f => cases f <;> exact iff_of_false nofun nofun

theorem record?_of_fault {f : Fault} (h : f.diagnostic.kind ≠ .internal) :
    (ofFault? (some f)).record? = some (.ofDiagnostic f.diagnostic) := by
  cases f with
  | stalled | labelsMissing => exact absurd rfl h
  | lexical | grammatical | tooDeep => rfl

theorem tooDeep_iff (f? : Option Fault) :
    (∃ r, ofFault? f? = tooDeep r) ↔ ∃ f, f? = some f ∧ f.diagnostic.kind = .tooDeep := by
  cases f? with
  | none => exact ⟨nofun, nofun⟩
  | some f =>
    cases f with
    | tooDeep => exact ⟨fun _ => ⟨_, rfl, rfl⟩, fun _ => ⟨_, rfl⟩⟩
    | lexical | grammatical | stalled | labelsMissing => exact ⟨nofun, by rintro ⟨_, ⟨⟩, ⟨⟩⟩⟩

end Outcome

end EcmaCheck
