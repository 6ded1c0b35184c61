import EcmaCheck.Proofs.DepthLimit
import EcmaCheck.Proofs.Truncation.Reserve
import EcmaCheck.Proofs.Undecoded

/-!
# Programs that are cut off

A prefix of a program gets a verdict on its syntax, wherever the program is cut off, but may nest deeper than the whole:
what is left of a word that begins a declaration is an expression. Six levels more always suffice
(`cut_off_gets_verdict`).
-/

namespace EcmaCheck

/-- A buffer that is accepted encodes a text. -/
theorem exists_text_of_accepted {options : Options} {buffer : List UInt8} (h : checkBuffer options buffer = .ok) :
    ∃ text, Utf8.encode text = buffer ∧
      Grammar.fault? (options.sourceType = .module) options.maxDepth (.carrying text true) = none := by
  have hnone : bufferFault? options (buffer ++ sentinel) = none := Outcome.ofFault?_eq_ok.mp h
  by_cases htext : ∃ text, Utf8.encode text = buffer
  · obtain ⟨text, rfl⟩ := htext
    exact ⟨text, rfl, bufferFault?_encode options text ▸ hnone⟩
  · obtain ⟨text, undecoded, hdecode, hundecoded, _⟩ := decodePrefix_of_undecodable (not_exists.mp htext)
    have hsome : undecoded.isEmpty = false := Bool.eq_false_iff.mpr (mt List.isEmpty_iff.mp hundecoded)
    rw [bufferFault?, hdecode] at hnone
    dsimp only at hnone
    rw [hsome, if_neg Bool.false_ne_true] at hnone
    cases hnone

/-- What is kept of an accepted buffer does not nest too deep for six levels more. -/
theorem checkBuffer_take_ne_tooDeep {options : Options} {buffer : List UInt8} (h : checkBuffer options buffer = .ok)
    (length : Nat) (r : ErrorRecord) :
    checkBuffer ⟨options.sourceType, options.maxDepth + 6⟩ (buffer.take length) ≠ .tooDeep r := by
  obtain ⟨text, rfl, haccepted⟩ := exists_text_of_accepted h
  refine (checkBuffer_ne_tooDeep options.sourceType _).mpr (fun f hf => ?_) r
  obtain ⟨p, rfl, _⟩ | ⟨kept, hkept, _⟩ := bufferFault_cases hf
  · rintro ⟨⟩
  · have hprefix : kept <+: text := by
      have hdecoded := Utf8.prefix_decodePrefix (hkept ▸ List.take_prefix length (Utf8.encode text))
      rwa [Utf8.decodePrefix_encode] at hdecoded
    obtain ⟨lost, rfl⟩ := hprefix
    rw [← hkept, bufferFault?_encode] at hf
    exact Grammar.Truncation.ne_tooDeep_of_accepted haccepted hf

/-- Wherever an accepted buffer is cut off, what is kept of it is accepted or wrong in a token or in its grammar, if it
may nest six levels deeper than the whole. With the same limit it may nest too deep instead, but nothing else. -/
theorem cut_off_gets_verdict (options : Options) (buffer : List UInt8) (length : Nat)
    (haccepted : checkBuffer options buffer = .ok) :
    (∀ limit, options.maxDepth + 6 ≤ limit →
      checkBuffer ⟨options.sourceType, limit⟩ (buffer.take length) = .ok ∨
        ∃ r, checkBuffer ⟨options.sourceType, limit⟩ (buffer.take length) = .invalid r ∧
          (r.kind = .lexical ∨ r.kind = .grammatical)) ∧
      (checkBuffer options (buffer.take length)).IsVerdict := by
  have hverdict (options : Options) (buffer : List UInt8) : (checkBuffer options buffer).IsVerdict :=
    Outcome.isVerdict_of_fault? fun f hf => (bufferFault_in hf).1
  refine ⟨fun limit hle => ?_, hverdict _ _⟩
  have hdeep := checkBuffer_take_ne_tooDeep haccepted length
  rw [checkBuffer_mono options.sourceType _ hle hdeep]
  have hkind := hverdict ⟨options.sourceType, options.maxDepth + 6⟩ (buffer.take length)
  cases hcheck : checkBuffer ⟨options.sourceType, options.maxDepth + 6⟩ (buffer.take length) with
  | ok => exact .inl rfl
  | invalid r =>
    rw [hcheck] at hkind
    exact .inr ⟨r, rfl, hkind⟩
  | tooDeep r => exact absurd hcheck (hdeep r)
  | internalError =>
    rw [hcheck] at hkind
    exact hkind.elim

/-- A declaration takes one level. The first letter of its word is accepted if there are seven. -/
theorem cut_off_gets_verdict_declaration :
    checkBuffer ⟨.script, 1⟩ (Utf8.encode "function f(){}".toList) = .ok ∧
      (checkBuffer ⟨.script, 7⟩ ((Utf8.encode "function f(){}".toList).take 1) = .ok ∨
        ∃ r, checkBuffer ⟨.script, 7⟩ ((Utf8.encode "function f(){}".toList).take 1) = .invalid r ∧
          (r.kind = .lexical ∨ r.kind = .grammatical)) := by
  have haccepted : checkBuffer ⟨.script, 1⟩ (Utf8.encode "function f(){}".toList) = .ok := by decide +kernel
  exact ⟨haccepted, (cut_off_gets_verdict ⟨.script, 1⟩ _ 1 haccepted).1 7 (Nat.le_refl 7)⟩

/-- A declaration in 511 blocks. -/
def nestedDeclaration : List Char :=
  List.replicate 511 '{' ++ "function f(){}".toList ++ List.replicate 511 '}'

/-- With the same limit, also the limit that is set by default, the first letter of a declaration may nest too deep: it
is an expression. -/
theorem cut_off_nests_deeper :
    (checkBuffer {} (Utf8.encode nestedDeclaration) = .ok ∧
      checkBuffer {} ((Utf8.encode nestedDeclaration).take 512) =
        .tooDeep ⟨.tooDeep, 1, 512, 511, "Maximum nesting depth of 1024 exceeded"⟩) ∧
      checkBuffer ⟨.script, 1⟩ (Utf8.encode "function f(){}".toList) = .ok ∧
      checkBuffer ⟨.script, 1⟩ ((Utf8.encode "function f(){}".toList).take 1) =
        .tooDeep ⟨.tooDeep, 1, 1, 0, "Maximum nesting depth of 1 exceeded"⟩ := by
  decide +kernel

/-- Two levels more do not suffice: a comment that is cut off in front of `function` leaves a slash, behind which the
operand is a level of its own. -/
theorem cut_off_nests_three_deeper :
    checkBuffer ⟨.script, 1⟩ (Utf8.encode "async/**/function f(){}".toList) = .ok ∧
      checkBuffer ⟨.script, 3⟩ ((Utf8.encode "async/**/function f(){}".toList).take 6) =
        .tooDeep ⟨.tooDeep, 1, 7, 6, "Maximum nesting depth of 3 exceeded"⟩ := by
  decide +kernel

end EcmaCheck
