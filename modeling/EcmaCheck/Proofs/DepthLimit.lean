import EcmaCheck.Proofs.Check
import Mathlib.Data.Nat.Find

/-!
# The limit on nesting

The limit only cuts a check off. Once it is not reached, a higher one changes nothing, and one that grows with the text
is never reached. So every buffer has a threshold: below it the outcome is that the text nests too deep, and from it on
the outcome stays the same.
-/

namespace EcmaCheck

open Grammar (Comparison)

variable (sourceType : SourceType) (buffer : List UInt8)

/-- The fault of a buffer under a limit, whether it is that of its text or that it has none. -/
theorem bufferFault?_cases :
    (∃ f, f.diagnostic.kind ≠ .tooDeep ∧ ∀ limit, bufferFault? ⟨sourceType, limit⟩ buffer = some f) ∨
      ∃ text sentinel, ∀ limit, bufferFault? ⟨sourceType, limit⟩ buffer =
        Grammar.fault? (sourceType = .module) limit (.carrying text sentinel) := by
  rcases hdecode : Utf8.decodePrefix buffer with ⟨text, undecoded⟩
  cases hempty : undecoded.isEmpty with
  | false =>
    refine .inl ⟨.lexical .invalidUtf8 (positionAt text (buffer.length - undecoded.length)), nofun, fun limit => ?_⟩
    simp only [bufferFault?, hdecode, hempty, Bool.false_eq_true, if_false]
  | true =>
    obtain ⟨own, sentinel, hsource⟩ := Source.ofText_eq text
    refine .inr ⟨own, sentinel, fun limit => ?_⟩
    simp only [bufferFault?, hdecode, hempty, if_true, fault?, hsource]

/-- Where the limit is not reached, a higher one changes nothing. -/
theorem bufferFault?_mono {low high : Nat} (hle : low ≤ high)
    (h : ∀ f, bufferFault? ⟨sourceType, low⟩ buffer = some f → f.diagnostic.kind ≠ .tooDeep) :
    bufferFault? ⟨sourceType, high⟩ buffer = bufferFault? ⟨sourceType, low⟩ buffer := by
  obtain ⟨f, _, hf⟩ | ⟨text, sentinel, hfault⟩ := bufferFault?_cases sourceType buffer
  · rw [hf, hf]
  · obtain ⟨difference, rfl⟩ := Nat.exists_eq_add_of_le hle
    have hfinds := Comparison.finds (.limits sentinel) text (sourceType = .module) low difference trivial
    simp only [Comparison.first, Comparison.second, ← hfault] at hfinds
    cases hlow : bufferFault? ⟨sourceType, low⟩ buffer with
    | none =>
      cases hhigh : bufferFault? ⟨sourceType, low + difference⟩ buffer with
      | none => rfl
      | some g => rw [hlow, hhigh] at hfinds; exact hfinds.elim
    | some f =>
      cases hhigh : bufferFault? ⟨sourceType, low + difference⟩ buffer with
      | none => rw [hlow, hhigh] at hfinds; exact absurd hfinds.2 (h f hlow)
      | some g => rw [hlow, hhigh] at hfinds; exact congrArg some (hfinds.2.resolve_right (h f hlow))

/-- A limit that grows with the text is not reached. -/
theorem fault?_of_ample_limit {isModule sentinel : Bool} {text : List Char} {limit : Nat} {f : Fault}
    (hlimit : 3 * (text.length + 1) ≤ limit)
    (hf : Grammar.fault? isModule limit (.carrying text sentinel) = some f) : f.diagnostic.kind ≠ .tooDeep := by
  have hfinds := Comparison.finds (.ample sentinel) text isModule limit 0 hlimit
  simp only [Comparison.first, Comparison.second, Nat.add_zero, hf] at hfinds
  exact hfinds.2.2

/-- Every buffer has a limit that is not reached. -/
theorem exists_ample_limit :
    ∃ limit, ∀ f, bufferFault? ⟨sourceType, limit⟩ buffer = some f → f.diagnostic.kind ≠ .tooDeep := by
  obtain ⟨f, hkind, hf⟩ | ⟨text, sentinel, hfault⟩ := bufferFault?_cases sourceType buffer
  · refine ⟨0, ?_⟩
    intro g hg
    rw [hf] at hg
    cases hg
    exact hkind
  · refine ⟨3 * (text.length + 1), ?_⟩
    intro f hf
    rw [hfault] at hf
    exact fault?_of_ample_limit (Nat.le_refl _) hf

theorem checkBuffer_ne_tooDeep {limit : Nat} :
    (∀ r, checkBuffer ⟨sourceType, limit⟩ buffer ≠ .tooDeep r) ↔
      ∀ f, bufferFault? ⟨sourceType, limit⟩ (buffer ++ sentinel) = some f → f.diagnostic.kind ≠ .tooDeep := by
  have h := Outcome.tooDeep_iff (bufferFault? ⟨sourceType, limit⟩ (buffer ++ sentinel))
  constructor
  · intro hne f hf hkind
    obtain ⟨r, hr⟩ := h.mpr ⟨f, hf, hkind⟩
    exact hne r hr
  · intro hne r hr
    obtain ⟨f, hf, hkind⟩ := h.mp ⟨r, hr⟩
    exact hne f hf hkind

/-- A text does not nest too deep for a limit that grows with it. -/
theorem checkBuffer_of_ample_limit {text : List Char} {limit : Nat} (h : 3 * (text.length + 1) ≤ limit)
    (r : ErrorRecord) : checkBuffer ⟨sourceType, limit⟩ (Utf8.encode text) ≠ .tooDeep r := by
  refine (checkBuffer_ne_tooDeep sourceType _).mpr (fun f hf => ?_) r
  rw [bufferFault?_encode] at hf
  exact fault?_of_ample_limit h hf

theorem checkBuffer_mono {low high : Nat} (hle : low ≤ high)
    (h : ∀ r, checkBuffer ⟨sourceType, low⟩ buffer ≠ .tooDeep r) :
    checkBuffer ⟨sourceType, high⟩ buffer = checkBuffer ⟨sourceType, low⟩ buffer := by
  rw [checkBuffer, checkBuffer, bufferFault?_mono _ _ hle ((checkBuffer_ne_tooDeep _ _).mp h)]

/-- The limit cuts a check off below a threshold and does nothing else. -/
theorem limit_cuts_off :
    (∀ low high, low ≤ high → (∀ r, checkBuffer ⟨sourceType, low⟩ buffer ≠ .tooDeep r) →
      checkBuffer ⟨sourceType, high⟩ buffer = checkBuffer ⟨sourceType, low⟩ buffer) ∧
    ∃ threshold, (∀ limit < threshold, ∃ r, checkBuffer ⟨sourceType, limit⟩ buffer = .tooDeep r) ∧
      ∀ limit ≥ threshold, checkBuffer ⟨sourceType, limit⟩ buffer = checkBuffer ⟨sourceType, threshold⟩ buffer ∧
        ∀ r, checkBuffer ⟨sourceType, limit⟩ buffer ≠ .tooDeep r := by
  classical
  have hexists : ∃ limit, ∀ r, checkBuffer ⟨sourceType, limit⟩ buffer ≠ .tooDeep r :=
    (exists_ample_limit sourceType (buffer ++ sentinel)).imp fun _ h => (checkBuffer_ne_tooDeep _ _).mpr h
  refine ⟨fun low high hle h => checkBuffer_mono _ _ hle h, Nat.find hexists, ?_, ?_⟩
  · intro limit hlt
    exact Classical.not_forall_not.mp (Nat.find_min hexists hlt)
  · intro limit hge
    have heq := checkBuffer_mono _ _ hge (Nat.find_spec hexists)
    exact ⟨heq, heq ▸ Nat.find_spec hexists⟩

/-- A block in a block takes four levels, and more make no difference. -/
theorem limit_cuts_off_blocks :
    (∀ r, checkBuffer ⟨.script, 4⟩ [123, 123, 125, 125] ≠ .tooDeep r) ∧
      checkBuffer ⟨.script, 1024⟩ [123, 123, 125, 125] = checkBuffer ⟨.script, 4⟩ [123, 123, 125, 125] := by
  have hok : checkBuffer ⟨.script, 4⟩ [123, 123, 125, 125] = .ok := by decide +kernel
  have hne : ∀ r, checkBuffer ⟨.script, 4⟩ [123, 123, 125, 125] ≠ .tooDeep r := by rw [hok]; nofun
  exact ⟨hne, (limit_cuts_off .script [123, 123, 125, 125]).1 4 1024 (by decide) hne⟩

end EcmaCheck
