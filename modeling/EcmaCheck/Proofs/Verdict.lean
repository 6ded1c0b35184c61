import EcmaCheck.Proofs.Check
import EcmaCheck.Proofs.Division

/-!
# Verdicts

Whatever its bytes, a buffer is found to be a program, to be none, or to nest too deep (`buffer_gets_verdict`). No fault
is internal: the turns of repetitions suffice, and the labels attached to a loop are always there to be marked. What is
cut out of the buffer lies in it: the lexemes of tokens, and the bytes before the first that are not UTF-8.
-/

namespace EcmaCheck

/-- The outcome tells of the text, under the kind of its error. -/
def Outcome.IsVerdict : Outcome → Prop
  | ok => True
  | invalid r => r.kind = .lexical ∨ r.kind = .grammatical
  | tooDeep r => r.kind = .tooDeep
  | internalError _ => False

theorem Outcome.isVerdict_of_fault? {f? : Option Fault} (h : ∀ f, f? = some f → f.diagnostic.kind ≠ .internal) :
    (ofFault? f?).IsVerdict := by
  cases f? with
  | none => trivial
  | some f =>
    cases f with
    | lexical => exact .inl rfl
    | grammatical => exact .inr rfl
    | tooDeep => exact rfl
    | stalled | labelsMissing => exact absurd rfl (h _ rfl)

/-! ## Buffers that are not UTF-8 -/

theorem Position.offset_seek_le (sentinel : Bool) (offset : Nat) (p : Position) (text : List Char) :
    (p.seek sentinel offset text).offset ≤ p.offset + byteLength text := by
  induction text generalizing p with
  | nil => exact Nat.le_refl _
  | cons c rest ih =>
    rw [seek]
    split
    · refine Nat.le_trans (ih _) (Nat.le_of_eq ?_)
      rw [offset_step, byteLength, Nat.add_assoc]
    · exact Nat.le_add_right _ _

theorem offset_positionAt_le (text : List Char) (offset : Nat) : (positionAt text offset).offset ≤ byteLength text := by
  refine Nat.le_trans (Position.offset_seek_le ..) ?_
  rw [Position.start, Nat.zero_add]
  unfold Source.ofText
  split
  · rw [List.dropLast_eq_take]
    exact byteLength_take_le text _
  · exact Nat.le_refl _

/-- If decoding stops, it stops before the sentinel. -/
theorem byteLength_decodePrefix_le {buffer undecoded : List UInt8} {text : List Char}
    (h : Utf8.decodePrefix (buffer ++ sentinel) = (text, undecoded)) (hundecoded : undecoded ≠ []) :
    byteLength text ≤ buffer.length := by
  have hbytes := Utf8.encode_decodePrefix (buffer ++ sentinel)
  have hnone := Utf8.decodeFirst?_decodePrefix (buffer ++ sentinel)
  rw [h] at hbytes hnone
  have hlength : byteLength text + undecoded.length = buffer.length + 2 := by
    rw [← Utf8.length_encode, ← List.length_append, hbytes, List.length_append]
    rfl
  match undecoded, hundecoded with
  | [b], _ =>
    -- the last byte is the NUL, which is a character
    have hlast : some b = some 0 := by
      have h := congrArg List.getLast? hbytes
      rwa [List.getLast?_concat, sentinel, List.getLast?_append] at h
    cases hlast
    cases hnone
  | _ :: _ :: _, _ =>
    simp only [List.length_cons] at hlength
    omega

/-! ## Verdicts -/

/-- A buffer with its sentinel that is UTF-8 to the end is the encoding of a text, with the sentinel behind it. -/
theorem exists_text_of_decodePrefix {buffer : List UInt8} {text : List Char}
    (h : Utf8.decodePrefix (buffer ++ sentinel) = (text, [])) :
    ∃ own, Utf8.encode own = buffer ∧ text = own ++ ['\n', '\x00'] := by
  have hbytes := Utf8.encode_decodePrefix (buffer ++ sentinel)
  rw [h, List.append_nil] at hbytes
  have hlast : Utf8.encode text = (buffer ++ [10]) ++ [0] := by
    rw [hbytes, List.append_assoc]
    rfl
  obtain ⟨lines, rfl, hlines⟩ := Utf8.eq_of_encode (n := 0) (by decide) hlast
  obtain ⟨own, rfl, hown⟩ := Utf8.eq_of_encode (n := 10) (by decide) hlines
  exact ⟨own, hown, List.append_assoc ..⟩

/-- A fault of a buffer is that it is not UTF-8, at a place in it, or one of its text. -/
theorem bufferFault_cases {options : Options} {buffer : List UInt8} {f : Fault}
    (h : bufferFault? options (buffer ++ sentinel) = some f) :
    (∃ p, f = .lexical .invalidUtf8 p ∧ p.offset ≤ buffer.length) ∨ ∃ text, Utf8.encode text = buffer ∧ f.In text := by
  rcases hdecode : Utf8.decodePrefix (buffer ++ sentinel) with ⟨text, undecoded⟩
  by_cases hundecoded : undecoded = []
  · subst hundecoded
    obtain ⟨own, rfl, rfl⟩ := exists_text_of_decodePrefix hdecode
    rw [bufferFault?_encode] at h
    exact .inr ⟨own, rfl, fault_in h⟩
  · unfold bufferFault? at h
    rw [hdecode] at h
    have hsome : undecoded.isEmpty = false := Bool.eq_false_iff.mpr (mt List.isEmpty_iff.mp hundecoded)
    dsimp only at h
    rw [hsome, if_neg Bool.false_ne_true] at h
    cases h
    exact .inl ⟨_, rfl, Nat.le_trans (offset_positionAt_le ..) (byteLength_decodePrefix_le hdecode hundecoded)⟩

/-- A fault of a buffer tells of its text, at a place in it. -/
theorem bufferFault_in {options : Options} {buffer : List UInt8} {f : Fault}
    (h : bufferFault? options (buffer ++ sentinel) = some f) :
    f.diagnostic.kind ≠ .internal ∧ f.position.offset ≤ buffer.length := by
  obtain ⟨p, rfl, hp⟩ | ⟨text, rfl, ⟨n, hn, _, hp⟩, hkind, _⟩ := bufferFault_cases h
  · exact ⟨nofun, hp⟩
  · refine ⟨hkind, ?_⟩
    rw [hp, offset_placeAt hn, Utf8.length_encode]
    exact byteLength_take_le text n

/-- Every buffer gets a verdict on its syntax, of the right kind, and with a place in the buffer if it is no program.
What is decoded of the buffer is what the bytes before the first that are not UTF-8 encode; and when all of it is
decoded, the lexemes of the tokens that are passed or reached are cut out of it. -/
theorem buffer_gets_verdict (options : Options) (buffer : List UInt8) :
    (checkBuffer options buffer).IsVerdict ∧
      (∀ f, bufferFault? options (buffer ++ sentinel) = some f →
        f.diagnostic.kind ≠ .internal ∧ ∃ p, f.diagnostic.position? = some p ∧ p.offset ≤ buffer.length) ∧
      (∀ text undecoded, Utf8.decodePrefix (buffer ++ sentinel) = (text, undecoded) →
        undecoded.length ≤ (buffer ++ sentinel).length ∧
          (buffer ++ sentinel).take ((buffer ++ sentinel).length - undecoded.length) = Utf8.encode text) ∧
      ∀ text, Utf8.encode text = buffer →
        let s := Grammar.finalState (Grammar.run (options.sourceType = .module) options.maxDepth (.carrying text true))
        ∀ t ∈ s.token :: s.consumed, Grammar.Covers text t := by
  refine ⟨?_, ?_, ?_, ?_⟩
  · exact Outcome.isVerdict_of_fault? fun f h => (bufferFault_in h).1
  · intro f h
    obtain ⟨hkind, hoffset⟩ := bufferFault_in h
    exact ⟨hkind, f.position, f.position?_diagnostic, hoffset⟩
  · intro text undecoded hdecode
    have hlength := Utf8.length_decodePrefix_le (buffer ++ sentinel)
    have htake := Utf8.take_decodePrefix (buffer ++ sentinel)
    rw [hdecode] at hlength htake
    exact ⟨hlength, htake⟩
  · rintro text rfl
    have hpassed := Grammar.passed_finalState (options.sourceType = .module) options.maxDepth text true
    exact List.forall_mem_cons.mpr ⟨hpassed.covers, fun t ht => (hpassed.consumed t ht).2⟩

/-- The last character of this buffer is cut short. -/
example : checkBuffer {} [0x61, 0xC3] = .invalid ⟨.lexical, 1, 2, 1, "Invalid UTF-8 sequence"⟩ := by decide +kernel

end EcmaCheck
