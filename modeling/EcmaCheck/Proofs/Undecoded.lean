import EcmaCheck.Proofs.Verdict

/-!
# Bytes that are not UTF-8

Decoding stops behind the longest prefix that encodes a text (`decodePrefix_longest`), and a buffer with more bytes than
that is a lexical error there, at the line and column that the decoded text gives the place (`undecoded_place`). But a
decoded text that ends in a line feed and a NUL is taken to carry a sentinel, although it is only a part of the buffer:
then the error is placed before the NUL, and a CR before the line feed ends a line of its own.
-/

namespace EcmaCheck

/-! ## How far decoding comes -/

namespace Utf8

theorem decodeFrom_append (before text : List Char) (bytes : List UInt8) :
    decodeFrom before (encode text ++ bytes) = decodeFrom (text.reverse ++ before) bytes := by
  induction text generalizing before with
  | nil => rfl
  | cons c text ih =>
    have hfirst : decodeFirst? (encode (c :: text) ++ bytes) = some (c, encode text ++ bytes) := by
      have hencode : encode (c :: text) = String.utf8EncodeChar c ++ encode text := rfl
      rw [hencode, List.append_assoc, decodeFirst?_encode]
    have hstep : decodeFrom before (encode (c :: text) ++ bytes) = decodeFrom (c :: before) (encode text ++ bytes) := by
      rw [decodeFrom]
      split
      · rename_i h
        cases hfirst.symm.trans h
        rfl
      · rename_i h
        cases hfirst.symm.trans h
    rw [hstep, ih, List.reverse_cons, List.append_assoc]
    rfl

/-- A text that a prefix encodes is decoded first. -/
theorem prefix_decodePrefix {bytes : List UInt8} {text : List Char} (h : encode text <+: bytes) :
    text <+: (decodePrefix bytes).1 := by
  obtain ⟨rest, rfl⟩ := h
  obtain ⟨⟨more, hmore, _⟩, _⟩ := decodeFrom_spec (text.reverse ++ []) rest
  rw [decodePrefix, decodeFrom_append, hmore, List.reverse_append, List.reverse_reverse]
  exact ⟨more, rfl⟩

/-- No longer prefix is UTF-8. -/
theorem decodePrefix_longest {bytes : List UInt8} {text : List Char} (h : encode text <+: bytes) :
    encode text <+: encode (decodePrefix bytes).1 := by
  obtain ⟨more, hmore⟩ := prefix_decodePrefix h
  exact ⟨encode more, by rw [← encode_append, hmore]⟩

end Utf8

/-! ## Ends of texts -/

/-- An offset that the text does not reach beyond is found behind all of it. -/
theorem Position.seek_eq_advance {sentinel : Bool} {offset : Nat} {p : Position} {text : List Char}
    (h : p.offset + byteLength text ≤ offset) : p.seek sentinel offset text = p.advance sentinel text.length text := by
  induction text generalizing p with
  | nil => rfl
  | cons c rest ih =>
    have hc : 0 < c.utf8Size := Char.utf8Size_pos c
    have hlength : byteLength (c :: rest) = c.utf8Size + byteLength rest := rfl
    rw [seek, if_pos (by omega), List.length_cons, advance]
    exact ih (by rw [offset_step]; omega)

theorem Position.advance_sentinel (p : Position) (text : List Char) :
    p.advance true (text.length + 1) (text ++ ['\n']) =
      (p.advance false text.length text).step true '\n' [] := by
  induction text generalizing p with
  | nil => rfl
  | cons c rest ih =>
    rw [List.length_cons, List.cons_append, advance, step_sentinel]
    exact ih _

theorem positionAt_end {text : List Char} (h : ¬ ['\n', '\x00'] <:+ text) :
    positionAt text (byteLength text) = placeAt text text.length := by
  rw [positionAt, Source.ofText_plain h]
  exact Position.seek_eq_advance (Nat.le_of_eq (Nat.zero_add _))

/-- The NUL of what is taken for a sentinel is not reached. -/
theorem positionAt_end_sentinel (own : List Char) :
    positionAt (own ++ ['\n', '\x00']) (byteLength (own ++ ['\n', '\x00'])) =
      ⟨(placeAt own own.length).line + 1, 1, (placeAt own own.length).offset + 1⟩ := by
  have hlength (c : Char) : byteLength (own ++ [c]) = byteLength own + c.utf8Size := byteLength_append own [c]
  have hle : Position.start.offset + byteLength (own ++ ['\n']) ≤ byteLength (own ++ ['\n', '\x00']) := by
    rw [hlength, byteLength_append, Position.start, Nat.zero_add]
    exact Nat.add_le_add_left (by decide) _
  rw [positionAt, Source.ofText_sentinel]
  refine (Position.seek_eq_advance hle).trans ?_
  rw [List.length_append]
  exact Position.advance_sentinel .start own

/-! ## Errors -/

/-- A buffer that is not UTF-8 is decoded up to bytes with which no character begins. -/
theorem decodePrefix_of_undecodable {buffer : List UInt8} (h : ∀ text, Utf8.encode text ≠ buffer) :
    ∃ text undecoded, Utf8.decodePrefix (buffer ++ sentinel) = (text, undecoded) ∧ undecoded ≠ [] ∧
      Utf8.encode text <+: buffer ∧ (buffer ++ sentinel).length - undecoded.length = byteLength text := by
  rcases hdecode : Utf8.decodePrefix (buffer ++ sentinel) with ⟨text, undecoded⟩
  have hundecoded : undecoded ≠ [] := by
    rintro rfl
    obtain ⟨own, hown, _⟩ := exists_text_of_decodePrefix hdecode
    exact h own hown
  have hbytes := Utf8.encode_decodePrefix (buffer ++ sentinel)
  rw [hdecode] at hbytes
  refine ⟨text, undecoded, rfl, hundecoded, ?_, ?_⟩
  · have hle := byteLength_decodePrefix_le hdecode hundecoded
    rw [← Utf8.length_encode] at hle
    exact List.prefix_of_prefix_length_le ⟨undecoded, hbytes⟩ (List.prefix_append ..) hle
  · rw [← hbytes, List.length_append, Nat.add_sub_cancel, Utf8.length_encode]

/-- A buffer that is not UTF-8 is a lexical error behind the longest prefix that encodes a text. The line and the column
are those of the end of that text. They are not if the text ends in a line feed and a NUL: then the error is placed
before the NUL, at the start of the line behind the line feed, and what stands before the line feed is a text of its
own. -/
theorem undecoded_place (options : Options) (buffer : List UInt8) (h : ∀ text, Utf8.encode text ≠ buffer) :
    ∃ text r, Utf8.encode text <+: buffer ∧
      (∀ more, Utf8.encode more <+: buffer → Utf8.encode more <+: Utf8.encode text) ∧
      checkBuffer options buffer = .invalid r ∧ r.kind = .lexical ∧
      (¬ ['\n', '\x00'] <:+ text →
        r.offset = (Utf8.encode text).length ∧ r.line = 1 + (lineEnds text text.length).length ∧
          r.column = 1 + (text.length - lineStart text text.length)) ∧
      ∀ own, text = own ++ ['\n', '\x00'] →
        r.offset + 1 = (Utf8.encode text).length ∧ r.line = 1 + (lineEnds own own.length).length + 1 ∧
          r.column = 1 := by
  obtain ⟨text, undecoded, hdecode, hundecoded, hprefix, hoffset⟩ := decodePrefix_of_undecodable h
  have hsome : undecoded.isEmpty = false := Bool.eq_false_iff.mpr (mt List.isEmpty_iff.mp hundecoded)
  have hfault : bufferFault? options (buffer ++ sentinel) =
      some (.lexical .invalidUtf8 (positionAt text (byteLength text))) := by
    rw [bufferFault?, hdecode]
    dsimp only
    rw [hsome, if_neg Bool.false_ne_true, hoffset]
  refine ⟨text, .ofDiagnostic (Fault.lexical .invalidUtf8 (positionAt text (byteLength text))).diagnostic, hprefix,
    fun more hmore => ?_, ?_, rfl, fun hplain => ?_, ?_⟩
  · have hlongest := Utf8.decodePrefix_longest (hmore.trans (List.prefix_append buffer sentinel))
    rwa [hdecode] at hlongest
  · rw [checkBuffer, hfault]
    rfl
  · rw [ErrorRecord.ofDiagnostic_fault, Fault.position, positionAt_end hplain, Utf8.length_encode]
    have hsplit : ¬ splitsPair text text.length := fun h => by
      have hnone := List.getElem?_eq_none (Nat.le_refl text.length)
      cases hnone.symm.trans h.2.2
    refine ⟨?_, line_placeAt (Nat.le_refl _), column_placeAt (Nat.le_refl _) hsplit⟩
    exact (offset_placeAt (Nat.le_refl _)).trans (congrArg byteLength (List.take_length ..))
  · rintro own rfl
    rw [ErrorRecord.ofDiagnostic_fault, Fault.position, positionAt_end_sentinel, Utf8.length_encode,
      line_placeAt (Nat.le_refl _), offset_placeAt (Nat.le_refl _), List.take_length, byteLength_append]
    exact ⟨rfl, rfl, rfl⟩

/-- The pair of CR and LF ends one line, but the error is placed on the third. -/
theorem undecoded_place_after_pair :
    (∀ text, Utf8.encode text ≠ [0x0D, 0x0A, 0x00, 0xFF]) ∧
      ∃ text r, Utf8.encode text <+: [0x0D, 0x0A, 0x00, 0xFF] ∧
        checkBuffer {} [0x0D, 0x0A, 0x00, 0xFF] = .invalid r ∧ (r.line, r.column, r.offset) = (3, 1, 2) ∧
        ∀ own, text = own ++ ['\n', '\x00'] → r.line = 1 + (lineEnds own own.length).length + 1 := by
  have h : ∀ text, Utf8.encode text ≠ [0x0D, 0x0A, 0x00, 0xFF] := fun text htext => by
    have hdecode := Utf8.decodePrefix_encode text
    rw [htext] at hdecode
    have hall : (Utf8.decodePrefix [0x0D, 0x0A, 0x00, 0xFF]).2 = [] := congrArg Prod.snd hdecode
    exact absurd hall (by decide +kernel)
  have hcheck : checkBuffer {} [0x0D, 0x0A, 0x00, 0xFF] = .invalid ⟨.lexical, 3, 1, 2, "Invalid UTF-8 sequence"⟩ := by
    decide +kernel
  obtain ⟨text, r, hprefix, _, hr, _, _, hsentinel⟩ := undecoded_place {} _ h
  cases hr.symm.trans hcheck
  exact ⟨h, text, _, hprefix, hcheck, rfl, fun own htext => (hsentinel own htext).2.1⟩

/-- The NUL is decoded, but the error is placed before it. -/
theorem undecoded_place_before_nul :
    Utf8.encode ['\n', '\x00'] <+: [0x0A, 0x00, 0xFF] ∧
      checkBuffer {} [0x0A, 0x00, 0xFF] = .invalid ⟨.lexical, 2, 1, 1, "Invalid UTF-8 sequence"⟩ := by
  decide +kernel

end EcmaCheck
