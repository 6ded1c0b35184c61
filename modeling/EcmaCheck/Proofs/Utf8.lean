import EcmaCheck.Proofs.Place
import EcmaCheck.Utf8

/-!
# Encoded texts

Decoding gives back the text that was encoded, with nothing left (`decodePrefix_encode`). Of any bytes, what is decoded
is what they encode up to where decoding stops (`encode_decodePrefix`).
-/

namespace EcmaCheck.Utf8

/-- A text as UTF-8. -/
def encode (text : List Char) : List UInt8 :=
  text.flatMap String.utf8EncodeChar

theorem encode_append (text more : List Char) : encode (text ++ more) = encode text ++ encode more :=
  List.flatMap_append

theorem length_encode (text : List Char) : (encode text).length = byteLength text := by
  induction text with
  | nil => rfl
  | cons c rest ih =>
    change (String.utf8EncodeChar c ++ encode rest).length = c.utf8Size + byteLength rest
    rw [List.length_append, String.length_utf8EncodeChar, ih]

/-! ## Bytes -/

theorem decodeTail?_cons {n : Nat} (least value count : Nat) (rest : List UInt8) (hn : n < 0x40) :
    decodeTail? least value (count + 1) (UInt8.ofNat (n + 0x80) :: rest) =
      decodeTail? least (64 * value + n) count rest := by
  have hnat : (UInt8.ofNat (n + 0x80)).toNat = n + 0x80 := UInt8.toNat_ofNat_of_lt' (by simp only [UInt8.size]; omega)
  have htail : isTail (UInt8.ofNat (n + 0x80)) = true := by
    simp only [isTail, Bool.and_eq_true, decide_eq_true_eq, UInt8.le_iff_toNat_le, UInt8.lt_iff_toNat_lt, hnat]
    exact ⟨Nat.le_add_left _ _, Nat.add_lt_add_right hn 0x80⟩
  rw [decodeTail?, if_pos htail, hnat, Nat.add_sub_cancel]

theorem decodeTail?_zero {least value : Nat} {c : Char} (rest : List UInt8) (hc : value = c.toNat) (h : least ≤ value) :
    decodeTail? least value 0 rest = some (c, rest) := by
  have hvalid : value.isValidChar := hc ▸ c.valid
  simp only [decodeTail?, h, hvalid, decide_true, Bool.and_self, if_true]
  rw [hc, Char.ofNat_toNat]

theorem decodeFirst?_cons {n : Nat} (rest : List UInt8) (hn : n < 0x100) :
    decodeFirst? (UInt8.ofNat n :: rest) =
      if n < 0x80 then some (Char.ofNat n, rest)
      else if 0xC0 ≤ n ∧ n < 0xE0 then decodeTail? 0x80 (n - 0xC0) 1 rest
      else if 0xE0 ≤ n ∧ n < 0xF0 then decodeTail? 0x800 (n - 0xE0) 2 rest
      else if 0xF0 ≤ n ∧ n < 0xF8 then decodeTail? 0x10000 (n - 0xF0) 3 rest
      else none := by
  have hnat : (UInt8.ofNat n).toNat = n := UInt8.toNat_ofNat_of_lt' hn
  simp only [decodeFirst?, Bool.and_eq_true, decide_eq_true_eq, UInt8.le_iff_toNat_le, UInt8.lt_iff_toNat_lt, hnat]
  rfl

/-- The encoding of a character is decoded. -/
theorem decodeFirst?_encode (c : Char) (rest : List UInt8) :
    decodeFirst? (String.utf8EncodeChar c ++ rest) = some (c, rest) := by
  have hmax : c.val.toNat < 0x110000 := by
    have hvalid : c.val.toNat < 0xd800 ∨ 0xdfff < c.val.toNat ∧ c.val.toNat < 0x110000 := c.valid
    omega
  fun_cases String.utf8EncodeChar c with
  | case1 v hv =>
    rw [List.cons_append, decodeFirst?_cons _ (by omega), if_pos (by omega)]
    exact congrArg (fun d => some (d, rest)) (Char.ofNat_toNat c)
  | case2 v hone hv =>
    rw [List.cons_append, decodeFirst?_cons _ (by omega), if_neg (by omega), if_pos (by omega), Nat.add_sub_cancel,
      List.cons_append, decodeTail?_cons _ _ _ _ (by omega)]
    exact decodeTail?_zero rest (by change _ = v; omega) (by omega)
  | case3 v hone htwo hv =>
    rw [List.cons_append, decodeFirst?_cons _ (by omega), if_neg (by omega), if_neg (by omega), if_pos (by omega),
      Nat.add_sub_cancel, List.cons_append, decodeTail?_cons _ _ _ _ (by omega), List.cons_append,
      decodeTail?_cons _ _ _ _ (by omega)]
    exact decodeTail?_zero rest (by change _ = v; omega) (by omega)
  | case4 v hone htwo hthree =>
    have hv : v < 0x110000 := hmax
    rw [List.cons_append, decodeFirst?_cons _ (by omega), if_neg (by omega), if_neg (by omega), if_neg (by omega),
      if_pos (by omega), Nat.add_sub_cancel, List.cons_append, decodeTail?_cons _ _ _ _ (by omega), List.cons_append,
      decodeTail?_cons _ _ _ _ (by omega), List.cons_append, decodeTail?_cons _ _ _ _ (by omega)]
    exact decodeTail?_zero rest (by change _ = v; omega) (by omega)

/-! ## Characters that are decoded -/

theorem toNat_ofNat {n : Nat} (h : n.isValidChar) : (Char.ofNat n).val.toNat = n := by
  unfold Char.ofNat
  rw [dif_pos h]
  rfl

theorem eq_of_isTail {b : UInt8} (h : isTail b = true) : ∃ n < 0x40, b = UInt8.ofNat (n + 0x80) := by
  simp only [isTail, Bool.and_eq_true, decide_eq_true_eq, UInt8.le_iff_toNat_le, UInt8.lt_iff_toNat_lt] at h
  have hle : 0x80 ≤ b.toNat := h.1
  have hlt : b.toNat < 0xC0 := h.2
  refine ⟨b.toNat - 0x80, by omega, ?_⟩
  rw [Nat.sub_add_cancel hle, UInt8.ofNat_toNat]

theorem eq_of_decodeTail?_succ {least value count : Nat} {bytes rest : List UInt8} {c : Char}
    (h : decodeTail? least value (count + 1) bytes = some (c, rest)) :
    ∃ n < 0x40, ∃ more, bytes = UInt8.ofNat (n + 0x80) :: more ∧
      decodeTail? least (64 * value + n) count more = some (c, rest) := by
  cases bytes with
  | nil => cases h
  | cons b more =>
    by_cases htail : isTail b = true
    · obtain ⟨n, hn, rfl⟩ := eq_of_isTail htail
      rw [decodeTail?_cons _ _ _ _ hn] at h
      exact ⟨n, hn, more, rfl, h⟩
    · rw [decodeTail?, if_neg htail] at h
      cases h

theorem eq_of_decodeTail?_zero {least value : Nat} {bytes rest : List UInt8} {c : Char}
    (h : decodeTail? least value 0 bytes = some (c, rest)) : bytes = rest ∧ c.val.toNat = value ∧ least ≤ value := by
  rw [decodeTail?] at h
  split at h
  · rename_i hvalid
    simp only [Bool.and_eq_true, decide_eq_true_eq] at hvalid
    cases h
    exact ⟨rfl, toNat_ofNat hvalid.2, hvalid.1⟩
  · cases h

/-- What is decoded as a character is its encoding. -/
theorem eq_of_decodeFirst? {bytes rest : List UInt8} {c : Char} (h : decodeFirst? bytes = some (c, rest)) :
    bytes = String.utf8EncodeChar c ++ rest := by
  cases bytes with
  | nil => cases h
  | cons b more =>
    obtain ⟨m, hm, rfl⟩ : ∃ m < 0x100, b = UInt8.ofNat m := ⟨b.toNat, b.toNat_lt, (UInt8.ofNat_toNat).symm⟩
    rw [decodeFirst?_cons _ hm] at h
    split at h
    · rename_i hone
      obtain ⟨rfl, rfl⟩ := Prod.mk.inj (Option.some.inj h)
      have hc : (Char.ofNat m).val.toNat = m := toNat_ofNat (.inl (by omega))
      rw [String.utf8EncodeChar]
      simp only [hc]
      rw [if_pos (by omega)]
      rfl
    · split at h
      · rename_i htwo
        obtain ⟨n, hn, more, rfl, h₁⟩ := eq_of_decodeTail?_succ h
        obtain ⟨rfl, hc, hleast⟩ := eq_of_decodeTail?_zero h₁
        rw [String.utf8EncodeChar]
        simp only [hc]
        rw [if_neg (by omega), if_pos (by omega), show (64 * (m - 192) + n) / 64 % 32 + 192 = m by omega,
          show (64 * (m - 192) + n) % 64 = n by omega]
        rfl
      · split at h
        · rename_i hthree
          obtain ⟨n, hn, more, rfl, h₁⟩ := eq_of_decodeTail?_succ h
          obtain ⟨n', hn', more, rfl, h₂⟩ := eq_of_decodeTail?_succ h₁
          obtain ⟨rfl, hc, hleast⟩ := eq_of_decodeTail?_zero h₂
          rw [String.utf8EncodeChar]
          simp only [hc]
          rw [if_neg (by omega), if_neg (by omega), if_pos (by omega),
            show (64 * (64 * (m - 224) + n) + n') / 4096 % 16 + 224 = m by omega,
            show (64 * (64 * (m - 224) + n) + n') / 64 % 64 = n by omega,
            show (64 * (64 * (m - 224) + n) + n') % 64 = n' by omega]
          rfl
        · split at h
          · rename_i hfour
            obtain ⟨n, hn, more, rfl, h₁⟩ := eq_of_decodeTail?_succ h
            obtain ⟨n', hn', more, rfl, h₂⟩ := eq_of_decodeTail?_succ h₁
            obtain ⟨n'', hn'', more, rfl, h₃⟩ := eq_of_decodeTail?_succ h₂
            obtain ⟨rfl, hc, hleast⟩ := eq_of_decodeTail?_zero h₃
            rw [String.utf8EncodeChar]
            simp only [hc]
            rw [if_neg (by omega), if_neg (by omega), if_neg (by omega),
              show (64 * (64 * (64 * (m - 240) + n) + n') + n'') / 262144 % 8 + 240 = m by omega,
              show (64 * (64 * (64 * (m - 240) + n) + n') + n'') / 4096 % 64 = n by omega,
              show (64 * (64 * (64 * (m - 240) + n) + n') + n'') / 64 % 64 = n' by omega,
              show (64 * (64 * (64 * (m - 240) + n) + n') + n'') % 64 = n'' by omega]
            rfl
          · cases h

/-! ## Texts -/

theorem decodeFrom_encode (before text : List Char) :
    decodeFrom before (encode text) = (before.reverse ++ text, []) := by
  induction text generalizing before with
  | nil => rw [decodeFrom, List.append_nil]; rfl
  | cons c text ih =>
    have hfirst : decodeFirst? (encode (c :: text)) = some (c, encode text) := decodeFirst?_encode c (encode text)
    rw [decodeFrom]
    split
    · rename_i d rest h
      obtain ⟨rfl, rfl⟩ := Prod.mk.inj (Option.some.inj (hfirst.symm.trans h))
      rw [ih, List.reverse_cons, List.append_assoc]
      rfl
    · rename_i h
      cases hfirst.symm.trans h

theorem decodePrefix_encode (text : List Char) : decodePrefix (encode text) = (text, []) :=
  decodeFrom_encode [] text

/-! ## Prefixes -/

/-- What was decoded is encoded before what is left, and with that no character begins. -/
theorem decodeFrom_spec (before : List Char) (bytes : List UInt8) :
    (∃ text, (decodeFrom before bytes).1 = before.reverse ++ text ∧
      bytes = encode text ++ (decodeFrom before bytes).2) ∧
      decodeFirst? (decodeFrom before bytes).2 = none := by
  fun_induction decodeFrom before bytes with
  | case1 before bytes c rest h ih =>
    obtain ⟨⟨text, htext, hbytes⟩, hnone⟩ := ih
    refine ⟨⟨c :: text, ?_, ?_⟩, hnone⟩
    · rw [htext, List.reverse_cons, List.append_assoc]
      rfl
    · have hencode : encode (c :: text) = String.utf8EncodeChar c ++ encode text := rfl
      rw [hencode, List.append_assoc, ← hbytes]
      exact eq_of_decodeFirst? h
  | case2 before bytes h => exact ⟨⟨[], (List.append_nil _).symm, rfl⟩, h⟩

theorem encode_decodePrefix (bytes : List UInt8) :
    encode (decodePrefix bytes).1 ++ (decodePrefix bytes).2 = bytes := by
  obtain ⟨⟨text, htext, hbytes⟩, _⟩ := decodeFrom_spec [] bytes
  have htext : (decodePrefix bytes).1 = text := htext
  rw [htext]
  exact hbytes.symm

/-- The bytes before those that are left encode what was decoded. -/
theorem take_decodePrefix (bytes : List UInt8) :
    bytes.take (bytes.length - (decodePrefix bytes).2.length) = encode (decodePrefix bytes).1 := by
  have hbytes := encode_decodePrefix bytes
  generalize decodePrefix bytes = r at hbytes ⊢
  rw [← hbytes, List.length_append, Nat.add_sub_cancel, List.take_left']
  rfl

theorem decodeFirst?_decodePrefix (bytes : List UInt8) : decodeFirst? (decodePrefix bytes).2 = none :=
  (decodeFrom_spec [] bytes).2

/-! ## Last characters -/

theorem toNat_byte {n : Nat} (hn : n < 0x100) : (UInt8.ofNat n).toNat = n :=
  UInt8.toNat_ofNat_of_lt' (by simp only [UInt8.size]; omega)

/-- Only the encoding of an ASCII character ends with an ASCII byte. -/
theorem eq_of_encodeChar {c : Char} {bytes : List UInt8} {n : Nat} (hn : n < 0x80)
    (h : String.utf8EncodeChar c = bytes ++ [UInt8.ofNat n]) : bytes = [] ∧ c = Char.ofNat n := by
  have hlast : (String.utf8EncodeChar c).getLast? = some (UInt8.ofNat n) := by rw [h, List.getLast?_concat]
  have hbyte {m : Nat} (hm : some (UInt8.ofNat (m % 64 + 128)) = some (UInt8.ofNat n)) : False := by
    have hnat := congrArg UInt8.toNat (Option.some.inj hm)
    rw [toNat_byte (by omega), toNat_byte (by omega)] at hnat
    omega
  revert h hlast
  fun_cases String.utf8EncodeChar c with
  | case1 v hv =>
    intro h hlast
    have hbytes : bytes = [] := by
      cases bytes with
      | nil => rfl
      | cons b bs => cases bs <;> cases h
    have hbyte : UInt8.ofNat v = UInt8.ofNat n := Option.some.inj hlast
    have hnat := congrArg UInt8.toNat hbyte
    rw [toNat_byte (by omega), toNat_byte (by omega)] at hnat
    exact ⟨hbytes, hnat ▸ (Char.ofNat_toNat c).symm⟩
  | case2 => exact fun _ hlast => (hbyte hlast).elim
  | case3 => exact fun _ hlast => (hbyte hlast).elim
  | case4 => exact fun _ hlast => (hbyte hlast).elim

/-- A text whose encoding ends with an ASCII byte ends with that character. -/
theorem eq_of_encode {text : List Char} {bytes : List UInt8} {n : Nat} (hn : n < 0x80)
    (h : encode text = bytes ++ [UInt8.ofNat n]) : ∃ own, text = own ++ [Char.ofNat n] ∧ encode own = bytes := by
  rcases List.eq_nil_or_concat text with rfl | ⟨own, c, rfl⟩
  · cases bytes <;> cases h
  · have hencode : encode (own ++ [c]) = encode own ++ String.utf8EncodeChar c := by
      rw [encode_append]
      exact congrArg (encode own ++ ·) (List.append_nil _)
    rw [List.concat_eq_append, hencode] at h
    rcases List.eq_nil_or_concat (String.utf8EncodeChar c) with hnil | ⟨more, b, hmore⟩
    · have hsize := String.length_utf8EncodeChar c
      rw [hnil] at hsize
      exact absurd hsize.symm (Nat.ne_of_gt (Char.utf8Size_pos c))
    · rw [List.concat_eq_append] at hmore
      rw [hmore, ← List.append_assoc] at h
      obtain ⟨hbefore, hb⟩ := List.append_inj' h rfl
      cases hb
      obtain ⟨rfl, rfl⟩ := eq_of_encodeChar hn hmore
      exact ⟨own, List.concat_eq_append, (List.append_nil _).symm.trans hbefore⟩

end EcmaCheck.Utf8
