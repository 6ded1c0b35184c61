/-!
# UTF-8

`decodePrefix` decodes the longest prefix of a byte sequence that is UTF-8: each character in the fewest bytes, and no
surrogates. It gives the characters and the bytes that are left (`length_decodePrefix_le`).
-/

namespace EcmaCheck.Utf8

/-- Whether the byte continues a character. -/
def isTail (b : UInt8) : Bool :=
  0x80 ≤ b && b < 0xC0

/-- The character that `value`, the bits read so far, and `count` more bytes encode, and what follows it. Its code must
be at least `least`, or fewer bytes would do. -/
def decodeTail? (least value : Nat) : Nat → List UInt8 → Option (Char × List UInt8)
  | 0, rest => if least ≤ value && value.isValidChar then some (Char.ofNat value, rest) else none
  | _ + 1, [] => none
  | count + 1, b :: rest =>
    if isTail b then decodeTail? least (64 * value + (b.toNat - 0x80)) count rest else none

/-- The first character of a byte sequence and what follows it. -/
def decodeFirst? : List UInt8 → Option (Char × List UInt8)
  | [] => none
  | b :: rest =>
    if b < 0x80 then some (Char.ofNat b.toNat, rest)
    else if 0xC0 ≤ b && b < 0xE0 then decodeTail? 0x80 (b.toNat - 0xC0) 1 rest
    else if 0xE0 ≤ b && b < 0xF0 then decodeTail? 0x800 (b.toNat - 0xE0) 2 rest
    else if 0xF0 ≤ b && b < 0xF8 then decodeTail? 0x10000 (b.toNat - 0xF0) 3 rest
    else none

theorem decodeTail?_length {least value count : Nat} {bytes rest : List UInt8} {c : Char}
    (h : decodeTail? least value count bytes = some (c, rest)) : rest.length ≤ bytes.length := by
  induction count generalizing value bytes with
  | zero =>
    simp only [decodeTail?] at h
    split at h
    · cases h; exact Nat.le_refl _
    · cases h
  | succ count ih =>
    cases bytes with
    | nil => cases h
    | cons b bytes =>
      simp only [decodeTail?] at h
      split at h
      · exact Nat.le_succ_of_le (ih h)
      · cases h

theorem decodeFirst?_length {bytes rest : List UInt8} {c : Char} (h : decodeFirst? bytes = some (c, rest)) :
    rest.length < bytes.length := by
  cases bytes with
  | nil => cases h
  | cons b bytes =>
    simp only [decodeFirst?] at h
    refine Nat.lt_succ_of_le ?_
    repeat' split at h
    · cases h; exact Nat.le_refl _
    all_goals first | exact decodeTail?_length h | cases h

/-- Decodes as far as the bytes are UTF-8, after the characters in `before`, the last one first. -/
def decodeFrom (before : List Char) (bytes : List UInt8) : List Char × List UInt8 :=
  match _h : decodeFirst? bytes with
  | some (c, rest) => decodeFrom (c :: before) rest
  | none => (before.reverse, bytes)
termination_by bytes.length
decreasing_by exact decodeFirst?_length _h

/-- The characters of the longest prefix that is UTF-8, and the bytes after it. -/
def decodePrefix (bytes : List UInt8) : List Char × List UInt8 :=
  decodeFrom [] bytes

theorem length_decodeFrom_le (before : List Char) (bytes : List UInt8) :
    (decodeFrom before bytes).2.length ≤ bytes.length := by
  fun_induction decodeFrom before bytes with
  | case1 _ _ _ _ h ih => exact Nat.le_trans ih (Nat.le_of_lt (decodeFirst?_length h))
  | case2 => exact Nat.le_refl _

theorem length_decodePrefix_le (bytes : List UInt8) : (decodePrefix bytes).2.length ≤ bytes.length :=
  length_decodeFrom_le [] bytes

end EcmaCheck.Utf8
