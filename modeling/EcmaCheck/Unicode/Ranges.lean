/-!
# Sets of code points

A set of code points is a list of ranges, both ends included; a character belongs to it when some range holds its
code point (`inRanges_iff`).
-/

namespace EcmaCheck.Unicode

/-- Whether the code point of `c` lies in one of the ranges, whose ends are included. -/
def inRanges (ranges : List (Nat × Nat)) (c : Char) : Bool :=
  ranges.any fun range => range.1 ≤ c.toNat && c.toNat ≤ range.2

theorem inRanges_iff {ranges : List (Nat × Nat)} {c : Char} :
    inRanges ranges c = true ↔ ∃ range ∈ ranges, range.1 ≤ c.toNat ∧ c.toNat ≤ range.2 := by
  simp [inRanges]

end EcmaCheck.Unicode
