/-!
# Ranges of code points

Character classes that reach beyond ASCII are sorted lists of inclusive ranges of code points.
-/

namespace SchemaTree.Text

/-- Whether a code point lies in one of the ranges. -/
def inRanges (ranges : List (Nat × Nat)) (code : Nat) : Bool :=
  ranges.any fun (low, high) => low ≤ code && code ≤ high

end SchemaTree.Text
