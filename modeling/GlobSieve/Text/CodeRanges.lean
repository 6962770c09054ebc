/-!
# Sets of characters by ranges of codes

A property of characters is written down as the closed ranges of the codes that have it, in ascending order and apart
from each other, so a search ends at the first range that lies beyond the code (`CodeRanges.has`).
-/

namespace GlobSieve.Text

/-- Closed ranges of character codes, each by its first and its last. -/
abbrev CodeRanges := List (Nat × Nat)

/-- Whether a code is in one of the ranges. -/
def CodeRanges.has : CodeRanges → Nat → Bool
  | [], _ => false
  | (first, last) :: rs, n => if n < first then false else n ≤ last || has rs n

end GlobSieve.Text
