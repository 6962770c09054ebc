import GlobSieve.Config
import GlobSieve.Literal.Error

/-!
# Scanners

An engine finds needles through a `Scanner`: something that takes literals, answers each with an id, and later lists
the ids of the literals that it sees in a text. Nothing is assumed of the answers. Ids may be shared or skipped, a scan
may repeat ids or list ones that were never given; a scanner that misses a literal can hide a match and nothing else.
-/

namespace GlobSieve

/-- A way to find literals in a text. -/
structure Scanner where
  /-- What collects literals. -/
  Builder : Type
  /-- What scans texts. -/
  Built : Type
  start : Config → Builder
  /-- Offer a literal. The answer, and the builder for the next one. -/
  add : Builder → Bytes → Except LiteralError Nat × Builder
  finish : Builder → Except LiteralError Built
  /-- The ids of the literals seen in a text. -/
  scan : Built → Bytes → List Nat
  stateCount : Built → Nat
  /-- What the scanner finds wrong with itself. -/
  problems : Built → List String

end GlobSieve
