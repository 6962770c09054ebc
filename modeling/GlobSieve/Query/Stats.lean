/-!
# Counters of a query
-/

namespace GlobSieve

/-- What a query did. -/
structure MatchStats where
  fragmentsMatched : Nat
  /-- Meta-words with at least one fragment found. -/
  metaWordsChecked : Nat
  /-- Meta-words with all fragments found. -/
  metaWordsSatisfied : Nat
  /-- Patterns that passed the filter, those of wildcards alone included. -/
  candidates : Nat
  /-- Patterns that were matched against the text. -/
  globCalls : Nat
  hits : Nat
  deriving DecidableEq, Repr, Inhabited

namespace MatchStats

/-- A query that did nothing. -/
def zero : MatchStats := ⟨0, 0, 0, 0, 0, 0⟩

/-- The share of the patterns tried that matched; zero if none was tried. -/
def hitRate (s : MatchStats) : Float :=
  if s.globCalls = 0 then 0 else (UInt64.ofNat s.hits).toFloat / (UInt64.ofNat s.globCalls).toFloat

end MatchStats

end GlobSieve
