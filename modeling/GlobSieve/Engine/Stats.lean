import GlobSieve.Engine.Basic

/-!
# Sizes and counters of an engine
-/

namespace GlobSieve

/-- The sizes of an engine's tables and its counters. -/
structure EngineStats where
  patterns : Nat
  wildcardOnly : Nat
  fragments : Nat
  literals : Nat
  metaWords : Nat
  scannerStates : Nat
  totalQueries : Nat
  lastGlobCalls : Nat
  deriving DecidableEq, Repr

/-- The statistics as four lines of text. -/
def EngineStats.render (s : EngineStats) : String :=
  "\n".intercalate
    [ s!"patterns: {s.patterns} ({s.wildcardOnly} wildcard-only)",
      s!"fragments: {s.fragments}, literals: {s.literals}, meta-words: {s.metaWords}",
      s!"scanner states: {s.scannerStates}",
      s!"queries: {s.totalQueries}, glob calls in last query: {s.lastGlobCalls}" ]

variable {S : Scanner} {κ : Type}

/-- The statistics of these patterns, fragments and counters. What only an index has is zero without one. -/
def EngineStats.of (r : Registry κ) (table : FragmentTable) (index? : Option (CompiledIndex S)) (totalQueries : UInt64)
    (lastGlobCalls : Nat) : EngineStats where
  patterns := r.size
  wildcardOnly := r.wildcardOnlyCount
  fragments := table.size
  literals := index?.elim 0 (·.literalCount)
  metaWords := index?.elim 0 (·.metaWords.size)
  scannerStates := index?.elim 0 fun x => S.stateCount x.scanner
  totalQueries := totalQueries.toNat
  lastGlobCalls

/-- The statistics of an engine. -/
def Engine.stats (e : Engine S κ) : EngineStats :=
  .of e.registry e.table e.phase.index? e.totalQueries e.lastGlobCalls

end GlobSieve
