import GlobSieve.Query.Context
import GlobSieve.Query.Resolution

/-!
# Outcome of a query

The candidates of the filter are matched against the text, and after them the patterns that consist of wildcards
(`CompiledIndex.run`). What a query found out on its way stays in its context.
-/

namespace GlobSieve

/-- The patterns that match a text, in the order in which they were tried, and the traces of the search. -/
structure Outcome (κ : Type) where
  hits : List (Nat × StoredPattern κ)
  /-- The number of patterns that match, as a query returns it. -/
  count : Nat
  context : QueryContext

namespace Outcome

variable {κ : Type}

def stats (o : Outcome κ) : MatchStats := o.context.stats

/-- The handles of the patterns that match, ascending. -/
def ids (o : Outcome κ) : List Nat := (o.hits.map Prod.fst).mergeSort

/-- Text and cookie of each pattern that matches, in the order in which they were tried. -/
def entries (o : Outcome κ) : List (Bytes × κ) := o.hits.map fun (_, p) => (p.text, p.cookie)

/-- The texts of the patterns that match, in the order of their bytes, each once. -/
def texts (o : Outcome κ) : List Bytes := (o.hits.map fun (_, p) => p.text).eraseDups.mergeSort

end Outcome

/-- Query the patterns of a registry for a text. -/
def CompiledIndex.run {S : Scanner} {κ : Type} (x : CompiledIndex S) (r : Registry κ) (t : Bytes) : Outcome κ :=
  let ids := S.scan x.scanner t
  let found := x.resolve ids
  let tried := (found.candidates ++ x.metaWords.wildcardOnly).filterMap fun id => (r.get? id).map (id, ·)
  let hits := tried.filter fun (_, p) => p.glob.accepts t
  { hits
    count := hits.length
    context :=
      { matched := found.matched
        candidates := found.candidates
        stats :=
          { fragmentsMatched := found.matched.length
            metaWordsChecked := found.checked.length
            metaWordsSatisfied := found.satisfied
            candidates := found.candidates.length + x.metaWords.wildcardOnly.length
            globCalls := tried.length
            hits := hits.length }
        seen := ids.eraseDups
        hits := tallies (x.hitList ids)
        present := found.matched
        resolved := found.checked
        admitted := found.candidates } }

end GlobSieve
