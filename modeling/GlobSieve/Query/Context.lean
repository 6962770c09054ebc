import GlobSieve.Query.Stats

/-!
# The working memory of a query

A `QueryContext` is filled by a query and can be handed to the next one. Three of its parts are for whoever asks
afterwards (`matched`, `candidates`, `stats`); the others let a query do nothing twice. `reset` empties them all.

A set is written as the list of its members in the order in which they came in, and a count of hits as a list of pairs.
-/

namespace GlobSieve

/-! ## Counting -/

/-- How often a handle was counted. -/
def countOf (f : Nat) (counts : List (Nat × Nat)) : Nat := (counts.lookup f).getD 0

/-- Count a handle once more. -/
def increment (f : Nat) (counts : List (Nat × Nat)) : List (Nat × Nat) :=
  if counts.any (·.1 == f) then counts.map fun (g, n) => (g, if g = f then n + 1 else n) else counts ++ [(f, 1)]

/-- The counts of the handles in a list. -/
def tallies (fs : List Nat) : List (Nat × Nat) := fs.eraseDups.map fun f => (f, fs.count f)

/-! ## The context -/

/-- What a query leaves behind. -/
structure QueryContext where
  /-- The fragments found, in the order of discovery. -/
  matched : List Nat
  /-- The patterns that passed the filter, those of wildcards alone left out. -/
  candidates : List Nat
  stats : MatchStats
  /-- The ids seen in the scan. -/
  seen : List Nat
  /-- For every fragment hit the number of its ids seen. -/
  hits : List (Nat × Nat)
  /-- The set of the fragments found. -/
  present : List Nat
  /-- The meta-words looked at. -/
  resolved : List Nat
  /-- The set of the candidates. -/
  admitted : List Nat
  deriving DecidableEq, Repr, Inhabited

namespace QueryContext

/-- A context that no query has used. -/
def fresh : QueryContext where
  matched := []
  candidates := []
  stats := .zero
  seen := []
  hits := []
  present := []
  resolved := []
  admitted := []

/-- Forget the last query. -/
def reset (ctx : QueryContext) : QueryContext :=
  { ctx with
    seen := []
    hits := []
    present := []
    matched := []
    resolved := []
    admitted := []
    candidates := []
    stats := .zero }

/-- Note a fragment as found, unless it is noted. -/
def markPresent (ctx : QueryContext) (f : Nat) : QueryContext :=
  if ctx.present.contains f then ctx
  else { ctx with present := ctx.present ++ [f], matched := ctx.matched ++ [f] }

/-- Count a hit of a fragment. It is found when its hits reach the number needed. -/
def hit (needed : Array Nat) (ctx : QueryContext) (f : Nat) : QueryContext :=
  let hits := increment f ctx.hits
  let ctx := { ctx with hits }
  if needed[f]? = some (countOf f hits) then ctx.markPresent f else ctx

/-- Let a pattern pass the filter, unless it has passed. -/
def letPass (ctx : QueryContext) (id : Nat) : QueryContext :=
  if ctx.admitted.contains id then ctx
  else { ctx with admitted := ctx.admitted ++ [id], candidates := ctx.candidates ++ [id] }

end QueryContext

end GlobSieve
