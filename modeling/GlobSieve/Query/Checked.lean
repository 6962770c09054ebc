import GlobSieve.Query.InPlace

/-!
# Filtering with checked places

`CompiledIndex.resolveIn` takes a fragment that has no place in a table to have no hits to wait for. `resolveIn?` is the same
filter by places: it looks up the number of ids that a fragment needs, and walks over the fragments found by their index, and
where a place does not exist it gives no result.
-/

namespace GlobSieve

/-- Count a hit of a fragment. There is no result if the fragment has no place in the table. -/
def QueryContext.hit? (needed : Array Nat) (ctx : QueryContext) (f : Nat) : Option QueryContext :=
  let hits := increment f ctx.hits
  let ctx := { ctx with hits }
  (needed[f]?).map fun n => if countOf f hits = n then ctx.markPresent f else ctx

namespace CompiledIndex

variable {S : Scanner}

/-- An id that the scan lists hits its fragments, the first time. An id that no needle has hits none. -/
def see? (x : CompiledIndex S) (ctx : QueryContext) (id : Nat) : Option QueryContext :=
  if ctx.seen.contains id then some ctx
  else (x.fragmentsOf id).foldlM (QueryContext.hit? x.literalsNeeded) { ctx with seen := ctx.seen ++ [id] }

/-- The fragment found at a place leads to its meta-words. -/
def follow? (x : CompiledIndex S) (ctx : QueryContext) (i : Nat) : Option QueryContext :=
  (ctx.matched[i]?).map fun f => (x.metaWords.containing f).foldl x.visit ctx

/-- Filter the patterns by the ids seen, if every place that is looked up exists. -/
def resolveIn? (x : CompiledIndex S) (ids : List Nat) (ctx : QueryContext) : Option QueryContext := do
  let ctx ← ids.foldlM x.see? ctx
  let ctx := x.alwaysPresent.foldl QueryContext.markPresent ctx
  let ctx := { ctx with stats := { ctx.stats with fragmentsMatched := ctx.matched.length } }
  (List.range ctx.matched.length).foldlM x.follow? ctx

end CompiledIndex

end GlobSieve
