import GlobSieve.Query.Outcome

/-!
# Queries in a context

The same query as `CompiledIndex.run`, step by step in a `QueryContext` that may come from another query, of this engine or
of any other: the context is emptied (`reset`), the scan, the fragments and the meta-words fill it (`resolveIn`), and the
patterns that passed the filter are matched (`verifyIn`). A match is counted where it is reported, and what becomes of the
reports is up to whoever asks (`verify`).
-/

namespace GlobSieve

variable {S : Scanner} {κ : Type}

namespace CompiledIndex

/-- An id that the scan lists hits its fragments, the first time. -/
def see (x : CompiledIndex S) (ctx : QueryContext) (id : Nat) : QueryContext :=
  if ctx.seen.contains id then ctx
  else (x.fragmentsOf id).foldl (QueryContext.hit x.literalsNeeded) { ctx with seen := ctx.seen ++ [id] }

/-- A meta-word is looked at, the first time, and its patterns pass the filter if all its fragments were found. -/
def visit (x : CompiledIndex S) (ctx : QueryContext) (m : Nat) : QueryContext :=
  if ctx.resolved.contains m then ctx
  else
    let ctx := { ctx with
      resolved := ctx.resolved ++ [m]
      stats := { ctx.stats with metaWordsChecked := ctx.stats.metaWordsChecked + 1 } }
    match x.metaWords.get? m with
    | none => ctx
    | some w =>
      if w.fragments.all (ctx.present.contains ·) then
        w.patterns.foldl QueryContext.letPass
          { ctx with stats := { ctx.stats with metaWordsSatisfied := ctx.stats.metaWordsSatisfied + 1 } }
      else ctx

/-- Filter the patterns by the ids seen, and note in the context what was found. -/
def resolveIn (x : CompiledIndex S) (ids : List Nat) (ctx : QueryContext) : QueryContext :=
  let ctx := ids.foldl x.see ctx
  let ctx := x.alwaysPresent.foldl QueryContext.markPresent ctx
  let ctx := { ctx with stats := { ctx.stats with fragmentsMatched := ctx.matched.length } }
  ctx.matched.foldl (fun ctx f => (x.metaWords.containing f).foldl x.visit ctx) ctx

end CompiledIndex

/-- The matching of patterns in progress. -/
structure Verification (σ : Type) where
  /-- How many matched. -/
  count : Nat
  stats : MatchStats
  /-- What the reports of the matches were made into. -/
  reports : σ

namespace Registry

variable {σ : Type}

/-- Match a pattern of the registry against the text. If it matches, it is counted and reported. -/
def attempt (r : Registry κ) (t : Bytes) (report : σ → Nat → StoredPattern κ → σ) (v : Verification σ) (id : Nat) :
    Verification σ :=
  match r.get? id with
  | none => v
  | some p =>
    let v := { v with stats := { v.stats with globCalls := v.stats.globCalls + 1 } }
    if p.glob.accepts t then { v with count := v.count + 1, reports := report v.reports id p } else v

/-- Match what passed the filter, and the patterns of wildcards after it. The matches are reported one by one, from `start` on. -/
def verify (r : Registry κ) (candidates wildcardOnly : List Nat) (t : Bytes) (stats : MatchStats)
    (report : σ → Nat → StoredPattern κ → σ) (start : σ) : Verification σ :=
  let stats := { stats with candidates := candidates.length + wildcardOnly.length }
  let v := (candidates ++ wildcardOnly).foldl (r.attempt t report) ⟨0, stats, start⟩
  { v with stats := { v.stats with hits := v.stats.hits + v.count } }

/-- The same with a list of the reports, in the context that the filter left. -/
def verifyIn (r : Registry κ) (wildcardOnly : List Nat) (t : Bytes) (ctx : QueryContext) : Outcome κ :=
  let v := r.verify ctx.candidates wildcardOnly t ctx.stats (fun reports id p => reports ++ [(id, p)]) []
  { hits := v.reports, count := v.count, context := { ctx with stats := v.stats } }

end Registry

/-- Query the patterns of a registry for a text, in a context that is emptied first. -/
def CompiledIndex.runIn (x : CompiledIndex S) (r : Registry κ) (t : Bytes) (ctx : QueryContext) : Outcome κ :=
  r.verifyIn x.metaWords.wildcardOnly t (x.resolveIn (S.scan x.scanner t) ctx.reset)

end GlobSieve
