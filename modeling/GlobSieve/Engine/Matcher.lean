import GlobSieve.Engine.Audit
import GlobSieve.Engine.InPlace
import GlobSieve.Engine.Render
import GlobSieve.Engine.Stats
import GlobSieve.Engine.Tabulation
import GlobSieve.Query.Checked

/-!
# The engine, field by field

An `Engine` has its index in its phase. A `Matcher` keeps how far it is (`stage`) and its index (`index?`) in two fields, which are
assigned one after the other and are asked apart: the stage decides whether patterns are taken and whether it is compiled, and the
index decides whether queries are answered. That the two agree is proved and not assumed (`Matcher.lifecycle`).

* `Matcher.insert` and `Matcher.compile` are steps that change a matcher, up to a failure, which is remembered; what was changed
  before stays changed.
* `Matcher.query?` reports its matches to whoever asks. What is made of the reports makes the kind of the query (`Inquiry`).

There is no result where a table is asked for a place that it does not have.
-/

namespace GlobSieve

/-- A collection of patterns over a scanner, each with a cookie, with stage and index. -/
structure Matcher (S : Scanner) (κ : Type) where
  registry : Registry κ
  table : FragmentTable
  /-- The index, once there is one. -/
  index? : Option (CompiledIndex S)
  stage : Stage
  /-- The failure of the last `insert` or `compile` that failed. -/
  lastError : Option EngineError
  totalQueries : UInt64
  lastGlobCalls : Nat

/-- The fields of an engine. -/
def Engine.matcher {S : Scanner} {κ : Type} (e : Engine S κ) : Matcher S κ where
  registry := e.registry
  table := e.table
  index? := e.phase.index?
  stage := e.phase.stage
  lastError := e.lastError
  totalQueries := e.totalQueries
  lastGlobCalls := e.lastGlobCalls

/-- Steps that change a matcher, up to a failure. -/
abbrev Operation (S : Scanner) (κ : Type) := ExceptT EngineError (StateT (Matcher S κ) Option)

/-- Take the steps. The result, and what became of the matcher. -/
def Operation.runOn? {S : Scanner} {κ α : Type} (steps : Operation S κ α) (m : Matcher S κ) :
    Option (Except EngineError α × Matcher S κ) := steps.run.run m

namespace Matcher

variable {S : Scanner} {κ α σ : Type}

/-- A matcher without patterns. -/
def new (S : Scanner) (κ : Type) (c : Config) : Matcher S κ where
  registry := .empty c
  table := .empty
  index? := none
  stage := .empty
  lastError := none
  totalQueries := 0
  lastGlobCalls := 0

/-! ## Setting up -/

/-- Fail, and remember why. -/
def fail (err : EngineError) : Operation S κ α := do
  modify fun m => { m with lastError := some err }
  throw err

/-- Take steps that change registry and table. Their result. -/
def onStore (steps : Insertion κ α) : Operation S κ (Except EngineError α) := do
  let m ← get
  let (result, registry, table) := steps.runOn (m.registry, m.table)
  set { m with registry, table }
  return result

/-- Store a pattern; its handle. More may come. -/
def store (p : Bytes) (cookie : κ) : Operation S κ Nat := do
  match ← onStore (Registry.insertHere p cookie) with
  | .ok id =>
    modify fun m => { m with stage := .accepting }
    return id
  | .error err => fail err

/-- Insert a pattern, unless no more are taken; its handle. -/
def insert (p : Bytes) (cookie : κ) : Operation S κ Nat := do
  match (← get).stage with
  | .compiled | .failed => fail .closed
  | .empty | .accepting => store p cookie

/-- Build the index. -/
def build : Operation S κ Unit := do
  let m ← get
  match ← CompiledIndex.buildInPlace? S m.registry m.table with
  | .ok x =>
    modify fun m => { m with index? := some x }
    modify fun m => { m with stage := .compiled }
  | .error err =>
    modify fun m => { m with stage := .failed }
    fail (.ofLiteral err)

/-- Close the matcher and make it ready for queries. -/
def compile : Operation S κ Unit := do
  match (← get).stage with
  | .compiled => fail .alreadyCompiled
  | .failed => fail .closed
  | .empty | .accepting => build

def isCompiled (m : Matcher S κ) : Bool := m.stage == .compiled

/-! ## Queries -/

/-- Query for a text in a context, whatever it holds, and report the matches one by one, from `start` on. The number of matches,
the matcher, the context and what became of the reports. -/
def query? (m : Matcher S κ) (ctx : QueryContext) (t : Bytes) (report : σ → Nat → StoredPattern κ → σ) (start : σ) :
    Option (Except EngineError Nat × Matcher S κ × QueryContext × σ) :=
  match m.index? with
  | none => some (.error .notCompiled, m, ctx, start)
  | some x => do
    let ctx ← x.resolveIn? (S.scan x.scanner t) ctx.reset
    let v := m.registry.verify ctx.candidates x.metaWords.wildcardOnly t ctx.stats report start
    let m := { m with lastGlobCalls := v.stats.globCalls }
    let m := { m with totalQueries := m.totalQueries + 1 }
    return (.ok v.count, m, { ctx with stats := v.stats }, v.reports)

end Matcher

/-- A kind of query: what it makes of the reports, one after another, and its answer by their number, the counters and what was
made of them. -/
structure Inquiry (κ σ α : Type) where
  start : σ
  report : σ → Nat → StoredPattern κ → σ
  answer : Registry κ → Nat → MatchStats → σ → α

namespace Inquiry

variable {κ : Type}

/-- How many patterns match, and text and cookie of each. -/
def find : Inquiry κ (List (Bytes × κ)) (Nat × List (Bytes × κ)) where
  start := []
  report calls _ p := calls ++ [(p.text, p.cookie)]
  answer _ n _ calls := (n, calls)

/-- Text and cookie of the patterns that match, and the counters of the query. -/
def findWithStats : Inquiry κ (List (Bytes × κ)) (List (Bytes × κ) × MatchStats) where
  start := []
  report calls _ p := calls ++ [(p.text, p.cookie)]
  answer _ _ stats calls := (calls, stats)

/-- How many patterns match. -/
def count : Inquiry κ Unit Nat where
  start := ()
  report _ _ _ := ()
  answer _ n _ _ := n

/-- The handles of the patterns that match, ascending. -/
def findAll : Inquiry κ (List Nat) (List Nat) where
  start := []
  report ids id _ := ids ++ [id]
  answer _ _ _ ids := ids.mergeSort

/-- The texts of the patterns that match, in the order of their bytes, each once. -/
def get : Inquiry κ (List Nat) (List Bytes) where
  start := []
  report ids id _ := ids ++ [id]
  answer r _ _ ids := (ids.filterMap fun id => (r.get? id).map (·.text)).eraseDups.mergeSort

end Inquiry

namespace Matcher

variable {S : Scanner} {κ α σ : Type}

/-- Ask for a text in a context. -/
def ask? (m : Matcher S κ) (q : Inquiry κ σ α) (ctx : QueryContext) (t : Bytes) :
    Option (Except EngineError α × Matcher S κ × QueryContext) := do
  let (n, m, ctx, reports) ← m.query? ctx t q.report q.start
  return (n.map fun n => q.answer m.registry n ctx.stats reports, m, ctx)

/-! ## Reports -/

/-- The wording of the last failure; empty if there was none. -/
def errorMessage (m : Matcher S κ) : String := (m.lastError.map EngineError.message).getD ""

def stats (m : Matcher S κ) : EngineStats := .of m.registry m.table m.index? m.totalQueries m.lastGlobCalls

/-- Examine a matcher. -/
def audit (m : Matcher S κ) : EngineAudit := .of m.registry m.table m.index?

def dump [ToString κ] (m : Matcher S κ) : String := Engine.dumpOf m.stage m.registry m.table m.index?

def inspect (m : Matcher S κ) : String := Engine.inspectOf m.stage m.registry m.table

end Matcher

end GlobSieve
