import GlobSieve.Archive
import GlobSieve.Query.InPlace

/-!
# The engine

An engine collects patterns, is compiled once, and then answers which of its patterns match a text.

* `Phase` says where an engine stands; only a compiled engine has an index, and nothing leads out of `compiled` and
  `failed`.
* `Engine.insert` and `Engine.compile` remember their failures as `lastError`, and a success does not erase it.
* Queries (`Engine.query` and what is read off it) change the counters alone, and a query of an engine that is not
  compiled changes nothing.

An engine whose stage and index are two fields is a `Matcher`; the two agree call by call (`Matcher.run?_matcher`).
-/

namespace GlobSieve

/-- How far an engine is. -/
inductive Stage where
  | empty
  | accepting
  | compiled
  | failed
  deriving DecidableEq, Repr

/-- The name of the stage in reports. -/
def Stage.label : Stage → String
  | empty => "Empty"
  | accepting => "Accepting"
  | compiled => "Compiled"
  | failed => "Failed"

/-- Where an engine stands, with what it has there. -/
inductive Phase (S : Scanner) where
  /-- No pattern yet. -/
  | empty
  /-- Patterns, and more may come. -/
  | accepting
  /-- Ready for queries. -/
  | compiled (index : CompiledIndex S)
  /-- Closed by a failure to compile. -/
  | failed

namespace Phase

variable {S : Scanner}

def index? : Phase S → Option (CompiledIndex S)
  | compiled x => some x
  | _ => none

def isCompiled (p : Phase S) : Bool := p.index?.isSome

def stage : Phase S → Stage
  | empty => .empty
  | accepting => .accepting
  | compiled _ => .compiled
  | failed => .failed

end Phase

/-- A collection of patterns over a scanner, each with a cookie. -/
structure Engine (S : Scanner) (κ : Type) where
  registry : Registry κ
  table : FragmentTable
  phase : Phase S
  /-- The failure of the last `insert` or `compile` that failed. -/
  lastError : Option EngineError
  /-- The number of queries answered; it starts again from zero after `2 ^ 64`. -/
  totalQueries : UInt64
  /-- How many patterns the last query answered had to try. -/
  lastGlobCalls : Nat

namespace Engine

variable {S : Scanner} {κ : Type}

/-- An engine without patterns. -/
def empty (S : Scanner) (κ : Type) (c : Config) : Engine S κ where
  registry := .empty c
  table := .empty
  phase := .empty
  lastError := none
  totalQueries := 0
  lastGlobCalls := 0

def config (e : Engine S κ) : Config := e.registry.config

/-- The pattern texts, in the order of insertion. -/
def texts (e : Engine S κ) : List Bytes := e.registry.texts

/-- An operation that failed, and the engine that remembers it. -/
def refuse {α : Type} (e : Engine S κ) (err : EngineError) : Except EngineError α × Engine S κ :=
  (.error err, { e with lastError := some err })

/-! ## Setting up -/

/-- Insert a pattern; its handle. -/
def insert (e : Engine S κ) (p : Bytes) (cookie : κ) : Except EngineError Nat × Engine S κ :=
  match e.phase with
  | .compiled _ | .failed => e.refuse .closed
  | .empty | .accepting =>
    match e.registry.insert e.table p cookie with
    | .error err => e.refuse err
    | .ok (id, registry, table) => (.ok id, { e with registry, table, phase := .accepting })

/-- Close the engine and make it ready for queries. -/
def compile (e : Engine S κ) : Except EngineError Unit × Engine S κ :=
  match e.phase with
  | .compiled _ => e.refuse .alreadyCompiled
  | .failed => e.refuse .closed
  | .empty | .accepting =>
    match CompiledIndex.build S e.registry e.table with
    | .error err => { e with phase := .failed }.refuse (.ofLiteral err)
    | .ok x => (.ok (), { e with phase := .compiled x })

/-- Insert patterns in turn, up to the first that is refused. -/
def insertAll (e : Engine S κ) : List (Bytes × κ) → Except EngineError (Engine S κ)
  | [] => .ok e
  | (p, cookie) :: ps =>
    match e.insert p cookie with
    | (.ok _, e') => e'.insertAll ps
    | (.error err, _) => .error err

/-- A compiled engine with these patterns. -/
def ofEntries (S : Scanner) (c : Config) (ps : List (Bytes × κ)) : Except EngineError (Engine S κ) :=
  match (empty S κ c).insertAll ps with
  | .error err => .error err
  | .ok e =>
    match e.compile with
    | (.ok (), e') => .ok e'
    | (.error err, _) => .error err

/-- A compiled engine with these patterns, and their places as cookies. -/
def ofTexts (S : Scanner) (c : Config) (ps : List Bytes) : Except EngineError (Engine S Nat) :=
  ofEntries S c ps.zipIdx

/-! ## Archives -/

/-- The pattern texts as an archive. Cookies and settings are not kept. -/
def toArchive (e : Engine S κ) : Bytes := Archive.encode e.texts

/-- The pattern texts of an archive. -/
def textsOfArchive (d : Bytes) : Except EngineError (List Bytes) :=
  (Archive.decode d).mapError fun defect => .serialization defect.message

/-- A compiled engine with the patterns of an archive; `cookie` gives each its cookie by place and text. -/
def ofArchive (S : Scanner) (c : Config) (cookie : Nat → Bytes → κ) (d : Bytes) : Except EngineError (Engine S κ) :=
  match Archive.decode d with
  | .error defect => .error (.serialization defect.message)
  | .ok ps => ofEntries S c (ps.zipIdx.map fun (p, i) => (p, cookie i p))

/-- The pattern texts, in the order of their bytes. -/
def sortedTexts (e : Engine S κ) : List Bytes := e.texts.mergeSort

/-- Engines are equal when they have the same patterns, each as often; order, cookies, settings and phase do not
count. -/
instance : BEq (Engine S κ) := ⟨fun a b => a.sortedTexts == b.sortedTexts⟩

/-! ## Queries -/

/-- Query for a text. -/
def query (e : Engine S κ) (t : Bytes) : Except EngineError (Outcome κ) × Engine S κ :=
  match e.phase with
  | .compiled x =>
    let o := x.run e.registry t
    (.ok o, { e with totalQueries := e.totalQueries + 1, lastGlobCalls := o.stats.globCalls })
  | _ => (.error .notCompiled, e)

/-- Query for a text in a context, whatever it holds. Where there is no answer the context stays as it was. -/
def queryIn (e : Engine S κ) (t : Bytes) (ctx : QueryContext) :
    Except EngineError (Outcome κ) × Engine S κ × QueryContext :=
  match e.phase with
  | .compiled x =>
    let o := x.runIn e.registry t ctx
    (.ok o, { e with totalQueries := e.totalQueries + 1, lastGlobCalls := o.stats.globCalls }, o.context)
  | _ => (.error .notCompiled, e, ctx)

/-- What a query finds, as `f` reads it off the outcome. -/
def ask {α : Type} (f : Outcome κ → α) (e : Engine S κ) (t : Bytes) : Except EngineError α × Engine S κ :=
  let (r, e') := e.query t
  (r.map f, e')

/-- How many patterns match. -/
def count (e : Engine S κ) (t : Bytes) : Except EngineError Nat × Engine S κ := e.ask Outcome.count t

/-- The handles of the patterns that match, ascending. -/
def findAll (e : Engine S κ) (t : Bytes) : Except EngineError (List Nat) × Engine S κ := e.ask Outcome.ids t

/-- Text and cookie of the patterns that match, in the order in which they were tried. -/
def find (e : Engine S κ) (t : Bytes) : Except EngineError (List (Bytes × κ)) × Engine S κ := e.ask Outcome.entries t

/-- The same, with the counters of the query. -/
def findWithStats (e : Engine S κ) (t : Bytes) :
    Except EngineError (List (Bytes × κ) × MatchStats) × Engine S κ :=
  e.ask (fun o => (o.entries, o.stats)) t

/-- The texts of the patterns that match, in the order of their bytes, each once. -/
def get (e : Engine S κ) (t : Bytes) : Except EngineError (List Bytes) × Engine S κ := e.ask Outcome.texts t

/-- The wording of the last failure; empty if there was none. -/
def errorMessage (e : Engine S κ) : String :=
  match e.lastError with
  | some err => err.message
  | none => ""

end Engine

end GlobSieve
