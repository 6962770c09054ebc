import GlobSieve.Fragment.Pool
import GlobSieve.Pattern.Registry

/-!
# A registry and its pool

Patterns of a registry share their fragments, which are interned in a pool. A pool may get fragments from elsewhere too,
with needles that are not theirs. What is put into a registry and its pool, in any order, is a row of deposits.
-/

namespace GlobSieve

variable {κ : Type}

/-- Store a pattern and intern its fragments. Its handle, the registry that has it and the pool that has its
fragments. -/
def Registry.insertInto (r : Registry κ) (pool : FragmentPool) (p : Bytes) (cookie : κ) :
    Except EngineError (Nat × Registry κ × FragmentPool) :=
  match refusal? r.config p with
  | some e => .error e
  | none =>
    let (ids, pool') := pool.internEach ((fragments p).map fun f => (f, needles f))
    let stored := ⟨p, cookie, Glob.parse r.config.mode p, requirementOf p ids⟩
    .ok (r.size, { r with patterns := r.patterns.push stored }, pool')

/-- A registry, and the pool that has the fragments of its patterns. -/
structure Store (κ : Type) where
  registry : Registry κ
  pool : FragmentPool

/-- What can be put into a store. -/
inductive Deposit (κ : Type) where
  /-- A pattern. -/
  | pattern (p : Bytes) (cookie : κ)
  /-- A fragment. -/
  | fragment (text : Bytes)
  /-- A fragment with needles computed elsewhere. -/
  | fragmentWith (text : Bytes) (ns : List Bytes)

namespace Store

/-- A store without patterns and fragments. -/
def empty (c : Config) : Store κ := ⟨.empty c, .empty⟩

/-- Put something into a store: its handle, and the store after it. -/
def put (s : Store κ) : Deposit κ → Except EngineError Nat × Store κ
  | .pattern p cookie =>
    match s.registry.insertInto s.pool p cookie with
    | .error err => (.error err, s)
    | .ok (id, registry, pool) => (.ok id, { registry, pool })
  | .fragment text =>
    let (id, pool) := s.pool.intern text
    (.ok id, { s with pool })
  | .fragmentWith text ns =>
    let (id, pool) := s.pool.internWith text ns
    (.ok id, { s with pool })

/-- Put several things into a store, in turn; what is refused leaves it as it was. -/
def putAll (s : Store κ) (ds : List (Deposit κ)) : Store κ := ds.foldl (fun s d => (s.put d).2) s

end Store

end GlobSieve
