import GlobSieve.Engine.Basic

/-!
# Insertion in place

`Registry.insert` gives a new registry and a new table, or it fails. `Registry.insertHere` is the same on a registry and a table
that are changed step by step: a failure leaves them as they are at that moment, whatever was done before it. The needles of all
fragments are measured before the first fragment is interned. `Engine.insertHere` inserts so into an engine.
-/

namespace GlobSieve

/-- Steps that change a registry and its table, up to a failure. -/
abbrev Insertion (κ : Type) := ExceptT EngineError (StateM (Registry κ × FragmentTable))

/-- Take the steps. The result, and what became of the registry and the table. -/
def Insertion.runOn {κ α : Type} (steps : Insertion κ α) (s : Registry κ × FragmentTable) :
    Except EngineError α × Registry κ × FragmentTable := steps.run.run s

namespace Registry

variable {κ : Type}

/-- A fragment with its needles, unless one of them is longer than the limit. -/
def measure (limit : Nat) (f : Bytes) : Insertion κ (Bytes × List Bytes) :=
  let ns := needles f
  match ns.find? (limit < ·.length) with
  | some n => throw (.invalidLiteral s!"literal of length {n.length} exceeds maximum {limit}")
  | none => pure (f, ns)

/-- Intern a fragment with its needles. -/
def internHere (f : Bytes × List Bytes) : Insertion κ Nat := do
  let (r, table) ← get
  let (id, table) := table.internWith f.1 f.2
  set (r, table)
  return id

/-- Intern the fragments of a pattern, if it has any. What the pattern requires. -/
def requireHere (p : Bytes) (measured : List (Bytes × List Bytes)) : Insertion κ Requirement :=
  if wildcardOnly p then return .wildcardOnly
  else do
    let ids ← measured.mapM internHere
    return .fragments (handleSet ids)

/-- Put a pattern at the end; its handle. -/
def pushHere (p : Bytes) (cookie : κ) (requirement : Requirement) : Insertion κ Nat := do
  let (r, table) ← get
  set ({ r with patterns := r.patterns.push ⟨p, cookie, Glob.parse r.config.mode p, requirement⟩ }, table)
  return r.size

/-- Store a pattern; its handle. -/
def insertHere (p : Bytes) (cookie : κ) : Insertion κ Nat :=
  if p.isEmpty then throw (.invalidPattern "empty pattern")
  else do
    let s ← get
    let measured ← (fragments p).mapM (measure s.1.config.literalLimit)
    let requirement ← requireHere p measured
    pushHere p cookie requirement

end Registry

/-- Insert a pattern; its handle. What a failure leaves of registry and table is kept. -/
def Engine.insertHere {S : Scanner} {κ : Type} (e : Engine S κ) (p : Bytes) (cookie : κ) :
    Except EngineError Nat × Engine S κ :=
  match e.phase with
  | .compiled _ | .failed => e.refuse .closed
  | .empty | .accepting =>
    let (result, registry, table) := (Registry.insertHere p cookie).runOn (e.registry, e.table)
    match result with
    | .error err => { e with registry, table }.refuse err
    | .ok id => (.ok id, { e with registry, table, phase := .accepting })

end GlobSieve
