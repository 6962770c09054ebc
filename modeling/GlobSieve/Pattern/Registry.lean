import GlobSieve.Config
import GlobSieve.Engine.Error
import GlobSieve.Fragment.Decomposition
import GlobSieve.Fragment.Table
import GlobSieve.Glob.Pattern
import GlobSieve.Handles

/-!
# The pattern registry

Patterns are stored in the order of insertion; a pattern's place is its handle. With each goes what it requires of a
text before matching is worth the effort: the set of its fragments, or nothing if it consists of wildcards.

`Registry.insert` refuses the empty pattern and a pattern with a needle longer than the limit. It looks before it
interns, so a refused pattern leaves no fragment behind.

Handles are natural numbers. Registries of fewer than `2 ^ 32` patterns are meant, so that a handle is a word of 32 bits.
-/

namespace GlobSieve

/-- What a pattern requires of a text. -/
inductive Requirement where
  /-- The pattern has no fragments; every text has to be tried. -/
  | wildcardOnly
  /-- All fragments of the set must be in the text. -/
  | fragments (ids : List Nat)
  deriving DecidableEq, Repr

/-- The fragments required, if any. -/
def Requirement.ids? : Requirement → Option (List Nat)
  | wildcardOnly => none
  | fragments ids => some ids

def Requirement.isWildcardOnly : Requirement → Bool
  | wildcardOnly => true
  | fragments _ => false

/-- A pattern as stored, with the value that its owner gave it. -/
structure StoredPattern (κ : Type) where
  text : Bytes
  cookie : κ
  glob : Glob
  requirement : Requirement

/-- The patterns of a collection, by handle. -/
structure Registry (κ : Type) where
  config : Config
  patterns : Array (StoredPattern κ)

namespace Registry

variable {κ : Type}

def empty (c : Config) : Registry κ := ⟨c, #[]⟩

/-- The number of patterns, and the next handle. -/
def size (r : Registry κ) : Nat := r.patterns.size

/-- The pattern of a handle. -/
def get? (r : Registry κ) (id : Nat) : Option (StoredPattern κ) := r.patterns[id]?

/-- The patterns, in the order of their handles. -/
def toList (r : Registry κ) : List (StoredPattern κ) := r.patterns.toList

/-- The pattern texts, in the order of their handles. -/
def texts (r : Registry κ) : List Bytes := r.toList.map (·.text)

/-- How many patterns consist of wildcards. -/
def wildcardOnlyCount (r : Registry κ) : Nat := r.toList.countP (·.requirement.isWildcardOnly)

/-- Whether a text matches the pattern of a handle. -/
def accepts? (r : Registry κ) (id : Nat) (t : Bytes) : Option Bool := (r.get? id).map (·.glob.accepts t)

/-- The first needle of a pattern that is longer than the limit, by fragment and then by place. -/
def overlong? (limit : Nat) (p : Bytes) : Option Bytes :=
  ((fragments p).flatMap needles).find? (limit < ·.length)

/-- Why a pattern cannot be taken, if it cannot. -/
def refusal? (c : Config) (p : Bytes) : Option EngineError :=
  if p.isEmpty then some (.invalidPattern "empty pattern")
  else (overlong? c.literalLimit p).map fun n =>
    .invalidLiteral s!"literal of length {n.length} exceeds maximum {c.literalLimit}"

/-- What a pattern requires, once its fragments are interned under these handles. -/
def requirementOf (p : Bytes) (ids : List Nat) : Requirement :=
  if wildcardOnly p then .wildcardOnly else .fragments (handleSet ids)

/-- Store a pattern. Its handle, the registry that has it and the table that has its fragments. -/
def insert (r : Registry κ) (table : FragmentTable) (p : Bytes) (cookie : κ) :
    Except EngineError (Nat × Registry κ × FragmentTable) :=
  match refusal? r.config p with
  | some e => .error e
  | none =>
    let (ids, table') := table.internAll (fragments p)
    let stored := ⟨p, cookie, Glob.parse r.config.mode p, requirementOf p ids⟩
    .ok (r.size, { r with patterns := r.patterns.push stored }, table')

end Registry

end GlobSieve
