import GlobSieve.Fragment.Table

/-!
# The fragment pool

A table knows the text of a handle at once, but to find the handle of a text it looks at one fragment after another. A
pool keeps a directory beside the table, from texts to handles, and looks there. Nothing is ever taken out of either.
-/

namespace GlobSieve

/-- A fragment table with a directory of its texts. -/
structure FragmentPool where
  table : FragmentTable
  /-- The handles of the texts, the newest first. -/
  directory : List (Bytes × Nat)
  deriving DecidableEq, Repr

namespace FragmentPool

def empty : FragmentPool := ⟨.empty, []⟩

/-- The number of fragments, and the next handle. -/
def size (pool : FragmentPool) : Nat := pool.table.size

/-- The fragment of a handle. -/
def get? (pool : FragmentPool) (id : Nat) : Option Fragment := pool.table.get? id

/-- The handle of a text. -/
def find? (pool : FragmentPool) (text : Bytes) : Option Nat := pool.directory.lookup text

/-- The handle of a text, which is stored with these needles if it is new; a known text keeps those it has. -/
def internWith (pool : FragmentPool) (text : Bytes) (ns : List Bytes) : Nat × FragmentPool :=
  match pool.find? text with
  | some id => (id, pool)
  | none =>
    let id := pool.size
    (id, { table := ⟨pool.table.entries.push ⟨text, ns⟩⟩, directory := (text, id) :: pool.directory })

/-- The handle of a text, which is stored with its needles if it is new. -/
def intern (pool : FragmentPool) (text : Bytes) : Nat × FragmentPool :=
  match pool.find? text with
  | some id => (id, pool)
  | none => pool.internWith text (needles text)

/-- The handles of several texts, interned in turn, each with its needles. -/
def internEach (pool : FragmentPool) : List (Bytes × List Bytes) → List Nat × FragmentPool
  | [] => ([], pool)
  | (text, ns) :: texts =>
    let (id, pool₁) := pool.internWith text ns
    let (ids, pool₂) := pool₁.internEach texts
    (id :: ids, pool₂)

end FragmentPool

end GlobSieve
