import GlobSieve.Pattern.MetaWord

/-!
# Grouping in place

`MetaWordIndex.group` says which meta-words there are. Here they are made in one pass over the patterns, each of which is
filed under the meta-word of its set, and this is made for the first pattern that requires the set. A directory finds the
meta-word of a set. A set with a handle that is not in the table could not be referred back to; there is no index then.
-/

namespace GlobSieve

/-- An index in the making. -/
structure Grouping extends MetaWordIndex where
  /-- The meta-words of the sets, the newest first. -/
  directory : List (List Nat × Nat)

namespace Grouping

/-- The index of no patterns, over `n` fragments. -/
def start (n : Nat) : Grouping where
  metaWords := #[]
  backRefs := Array.replicate n []
  wildcardOnly := []
  directory := []

/-- Lead from a fragment to a meta-word, if the fragment is in the table. -/
def refer? (m : Nat) (backRefs : Array (List Nat)) (f : Nat) : Option (Array (List Nat)) :=
  if f < backRefs.size then some (backRefs.modify f (· ++ [m])) else none

/-- The meta-word of a set, which is made if there is none. -/
def metaWordOf? (g : Grouping) (s : List Nat) : Option (Nat × Grouping) :=
  match g.directory.lookup s with
  | some m => some (m, g)
  | none =>
    let m := g.metaWords.size
    (s.foldlM (refer? m) g.backRefs).map fun backRefs =>
      (m, { g with metaWords := g.metaWords.push ⟨s, []⟩, backRefs, directory := (s, m) :: g.directory })

/-- File a pattern under what it requires. -/
def file? (g : Grouping) : Requirement × Nat → Option Grouping
  | (.wildcardOnly, id) => some { g with wildcardOnly := g.wildcardOnly ++ [id] }
  | (.fragments s, id) => do
    let (m, g) ← g.metaWordOf? s
    let w ← g.metaWords[m]?
    return { g with metaWords := g.metaWords.setIfInBounds m { w with patterns := w.patterns ++ [id] } }

end Grouping

namespace MetaWordIndex

/-- Group patterns by their requirements, given in the order of handles, over `n` fragments. -/
def groupInPlace? (rs : List Requirement) (n : Nat) : Option MetaWordIndex :=
  (rs.zipIdx.foldlM Grouping.file? (.start n)).map (·.toMetaWordIndex)

/-- Group the patterns of a registry, whose fragments are in the table. -/
def buildInPlace? {κ : Type} (r : Registry κ) (table : FragmentTable) : Option MetaWordIndex :=
  groupInPlace? (r.toList.map (·.requirement)) table.size

end MetaWordIndex

end GlobSieve
