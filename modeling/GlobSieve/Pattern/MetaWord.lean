import GlobSieve.Pattern.Registry

/-!
# Meta-words

Patterns that require the same set of fragments share a meta-word, so the set is tested once for all of them.
`MetaWordIndex.build` groups the patterns of a registry; meta-words are numbered by the first pattern of each. For
every fragment the index keeps the meta-words whose set it belongs to, so a fragment found in a text leads to the sets
that it may complete. Patterns without a requirement are listed apart.
-/

namespace GlobSieve

/-- A set of fragments and the patterns that require exactly this set. -/
structure MetaWord where
  fragments : List Nat
  patterns : List Nat
  deriving DecidableEq, Repr

/-- The patterns of a registry by what they require. -/
structure MetaWordIndex where
  metaWords : Array MetaWord
  /-- For every fragment the meta-words that it belongs to. -/
  backRefs : Array (List Nat)
  /-- The patterns that consist of wildcards. -/
  wildcardOnly : List Nat
  deriving DecidableEq, Repr

namespace MetaWordIndex

/-- Group patterns by their requirements, given in the order of handles, over `n` fragments. -/
def group (rs : List Requirement) (n : Nat) : MetaWordIndex :=
  let sets := (rs.filterMap Requirement.ids?).eraseDups
  { metaWords := (sets.map fun ids => ⟨ids, placesOf (· == .fragments ids) rs⟩).toArray
    backRefs := ((List.range n).map fun f => placesOf (·.contains f) sets).toArray
    wildcardOnly := placesOf (· == .wildcardOnly) rs }

/-- Group the patterns of a registry, whose fragments are in the table. -/
def build {κ : Type} (r : Registry κ) (table : FragmentTable) : MetaWordIndex :=
  group (r.toList.map (·.requirement)) table.size

/-- The number of meta-words. -/
def size (x : MetaWordIndex) : Nat := x.metaWords.size

def get? (x : MetaWordIndex) (m : Nat) : Option MetaWord := x.metaWords[m]?

/-- The meta-words that a fragment belongs to; none for a handle that is not in the table. -/
def containing (x : MetaWordIndex) (f : Nat) : List Nat := x.backRefs.getD f []

end MetaWordIndex

end GlobSieve
