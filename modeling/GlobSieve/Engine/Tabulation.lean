import GlobSieve.Engine.Index
import GlobSieve.Pattern.InPlace

/-!
# Tabulation

`CompiledIndex.ofSets` says what the tables of an index are. Here they are made in one pass over the fragments, while the needles
are offered: a fragment is entered under each of its ids, and the table of ids grows to the greatest id in use.
-/

namespace GlobSieve

/-- The tables between ids and fragments, in the making. -/
structure Tables where
  /-- For every id the fragments with a needle of this id. -/
  literalFragments : Array (List Nat)
  /-- For every fragment the number of its ids. -/
  literalsNeeded : Array Nat
  /-- The fragments without needles. -/
  alwaysPresent : List Nat
  deriving DecidableEq, Repr

namespace Tables

def empty : Tables := ⟨#[], #[], []⟩

/-- Enter a fragment under an id, after the others there; the table of ids grows if it is too short. -/
def noteAt (f : Nat) (rows : Array (List Nat)) (id : Nat) : Array (List Nat) :=
  (rows ++ Array.replicate (id + 1 - rows.size) []).modify id (· ++ [f])

/-- Enter a fragment with the set of its ids. -/
def enter (t : Tables) (f : Nat) (ids : List Nat) : Tables where
  literalFragments := ids.foldl (noteAt f) t.literalFragments
  literalsNeeded := t.literalsNeeded.push ids.length
  alwaysPresent := if ids.isEmpty then t.alwaysPresent ++ [f] else t.alwaysPresent

end Tables

namespace CompiledIndex

variable {S : Scanner}

/-- Offer the needles of fragments in turn, and enter the fragments. -/
def tabulate (b : S.Builder) (t : Tables) : List (Fragment × Nat) → Except LiteralError (Tables × S.Builder)
  | [] => .ok (t, b)
  | (f, i) :: fs =>
    match offerAll b f.needles with
    | .error e => .error e
    | .ok (ids, b') => tabulate b' (t.enter i (handleSet ids)) fs

/-- Make ready for queries. -/
def buildInPlace? {κ : Type} (S : Scanner) (r : Registry κ) (table : FragmentTable) :
    Option (Except LiteralError (CompiledIndex S)) :=
  (MetaWordIndex.buildInPlace? r table).map fun metaWords =>
    match tabulate (S.start r.config) .empty table.toList.zipIdx with
    | .error e => .error e
    | .ok (t, b) => (S.finish b).map fun scanner =>
      { metaWords
        scanner
        literalFragments := t.literalFragments
        literalsNeeded := t.literalsNeeded
        alwaysPresent := t.alwaysPresent }

end CompiledIndex

end GlobSieve
