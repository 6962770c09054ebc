import GlobSieve.Pattern.MetaWord
import GlobSieve.Scanner.Basic

/-!
# The compiled index

What a query needs besides the patterns: the meta-words, a scanner that has all needles, and the tables between the
ids of the scanner and the fragments. A fragment counts as found when as many of its ids were seen as it has
(`literalsNeeded`); a fragment without needles always does.

The ids come from the scanner and are taken as they are. Two needles may share an id, also two needles of one fragment,
so what is kept of a fragment is the set of its ids.
-/

namespace GlobSieve

/-- The tables of an engine that is ready for queries. -/
structure CompiledIndex (S : Scanner) where
  metaWords : MetaWordIndex
  scanner : S.Built
  /-- For every id the fragments with a needle of this id. -/
  literalFragments : Array (List Nat)
  /-- For every fragment the number of its ids. -/
  literalsNeeded : Array Nat
  /-- The fragments without needles. -/
  alwaysPresent : List Nat

namespace CompiledIndex

variable {S : Scanner}

/-- Offer needles to a scanner. The id of each, be it new or known, and the builder for the next. -/
def offerAll (b : S.Builder) : List Bytes → Except LiteralError (List Nat × S.Builder)
  | [] => .ok ([], b)
  | n :: ns =>
    match S.add b n with
    | (.ok id, b') | (.error (.duplicate id), b') => (offerAll b' ns).map fun (ids, b'') => (id :: ids, b'')
    | (.error e, _) => .error e

/-- Offer the needles of all fragments in turn. The set of ids of each fragment. -/
def offerFragments (b : S.Builder) : List Fragment → Except LiteralError (List (List Nat) × S.Builder)
  | [] => .ok ([], b)
  | f :: fs =>
    match offerAll b f.needles with
    | .error e => .error e
    | .ok (ids, b') => (offerFragments b' fs).map fun (sets, b'') => (handleSet ids :: sets, b'')

/-- One more than the greatest id in use. -/
def slotCount (sets : List (List Nat)) : Nat := sets.flatten.foldl (fun n id => max n (id + 1)) 0

/-- The tables of fragments with these sets of ids. -/
def ofSets (metaWords : MetaWordIndex) (scanner : S.Built) (sets : List (List Nat)) : CompiledIndex S where
  metaWords
  scanner
  literalFragments := ((List.range (slotCount sets)).map fun id => placesOf (·.contains id) sets).toArray
  literalsNeeded := (sets.map List.length).toArray
  alwaysPresent := placesOf List.isEmpty sets

/-- Make ready for queries. -/
def build {κ : Type} (S : Scanner) (r : Registry κ) (table : FragmentTable) : Except LiteralError (CompiledIndex S) :=
  match offerFragments (S.start r.config) table.toList with
  | .error e => .error e
  | .ok (sets, b) => (S.finish b).map fun scanner => ofSets (.build r table) scanner sets

/-- The fragments with a needle of an id; none for an id that no needle has. -/
def fragmentsOf (x : CompiledIndex S) (id : Nat) : List Nat := x.literalFragments.getD id []

/-- The number of ids, those that were skipped included. -/
def literalCount (x : CompiledIndex S) : Nat := x.literalFragments.size

end CompiledIndex

end GlobSieve
