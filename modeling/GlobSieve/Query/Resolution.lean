import GlobSieve.Engine.Index

/-!
# From literals seen to candidates

`resolve` turns the ids that a scan lists into the patterns worth matching: ids into fragments, fragments into
meta-words, meta-words into patterns. Repeats and ids that no needle has make no difference. Fragments are listed in
the order in which the last of their ids was first seen, those without needles after them; patterns follow the
meta-words that the fragments lead to.
-/

namespace GlobSieve

/-- What the filter makes of a text. -/
structure Resolution where
  /-- The fragments found, in the order of discovery. -/
  matched : List Nat
  /-- The meta-words that a found fragment belongs to. -/
  checked : List Nat
  /-- The patterns of the meta-words all of whose fragments were found. -/
  candidates : List Nat
  satisfied : Nat
  deriving DecidableEq, Repr

/-- Of the fragments hit one after another, those for which a hit is the last one needed; `hits` are the hits so
far. -/
def completions (needed : Array Nat) (hits : Array Nat) : List Nat → List Nat
  | [] => []
  | f :: fs =>
    let n := hits.getD f 0 + 1
    let rest := completions needed (hits.setIfInBounds f n) fs
    if needed[f]? = some n then f :: rest else rest

namespace CompiledIndex

variable {S : Scanner}

/-- The fragments hit when these ids were seen, once for each of their ids. -/
def hitList (x : CompiledIndex S) (ids : List Nat) : List Nat := ids.eraseDups.flatMap x.fragmentsOf

/-- The fragments found when these ids were seen. -/
def found (x : CompiledIndex S) (ids : List Nat) : List Nat :=
  completions x.literalsNeeded (Array.replicate x.literalsNeeded.size 0) (x.hitList ids) ++ x.alwaysPresent

/-- Whether all fragments of a meta-word are among those found. -/
def isSatisfied (x : CompiledIndex S) (matched : List Nat) (m : Nat) : Bool :=
  match x.metaWords.get? m with
  | some w => w.fragments.all (matched.contains ·)
  | none => false

/-- The patterns of a meta-word. -/
def patternsOf (x : CompiledIndex S) (m : Nat) : List Nat :=
  match x.metaWords.get? m with
  | some w => w.patterns
  | none => []

/-- Filter the patterns by the ids seen. -/
def resolve (x : CompiledIndex S) (ids : List Nat) : Resolution :=
  let matched := x.found ids
  let checked := (matched.flatMap x.metaWords.containing).eraseDups
  let satisfied := checked.filter (x.isSatisfied matched)
  { matched, checked, candidates := satisfied.flatMap x.patternsOf, satisfied := satisfied.length }

end CompiledIndex

end GlobSieve
