import GlobSieve.Engine.Basic

/-!
# Checking an engine

`Engine.audit` examines the tables of an engine against each other, whatever they were made by: that every pattern
requires what its text says, that the meta-words of an index hold every pattern once and agree with the references
back from fragments, and that the tables between ids and fragments fit. What the scanner finds wrong with itself is
passed on.
-/

namespace GlobSieve

/-- What can be wrong with an engine. -/
inductive EngineDefect where
  | wrongWildcardOnly (p : Nat)
  | wrongFragments (p : Nat)
  | patternSetUnordered (p : Nat)
  | patternMissesFragment (p f : Nat)
  | emptyMetaWord (m : Nat)
  | metaWordSetUnordered (m : Nat)
  | metaWordMissesFragment (m f : Nat)
  | missingBackRef (f m : Nat)
  | metaWordMissesPattern (m p : Nat)
  | misfiled (p m : Nat)
  | wildcardOnlyMissesPattern (p : Nat)
  | reachable (p times : Nat)
  | backRefTableSize (entries fragments : Nat)
  | strayBackRef (f m : Nat)
  | neededTableSize (entries fragments : Nat)
  | presentNeedsLiterals (f : Nat)
  | literalMissesFragment (l f : Nat)
  | scanner (problem : String)
  deriving DecidableEq, Repr

def EngineDefect.message : EngineDefect → String
  | wrongWildcardOnly p => s!"Pattern {p} marked wildcard-only but has fragments"
  | wrongFragments p => s!"Pattern {p} has fragments but should be wildcard-only"
  | patternSetUnordered p => s!"Pattern {p} fragment set is not sorted and unique"
  | patternMissesFragment p f => s!"Pattern {p} references missing fragment {f}"
  | emptyMetaWord m => s!"Meta-word {m} has an empty fragment set"
  | metaWordSetUnordered m => s!"Meta-word {m} fragment set is not sorted and unique"
  | metaWordMissesFragment m f => s!"Meta-word {m} references missing fragment {f}"
  | missingBackRef f m => s!"Fragment {f} lacks back-reference to meta-word {m}"
  | metaWordMissesPattern m p => s!"Meta-word {m} references missing pattern {p}"
  | misfiled p m => s!"Pattern {p} is filed under meta-word {m} with a different fragment set"
  | wildcardOnlyMissesPattern p => s!"Wildcard-only list references missing pattern {p}"
  | reachable p times => s!"Pattern {p} is reachable {times} times (expected 1)"
  | backRefTableSize entries fragments => s!"Back-reference table has {entries} entries for {fragments} fragments"
  | strayBackRef f m => s!"Fragment {f} back-references unrelated meta-word {m}"
  | neededTableSize entries fragments =>
    s!"Literal requirement table has {entries} entries for {fragments} fragments"
  | presentNeedsLiterals f => s!"Fragment {f} is always present but needs literals"
  | literalMissesFragment l f => s!"Literal {l} maps to missing fragment {f}"
  | scanner problem => s!"Scanner: {problem}"

/-- What is allowed and yet worth telling. -/
inductive EngineConcern where
  /-- A pattern has the text of an earlier one; the last such pattern before it is named. -/
  | repeated (p previous : Nat)
  | unreferenced (count : Nat)
  | idleLiteral (l : Nat)
  deriving DecidableEq, Repr

def EngineConcern.message : EngineConcern → String
  | repeated p previous => s!"Pattern {p} repeats the text of pattern {previous}"
  | unreferenced count => s!"{count} fragments are not required by any pattern"
  | idleLiteral l => s!"Literal {l} maps to no fragment"

/-- The findings about an engine. -/
structure EngineAudit where
  patterns : Nat
  wildcardOnly : Nat
  fragments : Nat
  metaWords : Nat
  /-- The references from fragments to meta-words, over all fragments. -/
  backRefs : Nat
  /-- The fragments that no pattern requires. -/
  unreferenced : Nat
  errors : List EngineDefect
  warnings : List EngineConcern

def EngineAudit.valid (a : EngineAudit) : Bool := a.errors.isEmpty

variable {κ : Type}

/-- The members of a list with a handle each, from zero. -/
def numbered {α β : Type} (l : List α) (f : Nat → α → List β) : List β := l.zipIdx.flatMap fun (a, i) => f i a

/-! ## Patterns -/

/-- What is wrong with what a pattern requires, over `n` fragments. -/
def StoredPattern.defects (n i : Nat) (p : StoredPattern κ) : List EngineDefect :=
  match p.requirement with
  | .wildcardOnly => if wildcardOnly p.text then [] else [.wrongWildcardOnly i]
  | .fragments ids =>
    (if wildcardOnly p.text || ids.isEmpty then [.wrongFragments i] else [])
      ++ (if isHandleSet ids then [] else [.patternSetUnordered i])
      ++ (ids.filter (n ≤ ·)).map (.patternMissesFragment i)

/-- The patterns, from the handle `i` on, whose text came before. A directory has the texts that came before, the newest
first, and so it names the newest of those that are alike. -/
def repeatsFrom (directory : List (Bytes × Nat)) (i : Nat) : List Bytes → List EngineConcern
  | [] => []
  | t :: ts =>
    let later := repeatsFrom ((t, i) :: directory) (i + 1) ts
    match directory.lookup t with
    | some previous => .repeated i previous :: later
    | none => later

/-- The patterns whose text came before. -/
def Registry.repeats (r : Registry κ) : List EngineConcern := repeatsFrom [] 0 r.texts

/-- How many of `n` fragments no pattern requires. -/
def Registry.unreferenced (r : Registry κ) (n : Nat) : Nat :=
  let required := (r.toList.filterMap (·.requirement.ids?)).flatten
  (List.range n).countP fun f => !required.contains f

/-! ## Meta-words -/

namespace MetaWordIndex

/-- What is wrong with a meta-word. -/
def defectsOf (x : MetaWordIndex) (r : Registry κ) (n m : Nat) (w : MetaWord) : List EngineDefect :=
  (if w.fragments.isEmpty then [.emptyMetaWord m] else [])
    ++ (if isHandleSet w.fragments then [] else [.metaWordSetUnordered m])
    ++ (w.fragments.flatMap fun f =>
      if n ≤ f then [.metaWordMissesFragment m f]
      else if (x.containing f).contains m then [] else [.missingBackRef f m])
    ++ (w.patterns.flatMap fun p =>
      match r.get? p with
      | none => [.metaWordMissesPattern m p]
      | some s => if s.requirement = .fragments w.fragments then [] else [.misfiled p m])

/-- The patterns as the index lists them, with those of wildcards alone. -/
def filed (x : MetaWordIndex) : List Nat := x.metaWords.toList.flatMap (·.patterns) ++ x.wildcardOnly

/-- The patterns that the index does not list exactly once. -/
def filingDefects (x : MetaWordIndex) (n : Nat) : List EngineDefect :=
  (List.range n).flatMap fun p => if x.filed.count p = 1 then [] else [.reachable p (x.filed.count p)]

/-- The references back that lead to a meta-word without the fragment. -/
def strayBackRefs (x : MetaWordIndex) : List EngineDefect :=
  numbered x.backRefs.toList fun f refs =>
    (refs.filter fun m => !((x.get? m).any (·.fragments.contains f))).map (.strayBackRef f)

/-- What is wrong with an index of the patterns of a registry, over `n` fragments. -/
def defects (x : MetaWordIndex) (r : Registry κ) (n : Nat) : List EngineDefect :=
  numbered x.metaWords.toList (x.defectsOf r n)
    ++ (x.wildcardOnly.filter (r.size ≤ ·)).map .wildcardOnlyMissesPattern
    ++ x.filingDefects r.size
    ++ (if x.backRefs.size = n then [] else [.backRefTableSize x.backRefs.size n])
    ++ x.strayBackRefs

/-- The number of references back. -/
def backRefCount (x : MetaWordIndex) : Nat := x.backRefs.toList.flatten.length

end MetaWordIndex

/-! ## Tables of literals -/

namespace CompiledIndex

variable {S : Scanner}

/-- What is wrong with the tables between ids and fragments, over `n` fragments. -/
def literalDefects (x : CompiledIndex S) (n : Nat) : List EngineDefect :=
  (if x.literalsNeeded.size = n then [] else [.neededTableSize x.literalsNeeded.size n])
    ++ (x.alwaysPresent.filter (x.literalsNeeded[·]? != some 0)).map .presentNeedsLiterals
    ++ numbered x.literalFragments.toList fun l fs => (fs.filter (n ≤ ·)).map (.literalMissesFragment l)

/-- The ids that no needle has. -/
def idleLiterals (x : CompiledIndex S) : List EngineConcern :=
  (placesOf List.isEmpty x.literalFragments.toList).map .idleLiteral

/-- What is wrong with an index. -/
def defects (x : CompiledIndex S) (r : Registry κ) (n : Nat) : List EngineDefect :=
  x.metaWords.defects r n ++ x.literalDefects n ++ (S.problems x.scanner).map .scanner

end CompiledIndex

/-- Examine patterns, fragments and an index, if there is one. -/
def EngineAudit.of {S : Scanner} (r : Registry κ) (table : FragmentTable) (index? : Option (CompiledIndex S)) : EngineAudit :=
  let n := table.size
  let unreferenced := r.unreferenced n
  { patterns := r.size
    wildcardOnly := r.wildcardOnlyCount
    fragments := n
    metaWords := index?.elim 0 (·.metaWords.size)
    backRefs := index?.elim 0 (·.metaWords.backRefCount)
    unreferenced
    errors := numbered r.toList (StoredPattern.defects n) ++ index?.elim [] (·.defects r n)
    warnings := r.repeats
      ++ (if unreferenced = 0 then [] else [.unreferenced unreferenced])
      ++ index?.elim [] (·.idleLiterals) }

/-- Examine an engine. -/
def Engine.audit {S : Scanner} (e : Engine S κ) : EngineAudit := .of e.registry e.table e.phase.index?

end GlobSieve
