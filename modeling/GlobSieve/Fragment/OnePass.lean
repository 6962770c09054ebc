import GlobSieve.Glob.Lexeme

/-!
# Fragments and needles in one pass

The fragments of a pattern and the needles of a fragment, cut out by two walks over the bytes. Each keeps the stretch that is
open and the ones that are closed (`Splitter`, `Extractor`). Neither looks for the end of a bracket again once it has met a `[`
that is not closed: from there on every `[` is an ordinary byte.
-/

namespace GlobSieve

open Glob

/-! ## Fragments -/

/-- The fragments of a pattern, up to a place in it. -/
structure Splitter where
  closed : List Bytes
  /-- The bytes since the last wildcard. -/
  current : Bytes
  deriving DecidableEq, Repr

namespace Splitter

def start : Splitter := ⟨[], []⟩

/-- The fragment ends here, if there is one. -/
def close (s : Splitter) : Splitter := if s.current.isEmpty then s else ⟨s.closed ++ [s.current], []⟩

/-- Bytes that belong to the fragment. -/
def keep (s : Splitter) (t : Bytes) : Splitter := { s with current := s.current ++ t }

/-- Walk to the end of the pattern. It is said whether there may be brackets. -/
def walk (brackets : Bool) (s : Splitter) : Bytes → Splitter
  | [] => s
  | b :: r =>
    if b = Sign.escape then (s.keep (b :: r.take 1)).walk brackets (r.drop 1)
    else if b = Sign.star ∨ b = Sign.query then s.close.walk brackets r
    else if b = Sign.bracketOpen ∧ brackets then
      match closeOffset r with
      | some n => (s.keep (b :: r.take (n + 1))).walk brackets (r.drop (n + 1))
      | none => (s.keep [b]).walk false r
    else (s.keep [b]).walk brackets r
termination_by p => p.length

end Splitter

/-- The fragments of a pattern, in one pass. -/
def fragmentsOnePass (p : Bytes) : List Bytes := (Splitter.start.walk true p).close.closed

/-- Whether a pattern consists of wildcards alone, by its fragments in one pass. -/
def wildcardOnlyOnePass (p : Bytes) : Bool := (fragmentsOnePass p).isEmpty && !p.isEmpty

/-! ## Needles -/

/-- The needles of a fragment, up to a place in it. -/
structure Extractor where
  needles : List Bytes
  /-- The bytes since the last bracket, with escapes taken out. -/
  run : Bytes
  deriving DecidableEq, Repr

namespace Extractor

def start : Extractor := ⟨[], []⟩

/-- The run ends here. It is a needle if it has a byte and is not one already. -/
def flush (x : Extractor) : Extractor :=
  ⟨if x.run.isEmpty || x.needles.contains x.run then x.needles else x.needles ++ [x.run], []⟩

def push (x : Extractor) (b : UInt8) : Extractor := { x with run := x.run ++ [b] }

/-- Walk to the end of the fragment. It is said whether there may be brackets. -/
def walk (brackets : Bool) (x : Extractor) : Bytes → Extractor
  | [] => x
  | b :: r =>
    if b = Sign.escape then
      match r with
      | c :: r' => (x.push c).walk brackets r'
      | [] => x.push b
    else if b = Sign.bracketOpen ∧ brackets then
      match closeOffset r with
      | some n => x.flush.walk brackets (r.drop (n + 1))
      | none => (x.push b).walk false r
    else (x.push b).walk brackets r
termination_by f => f.length

end Extractor

/-- The needles of a fragment, in one pass. -/
def needlesOnePass (f : Bytes) : List Bytes := (Extractor.start.walk true f).flush.needles

end GlobSieve
