import GlobSieve.Glob.Pattern

/-!
# Reading a pattern in one pass

`Glob.parse` without the list of lexemes: a `Reader` walks over the bytes of a pattern and writes down a token as soon as it
has seen one. At each `[` it looks anew for the byte that closes the bracket.
-/

namespace GlobSieve.Glob

/-- What was read so far. -/
structure Reader where
  tokens : List Token
  /-- The pattern ended in a backslash that protects nothing. -/
  dangling : Bool
  deriving DecidableEq, Repr

namespace Reader

/-- Nothing was read. -/
def start : Reader := ⟨[], false⟩

def push (rd : Reader) (tok : Token) : Reader := { rd with tokens := rd.tokens ++ [tok] }

/-- Write down a star, unless the last token is one. -/
def pushStar (rd : Reader) : Reader := if rd.tokens.getLast? = some .star then rd else rd.push .star

/-- Read to the end of the pattern. -/
def read (rd : Reader) : Bytes → Reader
  | [] => rd
  | b :: r =>
    if b = Sign.escape then
      match r with
      | c :: r' => (rd.push (.literal c)).read r'
      | [] => { rd with dangling := true }
    else if b = Sign.star then rd.pushStar.read r
    else if b = Sign.query then (rd.push .any).read r
    else if b = Sign.bracketOpen then
      match closeOffset r with
      | some n => (rd.push (bracketToken (r.take n))).read (r.drop (n + 1))
      | none => (rd.push (.literal b)).read r
    else (rd.push (.literal b)).read r
termination_by p => p.length

end Reader

/-- Read a pattern, in one pass. -/
def parseOnePass (m : CaseMode) (p : Bytes) : Glob :=
  let rd := Reader.start.read p
  ⟨m, rd.tokens, rd.dangling⟩

end GlobSieve.Glob
