import GlobSieve.Glob.Lexeme
import GlobSieve.Runs

/-!
# Fragments of a pattern

The wildcards `*` and `?` cut a pattern into fragments, the stretches without a wildcard (`fragments`). A bracket is
part of the fragment it stands in, whatever its body holds. A text that matches the pattern matches every fragment
somewhere, so a pattern can be ruled out by one absent fragment; a pattern without fragments (`wildcardOnly`) never
can.
-/

namespace GlobSieve

open Glob

/-- Whether a lexeme is one of the wildcards `*` and `?`. -/
def Glob.Lexeme.isWildcard : Lexeme → Bool
  | .star | .query => true
  | _ => false

/-- The bytes that a lexeme gives to a fragment; a wildcard gives none and ends the fragment. -/
def Glob.Lexeme.fragmentText? (x : Lexeme) : Option Bytes := if x.isWildcard then none else some x.text

/-- The stretches of a pattern between wildcards, in order; none is empty. -/
def fragments (p : Bytes) : List Bytes := (runs Lexeme.fragmentText? (lex p)).map List.flatten

/-- Whether a pattern consists of wildcards alone. The empty pattern does not. -/
def wildcardOnly (p : Bytes) : Bool := (fragments p).isEmpty && !p.isEmpty

end GlobSieve
