import GlobSieve.Glob.Lexeme
import GlobSieve.Runs

/-!
# Needles of a fragment

A fragment is searched for by its needles, the byte strings that every text it matches must contain: the maximal runs
of bytes between brackets, with escapes taken out. Each needle is listed once, at its first place.

Read on a text that is no fragment, `*` and `?` stand for themselves, and so does a backslash that ends it.
-/

namespace GlobSieve

open Glob

/-- The byte that a lexeme asks for literally; a bracket asks for none and ends the needle. -/
def Glob.Lexeme.needleByte? : Lexeme → Option UInt8
  | .escaped b | .plain b => some b
  | .dangling => some Sign.escape
  | .star => some Sign.star
  | .query => some Sign.query
  | .bracket _ => none

/-- The needles of a fragment, without repeats, in the order of their first places. -/
def needles (f : Bytes) : List Bytes := (runs Lexeme.needleByte? (lex f)).eraseDups

end GlobSieve
