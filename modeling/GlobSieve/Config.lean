import GlobSieve.CaseMode

/-!
# Settings

What a collection of patterns is set up with, once and for all.
-/

namespace GlobSieve

/-- The settings of a collection of patterns. -/
structure Config where
  mode : CaseMode
  /-- The greatest length of a needle. -/
  literalLimit : Nat
  deriving DecidableEq, Repr

namespace Config

/-- The greatest length of a needle, where none is given. -/
def defaultLimit : Nat := 1024

/-- Case counts, and needles have the usual greatest length. -/
def standard : Config := ⟨.sensitive, defaultLimit⟩

end Config

end GlobSieve
