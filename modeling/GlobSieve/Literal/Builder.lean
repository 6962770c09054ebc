import GlobSieve.Literal.Error
import GlobSieve.Literal.Trie

/-!
# Collecting literals

A `Builder` takes literals one by one, folded by its mode, and numbers the accepted ones from zero. `Builder.add`
either refuses a literal and says why, or gives its id and the builder that knows it; a refusal leaves no trace.
-/

namespace GlobSieve.Literal

/-- The literals accepted so far. -/
structure Builder where
  mode : CaseMode
  /-- The greatest length of a literal. -/
  limit : Nat
  trie : Trie
  /-- How many literals were accepted. -/
  count : Nat

namespace Builder

/-- The greatest number of states, as it fits into 31 bits. -/
def maxStates : Nat := 2147483647

def empty (mode : CaseMode) (limit : Nat) : Builder := ⟨mode, limit, .empty, 0⟩

/-- Add a literal. Its id, and the builder that has it. -/
def add (b : Builder) (l : Bytes) : Except LiteralError (Nat × Builder) :=
  if l.isEmpty then .error .zeroLength
  else if b.limit < l.length then .error (.tooLong l.length b.limit)
  else
    match b.trie.find? (b.mode.foldBytes l) with
    | some id => .error (.duplicate id)
    | none =>
      if maxStates < b.trie.size + l.length then
        .error (.resourceLimit s!"automaton would exceed {maxStates} states")
      else
        .ok (b.count, { b with trie := b.trie.insert (b.mode.foldBytes l) b.count, count := b.count + 1 })

end Builder

end GlobSieve.Literal
