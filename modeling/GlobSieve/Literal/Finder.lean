import GlobSieve.Literal.InPlace

/-!
# Finding literals one by one

`Automaton.scan` lists all literals of a text. A `Finder` reads the text only as far as it must: `Finder.next?` gives the next
literal, from the outputs that are still pending or else from those of the next state that has any. The next state is looked
for along failure links, of as many states as there are (`Automaton.next?`).
-/

namespace GlobSieve.Literal

/-- The state after a folded byte. -/
def Automaton.next? (a : Automaton) (s : Nat) (b : UInt8) : Option Nat :=
  climb? (fun r => (a.node r).transitions.target? b) (fun r => (a.node r).failure) a.nodes.size s

/-- A search in progress. -/
structure Finder where
  /-- What was not read of the text. -/
  rest : Bytes
  /-- The state of what was read. -/
  state : Nat
  /-- The outputs of this state that were not given yet. -/
  pending : List Nat

namespace Finder

/-- A search that is yet to begin. -/
def start (t : Bytes) : Finder := ⟨t, 0, []⟩

/-- Read on from a state that has nothing pending, up to the next output. -/
def readOn? (a : Automaton) (s : Nat) : Bytes → Option (Option Nat × Finder)
  | [] => some (none, ⟨[], s, []⟩)
  | b :: rest => do
    let s ← a.next? s (a.mode.fold b)
    match a.outputsOf s with
    | id :: pending => return (some id, ⟨rest, s, pending⟩)
    | [] => readOn? a s rest

/-- The next literal, if there is one more. -/
def next? (a : Automaton) (f : Finder) : Option (Option Nat × Finder) :=
  match f.pending with
  | id :: pending => some (some id, { f with pending })
  | [] => readOn? a f.state f.rest

/-- Ask for `n` literals. Those that there were, and the search after them. -/
def take? (a : Automaton) (f : Finder) : Nat → Option (List Nat × Finder)
  | 0 => some ([], f)
  | n + 1 => do
    let (found, f) ← f.next? a
    let (ids, f) ← f.take? a n
    return (found.toList ++ ids, f)

end Finder

/-- Whether some literal occurs in the text, by the first one found. -/
def Automaton.isMatch? (a : Automaton) (t : Bytes) : Option Bool := ((Finder.start t).next? a).map (·.1.isSome)

end GlobSieve.Literal
