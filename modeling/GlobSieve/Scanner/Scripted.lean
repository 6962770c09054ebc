import GlobSieve.Scanner.Basic

/-!
# Scripted scanners

A scanner that looks at neither literals nor texts and answers from a script, to try an engine on answers that no
automaton gives: ids that are shared or skipped, refusals, scans that are wrong.
-/

namespace GlobSieve

/-- The answers of a scripted scanner. -/
structure Script where
  /-- The answers to the first literals offered; the `n`-th literal after them gets the id `n`. -/
  replies : List (Except LiteralError Nat)
  /-- Why the scanner cannot be finished, if it cannot. -/
  refusal : Option LiteralError
  /-- What every scan lists. -/
  seen : List Nat
  states : Nat
  problems : List String

/-- The scanner that follows a script. Its builder counts the literals offered. -/
def Scanner.scripted (s : Script) : Scanner where
  Builder := Nat
  Built := Unit
  start _ := 0
  add n _ := (s.replies.getD n (.ok n), n + 1)
  finish _ :=
    match s.refusal with
    | some e => .error e
    | none => .ok ()
  scan _ _ := s.seen
  stateCount _ := s.states
  problems _ := s.problems

end GlobSieve
