import GlobSieve.Literal.Audit
import GlobSieve.Scanner.Basic

/-!
# The automaton as a scanner
-/

namespace GlobSieve.Scanner

open Literal

/-- Offer a literal to a builder; a refusal leaves the builder as it was. -/
def offer (b : Literal.Builder) (l : Bytes) : Except LiteralError Nat × Literal.Builder :=
  match b.add l with
  | .ok (id, b') => (.ok id, b')
  | .error e => (.error e, b)

/-- The scanner that finds literals with an automaton. -/
def automaton : Scanner where
  Builder := Literal.Builder
  Built := Automaton
  start c := Literal.Builder.empty c.mode c.literalLimit
  add := offer
  finish b := .ok (Automaton.ofBuilder b)
  scan := Automaton.scan
  stateCount a := a.nodes.size
  problems a := a.defects.map Defect.message

end GlobSieve.Scanner
