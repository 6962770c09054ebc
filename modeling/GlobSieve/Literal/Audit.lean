import GlobSieve.Literal.Automaton

/-!
# Checking an automaton

`Automaton.audit` examines the structure of an automaton, whatever it was made from: every edge must lead one level
down, every failure link but the root's to a shallower state, and the outputs of a state must be there and be known
literals. If nothing is wrong, the states that cannot be reached from the root are counted.
-/

namespace GlobSieve.Literal

/-- What can be wrong with an automaton. -/
inductive Defect where
  | noRoot
  | missingTarget (s target : Nat)
  | wrongDepth (s target : Nat)
  | missingLink (s link : Nat)
  | linkNotShallower (s link : Nat)
  | outputsOutOfRange (s : Nat)
  | unknownOutput (s literal : Nat)
  deriving DecidableEq, Repr

def Defect.message : Defect → String
  | noRoot => "Automaton has no root node"
  | missingTarget s target => s!"Node {s} has edge to missing node {target}"
  | wrongDepth s target => s!"Node {s} has edge to node {target} at wrong depth"
  | missingLink s link => s!"Node {s} has failure link to missing node {link}"
  | linkNotShallower s link => s!"Node {s} has failure link to non-shallower node {link}"
  | outputsOutOfRange s => s!"Node {s} output range out of bounds"
  | unknownOutput s literal => s!"Node {s} reports unknown literal {literal}"

/-- What is allowed and yet should not be. -/
inductive Concern where
  | denseForFew (s : Nat)
  | unreachable (count : Nat)
  deriving DecidableEq, Repr

def Concern.message : Concern → String
  | denseForFew s => s!"Node {s} uses a dense table for few edges"
  | unreachable count => s!"{count} nodes unreachable from root"

/-- The findings about an automaton. -/
structure Audit where
  nodeCount : Nat
  literalCount : Nat
  /-- How many states use each encoding, in the order of `Encoding.all`. -/
  encodings : List Nat
  /-- How many states cannot be reached from the root. -/
  orphaned : Nat
  errors : List Defect
  warnings : List Concern

def Audit.valid (a : Audit) : Bool := a.errors.isEmpty

namespace Automaton

/-- What is wrong with one edge of a state. -/
def edgeDefects (a : Automaton) (s : Nat) (n : Node) (target : Nat) : List Defect :=
  match a.nodes[target]? with
  | none => [.missingTarget s target]
  | some m => if m.depth = n.depth + 1 then [] else [.wrongDepth s target]

/-- What is wrong with the failure link of a state. -/
def linkDefects (a : Automaton) (s : Nat) (n : Node) : List Defect :=
  match a.nodes[n.failure]? with
  | none => [.missingLink s n.failure]
  | some m => if s ≠ 0 ∧ n.depth ≤ m.depth then [.linkNotShallower s n.failure] else []

/-- What is wrong with the outputs of a state. They are looked at one by one if they are there. -/
def outputDefects (a : Automaton) (s : Nat) (n : Node) : List Defect :=
  if a.outputs.size < n.outputsStart + n.outputsLength then [.outputsOutOfRange s]
  else ((a.outputsOf s).filter (a.literalCount ≤ ·)).map (.unknownOutput s)

/-- What is wrong with a state. -/
def nodeDefects (a : Automaton) (s : Nat) (n : Node) : List Defect :=
  n.transitions.targets.flatMap (a.edgeDefects s n) ++ a.linkDefects s n ++ a.outputDefects s n

/-- What is wrong with an automaton. -/
def defects (a : Automaton) : List Defect :=
  if a.nodes.isEmpty then [.noRoot]
  else a.nodes.toList.zipIdx.flatMap fun (n, s) => a.nodeDefects s n

/-- Whether a state has a slot for every byte without need. -/
def Node.isWasteful (n : Node) : Bool :=
  n.transitions.encoding == .dense && n.transitions.targets.length ≤ Transitions.sparseLimit

/-- The states with a slot for every byte and few edges. -/
def wasteful (a : Automaton) : List Concern :=
  (a.nodes.toList.zipIdx.filter fun (n, _) => Node.isWasteful n).map fun (_, s) => .denseForFew s

/-- Mark what can be reached in at most `k` steps from the states of `front`. -/
def mark (a : Automaton) : (k : Nat) → (front : List Nat) → (seen : Array Bool) → Array Bool
  | 0, _, seen => seen
  | k + 1, front, seen =>
    let next := (front.flatMap fun s => (a.node s).transitions.targets).filter fun s => !seen.getD s true
    a.mark k next (next.foldl (·.setIfInBounds · true) seen)

/-- How many states cannot be reached from the root. A path visits no state twice, so as many steps as there are
states lead everywhere. -/
def orphaned (a : Automaton) : Nat :=
  (a.mark a.nodes.size [0] ((Array.replicate a.nodes.size false).setIfInBounds 0 true)).count false

/-- Examine an automaton. Reachability is not asked for when something is wrong with the edges. -/
def audit (a : Automaton) : Audit :=
  let errors := a.defects
  let orphaned := if errors.isEmpty then a.orphaned else 0
  { nodeCount := a.nodes.size
    literalCount := a.literalCount
    encodings := Encoding.all.map fun e => a.nodes.toList.countP (·.transitions.encoding == e)
    orphaned
    errors
    warnings := a.wasteful ++ if orphaned = 0 then [] else [.unreachable orphaned] }

end Automaton

end GlobSieve.Literal
