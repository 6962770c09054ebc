import GlobSieve.Literal.Builder
import GlobSieve.Literal.Transitions

/-!
# The literal automaton

All literals are found in one pass over a text. The states are those of the literals' trie; the string of the current
state is the longest suffix of what was read that begins a literal. When a byte does not extend it, the failure link
leads to the next shorter such suffix (`follow`).

* `linksOf` finds failure links and outputs in order of depth: the link of a state is reached from the link of its
  parent, and its outputs are its own literal followed by those of its link, the longest first.
* `freeze` puts the states into their final form. The outputs of all states go into one row, and a state knows its part.
  Places in the row are natural numbers; rows of fewer than `2 ^ 32` entries are meant, where a place is a word of 32 bits.
* `Automaton.scan` lists the literals that end at each place of a text, with repeats.
-/

namespace GlobSieve.Literal

/-- The state reached by a byte: that of the first state, along failure links, that has an edge under it, or the root.
A link leads to a shallower state, so from depth `k` the root is at most `k` links away. -/
def follow (child : Nat → Option Nat) (failure : Nat → Nat) : (k : Nat) → (s : Nat) → Nat
  | 0, s => (child s).getD 0
  | k + 1, s =>
    match child s with
    | some c => c
    | none => follow child failure k (failure s)

/-- Where a state falls back to, and the literals that end with its string. -/
structure Link where
  failure : Nat
  outputs : List Nat
  deriving Repr, Inhabited

/-- The link of the root, which falls back to itself. -/
def Link.root : Link := ⟨0, []⟩

/-- The states of a trie, shallow ones first. -/
def levelOrder (t : Trie) : List Nat := (List.range t.size).mergeSort fun r s => (t.state r).depth ≤ (t.state s).depth

/-- The link of a state, from the links of shallower ones. -/
def linkOf (t : Trie) (links : Array Link) (s : Nat) : Link :=
  let n := t.state s
  let link (r : Nat) := links.getD r .root
  let f :=
    if n.depth ≤ 1 then 0
    else follow (t.child · n.label) (fun r => (link r).failure) n.depth (link n.parent).failure
  ⟨f, n.own.toList ++ (link f).outputs⟩

/-- The links of all states. -/
def linksOf (t : Trie) : Array Link :=
  (levelOrder t).foldl (fun links s => links.setIfInBounds s (linkOf t links s)) (Array.replicate t.size .root)

/-- A state in its final form. Its outputs stand with those of the other states. -/
structure Node where
  transitions : Transitions
  failure : Nat
  depth : Nat
  /-- The place of its first output. -/
  outputsStart : Nat
  outputsLength : Nat
  deriving Repr

/-- A state without edges, outputs and links. -/
def Node.blank : Node := ⟨.empty, 0, 0, 0, 0⟩

/-- States in their final form, and the outputs of all of them in one row. -/
structure Frozen where
  nodes : Array Node
  outputs : Array Nat

namespace Frozen

def empty : Frozen := ⟨#[], #[]⟩

def node (f : Frozen) (s : Nat) : Node := f.nodes.getD s .blank

/-- The literals that end with the string of a state, the longest first. -/
def outputsOf (f : Frozen) (s : Nat) : List Nat :=
  (f.outputs.extract (f.node s).outputsStart ((f.node s).outputsStart + (f.node s).outputsLength)).toList

/-- Add a state, and its outputs behind those of the others. -/
def push (f : Frozen) (n : TrieState) (l : Link) : Frozen where
  nodes := f.nodes.push ⟨.ofEdges n.edges, l.failure, n.depth, f.outputs.size, l.outputs.length⟩
  outputs := f.outputs ++ l.outputs.toArray

end Frozen

/-- The states of a trie in their final form. -/
def freeze (t : Trie) : Frozen :=
  let links := linksOf t
  (List.range t.size).foldl (fun f s => f.push (t.state s) (links.getD s .root)) .empty

/-- An automaton that finds literals. -/
structure Automaton extends Frozen where
  mode : CaseMode
  literalCount : Nat

namespace Automaton

/-- The automaton of the literals that a builder has. -/
def ofBuilder (b : Builder) : Automaton where
  toFrozen := freeze b.trie
  mode := b.mode
  literalCount := b.count

/-- The greatest length of a literal, where none is given. -/
def defaultLimit : Nat := 1024

/-- The state after a folded byte. -/
def step (a : Automaton) (s : Nat) (b : UInt8) : Nat :=
  follow (fun r => (a.node r).transitions.target? b) (fun r => (a.node r).failure) (a.node s).depth s

/-- The literals found from state `s` on, by the place where they end. -/
def scanFrom (a : Automaton) (s : Nat) : Bytes → List Nat
  | [] => []
  | b :: t =>
    let s' := a.step s (a.mode.fold b)
    a.outputsOf s' ++ a.scanFrom s' t

/-- The literals of a text: by the place where they end, at one place the longest first, each as often as it occurs. -/
def scan (a : Automaton) (t : Bytes) : List Nat := a.scanFrom 0 t

/-- Whether some literal occurs in the text. -/
def isMatch (a : Automaton) (t : Bytes) : Bool := !(a.scan t).isEmpty

end Automaton

end GlobSieve.Literal
