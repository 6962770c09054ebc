import GlobSieve.CaseMode

/-!
# Tries of byte strings

A trie is an array of states that starts with the root; a state stands for the string that leads to it from the root
(`walk`). A new state goes to the end of the array, so a state's number is larger than its parent's and never changes.
A state at which an inserted string ends carries the id of that string.
-/

namespace GlobSieve.Literal

/-- A state of a trie. -/
structure TrieState where
  /-- The states one byte further, each under its byte. -/
  edges : List (UInt8 × Nat)
  /-- The length of the state's string. -/
  depth : Nat
  parent : Nat
  /-- The last byte of the state's string. -/
  label : UInt8
  /-- The inserted string that ends here. -/
  own : Option Nat
  deriving Repr, Inhabited

/-- The state of the empty string. -/
def TrieState.root : TrieState := ⟨[], 0, 0, 0, none⟩

/-- A set of byte strings with ids, by their prefixes. -/
structure Trie where
  states : Array TrieState

namespace Trie

/-- The trie of no strings. -/
def empty : Trie := ⟨#[.root]⟩

/-- The number of states, the root included. -/
def size (t : Trie) : Nat := t.states.size

def state (t : Trie) (s : Nat) : TrieState := t.states.getD s .root

/-- The state one byte further. -/
def child (t : Trie) (s : Nat) (b : UInt8) : Option Nat := (t.state s).edges.lookup b

/-- The state that the string leads to from `s`. -/
def walk (t : Trie) (s : Nat) : Bytes → Option Nat
  | [] => some s
  | b :: w =>
    match t.child s b with
    | some c => t.walk c w
    | none => none

/-- The id of an inserted string. -/
def find? (t : Trie) (w : Bytes) : Option Nat := (t.walk 0 w).bind fun s => (t.state s).own

/-- Add a state below `s`, under the byte `b`. -/
def addChild (t : Trie) (s : Nat) (b : UInt8) : Trie :=
  let n := t.state s
  ⟨(t.states.setIfInBounds s { n with edges := (b, t.size) :: n.edges }).push ⟨[], n.depth + 1, s, b, none⟩⟩

/-- Add the states that the string lacks below `s`; the trie and the state of the string. -/
def extend (t : Trie) (s : Nat) : Bytes → Trie × Nat
  | [] => (t, s)
  | b :: w =>
    match t.child s b with
    | some c => t.extend c w
    | none =>
      let c := t.size
      (t.addChild s b).extend c w

/-- Let the string of `s` have an id. -/
def setOwn (t : Trie) (s : Nat) (id : Nat) : Trie :=
  ⟨t.states.setIfInBounds s { t.state s with own := some id }⟩

/-- Insert a string under an id. -/
def insert (t : Trie) (w : Bytes) (id : Nat) : Trie :=
  let (t', s) := t.extend 0 w
  t'.setOwn s id

end Trie

end GlobSieve.Literal
