import GlobSieve.CaseMode

/-!
# Encodings of a state's edges

The edges of a state are kept in the form that suits their number: none, one, a table sorted by byte that is searched
by halving for up to eight edges, and a slot for every byte beyond. `Transitions.ofEdges` chooses the form;
`Transitions.target?` looks a byte up in any of them, and `Transitions.targets` lists the states the edges lead to.

A slot is a number, and zero stands for no edge. This is the number of the root, so such slots keep edges only if none of
them leads back to the root.
-/

namespace GlobSieve.Literal

/-- The edges of a state. -/
inductive Transitions where
  | empty
  | one (b : UInt8) (target : Nat)
  /-- Edges in ascending order of their bytes. -/
  | sparse (table : Array (UInt8 × Nat))
  /-- One slot for each of the 256 bytes, zero if there is no edge. -/
  | dense (slots : Vector Nat 256)
  deriving Repr, Inhabited

/-- The form in which edges are kept. -/
inductive Encoding where
  | empty
  | one
  | sparse
  | dense
  deriving DecidableEq, Repr

/-- The encodings, in the order of reports. -/
def Encoding.all : List Encoding := [.empty, .one, .sparse, .dense]

namespace Transitions

/-- The greatest number of edges in a sorted table. -/
def sparseLimit : Nat := 8

/-- Edges in ascending order of their bytes. -/
def sortEdges (edges : List (UInt8 × Nat)) : List (UInt8 × Nat) := edges.mergeSort fun x y => x.1 ≤ y.1

/-- One slot per byte, the edges being written one after the other. -/
def slotsOf (edges : List (UInt8 × Nat)) : Vector Nat 256 :=
  edges.foldl (fun slots e => slots.set e.1.toNat e.2 e.1.toNat_lt) (Vector.replicate 256 0)

/-- Encode edges with distinct bytes, none of which leads to the root. -/
def ofEdges : List (UInt8 × Nat) → Transitions
  | [] => empty
  | [(b, t)] => one b t
  | edges =>
    if edges.length ≤ sparseLimit then sparse (sortEdges edges).toArray else dense (slotsOf (sortEdges edges))

/-- Search a sorted table between the places `lo` and `hi`. -/
def searchSorted (table : Array (UInt8 × Nat)) (b : UInt8) (lo hi : Nat) : Option Nat :=
  if _h : lo < hi then
    match table[(lo + hi) / 2]? with
    | none => none
    | some (c, t) =>
      if b = c then some t
      else if b < c then searchSorted table b lo ((lo + hi) / 2)
      else searchSorted table b ((lo + hi) / 2 + 1) hi
  else none
termination_by hi - lo

/-- The state that a byte leads to. -/
def target? : Transitions → UInt8 → Option Nat
  | empty, _ => none
  | one c t, b => if b = c then some t else none
  | sparse table, b => searchSorted table b 0 table.size
  | dense slots, b => if slots[b.toFin] = 0 then none else some slots[b.toFin]

/-- The states that the edges lead to. -/
def targets : Transitions → List Nat
  | empty => []
  | one _ t => [t]
  | sparse table => table.toList.map Prod.snd
  | dense slots => slots.toList.filter (· ≠ 0)

def encoding : Transitions → Encoding
  | empty => .empty
  | one _ _ => .one
  | sparse _ => .sparse
  | dense _ => .dense

/-- The encoding that suits a number of edges. -/
def encodingFor : Nat → Encoding
  | 0 => .empty
  | 1 => .one
  | n => if n ≤ sparseLimit then .sparse else .dense

end Transitions

end GlobSieve.Literal
