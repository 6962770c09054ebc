import GlobSieve.Literal.Automaton

/-!
# Building an automaton in place

A `Builder` finds out from its trie whether it knows a literal, and `Automaton.ofBuilder` computes the link of each state from
those of the shallower ones. Here both are done with tables that are changed step by step.

* A `Draft` has a directory of its literals, and its states collect their outputs. `Draft.addHere` adds a literal and may fail
  on the way; what was changed before stays changed.
* `Draft.build?` links the states as they come out of a queue. The edges of a state come in an order of which nothing is assumed
  (`EdgeOrder`), as from a hash table. To link a state, the links of others are followed until one of them has an edge
  (`climb?`).

Neither the queue nor the links need come to an end. As many rounds are made as there are states, and there is no result if
these do not suffice; that they do is proved and not assumed.
-/

namespace GlobSieve.Literal

/-! ## Adding literals -/

/-- A state in the making. -/
structure DraftState where
  /-- The states one byte further, each under its byte. -/
  edges : List (UInt8 × Nat)
  /-- Where the state falls back to. -/
  failure : Nat
  /-- The length of the state's string. -/
  depth : Nat
  /-- The literals that end with the state's string. -/
  outputs : List Nat
  deriving Repr, Inhabited

/-- A state that is new. -/
def DraftState.atDepth (depth : Nat) : DraftState := ⟨[], 0, depth, []⟩

/-- An automaton in the making. -/
structure Draft where
  mode : CaseMode
  /-- The greatest length of a literal. -/
  limit : Nat
  states : Array DraftState
  /-- The folded literals with their ids, the newest first. -/
  directory : List (Bytes × Nat)

/-- Steps that change a draft, up to a failure. -/
abbrev Drafting := ExceptT LiteralError (StateM Draft)

/-- Take the steps. The result, and what became of the draft. -/
def Drafting.runOn {α : Type} (steps : Drafting α) (d : Draft) : Except LiteralError α × Draft := steps.run.run d

namespace Draft

def empty (mode : CaseMode) (limit : Nat) : Draft := ⟨mode, limit, #[.atDepth 0], []⟩

/-- How many literals were accepted. -/
def literalCount (d : Draft) : Nat := d.directory.length

def state (d : Draft) (s : Nat) : DraftState := d.states.getD s (.atDepth 0)

/-- The state that a byte leads to, which is made if there is none. -/
def extend (d : Draft) (s : Nat) (b : UInt8) : Nat × Draft :=
  match (d.state s).edges.lookup b with
  | some next => (next, d)
  | none =>
    let new := d.states.size
    let depth := (d.state s).depth + 1
    (new, { d with states := (d.states.push (.atDepth depth)).modify s fun n => { n with edges := (b, new) :: n.edges } })

/-- Let a literal end at a state. -/
def report (d : Draft) (s id : Nat) : Draft :=
  { d with states := d.states.modify s fun n => { n with outputs := n.outputs ++ [id] } }

/-- Let the directory have a literal. -/
def register (d : Draft) (folded : Bytes) (id : Nat) : Draft := { d with directory := (folded, id) :: d.directory }

/-- Add a literal; its id. -/
def addHere (l : Bytes) : Drafting Nat := do
  let d ← get
  if l.isEmpty then throw .zeroLength
  else if d.limit < l.length then throw (.tooLong l.length d.limit)
  else
    let folded := d.mode.foldBytes l
    match d.directory.lookup folded with
    | some id => throw (.duplicate id)
    | none =>
      if Builder.maxStates < d.states.size + folded.length then
        throw (.resourceLimit s!"automaton would exceed {Builder.maxStates} states")
      else
        let id := d.literalCount
        let last ← folded.foldlM (fun s b => modifyGet fun d => d.extend s b) 0
        modify fun d => d.report last id
        modify fun d => d.register folded id
        return id

/-- Add literals in turn; one that is known already is passed over, any other refusal ends it. -/
def addAll (d : Draft) : List Bytes → Except LiteralError Unit × Draft
  | [] => (.ok (), d)
  | l :: ls =>
    match (addHere l).runOn d with
    | (.ok _, d') | (.error (.duplicate _), d') => d'.addAll ls
    | (.error e, d') => (.error e, d')

end Draft

/-! ## Linking the states -/

/-- An order of the edges of each state. -/
structure EdgeOrder where
  arrange : Nat → List (UInt8 × Nat) → List (UInt8 × Nat)
  perm (s : Nat) (edges : List (UInt8 × Nat)) : (arrange s edges).Perm edges

/-- The edges as they are kept. -/
def EdgeOrder.kept : EdgeOrder := ⟨fun _ edges => edges, fun _ edges => .refl edges⟩

/-- The state reached by a byte: that of the first state from `s` on, along failure links, that has an edge under it, or the root
where there is none. At most `k` states are asked. -/
def climb? (child : Nat → Option Nat) (failure : Nat → Nat) : (k : Nat) → (s : Nat) → Option Nat
  | 0, _ => none
  | k + 1, s =>
    match child s with
    | some next => some next
    | none => if s = 0 then some 0 else climb? child failure k (failure s)

/-- Add a state, with its edges in this order, and its outputs behind those of the others, where fewer than `2 ^ 32` are meant to
stand. -/
def Frozen.pushDraft (f : Frozen) (n : DraftState) (edges : List (UInt8 × Nat)) : Frozen where
  nodes := f.nodes.push ⟨.ofEdges edges, n.failure, n.depth, f.outputs.size, n.outputs.length⟩
  outputs := f.outputs ++ n.outputs.toArray

namespace Draft

/-- Link the state of an edge of `s`: it falls back to where the link of `s` leads by the byte, and has the outputs from there. -/
def linkEdge? (s : Nat) (d : Draft) (edge : UInt8 × Nat) : Option Draft := do
  let child (r : Nat) := (d.state r).edges.lookup edge.1
  let target ← climb? child (fun r => (d.state r).failure) d.states.size (d.state s).failure
  let inherited := if target = 0 then [] else (d.state target).outputs
  return { d with
    states := d.states.modify edge.2 fun n => { n with failure := target, outputs := n.outputs ++ inherited } }

/-- Link the states below those of a queue, `k` of which may come out. The states that were linked join the queue. -/
def linkQueue? (order : EdgeOrder) : (k : Nat) → (queue : List Nat) → Draft → Option Draft
  | _, [], d => some d
  | 0, _ :: _, _ => none
  | k + 1, s :: queue, d => do
    let edges := order.arrange s (d.state s).edges
    let d ← edges.foldlM (linkEdge? s) d
    linkQueue? order k (queue ++ edges.map Prod.snd) d

/-- Let a state fall back to the root. -/
def linkToRoot (d : Draft) (s : Nat) : Draft := { d with states := d.states.modify s fun n => { n with failure := 0 } }

/-- Link all states, those below the root first. -/
def linkAll? (order : EdgeOrder) (d : Draft) : Option Draft :=
  let children := (order.arrange 0 (d.state 0).edges).map Prod.snd
  linkQueue? order d.states.size children (children.foldl linkToRoot d)

/-- Put all states into their final form. -/
def freeze (order : EdgeOrder) (d : Draft) : Frozen :=
  (List.range d.states.size).foldl (fun f s => f.pushDraft (d.state s) (order.arrange s (d.state s).edges)) .empty

/-- The automaton, if the states can be linked. -/
def build? (order : EdgeOrder) (d : Draft) : Option Automaton :=
  (d.linkAll? order).map fun d => { toFrozen := d.freeze order, mode := d.mode, literalCount := d.literalCount }

end Draft

/-- The automaton of a list of literals; repeats are passed over. -/
def Automaton.buildInPlace? (order : EdgeOrder) (mode : CaseMode) (ls : List Bytes) : Option (Except LiteralError Automaton) :=
  match (Draft.empty mode defaultLimit).addAll ls with
  | (.error e, _) => some (.error e)
  | (.ok _, d) => (d.build? order).map .ok

end GlobSieve.Literal
