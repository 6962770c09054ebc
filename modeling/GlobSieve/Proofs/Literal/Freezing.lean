import GlobSieve.Literal.Automaton

/-!
# States in their final form

A state that is frozen keeps its edges, its link and its depth, and its outputs are found where it says (`Frozen.Has`).
Freezing another state moves nothing (`Frozen.Has.push`), so this is true of every state of a trie (`has_freeze`).
-/

namespace GlobSieve.Literal

variable {f : Frozen} {s : Nat} {n n' : TrieState} {l l' : Link}

namespace Frozen

/-- The state `s` is that of a trie with its link, and its outputs are where it says. -/
structure Has (f : Frozen) (s : Nat) (n : TrieState) (l : Link) : Prop where
  lt_size : s < f.nodes.size
  transitions : (f.node s).transitions = .ofEdges n.edges
  failure : (f.node s).failure = l.failure
  depth : (f.node s).depth = n.depth
  in_range : (f.node s).outputsStart + (f.node s).outputsLength ≤ f.outputs.size
  outputs : f.outputsOf s = l.outputs

theorem size_push : (f.push n l).nodes.size = f.nodes.size + 1 := Array.size_push _

theorem node_of_size_le (hs : f.nodes.size ≤ s) : f.node s = .blank := by
  rw [node, Array.getD_eq_getD_getElem?, Array.getElem?_eq_none hs, Option.getD_none]

theorem node_push (s : Nat) : (f.push n l).node s =
    if s = f.nodes.size then ⟨.ofEdges n.edges, l.failure, n.depth, f.outputs.size, l.outputs.length⟩ else f.node s := by
  simp only [node, push, Array.getD_eq_getD_getElem?, Array.getElem?_push]
  split <;> rfl

/-- The state added is the last one. -/
theorem has_push : (f.push n l).Has f.nodes.size n l := by
  have hnode : (f.push n l).node f.nodes.size = _ := (node_push _).trans (if_pos rfl)
  refine ⟨?_, ?_, ?_, ?_, ?_, ?_⟩
  · rw [size_push]
    omega
  · rw [hnode]
  · rw [hnode]
  · rw [hnode]
  · rw [hnode]
    simp [push]
  · rw [outputsOf, hnode]
    simp [push]

/-- A state added changes no other. -/
theorem Has.push (h : f.Has s n' l') : (f.push n l).Has s n' l' := by
  have hnode : (f.push n l).node s = f.node s := (node_push s).trans (if_neg (Nat.ne_of_lt h.lt_size))
  have hin := h.in_range
  refine ⟨?_, ?_, ?_, ?_, ?_, ?_⟩
  · rw [size_push]
    exact Nat.lt_succ_of_lt h.lt_size
  · rw [hnode, h.transitions]
  · rw [hnode, h.failure]
  · rw [hnode, h.depth]
  · rw [hnode]
    simp only [Frozen.push, Array.size_append]
    omega
  · rw [← h.outputs, outputsOf, outputsOf, hnode]
    show ((f.outputs ++ l.outputs.toArray).extract _ _).toList = _
    rw [Array.extract_append, Nat.sub_eq_zero_of_le hin, Array.extract_zero, Array.append_empty]

end Frozen

/-- Of the states frozen in turn each has its place. -/
theorem has_foldl (state : Nat → TrieState) (link : Nat → Link) (k : Nat) :
    ((List.range k).foldl (fun f s => f.push (state s) (link s)) Frozen.empty).nodes.size = k ∧
      ∀ s < k, ((List.range k).foldl (fun f s => f.push (state s) (link s)) Frozen.empty).Has s (state s) (link s) := by
  induction k with
  | zero => exact ⟨rfl, fun s hs => absurd hs (Nat.not_lt_zero s)⟩
  | succ k ih =>
    obtain ⟨hsize, hhas⟩ := ih
    rw [List.range_succ, List.foldl_append, List.foldl_cons, List.foldl_nil]
    refine ⟨by rw [Frozen.size_push, hsize], fun s hs => ?_⟩
    rcases Nat.lt_succ_iff_lt_or_eq.1 hs with hs | rfl
    · exact (hhas s hs).push
    · have hnew := Frozen.has_push (f := (List.range s).foldl (fun f s => f.push (state s) (link s)) Frozen.empty)
        (n := state s) (l := link s)
      rwa [hsize] at hnew

theorem size_freeze (t : Trie) : (freeze t).nodes.size = t.size := (has_foldl _ _ _).1

/-- Every state of a trie is frozen with its link. -/
theorem has_freeze {t : Trie} (hs : s < t.size) : (freeze t).Has s (t.state s) ((linksOf t).getD s .root) :=
  (has_foldl t.state (fun s => (linksOf t).getD s .root) t.size).2 s hs

end GlobSieve.Literal
