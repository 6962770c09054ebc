import GlobSieve.Handles
import GlobSieve.Literal.Audit
import GlobSieve.Proofs.Literal.Scan

/-!
# Nothing is wrong with an automaton

The automaton of a builder passes its own check (`defects_ofBuilder`): every edge leads to the state of a string one byte
longer, every failure link to the state of a proper suffix, and the outputs of a state are where it says, ids of accepted
literals.
-/

namespace GlobSieve.Literal.Automaton

open Builder

variable {b : Builder} {ls ws : List Bytes} {s r : Nat} {v w : Bytes}

theorem getElem?_nodes (h : b.trie.Spells ws) (hs : ws[s]? = some v) :
    (ofBuilder b).nodes[s]? = some ((ofBuilder b).node s) := by
  have hlt := (has_ofBuilder h hs).lt_size
  rw [Frozen.node, Array.getD_eq_getD_getElem?, Array.getElem?_eq_getElem hlt, Option.getD_some]

/-- The node of every place is that of a string. -/
theorem exists_of_mem_zipIdx (h : b.trie.Spells ws) {n : Node} (hn : (n, s) ∈ (ofBuilder b).nodes.toList.zipIdx) :
    ∃ v, ws[s]? = some v ∧ (ofBuilder b).node s = n := by
  rw [List.mem_zipIdx_iff_getElem?, Array.getElem?_toList] at hn
  have hlt : s < ws.length := by
    rw [← h.size_eq, ← size_freeze]
    exact (Array.getElem?_eq_some_iff.1 hn).1
  have hs := List.getElem?_eq_getElem hlt
  exact ⟨_, hs, Option.some.inj ((getElem?_nodes h hs).symm.trans hn)⟩

theorem depth_node (h : b.trie.Spells ws) (hs : ws[s]? = some v) : ((ofBuilder b).node s).depth = v.length := by
  rw [(has_ofBuilder h hs).depth]
  exact h.depth_eq hs

/-- The edges lead to the strings one byte longer. -/
theorem mem_targets_iff (h : b.trie.Spells ws) (hs : ws[s]? = some v) :
    r ∈ ((ofBuilder b).node s).transitions.targets ↔ ∃ c, ws[r]? = some (v ++ [c]) := by
  rw [(has_ofBuilder h hs).transitions,
    (Transitions.perm_targets_ofEdges (h.edges_nodup s) (h.zero_not_mem_edges s)).mem_iff, List.mem_map]
  simp only [← h.mem_edges_iff hs]
  constructor
  · rintro ⟨⟨c, _⟩, hc, rfl⟩
    exact ⟨c, hc⟩
  · rintro ⟨c, hc⟩
    exact ⟨(c, r), hc, rfl⟩

section Spells

variable (h : b.trie.Spells ws) (hs : ws[s]? = some v)
include h hs

theorem edgeDefects_ofBuilder (hr : r ∈ ((ofBuilder b).node s).transitions.targets) :
    (ofBuilder b).edgeDefects s ((ofBuilder b).node s) r = [] := by
  obtain ⟨c, hc⟩ := (mem_targets_iff h hs).1 hr
  simp only [edgeDefects, getElem?_nodes h hc]
  rw [if_pos]
  rw [depth_node h hc, depth_node h hs, List.length_append]
  rfl

variable (hnil : b.trie.find? [] = none)
include hnil

theorem linkDefects_ofBuilder : (ofBuilder b).linkDefects s ((ofBuilder b).node s) = [] := by
  have hlink : ws[((ofBuilder b).node s).failure]? = some (longestIn ws v.tail) := by
    rw [(has_ofBuilder h hs).failure]
    exact (linksOf_fits h hnil hs).failure
  simp only [linkDefects, getElem?_nodes h hlink]
  rw [if_neg]
  rintro ⟨hroot, hle⟩
  rw [depth_node h hlink, depth_node h hs] at hle
  have hlen := length_longestIn_le ws v.tail
  rw [List.length_tail] at hlen
  -- only the empty string has no proper suffix, and it is the root's
  obtain rfl : v = [] := List.eq_nil_of_length_eq_zero (by omega)
  exact hroot (h.eq_of_string hs h.root)

end Spells

theorem outputDefects_ofBuilder (hb : b.Holds ls) (h : b.trie.Spells ws) (hs : ws[s]? = some v) :
    (ofBuilder b).outputDefects s ((ofBuilder b).node s) = [] := by
  have hnil := find?_nil hb
  have hout : (ofBuilder b).outputsOf s = v.tails.filterMap b.trie.find? := by
    rw [(has_ofBuilder h hs).outputs]
    exact (linksOf_fits h hnil hs).outputs
  rw [outputDefects, if_neg (Nat.not_lt.2 (has_ofBuilder h hs).in_range), List.map_eq_nil_iff]
  apply filter_le_eq_nil
  intro id hid
  rw [hout, mem_filterMap_tails hb] at hid
  obtain ⟨l, hl, -⟩ := hid
  show id < b.count
  rw [hb.count_eq]
  exact (List.getElem?_eq_some_iff.1 hl).1

/-- The automaton of a builder passes its own check. -/
theorem defects_ofBuilder (hb : b.Holds ls) : (ofBuilder b).defects = [] := by
  obtain ⟨ws, h, -⟩ := hb.spells
  have hroot := getElem?_nodes h h.root
  have hne : ¬(ofBuilder b).nodes.isEmpty = true := by
    intro he
    rw [Array.isEmpty_iff.1 he] at hroot
    cases hroot
  rw [defects, if_neg hne, List.flatMap_eq_nil_iff]
  rintro ⟨n, s⟩ hn
  obtain ⟨v, hs, rfl⟩ := exists_of_mem_zipIdx h hn
  show (ofBuilder b).nodeDefects s ((ofBuilder b).node s) = []
  rw [nodeDefects, linkDefects_ofBuilder h hs (find?_nil hb), outputDefects_ofBuilder hb h hs, List.append_nil,
    List.append_nil, List.flatMap_eq_nil_iff]
  intro r hr
  exact edgeDefects_ofBuilder h hs hr

end GlobSieve.Literal.Automaton
