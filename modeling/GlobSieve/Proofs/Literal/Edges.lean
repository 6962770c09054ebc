import Mathlib.Data.Finset.Dedup
import GlobSieve.Proofs.Literal.Offers

/-!
# The edges of a finished automaton

A draft looks up the edges of a state in a table of bytes. An automaton keeps them in the form that suits their number, and it
gives the same answers in every form (`Draft.frozen_edges_exact`), because the edges are those of a trie. No byte has two of
them, so the sorted table can be halved. None leads to the root, so zero can stand for an empty slot. No two lead to the same
state, so no target is listed twice.

Literals of one byte each give the root an edge for every one of them (`mem_rootEdges_singletons`). So every set of bytes occurs,
and with it every number of edges up to 256 (`exists_rootEdges`).
-/

namespace GlobSieve.Literal

open Transitions

variable {b : Builder} {ls : List Bytes} {c : UInt8}

/-! ## Every set of edges -/

/-- The root has an edge under the first byte of each literal. -/
theorem mem_rootEdges_iff (hb : b.Holds ls) : c ∈ (b.trie.state 0).edges.map Prod.fst ↔ ∃ l ∈ ls, [c] <+: l := by
  obtain ⟨ws, h, hmem⟩ := hb.spells
  rw [h.mem_map_fst_edges_iff h.root, List.nil_append, hmem]
  simp

/-- Literals of one byte each give the root an edge for every one of these bytes. -/
theorem mem_rootEdges_singletons {bytes : List UInt8} (hfew : bytes.length ≤ 256) :
    c ∈ ((((Builder.empty .sensitive Automaton.defaultLimit).offerEach (bytes.map fun c => [c])).2.trie.state 0).edges.map
      Prod.fst) ↔ c ∈ bytes := by
  have hempty := Builder.Holds.empty .sensitive Automaton.defaultLimit
  obtain ⟨-, hb, -⟩ := hempty.offerEach (bytes.map fun c => [c])
  rw [mem_rootEdges_iff hb]
  constructor
  · rintro ⟨l, hl, hc⟩
    obtain ⟨x, hx, rfl⟩ := List.mem_map.1 hl
    obtain ⟨c', hc', hx'⟩ := List.mem_map.1 (Builder.mem_of_accepted hx)
    have hsame : c = c' := by simpa [← hx', Builder.empty, CaseMode.fold] using hc
    exact hsame ▸ hc'
  · intro hc
    have hfit : ∀ l ∈ bytes.map fun c => [c], l ≠ [] ∧ l.length ≤ Automaton.defaultLimit := by
      intro l hl
      obtain ⟨c', -, rfl⟩ := List.mem_map.1 hl
      exact ⟨List.cons_ne_nil c' [], show 1 ≤ Automaton.defaultLimit by decide⟩
    have htotal : totalLength (bytes.map fun c => [c]) = bytes.length := by
      simp [totalLength, Function.comp_def]
    have hroom : 1 + totalLength [] + totalLength (bytes.map fun c => [c]) ≤ Builder.maxStates := by
      rw [htotal]
      simp only [totalLength, List.map_nil, List.sum_nil, Builder.maxStates]
      omega
    exact ⟨_, hempty.mem_of_offered hfit hroom [c] (List.mem_map_of_mem hc), List.prefix_refl _⟩

/-- Every set of bytes occurs as that of the edges of a state. -/
theorem exists_rootEdges (bytes : Finset UInt8) : ∃ lits,
    ((((Draft.empty .sensitive Automaton.defaultLimit).offerEach lits).2.state 0).edges.map Prod.fst).toFinset = bytes := by
  let lits : List Bytes := bytes.toList.map fun c => [c]
  obtain ⟨-, hd, -⟩ := @Draft.Follows.offers lits _ _ _ (Draft.Follows.empty .sensitive Automaton.defaultLimit)
    (Builder.Holds.empty .sensitive Automaton.defaultLimit)
  refine ⟨lits, ?_⟩
  ext c
  rw [List.mem_toFinset, hd.edges_eq, mem_rootEdges_singletons (length_le_of_nodup bytes.nodup_toList), Finset.mem_toList]

/-! ## Every state -/

/-- **A finished state keeps the edges that it had.** Whatever literals were offered, and in whatever order the edges of a state
come, the automaton has for every state of the draft an encoding that suits the number of its edges. A byte leads there where it
leads in the draft, or nowhere. The targets listed are those of the edges, each once, in ascending order of the bytes, and they are
states other than the root, of which there are no more than fit into 31 bits. The edges of a state can have any set of bytes, from
none to all 256. -/
theorem Draft.frozen_edges_exact :
    (∀ (m : CaseMode) (limit : Nat) (lits : List Bytes) (order : EdgeOrder),
      let d := ((Draft.empty m limit).offerEach lits).2
      ∃ a, d.build? order = some a ∧ (a.nodes.size = d.states.size ∧ d.states.size ≤ Builder.maxStates) ∧
        ∀ s,
          let edges := (d.state s).edges
          let frozen := (a.node s).transitions
          frozen = ofEdges (order.arrange s edges) ∧
          ((edges.map Prod.fst).Nodup ∧ edges.length ≤ 256 ∧ frozen.encoding = encodingFor edges.length) ∧
          (∀ c, frozen.target? c = edges.lookup c) ∧
          (frozen.targets.Perm (edges.map Prod.snd) ∧ frozen.targets.Nodup ∧
            frozen.targets = allBytes.filterMap (edges.lookup ·)) ∧
          ∀ t ∈ frozen.targets, t ≠ 0 ∧ t < d.states.size) ∧
    ∀ bytes : Finset UInt8, ∃ lits,
      ((((Draft.empty .sensitive Automaton.defaultLimit).offerEach lits).2.state 0).edges.map Prod.fst).toFinset = bytes := by
  refine ⟨?_, exists_rootEdges⟩
  intro m limit lits order d
  obtain ⟨bd, hd, -, -, hb, -⟩ := exists_follows m limit lits
  obtain ⟨ws, h, -⟩ := hb.spells
  have hsize : d.states.size = bd.trie.size := by rw [hd.states, Array.size_map, Trie.size]
  have hfits : d.states.size ≤ Builder.maxStates := (offerEach_fits m limit lits).2
  refine ⟨.ofBuilder bd, hd.built hb order, ⟨(size_freeze bd.trie).trans hsize.symm, hfits⟩, fun s => ?_⟩
  have hnd := h.edges_nodup s
  have hroot := h.zero_not_mem_edges s
  have hperm := perm_targets_ofEdges hnd hroot
  have hfew := length_le_of_nodup hnd
  rw [List.length_map] at hfew
  dsimp only
  rw [hd.edges_eq, Automaton.transitions_node, hsize]
  refine ⟨(ofEdges_perm (order.perm s _) hnd).symm, ⟨hnd, hfew, encoding_ofEdges _⟩, target?_ofEdges hnd hroot,
    ⟨hperm, (hperm.nodup_iff).2 (h.nodup_map_snd_edges s), targets_ofEdges hnd hroot⟩, ?_⟩
  intro t ht
  have ht' := hperm.mem_iff.1 ht
  obtain ⟨⟨c, t⟩, he, rfl⟩ := List.mem_map.1 ht'
  obtain ⟨u, hs⟩ := h.exists_of_mem_edges he
  exact ⟨fun h0 => hroot (h0 ▸ ht'), h.lt_size ((h.mem_edges_iff hs).1 he)⟩

end GlobSieve.Literal
