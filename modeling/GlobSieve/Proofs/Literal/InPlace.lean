import GlobSieve.Proofs.Literal.Linking
import GlobSieve.Proofs.Literal.Scan

/-!
# Building in place is building

Once all states of a draft are linked, they have the links that the states of the trie have, since a string has one link
(`Link.Fits.eq`), and the order in which their edges are frozen makes no difference. So the automaton that is built from a draft is
the one of the builder that it follows (`Follows.built`).
-/

namespace GlobSieve.Literal

variable {t : Trie} {ws ls : List Bytes} {s : Nat} {u : Bytes} {l l' : Link} {bd : Builder} {d : Draft} {order : EdgeOrder}

/-- A string has one link. -/
theorem Link.Fits.eq (h : t.Spells ws) (hl : l.Fits t ws u) (hl' : l'.Fits t ws u) : l = l' := by
  have hfailure : l.failure = l'.failure := h.eq_of_string hl.failure hl'.failure
  have houtputs : l.outputs = l'.outputs := hl.outputs.trans hl'.outputs.symm
  cases l
  cases l'
  exact (Link.mk.injEq ..).mpr ⟨hfailure, houtputs⟩

namespace Draft

/-- Once all states are linked they are put into the final form that they have from the trie. -/
theorem Linked.frozen (hl : Linked bd ws (fun _ => False) d) (h : bd.trie.Spells ws) (hnil : bd.trie.find? [] = none) :
    d.freeze order = Literal.freeze bd.trie := by
  have hpush : ∀ (f : Frozen) (s : Nat), s ∈ List.range bd.trie.size →
      f.pushDraft (d.state s) (order.arrange s (d.state s).edges) =
        f.push (bd.trie.state s) ((linksOf bd.trie).getD s .root) := by
    intro f s hs
    have hlt : s < ws.length := h.size_eq ▸ List.mem_range.1 hs
    have hs' := List.getElem?_eq_getElem hlt
    have hlink := (hl.fits hs' not_false).eq h (linksOf_fits h hnil hs')
    have hedges : Transitions.ofEdges (order.arrange s (d.state s).edges) = .ofEdges (bd.trie.state s).edges := by
      rw [hl.edges]
      exact Transitions.ofEdges_perm (order.perm s _) (h.edges_nodup s)
    rw [← hlink, Frozen.pushDraft, Frozen.push, hedges, hl.depth]
  rw [Draft.freeze, Literal.freeze, hl.size]
  exact List.foldl_ext _ _ _ hpush

/-- The automaton is the one of the builder, in whatever order the edges of the states come. -/
theorem Follows.built (hd : d.Follows bd) (hb : bd.Holds ls) (order : EdgeOrder) :
    d.build? order = some (.ofBuilder bd) := by
  obtain ⟨ws, h, -⟩ := hb.spells
  have hnil := Automaton.find?_nil hb
  obtain ⟨d', hd', hl⟩ := hd.linkedAll h hnil order
  rw [Draft.build?, hd', Option.map_some, hl.frozen h hnil, hl.mode, hl.count]
  rfl

end Draft

end GlobSieve.Literal
