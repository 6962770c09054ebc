import GlobSieve.Proofs.Literal.Drafting
import GlobSieve.Proofs.Literal.Links
import GlobSieve.Proofs.Literal.Lookup
import GlobSieve.Proofs.Literal.Visiting

/-!
# Linking in place

The states of a draft are linked in the order in which their strings join the queue. A state is linked once, and from then on its
link and its outputs are right (`Draft.Linked`). When a state comes out of the queue, all states that are as shallow are linked;
so the links that are followed for its edges come to an end at the right state (`climb?_eq_follow`, `Linked.edge`). A visit
of one state keeps this (`Linked.visit`), and so does the whole run, which ends because fewer and fewer strings remain
(`Linked.queue`). In the end all states are linked (`Follows.linkedAll`), in whatever order the edges come.
-/

namespace GlobSieve.Literal

variable {t : Trie} {ws : List Bytes} {s : Nat} {u : Bytes} {b : UInt8}

/-! ## Following links -/

/-- More rounds change nothing. -/
theorem climb?_of_le {child : Nat → Option Nat} {failure : Nat → Nat} {c : Nat} :
    ∀ {k l s : Nat}, climb? child failure k s = some c → k ≤ l → climb? child failure l s = some c
  | 0, _, _, h, _ => by cases h
  | k + 1, 0, _, _, hle => absurd hle (Nat.not_succ_le_zero k)
  | k + 1, l + 1, s, h, hle => by
    rw [climb?] at h ⊢
    cases hc : child s with
    | some next => rwa [hc] at h
    | none =>
      rw [hc] at h
      simp only at h ⊢
      split at h
      · next h0 => rwa [if_pos h0]
      · next h0 =>
        rw [if_neg h0]
        exact climb?_of_le h (Nat.le_of_succ_le_succ hle)

/-- The links lead to shorter and shorter strings, so the root is as many links away as the string has bytes at most. -/
theorem climb?_eq_follow (h : t.Spells ws) {child : Nat → Option Nat} {failure : Nat → Nat} (k : Nat) :
    ∀ {s : Nat} {u : Bytes}, ws[s]? = some u → u.length ≤ k →
      (∀ {r x}, ws[r]? = some x → x.length ≤ u.length → ws[failure r]? = some (longestIn ws x.tail)) →
      climb? child failure (k + 1) s = some (follow child failure k s) := by
  have hroot : failure 0 = 0 → ∀ k, child 0 = none → follow child failure k 0 = 0 := by
    intro h0 k hc
    induction k with
    | zero => rw [follow, hc]; rfl
    | succ k ih => rw [follow, hc, h0]; exact ih
  induction k with
  | zero =>
    intro s u hs hlen _
    obtain rfl : u = [] := List.eq_nil_of_length_eq_zero (Nat.le_zero.1 hlen)
    obtain rfl : s = 0 := h.eq_of_string hs h.root
    rw [climb?, follow]
    cases child 0 <;> rfl
  | succ k ih =>
    intro s u hs hlen hfail
    rw [climb?, follow]
    cases hc : child s with
    | some next => rfl
    | none =>
      have hf := hfail hs (Nat.le_refl _)
      by_cases h0 : s = 0
      · subst h0
        obtain rfl : [] = u := Option.some.inj (h.root.symm.trans hs)
        have hf0 : failure 0 = 0 := h.eq_of_string hf h.root
        simp only [if_true, hf0, hroot hf0 k hc]
      · have hu : u ≠ [] := by
          rintro rfl
          exact h0 (h.eq_of_string hs h.root)
        have hpos := List.length_pos_iff.2 hu
        have hle := length_longestIn_le ws u.tail
        rw [List.length_tail] at hle
        simp only [if_neg h0]
        exact ih hf (by omega) fun hr hx => hfail hr (by omega)

/-- As many rounds as there are states suffice. -/
theorem climb?_size (h : t.Spells ws) {child : Nat → Option Nat} {failure : Nat → Nat} (hs : ws[s]? = some u)
    (hfail : ∀ {r x}, ws[r]? = some x → x.length ≤ u.length → ws[failure r]? = some (longestIn ws x.tail)) :
    climb? child failure t.size s = some (follow child failure u.length s) := by
  refine climb?_of_le (climb?_eq_follow h u.length hs (Nat.le_refl _) hfail) ?_
  rw [h.size_eq]
  exact h.length_lt (List.mem_of_getElem? hs)

namespace Draft

variable {d : Draft} {bd : Builder} {raw raw' : Bytes → Prop} {qs : List Bytes}

/-! ## States that are linked -/

/-- The states of the draft are those of the trie. Those for which `raw` holds are still to be linked; the others are, and their
links and outputs are right. -/
structure Linked (bd : Builder) (ws : List Bytes) (raw : Bytes → Prop) (d : Draft) : Prop where
  mode : d.mode = bd.mode
  count : d.literalCount = bd.count
  size : d.states.size = bd.trie.size
  edges : ∀ s, (d.state s).edges = (bd.trie.state s).edges
  depth : ∀ s, (d.state s).depth = (bd.trie.state s).depth
  outputs : ∀ {s u}, ws[s]? = some u → raw u → (d.state s).outputs = (bd.trie.state s).own.toList
  fits : ∀ {s u}, ws[s]? = some u → ¬raw u → Link.Fits bd.trie ws u ⟨(d.state s).failure, (d.state s).outputs⟩

theorem Linked.congr (hl : Linked bd ws raw d) (h : ∀ x ∈ ws, raw x ↔ raw' x) : Linked bd ws raw' d where
  mode := hl.mode
  count := hl.count
  size := hl.size
  edges := hl.edges
  depth := hl.depth
  outputs hs hx := hl.outputs hs ((h _ (List.mem_of_getElem? hs)).2 hx)
  fits hs hx := hl.fits hs fun hraw => hx ((h _ (List.mem_of_getElem? hs)).1 hraw)

/-- A state after one of them was changed. -/
theorem state_modify {c : Nat} (hc : c < d.states.size) (f : DraftState → DraftState) (r : Nat) :
    ({ d with states := d.states.modify c f } : Draft).state r = if r = c then f (d.state c) else d.state r := by
  simp only [state, Array.getD_eq_getD_getElem?, Array.getElem?_modify]
  by_cases hr : c = r
  · subst hr
    simp [hc]
  · rw [if_neg hr, if_neg (Ne.symm hr)]

/-- One more state is linked. -/
theorem Linked.link (hl : Linked bd ws raw d) (h : bd.trie.Spells ws) {c : Nat} (hc : ws[c]? = some u) {l : Link}
    (hfits : l.Fits bd.trie ws u) {f : DraftState → DraftState}
    (hf : f (d.state c) = { d.state c with failure := l.failure, outputs := l.outputs }) :
    Linked bd ws (fun x => raw x ∧ x ≠ u) { d with states := d.states.modify c f } := by
  have hlt : c < d.states.size := hl.size.symm ▸ h.lt_size hc
  have hother : ∀ {r x}, ws[r]? = some x → x ≠ u → r ≠ c := by
    intro r x hr hx e
    exact hx (Option.some.inj (hr.symm.trans (e ▸ hc)))
  refine ⟨hl.mode, hl.count, ?_, ?_, ?_, ?_, ?_⟩
  · rw [← hl.size]
    exact Array.size_modify
  · intro r
    rw [state_modify hlt, ← hl.edges r]
    split
    · next e => rw [hf, e]
    · rfl
  · intro r
    rw [state_modify hlt, ← hl.depth r]
    split
    · next e => rw [hf, e]
    · rfl
  · intro r x hr hx
    rw [state_modify hlt, if_neg (hother hr hx.2)]
    exact hl.outputs hr hx.1
  · intro r x hr hx
    rw [state_modify hlt]
    by_cases he : x = u
    · subst he
      obtain rfl : r = c := h.eq_of_string hr hc
      rw [if_pos rfl, hf]
      exact hfits
    · rw [if_neg (hother hr he)]
      exact hl.fits hr fun hraw => hx ⟨hraw, he⟩

section Edge

variable (hl : Linked bd ws raw d) (h : bd.trie.Spells ws) (hnil : bd.trie.find? [] = none) (hs : ws[s]? = some u) (hu : u ≠ [])
  (hshort : ∀ x, x.length ≤ u.length → ¬raw x)

include hl h hs hu hshort

/-- From the link of a state a byte leads to the longest proper suffix of the longer string, if all states as shallow as this one
are linked. -/
theorem Linked.exists_target (b : UInt8) : ∃ target,
    climb? (fun r => (d.state r).edges.lookup b) (fun r => (d.state r).failure) d.states.size (d.state s).failure =
      some target ∧ ws[target]? = some (longestIn ws (u ++ [b]).tail) := by
  have hlink : ws[(d.state s).failure]? = some (longestIn ws u.tail) := (hl.fits hs (hshort u (Nat.le_refl _))).failure
  have hle := length_longestIn_le ws u.tail
  rw [List.length_tail] at hle
  have hfail : ∀ {r x}, ws[r]? = some x → x.length ≤ (longestIn ws u.tail).length →
      ws[(d.state r).failure]? = some (longestIn ws x.tail) := by
    intro r x hr hx
    exact (hl.fits hr (hshort x (by omega))).failure
  have hchild : ∀ r, (d.state r).edges.lookup b = bd.trie.child r b := by
    intro r
    rw [hl.edges, Trie.child]
  refine ⟨_, by rw [hl.size]; exact climb?_size h hlink hfail, ?_⟩
  rw [follow_spells h hchild _ hlink (Nat.le_refl _) hfail, ← longestIn_append_one h.nil_mem h.mem_of_append,
    List.tail_append_of_ne_nil hu]

include hnil

omit hs hu in
/-- The outputs that are inherited from there; at the root there are none. -/
theorem Linked.inherited_eq {target : Nat} (ht : ws[target]? = some (longestIn ws (u ++ [b]).tail)) :
    (if target = 0 then [] else (d.state target).outputs) =
      (longestIn ws (u ++ [b]).tail).tails.filterMap bd.trie.find? := by
  split
  · next h0 =>
    have hempty : [] = longestIn ws (u ++ [b]).tail := Option.some.inj (h.root.symm.trans (h0 ▸ ht))
    simp [← hempty, hnil]
  · have hle := length_longestIn_le ws (u ++ [b]).tail
    rw [List.length_tail, List.length_append, List.length_singleton] at hle
    exact (hl.fits ht (hshort _ (by omega))).outputs

/-- An edge is followed once the states that are as shallow as its own are linked. -/
theorem Linked.edge {c : Nat} (hc : ws[c]? = some (u ++ [b])) (hraw : raw (u ++ [b])) :
    ∃ d', linkEdge? s d (b, c) = some d' ∧ Linked bd ws (fun x => raw x ∧ x ≠ u ++ [b]) d' := by
  obtain ⟨target, hclimb, htarget⟩ := hl.exists_target h hs hu hshort b
  have hfits : Link.Fits bd.trie ws (u ++ [b])
      ⟨target, (d.state c).outputs ++ if target = 0 then [] else (d.state target).outputs⟩ := by
    refine ⟨htarget, ?_⟩
    rw [hl.outputs hc hraw]
    exact own_append_outputs h hc (by simp) (hl.inherited_eq h hnil hshort htarget)
  have hlinked : linkEdge? s d (b, c) = some { d with states := d.states.modify c fun n =>
      { n with failure := target, outputs := n.outputs ++ if target = 0 then [] else (d.state target).outputs } } := by
    rw [linkEdge?, hclimb]
    rfl
  exact ⟨_, hlinked, hl.link h hc hfits rfl⟩

end Edge

/-- The state of an edge of the root falls back to the root, and no other literal ends there. -/
theorem Linked.toRoot (hl : Linked bd ws raw d) (h : bd.trie.Spells ws) (hnil : bd.trie.find? [] = none) {c : Nat}
    (hc : ws[c]? = some [b]) (hraw : raw [b]) : Linked bd ws (fun x => raw x ∧ x ≠ [b]) (d.linkToRoot c) := by
  have hfits : Link.Fits bd.trie ws [b] ⟨0, (d.state c).outputs⟩ := by
    refine ⟨h.root, ?_⟩
    rw [hl.outputs hc hraw, ← own_append_outputs h hc (List.cons_ne_nil b []) rfl]
    simp [longestIn, hnil]
  exact hl.link h hc hfits rfl

/-- What is done for an edge of `u` links the state that the edge leads to, if all states as shallow as `u` are linked. -/
def LinksEdges (bd : Builder) (ws : List Bytes) (u : Bytes) (step : Draft → UInt8 × Nat → Option Draft) : Prop :=
  ∀ (raw : Bytes → Prop) (d : Draft), Linked bd ws raw d → (∀ x, x.length ≤ u.length → ¬raw x) →
    ∀ b c, ws[c]? = some (u ++ [b]) → raw (u ++ [b]) →
      ∃ d', step d (b, c) = some d' ∧ Linked bd ws (fun x => raw x ∧ x ≠ u ++ [b]) d'

theorem linksEdges_linkEdge? (h : bd.trie.Spells ws) (hnil : bd.trie.find? [] = none) (hs : ws[s]? = some u) (hu : u ≠ []) :
    LinksEdges bd ws u (linkEdge? s) := by
  intro raw d hl hshort b c hc hraw
  exact hl.edge h hnil hs hu hshort hc hraw

theorem linksEdges_linkToRoot (h : bd.trie.Spells ws) (hnil : bd.trie.find? [] = none) :
    LinksEdges bd ws [] fun d e => some (d.linkToRoot e.2) := by
  intro raw d hl _ b c hc hraw
  exact ⟨_, rfl, hl.toRoot h hnil hc hraw⟩

variable {step : Draft → UInt8 × Nat → Option Draft}

/-- If each edge of a state can be followed, all of them can, one after the other. -/
theorem Linked.foldlM (hstep : LinksEdges bd ws u step) :
    ∀ {edges : List (UInt8 × Nat)} {raw : Bytes → Prop} {d : Draft}, Linked bd ws raw d →
      (∀ x, x.length ≤ u.length → ¬raw x) → (edges.map fun e => u ++ [e.1]).Nodup →
      (∀ e ∈ edges, ws[e.2]? = some (u ++ [e.1]) ∧ raw (u ++ [e.1])) →
      ∃ d', edges.foldlM step d = some d' ∧ Linked bd ws (fun x => raw x ∧ x ∉ edges.map fun e => u ++ [e.1]) d'
  | [], raw, d, hl, _, _, _ => ⟨d, rfl, hl.congr fun x _ => by simp⟩
  | (b, c) :: edges, raw, d, hl, hshort, hnd, hedges => by
    obtain ⟨hc, hraw⟩ := hedges (b, c) List.mem_cons_self
    obtain ⟨d', hd', hl'⟩ := hstep raw d hl hshort b c hc hraw
    obtain ⟨hb, hnd'⟩ := List.nodup_cons.1 (List.map_cons ▸ hnd)
    have hlater : ∀ e ∈ edges, ws[e.2]? = some (u ++ [e.1]) ∧ raw (u ++ [e.1]) ∧ u ++ [e.1] ≠ u ++ [b] := by
      intro e he
      obtain ⟨he1, he2⟩ := hedges e (List.mem_cons_of_mem _ he)
      exact ⟨he1, he2, fun heq => hb (heq ▸ List.mem_map_of_mem he)⟩
    obtain ⟨d'', hd'', hl''⟩ := foldlM hstep hl' (fun x hx hraw => hshort x hx hraw.1) hnd' hlater
    refine ⟨d'', ?_, hl''.congr fun x _ => ?_⟩
    · rw [List.foldlM_cons, hd']
      exact hd''
    · rw [List.map_cons, List.mem_cons, not_or, and_assoc]

/-! ## A visit -/

/-- The edges of a state, in any order, lead to the strings one byte longer. -/
theorem mem_arrange_iff (h : t.Spells ws) (hs : ws[s]? = some u) (order : EdgeOrder) (e : UInt8 × Nat) :
    e ∈ order.arrange s (t.state s).edges ↔ ws[e.2]? = some (u ++ [e.1]) := by
  rw [(order.perm s _).mem_iff, h.mem_edges_iff hs]

/-- The states that the edges lead to, by their strings. -/
theorem map_arrange (h : t.Spells ws) (hs : ws[s]? = some u) (order : EdgeOrder) :
    ((order.arrange s (t.state s).edges).map Prod.snd).map (ws[·]?) =
      ((order.arrange s (t.state s).edges).map fun e => u ++ [e.1]).map some := by
  rw [List.map_map, List.map_map]
  apply List.map_congr_left
  intro e he
  exact (mem_arrange_iff h hs order e).1 he

theorem children_arrange (h : t.Spells ws) (hs : ws[s]? = some u) (order : EdgeOrder) :
    Children ws u ((order.arrange s (t.state s).edges).map fun e => u ++ [e.1]) where
  nodup := by
    have hnd : ((order.arrange s (t.state s).edges).map Prod.fst).Nodup :=
      (((order.perm s _).map Prod.fst).nodup_iff).2 (h.edges_nodup s)
    have hinj : Function.Injective fun b : UInt8 => u ++ [b] := by
      intro b c hbc
      simpa using hbc
    have hmap := hnd.map hinj
    rwa [List.map_map] at hmap
  mem_iff x := by
    rw [List.mem_map]
    constructor
    · rintro ⟨e, he, rfl⟩
      exact ⟨List.mem_of_getElem? ((mem_arrange_iff h hs order e).1 he), e.1, rfl⟩
    · rintro ⟨hx, b, rfl⟩
      obtain ⟨c, hc⟩ := List.mem_iff_getElem?.1 hx
      exact ⟨(b, c), (mem_arrange_iff h hs order (b, c)).2 hc, rfl⟩

/-- The edges of the state that comes out of the queue are followed, whatever is done for each of them. -/
theorem Linked.visit (hl : Linked bd ws (Below (u :: qs)) d) (h : bd.trie.Spells ws) (hstep : LinksEdges bd ws u step)
    (hq : Queue ws (u :: qs)) (hs : ws[s]? = some u) (order : EdgeOrder) :
    ∃ d', (order.arrange s (d.state s).edges).foldlM step d = some d' ∧
      Linked bd ws (Below (qs ++ (order.arrange s (d.state s).edges).map fun e => u ++ [e.1])) d' := by
  have hc := children_arrange h hs order
  rw [hl.edges]
  obtain ⟨d', hd', hl'⟩ := hl.foldlM hstep (fun x hx => hq.not_below hx) hc.nodup fun e he =>
    ⟨(mem_arrange_iff h hs order e).1 he, hc.below (List.mem_map_of_mem he)⟩
  exact ⟨d', hd', hl'.congr fun x hx => (hq.below_visit hc h.mem_of_append hx).symm⟩

/-! ## The whole run -/

/-- From a queue in order of length all states are linked. -/
theorem Linked.queue (h : bd.trie.Spells ws) (hnil : bd.trie.find? [] = none) (order : EdgeOrder) :
    ∀ {k : Nat} {ss : List Nat} {qs : List Bytes} {d : Draft}, ss.map (ws[·]?) = qs.map some → Queue ws qs → [] ∉ qs →
      Linked bd ws (Below qs) d → remaining ws qs ≤ k →
      ∃ d', linkQueue? order k ss d = some d' ∧ Linked bd ws (fun _ => False) d'
  | k, [], qs, d, hqs, _, _, hl, _ => by
    obtain rfl : qs = [] := by simpa using hqs.symm
    refine ⟨d, by cases k <;> rfl, hl.congr fun x _ => ?_⟩
    simp [Below]
  | k, s :: ss, [], _, hqs, _, _, _, _ => by simp at hqs
  | k, s :: ss, u :: qs, d, hqs, hq, hne, hl, hk => by
    rw [List.map_cons, List.map_cons, List.cons.injEq] at hqs
    obtain ⟨hs, hqs⟩ := hqs
    have hu : u ≠ [] := fun e => hne (e ▸ List.mem_cons_self)
    have hc := children_arrange h hs order
    have hless := remaining_visit hq hc
    obtain ⟨d', hd', hl'⟩ := hl.visit h (linksEdges_linkEdge? h hnil hs hu) hq hs order
    rw [hl.edges] at hd' hl'
    cases k with
    | zero => exact absurd (Nat.lt_of_lt_of_le hless hk) (Nat.not_lt_zero _)
    | succ k =>
      have hnext : (ss ++ (order.arrange s (bd.trie.state s).edges).map Prod.snd).map (ws[·]?) =
          (qs ++ (order.arrange s (bd.trie.state s).edges).map fun e => u ++ [e.1]).map some := by
        rw [List.map_append, List.map_append, hqs, map_arrange h hs order]
      have hne' : [] ∉ qs ++ (order.arrange s (bd.trie.state s).edges).map fun e => u ++ [e.1] := by
        rw [List.mem_append, not_or]
        exact ⟨fun hm => hne (List.mem_cons_of_mem u hm), by simp⟩
      have hk' := Nat.le_of_lt_succ (Nat.lt_of_lt_of_le hless hk)
      obtain ⟨d'', hd'', hl''⟩ := queue h hnil order hnext (hq.visit hc h.mem_of_append) hne' hl' hk'
      refine ⟨d'', ?_, hl''⟩
      rw [linkQueue?, hl.edges, hd']
      exact hd''

/-- The states of a draft that follows a builder are still to be linked, but for the root. -/
theorem Follows.linked (hd : d.Follows bd) (h : bd.trie.Spells ws) (hnil : bd.trie.find? [] = none) :
    Linked bd ws (Below [[]]) d where
  mode := hd.mode
  count := hd.count
  size := by rw [hd.states, Array.size_map, Trie.size]
  edges s := by rw [state_of_states hd.states]; rfl
  depth s := by rw [state_of_states hd.states]; rfl
  outputs _ _ := by rw [state_of_states hd.states]; rfl
  fits {s u} hs hu := by
    have hroot : u = [] := by
      by_contra hne
      exact hu ⟨[], List.mem_singleton_self _, List.nil_prefix, Ne.symm hne⟩
    subst hroot
    have hown : (bd.trie.state s).own = none := by rw [h.own_eq_find? hs, hnil]
    rw [state_of_states hd.states, TrieState.draft, hown]
    exact root_fits h hnil

/-- All states of a draft that follows a builder can be linked, in whatever order their edges come. -/
theorem Follows.linkedAll (hd : d.Follows bd) (h : bd.trie.Spells ws) (hnil : bd.trie.find? [] = none) (order : EdgeOrder) :
    ∃ d', linkAll? order d = some d' ∧ Linked bd ws (fun _ => False) d' := by
  have hstart := Queue.start h.nil_mem
  have hc := children_arrange h h.root order
  have hl := hd.linked h hnil
  obtain ⟨d', hd', hl'⟩ := hl.visit h (linksEdges_linkToRoot h hnil) hstart h.root order
  rw [hl.edges] at hd' hl'
  have hroot : ((order.arrange 0 (bd.trie.state 0).edges).map Prod.snd).foldl Draft.linkToRoot d = d' := by
    rw [List.foldl_map]
    exact Option.some.inj ((List.foldlM_pure (m := Option)).symm.trans hd')
  rw [Draft.linkAll?, hl.edges, hroot, hl.size]
  refine Linked.queue h hnil order (map_arrange h h.root order) (hstart.visit hc h.mem_of_append) (by simp) hl' ?_
  rw [h.size_eq]
  exact List.countP_le_length

end Draft

end GlobSieve.Literal
