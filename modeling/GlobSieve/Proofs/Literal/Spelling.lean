import Mathlib.Data.List.Infix
import Mathlib.Data.List.Nodup
import Mathlib.Data.List.Perm.Subperm
import GlobSieve.Literal.Trie

/-!
# What the states of a trie stand for

`t.Spells ws` says that the states of the trie `t` stand for the strings `ws`, in the order of their numbers: no string
has two states, the root has the empty one, and an edge leads from a string to the string one byte longer. Everything
else about a trie is read off its strings:

* a walk follows the bytes of a string (`Spells.walk_iff`), and with a string every prefix of it has a state
  (`Spells.mem_of_append`);
* inserting a string adds the prefixes of it and makes `find?` answer its id, and changes no other answer
  (`Spells.insert`).
-/

namespace GlobSieve.Literal.Trie

variable {t : Trie} {s : Nat} {b : UInt8}

/-! ## Single states -/

theorem state_of_size_le (h : t.size ≤ s) : t.state s = .root := by
  simp only [state, Array.getD_eq_getD_getElem?]
  rw [Array.getElem?_eq_none h, Option.getD_none]

theorem size_addChild : (t.addChild s b).size = t.size + 1 := by simp [addChild, size]

/-- Adding a child makes a state at the end and an edge at `s`. -/
theorem state_addChild (hs : s < t.size) (r : Nat) :
    (t.addChild s b).state r =
      if r = t.size then ⟨[], (t.state s).depth + 1, s, b, none⟩
      else if r = s then { t.state s with edges := (b, t.size) :: (t.state s).edges } else t.state r := by
  unfold size at hs
  simp only [addChild, state, Array.getD_eq_getD_getElem?, Array.getElem?_push, Array.size_setIfInBounds,
    Array.getElem?_setIfInBounds, size]
  by_cases h1 : r = t.states.size
  · simp [h1]
  · by_cases h2 : r = s
    · simp [h2, hs, Nat.ne_of_lt hs]
    · simp [h1, h2, Ne.symm h2]

theorem child_addChild (hs : s < t.size) (r : Nat) (c : UInt8) :
    (t.addChild s b).child r c = if r = s ∧ c = b then some t.size else t.child r c := by
  unfold child
  rw [state_addChild hs]
  by_cases h1 : r = t.size
  · have h2 : r ≠ s := by omega
    simp [h1, h1 ▸ h2, state_of_size_le (Nat.le_refl t.size), TrieState.root]
  · by_cases h2 : r = s
    · subst h2
      by_cases h3 : c = b
      · simp [h1, h3]
      · simp [h1, h3, List.lookup_cons, beq_false_of_ne h3]
    · simp [h1, h2]

theorem own_addChild (hs : s < t.size) (r : Nat) : ((t.addChild s b).state r).own = (t.state r).own := by
  rw [state_addChild hs]
  by_cases h1 : r = t.size
  · simp [h1, state_of_size_le (Nat.le_refl t.size), TrieState.root]
  · by_cases h2 : r = s
    · subst h2; simp [h1]
    · simp [h1, h2]

theorem state_setOwn (hs : s < t.size) (id r : Nat) :
    (t.setOwn s id).state r = if r = s then { t.state s with own := some id } else t.state r := by
  unfold size at hs
  simp only [setOwn, state, Array.getD_eq_getD_getElem?, Array.getElem?_setIfInBounds]
  by_cases h : r = s
  · simp [h, hs]
  · simp [h, Ne.symm h]

/-! ## The strings of the states -/

/-- The states stand for the strings of the list, by their places. -/
structure Spells (t : Trie) (ws : List Bytes) : Prop where
  size_eq : t.size = ws.length
  nodup : ws.Nodup
  root : ws[0]? = some []
  edges_nodup : ∀ s, ((t.state s).edges.map Prod.fst).Nodup
  child_iff : ∀ {s u}, ws[s]? = some u → ∀ b c, t.child s b = some c ↔ ws[c]? = some (u ++ [b])
  depth_eq : ∀ {s u}, ws[s]? = some u → (t.state s).depth = u.length
  parent : ∀ {s u b}, ws[s]? = some (u ++ [b]) → ws[(t.state s).parent]? = some u ∧ (t.state s).label = b

namespace Spells

variable {ws : List Bytes} {u v : Bytes} {r : Nat}

theorem lt_size (h : t.Spells ws) (hs : ws[s]? = some u) : s < t.size := by
  rw [h.size_eq]
  exact (List.getElem?_eq_some_iff.1 hs).1

/-- No string has two states. -/
theorem eq_of_string (h : t.Spells ws) (hs : ws[s]? = some u) (hr : ws[r]? = some u) : s = r :=
  (List.getElem?_inj (List.getElem?_eq_some_iff.1 hs).1 h.nodup).1 (hs.trans hr.symm)

theorem nil_mem (h : t.Spells ws) : [] ∈ ws := List.mem_of_getElem? h.root

/-- The string of a state begins with strings of states. -/
theorem mem_of_append (h : t.Spells ws) (hm : u ++ v ∈ ws) : u ∈ ws := by
  induction v using List.reverseRecOn with
  | nil => simpa using hm
  | append_singleton v b ih =>
    obtain ⟨s, hs⟩ := List.mem_iff_getElem?.1 hm
    rw [← List.append_assoc] at hs
    exact ih (List.mem_of_getElem? (h.parent hs).1)

/-- A string is shorter than there are states, as all its prefixes have one. -/
theorem length_lt (h : t.Spells ws) (hu : u ∈ ws) : u.length < ws.length := by
  have hsub : (List.range (u.length + 1)).map u.take ⊆ ws := by
    intro x hx
    obtain ⟨i, -, rfl⟩ := List.mem_map.1 hx
    exact h.mem_of_append (v := u.drop i) (by rwa [List.take_append_drop])
  have hnd : ((List.range (u.length + 1)).map u.take).Nodup := by
    refine List.Nodup.map_on (fun i hi j hj he => ?_) List.nodup_range
    have hlen := congrArg List.length he
    rw [List.length_take, List.length_take] at hlen
    have hi' := List.mem_range.1 hi
    have hj' := List.mem_range.1 hj
    omega
  have hle := (List.subperm_of_subset hnd hsub).length_le
  rw [List.length_map, List.length_range] at hle
  omega

theorem not_mem_of_child_none (h : t.Spells ws) (hs : ws[s]? = some u) (hc : t.child s b = none) : u ++ [b] ∉ ws := by
  intro hm
  obtain ⟨c, hc'⟩ := List.mem_iff_getElem?.1 hm
  rw [(h.child_iff hs b c).2 hc'] at hc
  cases hc

/-- A walk goes to the state of the longer string. -/
theorem walk_iff (h : t.Spells ws) (c : Nat) :
    ∀ {v : Bytes} {s : Nat} {u : Bytes}, ws[s]? = some u → (t.walk s v = some c ↔ ws[c]? = some (u ++ v))
  | [], s, u, hs => by
    rw [walk, List.append_nil]
    exact ⟨fun e => Option.some.inj e ▸ hs, fun hc => congrArg some (h.eq_of_string hs hc)⟩
  | b :: v, s, u, hs => by
    rw [walk, List.append_cons]
    cases hc : t.child s b with
    | some r => exact walk_iff h c ((h.child_iff hs b r).1 hc)
    | none =>
      -- without the edge no string goes on this way
      refine ⟨fun e => (by cases e), fun hc' => absurd ?_ (h.not_mem_of_child_none hs hc)⟩
      exact h.mem_of_append (List.mem_of_getElem? hc')

/-- The id of a string is kept at its state. -/
theorem find?_eq_some_iff (h : t.Spells ws) {id : Nat} :
    t.find? u = some id ↔ ∃ s, ws[s]? = some u ∧ (t.state s).own = some id := by
  rw [find?, Option.bind_eq_some_iff]
  simp only [h.walk_iff _ h.root, List.nil_append]

theorem own_eq_find? (h : t.Spells ws) (hs : ws[s]? = some u) : (t.state s).own = t.find? u := by
  refine Option.ext fun id => ?_
  rw [h.find?_eq_some_iff]
  exact ⟨fun e => ⟨s, hs, e⟩, fun ⟨r, hr, e⟩ => h.eq_of_string hr hs ▸ e⟩

theorem find?_eq_none (h : t.Spells ws) (hu : u ∉ ws) : t.find? u = none := by
  refine Option.eq_none_iff_forall_ne_some.2 fun id e => ?_
  obtain ⟨s, hs, -⟩ := h.find?_eq_some_iff.1 e
  exact hu (List.mem_of_getElem? hs)

/-! ## Building -/

/-- The empty trie has the empty string. -/
theorem empty : Trie.empty.Spells [[]] where
  size_eq := rfl
  nodup := by simp
  root := rfl
  edges_nodup s := by
    rcases s with _ | s <;> simp [Trie.empty, state, TrieState.root]
  child_iff {s u} hs b c := by
    rcases s with _ | s
    · rcases c with _ | c
      · simp [Trie.empty, child, state, TrieState.root]
      · simp [Trie.empty, child, state, TrieState.root]
    · simp at hs
  depth_eq {s u} hs := by
    rcases s with _ | s
    · cases hs; rfl
    · simp at hs
  parent {s u b} hs := by
    rcases s with _ | s <;> simp at hs

/-- A place of a list with one more string at its end. -/
theorem getElem?_append_one {x y : Bytes} : (ws ++ [x])[s]? = some y ↔ ws[s]? = some y ∨ s = ws.length ∧ y = x := by
  rw [List.getElem?_append]
  split
  · next hlt => exact ⟨Or.inl, fun h => h.resolve_right fun e => absurd e.1 (by omega)⟩
  · next hle =>
    have hnone : ws[s]? = none := List.getElem?_eq_none (by omega)
    rw [List.getElem?_singleton, hnone]
    by_cases he : s = ws.length
    · simp [he, eq_comm]
    · simp [he, show s - ws.length ≠ 0 by omega]

section AddChild

variable (h : t.Spells ws) (hs : ws[s]? = some u) (hc : t.child s b = none)

include h hs hc

theorem edges_nodup_addChild (r : Nat) : (((t.addChild s b).state r).edges.map Prod.fst).Nodup := by
  rw [state_addChild (h.lt_size hs)]
  by_cases h1 : r = t.size
  · simp [h1]
  · by_cases h2 : r = s
    · subst h2
      have hb : b ∉ (t.state r).edges.map Prod.fst := by
        intro hm
        obtain ⟨⟨b', x⟩, hx, rfl⟩ := List.mem_map.1 hm
        have hne := List.lookup_eq_none_iff.1 hc (b', x) hx
        simp at hne
      simp only [h1, if_false, if_true, List.map_cons]
      exact List.nodup_cons.2 ⟨hb, h.edges_nodup r⟩
    · simpa [h1, h2] using h.edges_nodup r

theorem child_iff_addChild {v : Bytes} (hr : (ws ++ [u ++ [b]])[r]? = some v) (c : UInt8) (k : Nat) :
    (t.addChild s b).child r c = some k ↔ (ws ++ [u ++ [b]])[k]? = some (v ++ [c]) := by
  have hlt := h.lt_size hs
  have hnew := h.not_mem_of_child_none hs hc
  rw [child_addChild hlt, getElem?_append_one]
  rcases getElem?_append_one.1 hr with hv | ⟨rfl, rfl⟩
  · by_cases h1 : r = s ∧ c = b
    · -- the new edge
      obtain ⟨rfl, rfl⟩ := h1
      obtain rfl : u = v := Option.some.inj (hs.symm.trans hv)
      have hno : ws[k]? ≠ some (u ++ [c]) := fun e => hnew (List.mem_of_getElem? e)
      simp [hno, h.size_eq, eq_comm]
    · -- an edge that was there or is missing still
      have hne : ¬(v ++ [c] = u ++ [b]) := by
        intro e
        obtain ⟨rfl, e'⟩ := List.append_inj' e rfl
        exact h1 ⟨h.eq_of_string hv hs, by simpa using e'⟩
      rw [if_neg h1, h.child_iff hv]
      simp [hne]
  · -- the new state has no edges
    have hne : ws.length ≠ s := by rw [← h.size_eq]; omega
    have hno : ws[k]? ≠ some (u ++ [b] ++ [c]) := fun e => hnew (h.mem_of_append (List.mem_of_getElem? e))
    have hnone : t.child ws.length c = none := by
      rw [child, state_of_size_le (Nat.le_of_eq h.size_eq)]
      rfl
    simp only [hne, false_and, if_false, hnone, reduceCtorEq, hno, false_or, false_iff, not_and]
    intro _ e
    simpa using congrArg List.length e

omit hc in
theorem parent_addChild {v : Bytes} {c : UInt8} (hr : (ws ++ [u ++ [b]])[r]? = some (v ++ [c])) :
    (ws ++ [u ++ [b]])[((t.addChild s b).state r).parent]? = some v ∧ ((t.addChild s b).state r).label = c := by
  have hlt := h.lt_size hs
  rw [state_addChild hlt]
  rcases getElem?_append_one.1 hr with hv | ⟨rfl, e⟩
  · obtain ⟨hp, hl⟩ := h.parent hv
    rw [if_neg (Nat.ne_of_lt (h.lt_size hv))]
    by_cases h2 : r = s
    · subst h2
      rw [if_pos rfl]
      exact ⟨getElem?_append_one.2 (Or.inl hp), hl⟩
    · rw [if_neg h2]
      exact ⟨getElem?_append_one.2 (Or.inl hp), hl⟩
  · obtain ⟨rfl, e'⟩ := List.append_inj' e rfl
    rw [if_pos h.size_eq.symm]
    exact ⟨getElem?_append_one.2 (Or.inl hs), by simpa using e'.symm⟩

omit hc in
theorem depth_addChild {v : Bytes} (hr : (ws ++ [u ++ [b]])[r]? = some v) :
    ((t.addChild s b).state r).depth = v.length := by
  rw [state_addChild (h.lt_size hs)]
  rcases getElem?_append_one.1 hr with hv | ⟨rfl, rfl⟩
  · rw [if_neg (Nat.ne_of_lt (h.lt_size hv))]
    by_cases h2 : r = s
    · subst h2; simpa using h.depth_eq hv
    · simpa [h2] using h.depth_eq hv
  · simp [h.size_eq, h.depth_eq hs]

/-- A new child stands for the string one byte longer. -/
theorem addChild : (t.addChild s b).Spells (ws ++ [u ++ [b]]) where
  size_eq := by simp [size_addChild, h.size_eq]
  nodup := by
    refine List.nodup_append.2 ⟨h.nodup, by simp, fun x hx y hy => ?_⟩
    rw [List.mem_singleton.1 hy]
    exact fun e => h.not_mem_of_child_none hs hc (e ▸ hx)
  root := getElem?_append_one.2 (Or.inl h.root)
  edges_nodup := h.edges_nodup_addChild hs hc
  child_iff hr c k := h.child_iff_addChild hs hc hr c k
  depth_eq hr := h.depth_addChild hs hr
  parent hr := h.parent_addChild hs hr

end AddChild

/-- Letting a string have an id moves no edges. -/
theorem setOwn (h : t.Spells ws) (hs : ws[s]? = some u) (id : Nat) : (t.setOwn s id).Spells ws := by
  have hst (r : Nat) : ((t.setOwn s id).state r).edges = (t.state r).edges ∧
      ((t.setOwn s id).state r).depth = (t.state r).depth ∧
      ((t.setOwn s id).state r).parent = (t.state r).parent ∧
      ((t.setOwn s id).state r).label = (t.state r).label := by
    rw [state_setOwn (h.lt_size hs)]
    by_cases hr : r = s
    · subst hr; simp
    · simp [hr]
  refine ⟨?_, h.nodup, h.root, fun r => ?_, fun {r v} hr c k => ?_, fun {r v} hr => ?_, fun {r v c} hr => ?_⟩
  · simpa [Trie.setOwn, size] using h.size_eq
  · rw [(hst r).1]; exact h.edges_nodup r
  · rw [child, (hst r).1]; exact h.child_iff hr c k
  · rw [(hst r).2.1]; exact h.depth_eq hr
  · rw [(hst r).2.2.1, (hst r).2.2.2]; exact h.parent hr

theorem exists_prefix_cons_iff {v x : Bytes} :
    (∃ p, p <+: b :: v ∧ x = u ++ p) ↔ x = u ∨ ∃ p, p <+: v ∧ x = u ++ [b] ++ p := by
  simp only [List.prefix_cons_iff]
  constructor
  · rintro ⟨p, rfl | ⟨q, rfl, hq⟩, rfl⟩
    · exact Or.inl (List.append_nil u)
    · exact Or.inr ⟨q, hq, by simp⟩
  · rintro (rfl | ⟨q, hq, rfl⟩)
    · exact ⟨[], Or.inl rfl, by simp⟩
    · exact ⟨b :: q, Or.inr ⟨q, rfl, hq⟩, by simp⟩

/-- Extending along a string adds what it lacks of the states on its way, and keeps the ids. -/
theorem extend : ∀ {v : Bytes} {t : Trie} {ws : List Bytes} {s : Nat} {u : Bytes}, t.Spells ws → ws[s]? = some u →
    ∃ new, (t.extend s v).1.Spells (ws ++ new) ∧ (ws ++ new)[(t.extend s v).2]? = some (u ++ v) ∧
      (∀ x, x ∈ ws ++ new ↔ x ∈ ws ∨ ∃ p, p <+: v ∧ x = u ++ p) ∧
      ∀ r, ((t.extend s v).1.state r).own = (t.state r).own
  | [], t, ws, s, u, h, hs => by
    refine ⟨[], by simpa [Trie.extend] using h, by simpa [Trie.extend] using hs, fun x => ?_, fun r => rfl⟩
    have hu : x = u → x ∈ ws := fun e => e ▸ List.mem_of_getElem? hs
    simpa using hu
  | b :: v, t, ws, s, u, h, hs => by
    have hu : u ∈ ws := List.mem_of_getElem? hs
    rw [Trie.extend]
    cases hc : t.child s b with
    | some c =>
      have hc' := (h.child_iff hs b c).1 hc
      obtain ⟨new, h1, h2, h3, h4⟩ := extend (v := v) h hc'
      refine ⟨new, h1, by simpa using h2, fun x => ?_, h4⟩
      rw [h3, exists_prefix_cons_iff]
      constructor
      · rintro (hx | hx)
        · exact Or.inl hx
        · exact Or.inr (Or.inr hx)
      · rintro (hx | rfl | hx)
        · exact Or.inl hx
        · exact Or.inl hu
        · exact Or.inr hx
    | none =>
      have hlt := h.lt_size hs
      obtain ⟨new, h1, h2, h3, h4⟩ := extend (v := v) (s := t.size) (u := u ++ [b]) (h.addChild hs hc)
        (by rw [h.size_eq]; exact getElem?_append_one.2 (Or.inr ⟨rfl, rfl⟩))
      refine ⟨(u ++ [b]) :: new, by simpa using h1, by simpa using h2, fun x => ?_, fun r => ?_⟩
      · have h3' := h3 x
        rw [List.append_assoc, List.singleton_append] at h3'
        rw [h3', exists_prefix_cons_iff, List.mem_append, List.mem_singleton]
        constructor
        · rintro ((hx | hx) | hx)
          · exact Or.inl hx
          · exact Or.inr (Or.inr ⟨[], List.nil_prefix, by simpa using hx⟩)
          · exact Or.inr (Or.inr hx)
        · rintro (hx | rfl | hx)
          · exact Or.inl (Or.inl hx)
          · exact Or.inl (Or.inl hu)
          · exact Or.inr hx
      · rw [h4, own_addChild hlt]

/-- Inserting a string gives it and its prefixes a state, and answers its id for it alone. -/
theorem insert (h : t.Spells ws) (v : Bytes) (id : Nat) :
    ∃ ws', (t.insert v id).Spells ws' ∧ (∀ x, x ∈ ws' ↔ x ∈ ws ∨ x <+: v) ∧
      ∀ x, (t.insert v id).find? x = if x = v then some id else t.find? x := by
  obtain ⟨new, h1, h2, h3, h4⟩ := h.extend (v := v) h.root
  rw [List.nil_append] at h2
  have h5 := h1.setOwn h2 id
  refine ⟨ws ++ new, h5, fun x => by rw [h3]; simp, fun x => ?_⟩
  change ((t.extend 0 v).1.setOwn (t.extend 0 v).2 id).find? x = _
  refine Option.ext fun k => ?_
  rw [h5.find?_eq_some_iff]
  simp only [state_setOwn (h1.lt_size h2)]
  by_cases hx : x = v
  · subst hx
    simp only [if_true]
    constructor
    · rintro ⟨r, hr, e⟩
      rw [h1.eq_of_string hr h2, if_pos rfl] at e
      exact e
    · exact fun e => ⟨_, h2, by simpa using e⟩
  · rw [if_neg hx, h.find?_eq_some_iff]
    constructor
    · rintro ⟨r, hr, e⟩
      have hne : r ≠ (t.extend 0 v).2 := fun e' => hx (Option.some.inj (hr.symm.trans (e' ▸ h2)))
      rw [if_neg hne, h4] at e
      -- a state with an id is an old one
      have hlt : r < ws.length := by
        refine Nat.lt_of_not_le fun hle => ?_
        rw [state_of_size_le (by rw [h.size_eq]; exact hle)] at e
        cases e
      exact ⟨r, by rwa [List.getElem?_append_left hlt] at hr, e⟩
    · rintro ⟨r, hr, e⟩
      have hr' : (ws ++ new)[r]? = some x := by
        rw [List.getElem?_append_left (List.getElem?_eq_some_iff.1 hr).1]
        exact hr
      have hne : r ≠ (t.extend 0 v).2 := fun e' => hx (Option.some.inj (hr'.symm.trans (e' ▸ h2)))
      exact ⟨r, hr', by rwa [if_neg hne, h4]⟩

end Spells

end GlobSieve.Literal.Trie
