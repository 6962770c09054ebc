import Mathlib.Data.List.Sort
import GlobSieve.Literal.Automaton
import GlobSieve.Proofs.Literal.LongestSuffix
import GlobSieve.Proofs.Literal.Spelling

/-!
# Failure links

Over a trie that spells the strings `ws`:

* following failure links from the state of `u` on a byte `b` ends at the state of the longest suffix of `u ++ [b]` among
  `ws`, if the links of the states no deeper than `u` lead to longest proper suffixes (`follow_spells`);
* the link of a state is right if the links of all shallower states are (`linkOf_fits`); since `linksOf` goes through
  the states by depth, all links are right in the end (`linksOf_fits`).
-/

namespace GlobSieve.Literal

variable {t : Trie} {ws : List Bytes} {u : Bytes} {s : Nat} {b : UInt8}

/-- The link of the string `u`: the failure link leads to the longest proper suffix, and the outputs are the ids of the
suffixes of `u`, the longest first. -/
structure Link.Fits (t : Trie) (ws : List Bytes) (u : Bytes) (l : Link) : Prop where
  failure : ws[l.failure]? = some (longestIn ws u.tail)
  outputs : l.outputs = u.tails.filterMap t.find?

/-! ## Following links -/

theorem follow_spells (h : t.Spells ws) {child : Nat → Option Nat} (hchild : ∀ r, child r = t.child r b)
    {failure : Nat → Nat} (k : Nat) :
    ∀ {s : Nat} {u : Bytes}, ws[s]? = some u → u.length ≤ k →
      (∀ {r x}, ws[r]? = some x → x.length ≤ u.length → ws[failure r]? = some (longestIn ws x.tail)) →
      ws[follow child failure k s]? = some (longestIn ws (u ++ [b])) := by
  -- with an edge under the byte the longer string has a state itself
  have hedge {s c : Nat} {u : Bytes} (hs : ws[s]? = some u) (hc : t.child s b = some c) :
      ws[c]? = some (longestIn ws (u ++ [b])) := by
    have hc' := (h.child_iff hs b c).1 hc
    rw [hc', longestIn_of_mem (List.mem_of_getElem? hc')]
  induction k with
  | zero =>
    intro s u hs hlen _
    obtain rfl : u = [] := List.eq_nil_of_length_eq_zero (Nat.le_zero.1 hlen)
    obtain rfl : s = 0 := h.eq_of_string hs h.root
    rw [follow, hchild]
    cases hc : t.child 0 b with
    | some c => exact hedge hs hc
    | none =>
      have hno := h.not_mem_of_child_none hs hc
      rw [List.nil_append] at hno ⊢
      rw [longestIn_cons hno]
      exact h.root
  | succ k ih =>
    intro s u hs hlen hfail
    rw [follow, hchild]
    cases hc : t.child s b with
    | some c => exact hedge hs hc
    | none =>
      have hno := h.not_mem_of_child_none hs hc
      have hf := hfail hs (Nat.le_refl _)
      have hle := length_longestIn_le ws u.tail
      rw [List.length_tail] at hle
      have hrec := ih hf (by omega) fun hr hx => hfail hr (by omega)
      -- the longest suffix is a proper one, so the first byte can go
      rw [hrec, ← longestIn_append_one h.nil_mem h.mem_of_append]
      cases u with
      | nil => rfl
      | cons a u =>
        rw [List.cons_append] at hno ⊢
        rw [longestIn_cons hno, List.tail_cons]

/-! ## One link -/

/-- The outputs of a string are its own id and the outputs of its longest proper suffix. -/
theorem own_append_outputs (h : t.Spells ws) (hs : ws[s]? = some u) (hu : u ≠ []) {os : List Nat}
    (ho : os = (longestIn ws u.tail).tails.filterMap t.find?) :
    (t.state s).own.toList ++ os = u.tails.filterMap t.find? := by
  rw [h.own_eq_find? hs, ho, filterMap_tails_longestIn fun x hx => h.find?_eq_none hx]
  cases u with
  | nil => exact absurd rfl hu
  | cons a u =>
    rw [List.tails_cons, List.tail_cons]
    cases hf : t.find? (a :: u) with
    | none => rw [List.filterMap_cons_none hf]; rfl
    | some id => rw [List.filterMap_cons_some hf]; rfl

/-- The root falls back to itself, and no literal ends there, as none is empty. -/
theorem linkOf_root (h : t.Spells ws) (hnil : t.find? [] = none) {links : Array Link} (h0 : links.getD 0 .root = .root) :
    linkOf t links 0 = .root := by
  have hdepth : (t.state 0).depth = 0 := h.depth_eq h.root
  simp only [linkOf, hdepth, Nat.zero_le, if_true, h0, h.own_eq_find? h.root, hnil]
  rfl

theorem root_fits (h : t.Spells ws) (hnil : t.find? [] = none) : Link.root.Fits t ws [] where
  failure := h.root
  outputs := by simp [Link.root, hnil]

/-- The link of a state is right if those of all shallower states are. -/
theorem linkOf_fits (h : t.Spells ws) (hnil : t.find? [] = none) {links : Array Link} (hs : ws[s]? = some u)
    (h0 : links.getD 0 .root = .root)
    (hlinks : ∀ {r x}, ws[r]? = some x → x.length < u.length → (links.getD r .root).Fits t ws x) :
    (linkOf t links s).Fits t ws u := by
  have hdepth := h.depth_eq hs
  rcases List.eq_nil_or_concat u with rfl | ⟨v, b, rfl⟩
  · rw [h.eq_of_string hs h.root, linkOf_root h hnil h0]
    exact root_fits h hnil
  rw [List.concat_eq_append] at hs hdepth hlinks ⊢
  have hlen : (v ++ [b]).length = v.length + 1 := List.length_append
  -- where the failure link leads is the longest proper suffix
  have hfail : ws[(linkOf t links s).failure]? = some (longestIn ws (v ++ [b]).tail) := by
    rw [linkOf]
    by_cases hd : (t.state s).depth ≤ 1
    · obtain rfl : v = [] := List.eq_nil_of_length_eq_zero (by omega)
      simpa [hd, longestIn] using h.root
    · obtain ⟨hp, hl⟩ := h.parent hs
      have hpf := (hlinks hp (by omega)).failure
      have hle := length_longestIn_le ws v.tail
      rw [List.length_tail] at hle
      rw [if_neg hd, follow_spells h (fun r => by rw [hl]) _ hpf (by omega)
        fun hr hx => (hlinks hr (by omega)).failure, ← longestIn_append_one h.nil_mem h.mem_of_append]
      cases v with
      | nil => exact absurd (by rw [hdepth]; exact Nat.le_refl 1) hd
      | cons a v => rfl
  refine ⟨hfail, own_append_outputs h hs (by simp) ?_⟩
  refine (hlinks hfail ?_).outputs
  have := length_longestIn_le ws (v ++ [b]).tail
  rw [List.length_tail] at this
  omega

/-! ## All links -/

theorem getD_setIfInBounds {links : Array Link} {l : Link} (hs : s < links.size) (r : Nat) :
    (links.setIfInBounds s l).getD r .root = if r = s then l else links.getD r .root := by
  simp only [Array.getD_eq_getD_getElem?, Array.getElem?_setIfInBounds]
  by_cases hr : r = s
  · simp [hr, hs]
  · simp [hr, Ne.symm hr]

/-- Going through the remaining states by depth makes all links right, if those of the other states are. -/
theorem foldl_linkOf_fits (h : t.Spells ws) (hnil : t.find? [] = none) :
    ∀ (rest : List Nat) {links : Array Link}, links.size = ws.length → links.getD 0 .root = .root →
      (∀ r ∈ rest, r < ws.length) → rest.Pairwise (fun r s => (t.state r).depth ≤ (t.state s).depth) →
      (∀ {r x}, ws[r]? = some x → r ∉ rest → (links.getD r .root).Fits t ws x) →
      ∀ {r x}, ws[r]? = some x →
        ((rest.foldl (fun links s => links.setIfInBounds s (linkOf t links s)) links).getD r .root).Fits t ws x
  | [], _, _, _, _, _, hdone, _, _, hr => hdone hr List.not_mem_nil
  | s :: rest, links, hsize, h0, hlt, hsort, hdone, r, x, hr => by
    have hs : s < ws.length := hlt s List.mem_cons_self
    obtain ⟨hmin, hsort'⟩ := List.pairwise_cons.1 hsort
    have hfits : (linkOf t links s).Fits t ws ws[s] := by
      refine linkOf_fits h hnil (List.getElem?_eq_getElem hs) h0 fun {q y} hq hlen => hdone hq fun hm => ?_
      -- a shallower state is none of those that remain
      have hle : (t.state s).depth ≤ (t.state q).depth := by
        rcases List.mem_cons.1 hm with rfl | hm
        · exact Nat.le_refl _
        · exact hmin q hm
      rw [h.depth_eq hq, h.depth_eq (List.getElem?_eq_getElem hs)] at hle
      omega
    rw [List.foldl_cons]
    refine foldl_linkOf_fits h hnil rest (by simpa using hsize) ?_ (fun q hq => hlt q (List.mem_cons_of_mem _ hq)) hsort'
      (fun {q y} hq hm => ?_) hr
    · rw [getD_setIfInBounds (by omega)]
      split
      · next e => rw [← e, linkOf_root h hnil h0]
      · exact h0
    · rw [getD_setIfInBounds (by omega)]
      by_cases hqs : q = s
      · rw [if_pos hqs]
        subst hqs
        rwa [← Option.some.inj ((List.getElem?_eq_getElem hs).symm.trans hq)]
      · rw [if_neg hqs]
        exact hdone hq fun hm' => (List.mem_cons.1 hm').elim hqs hm

/-- All failure links lead to longest proper suffixes, and the outputs are the literals among the suffixes. -/
theorem linksOf_fits (h : t.Spells ws) (hnil : t.find? [] = none) (hs : ws[s]? = some u) :
    ((linksOf t).getD s .root).Fits t ws u := by
  have hperm : (levelOrder t).Perm (List.range t.size) := List.mergeSort_perm _ _
  refine foldl_linkOf_fits h hnil _ (by simp [h.size_eq]) ?_ (fun r hr => ?_) ?_ (fun {r x} hr hm => ?_) hs
  · simp only [Array.getD_eq_getD_getElem?, Array.getElem?_replicate]
    split <;> rfl
  · rw [← h.size_eq]
    exact List.mem_range.1 (hperm.mem_iff.1 hr)
  · have := @List.pairwise_mergeSort _ (fun r s => decide ((t.state r).depth ≤ (t.state s).depth))
      (fun a b c h1 h2 => by simp only [decide_eq_true_eq] at *; omega)
      (fun a b => by simp only [Bool.or_eq_true, decide_eq_true_eq]; omega) (List.range t.size)
    exact this.imp of_decide_eq_true
  · exact absurd (hperm.mem_iff.2 (List.mem_range.2 (h.lt_size hr))) hm

end GlobSieve.Literal
