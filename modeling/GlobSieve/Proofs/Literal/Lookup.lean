import Mathlib.Data.List.Nodup
import Mathlib.Data.List.Perm.Subperm
import GlobSieve.Literal.Transitions
import GlobSieve.Proofs.Literal.Spelling

/-!
# The encodings look up the same edges

Whatever form the edges of a state are kept in, a byte leads where the list of edges says (`target?_ofEdges`), and the targets
listed are those of the edges (`targets_ofEdges`). Two of the forms ask for something in return.

* The sorted table is right if no byte has two edges: between two places of a table in ascending order the halving search
  finds exactly the entries there (`searchSorted_eq_some_iff`).
* The slots are right if moreover no edge leads to the root: a slot then holds zero only if its byte has no edge
  (`getElem_slotsOf`).

Both the sorted table and the slots depend on nothing but what is looked up (`sortEdges_eq`, `toList_slotsOf`), so the order of the
edges makes no difference (`ofEdges_perm`). The edges of a trie are as they have to be (`Spells.edges_nodup`,
`Spells.zero_not_mem_edges`).
-/

namespace GlobSieve.Literal.Transitions

/-! ## Edges with distinct bytes -/

/-- Under distinct bytes a list of edges has at most one edge for a byte. -/
theorem lookup_eq_some_iff_mem {b : UInt8} {t : Nat} : ∀ {edges : List (UInt8 × Nat)}, (edges.map Prod.fst).Nodup →
    (edges.lookup b = some t ↔ (b, t) ∈ edges)
  | [], _ => by simp
  | (c, s) :: edges, h => by
    have hc : c ∉ edges.map Prod.fst := (List.nodup_cons.1 h).1
    have ih := lookup_eq_some_iff_mem (b := b) (t := t) (List.nodup_cons.1 h).2
    by_cases hb : b = c
    · subst hb
      have hno : (b, t) ∉ edges := fun hm => hc (List.mem_map_of_mem hm)
      simp [hno, eq_comm]
    · have hne : (b, t) ≠ (c, s) := fun e => hb (congrArg Prod.fst e)
      rw [List.lookup_cons, beq_false_of_ne hb, ih, List.mem_cons]
      exact ⟨Or.inr, fun hm => hm.resolve_left hne⟩

/-- What is looked up does not depend on the order of the edges. -/
theorem lookup_perm {edges edges' : List (UInt8 × Nat)} (hp : edges'.Perm edges) (h : (edges.map Prod.fst).Nodup)
    (b : UInt8) : edges'.lookup b = edges.lookup b := by
  have h' : (edges'.map Prod.fst).Nodup := ((hp.map Prod.fst).nodup_iff).2 h
  refine Option.ext fun t => ?_
  rw [lookup_eq_some_iff_mem h', lookup_eq_some_iff_mem h, hp.mem_iff]

/-- A byte does not lead to the root if no edge does. -/
theorem ne_zero_of_lookup {edges : List (UInt8 × Nat)} (h : (edges.map Prod.fst).Nodup) (hroot : 0 ∉ edges.map Prod.snd)
    {b : UInt8} {t : Nat} (hb : edges.lookup b = some t) : t ≠ 0 := by
  rintro rfl
  exact hroot (List.mem_map_of_mem ((lookup_eq_some_iff_mem h).1 hb))

/-! ## The sorted table -/

section Sorted

variable {table : Array (UInt8 × Nat)} {b : UInt8} {t : Nat}

/-- Of two places of an ascending table the later has the greater byte. -/
theorem fst_lt_of_getElem? (h : (table.toList.map Prod.fst).Pairwise (· < ·)) {i j : Nat} {x y : UInt8 × Nat}
    (hi : table[i]? = some x) (hj : table[j]? = some y) (hij : i < j) : x.1 < y.1 := by
  obtain ⟨hi', rfl⟩ := Array.getElem?_eq_some_iff.1 hi
  obtain ⟨hj', rfl⟩ := Array.getElem?_eq_some_iff.1 hj
  have := List.pairwise_iff_getElem.1 (List.pairwise_map.1 h) i j (by simpa using hi') (by simpa using hj') hij
  simpa using this

/-- The search finds what stands between the two places. -/
theorem searchSorted_eq_some_iff (h : (table.toList.map Prod.fst).Pairwise (· < ·)) {lo hi : Nat}
    (hhi : hi ≤ table.size) :
    searchSorted table b lo hi = some t ↔ ∃ i, lo ≤ i ∧ i < hi ∧ table[i]? = some (b, t) := by
  fun_induction searchSorted table b lo hi with
  | case1 lo hi hlt hnone =>
    have hm : (lo + hi) / 2 < table.size := by omega
    simp [hm] at hnone
  | case2 lo hi hlt s hmid =>
    refine ⟨fun e => ⟨(lo + hi) / 2, by omega, by omega, by rw [hmid, Option.some.inj e]⟩, ?_⟩
    rintro ⟨i, -, -, hi'⟩
    -- no other place has the byte of the middle one
    rcases Nat.lt_trichotomy i ((lo + hi) / 2) with hl | rfl | hl
    · exact absurd (fst_lt_of_getElem? h hi' hmid hl) (UInt8.lt_irrefl _)
    · rw [hmid] at hi'
      exact congrArg (Option.map Prod.snd) hi'
    · exact absurd (fst_lt_of_getElem? h hmid hi' hl) (UInt8.lt_irrefl _)
  | case3 lo hi hlt c s hmid _ hbc ih =>
    rw [ih (by omega)]
    constructor
    · rintro ⟨i, h1, h2, h3⟩
      exact ⟨i, h1, by omega, h3⟩
    · rintro ⟨i, h1, h2, h3⟩
      refine ⟨i, h1, ?_, h3⟩
      rcases Nat.lt_trichotomy i ((lo + hi) / 2) with hl | rfl | hl
      · exact hl
      · rw [hmid] at h3
        cases h3
        exact absurd hbc (UInt8.lt_irrefl _)
      · exact absurd (UInt8.lt_trans hbc (fst_lt_of_getElem? h hmid h3 hl)) (UInt8.lt_irrefl _)
  | case4 lo hi hlt c s hmid hne hbc ih =>
    rw [ih hhi]
    constructor
    · rintro ⟨i, h1, h2, h3⟩
      exact ⟨i, by omega, h2, h3⟩
    · rintro ⟨i, h1, h2, h3⟩
      refine ⟨i, ?_, h2, h3⟩
      rcases Nat.lt_trichotomy i ((lo + hi) / 2) with hl | rfl | hl
      · exact absurd (fst_lt_of_getElem? h h3 hmid hl) hbc
      · rw [hmid] at h3
        cases h3
        exact absurd rfl hne
      · exact hl
  | case5 lo hi hlt =>
    simp only [reduceCtorEq, false_iff]
    rintro ⟨i, h1, h2, -⟩
    omega

end Sorted

theorem sortEdges_perm (edges : List (UInt8 × Nat)) : (sortEdges edges).Perm edges := List.mergeSort_perm edges _

theorem zero_not_mem_sortEdges {edges : List (UInt8 × Nat)} (hroot : 0 ∉ edges.map Prod.snd) :
    0 ∉ (sortEdges edges).map Prod.snd := by
  rwa [((sortEdges_perm edges).map Prod.snd).mem_iff]

section

variable {edges : List (UInt8 × Nat)} (h : (edges.map Prod.fst).Nodup)

include h

theorem nodup_sortEdges : ((sortEdges edges).map Prod.fst).Nodup :=
  (((sortEdges_perm edges).map Prod.fst).nodup_iff).2 h

theorem lookup_sortEdges (b : UInt8) : (sortEdges edges).lookup b = edges.lookup b :=
  lookup_perm (sortEdges_perm edges) h b

/-- Sorting edges with distinct bytes puts their bytes in strictly ascending order. -/
theorem pairwise_sortEdges : ((sortEdges edges).map Prod.fst).Pairwise (· < ·) := by
  have hle : (sortEdges edges).Pairwise fun x y => decide (x.1 ≤ y.1) = true :=
    List.pairwise_mergeSort (fun a b c h1 h2 => by simp only [decide_eq_true_eq] at *; exact UInt8.le_trans h1 h2)
      (fun a b => by simpa using UInt8.le_total a.1 b.1) edges
  refine List.pairwise_map.2 (((List.pairwise_map.1 (nodup_sortEdges h)).and hle).imp fun ⟨hne, hxy⟩ => ?_)
  exact UInt8.lt_of_le_of_ne (of_decide_eq_true hxy) hne

end

/-! ## The slots -/

/-- Edges with distinct bytes that are written one after the other are found in the slots of their bytes. -/
theorem getElem_foldl_set (b : UInt8) : ∀ {edges : List (UInt8 × Nat)} (slots : Vector Nat 256), (edges.map Prod.fst).Nodup →
    (edges.foldl (fun slots e => slots.set e.1.toNat e.2 e.1.toNat_lt) slots)[b.toFin] =
      (edges.lookup b).getD slots[b.toFin]
  | [], _, _ => rfl
  | (c, t) :: edges, slots, h => by
    obtain ⟨hc, hnd⟩ := List.nodup_cons.1 h
    rw [List.foldl_cons, getElem_foldl_set b _ hnd, List.lookup_cons]
    by_cases hb : b = c
    · subst hb
      -- no later edge is written into this slot
      have hnone : edges.lookup b = none := by
        refine Option.eq_none_iff_forall_ne_some.2 fun later hlater => hc ?_
        exact List.mem_map.2 ⟨(b, later), (lookup_eq_some_iff_mem hnd).1 hlater, rfl⟩
      simp [hnone]
    · have hne : c.toNat ≠ b.toNat := fun e => hb (UInt8.toNat_inj.1 e).symm
      simp [beq_false_of_ne hb, hne]

/-- A slot holds what its byte leads to, or zero. -/
theorem getElem_slotsOf {edges : List (UInt8 × Nat)} (h : (edges.map Prod.fst).Nodup) (b : UInt8) :
    (slotsOf edges)[b.toFin] = (edges.lookup b).getD 0 := by
  rw [slotsOf, getElem_foldl_set b _ h]
  simp

/-! ## All forms -/

theorem target?_sparse {edges : List (UInt8 × Nat)} (h : (edges.map Prod.fst).Nodup) (b : UInt8) :
    (sparse (sortEdges edges).toArray).target? b = edges.lookup b := by
  have hp : ((sortEdges edges).toArray.toList.map Prod.fst).Pairwise (· < ·) := pairwise_sortEdges h
  have hmem (t : Nat) : (b, t) ∈ edges ↔ (b, t) ∈ sortEdges edges := (sortEdges_perm edges).mem_iff.symm
  refine Option.ext fun t => ?_
  rw [target?, searchSorted_eq_some_iff hp (Nat.le_refl _), lookup_eq_some_iff_mem h, hmem, List.mem_iff_getElem?]
  constructor
  · rintro ⟨i, -, -, hi⟩
    exact ⟨i, by simpa using hi⟩
  · rintro ⟨i, hi⟩
    have hlt := (List.getElem?_eq_some_iff.1 hi).1
    exact ⟨i, Nat.zero_le _, by simpa using hlt, by simpa using hi⟩

theorem target?_dense {edges : List (UInt8 × Nat)} (h : (edges.map Prod.fst).Nodup) (hroot : 0 ∉ edges.map Prod.snd)
    (b : UInt8) : (dense (slotsOf edges)).target? b = edges.lookup b := by
  rw [target?, getElem_slotsOf h]
  cases hb : edges.lookup b with
  | none => rfl
  | some t => simp [ne_zero_of_lookup h hroot hb]

-- slots would lose an edge that leads to the root
example : let slots := slotsOf [(98, 4), (97, 0), (255, 6)]
    ([98, 97, 255].map (dense slots).target?, (dense slots).targets) = ([some 4, none, some 6], [4, 6]) := by decide +kernel

/-- The number of edges decides on the encoding. -/
theorem encoding_ofEdges : ∀ edges : List (UInt8 × Nat), (ofEdges edges).encoding = encodingFor edges.length
  | [] => rfl
  | [_] => rfl
  | x :: y :: edges => by
    simp only [ofEdges, encodingFor, List.length_cons]
    split <;> rfl

/-- A byte leads where the edges say, in every encoding. -/
theorem target?_ofEdges {edges : List (UInt8 × Nat)} (h : (edges.map Prod.fst).Nodup) (hroot : 0 ∉ edges.map Prod.snd)
    (b : UInt8) : (ofEdges edges).target? b = edges.lookup b := by
  unfold ofEdges
  split
  · rfl
  · next c t =>
    by_cases hb : b = c
    · simp [target?, hb]
    · simp [target?, hb, List.lookup_cons, beq_false_of_ne hb]
  · split
    · exact target?_sparse h b
    · rw [target?_dense (nodup_sortEdges h) (zero_not_mem_sortEdges hroot), lookup_sortEdges h]

/-! ## Targets -/

/-- All bytes in ascending order. -/
def allBytes : List UInt8 := (List.range 256).map UInt8.ofNat

theorem mem_allBytes (b : UInt8) : b ∈ allBytes :=
  List.mem_map.2 ⟨b.toNat, List.mem_range.2 b.toNat_lt, UInt8.ofNat_toNat⟩

theorem length_allBytes : allBytes.length = 256 := by rw [allBytes, List.length_map, List.length_range]

theorem pairwise_allBytes : allBytes.Pairwise (· < ·) := by
  refine List.pairwise_map.2 (List.pairwise_lt_range.imp_of_mem ?_)
  intro i j hi hj hij
  have hi' := List.mem_range.1 hi
  have hj' := List.mem_range.1 hj
  rw [UInt8.lt_iff_toNat_lt, UInt8.toNat_ofNat', UInt8.toNat_ofNat']
  omega

/-- No more than 256 bytes are distinct. -/
theorem length_le_of_nodup {bytes : List UInt8} (h : bytes.Nodup) : bytes.length ≤ 256 := by
  rw [← length_allBytes]
  exact (List.subperm_of_subset h fun b _ => mem_allBytes b).length_le

/-- The edges that are found when all bytes are looked up in turn. -/
def byByte (edges : List (UInt8 × Nat)) : List (UInt8 × Nat) :=
  allBytes.filterMap fun b => (edges.lookup b).map fun t => (b, t)

theorem mem_byByte {edges : List (UInt8 × Nat)} (h : (edges.map Prod.fst).Nodup) {x : UInt8 × Nat} :
    x ∈ byByte edges ↔ x ∈ edges := by
  obtain ⟨b, t⟩ := x
  rw [byByte, List.mem_filterMap, ← lookup_eq_some_iff_mem h]
  simp only [Option.map_eq_some_iff, Prod.mk.injEq]
  constructor
  · rintro ⟨c, -, s, hc, rfl, rfl⟩
    exact hc
  · intro hb
    exact ⟨b, mem_allBytes b, t, hb, rfl, rfl⟩

theorem pairwise_byByte (edges : List (UInt8 × Nat)) : (byByte edges).Pairwise fun x y => x.1 < y.1 := by
  refine pairwise_allBytes.filterMap _ fun b c hbc x hx y hy => ?_
  obtain ⟨s, -, rfl⟩ := Option.map_eq_some_iff.1 hx
  obtain ⟨t, -, rfl⟩ := Option.map_eq_some_iff.1 hy
  exact hbc

theorem map_snd_byByte (edges : List (UInt8 × Nat)) : (byByte edges).map Prod.snd = allBytes.filterMap (edges.lookup ·) := by
  rw [byByte, List.map_filterMap]
  simp [Function.comp_def]

/-- To sort edges is to look all bytes up in turn. -/
theorem sortEdges_eq {edges : List (UInt8 × Nat)} (h : (edges.map Prod.fst).Nodup) : sortEdges edges = byByte edges := by
  have hsorted : (sortEdges edges).Pairwise fun x y => x.1 < y.1 := List.pairwise_map.1 (pairwise_sortEdges h)
  have hne : ∀ {x y : UInt8 × Nat}, x.1 < y.1 → x ≠ y := by
    rintro x _ hxy rfl
    exact UInt8.lt_irrefl _ hxy
  have hperm : (sortEdges edges).Perm (byByte edges) := by
    refine (List.perm_ext_iff_of_nodup (hsorted.imp hne) ((pairwise_byByte edges).imp hne)).2 fun x => ?_
    rw [(sortEdges_perm edges).mem_iff, mem_byByte h]
  exact hperm.eq_of_pairwise (fun x y _ _ hxy hyx => absurd hxy (UInt8.lt_asymm hyx)) hsorted (pairwise_byByte edges)

theorem map_snd_sortEdges {edges : List (UInt8 × Nat)} (h : (edges.map Prod.fst).Nodup) :
    (sortEdges edges).map Prod.snd = allBytes.filterMap (edges.lookup ·) := by
  rw [sortEdges_eq h, map_snd_byByte]

/-- The slots in the order of their bytes. -/
theorem toList_slotsOf {edges : List (UInt8 × Nat)} (h : (edges.map Prod.fst).Nodup) :
    (slotsOf edges).toList = allBytes.map fun b => (edges.lookup b).getD 0 := by
  apply List.ext_getElem
  · simp [length_allBytes]
  · intro i hi _
    have hlt : i < 256 := by simpa using hi
    have hslot := getElem_slotsOf h (UInt8.ofNat i)
    have hval : (UInt8.ofNat i).toFin.val = i := by
      rw [UInt8.toFin_val, UInt8.toNat_ofNat', Nat.mod_eq_of_lt hlt]
    simp only [Fin.getElem_fin, hval] at hslot
    simpa [allBytes] using hslot

/-- The slots that are in use are what the bytes lead to. -/
theorem filter_slotsOf {edges : List (UInt8 × Nat)} (h : (edges.map Prod.fst).Nodup) (hroot : 0 ∉ edges.map Prod.snd) :
    (slotsOf edges).toList.filter (· ≠ 0) = allBytes.filterMap (edges.lookup ·) := by
  have hused : ∀ b, (some ((edges.lookup b).getD 0)).filter (fun t => decide (t ≠ 0)) = edges.lookup b := by
    intro b
    cases hb : edges.lookup b with
    | none => rfl
    | some t => simp [ne_zero_of_lookup h hroot hb]
  rw [toList_slotsOf h, ← List.filterMap_eq_filter, List.filterMap_map]
  exact List.filterMap_congr fun b _ => hused b

/-- The targets are what the bytes lead to, in ascending order of the bytes, in every encoding. -/
theorem targets_ofEdges {edges : List (UInt8 × Nat)} (h : (edges.map Prod.fst).Nodup) (hroot : 0 ∉ edges.map Prod.snd) :
    (ofEdges edges).targets = allBytes.filterMap (edges.lookup ·) := by
  rw [← map_snd_sortEdges h]
  unfold ofEdges
  split
  · simp [sortEdges, targets]
  · simp [sortEdges, targets]
  · split
    · rfl
    · rw [targets, filter_slotsOf (nodup_sortEdges h) (zero_not_mem_sortEdges hroot), map_snd_sortEdges h]
      exact List.filterMap_congr fun b _ => lookup_sortEdges h b

/-- They are those of the edges. -/
theorem perm_targets_ofEdges {edges : List (UInt8 × Nat)} (h : (edges.map Prod.fst).Nodup)
    (hroot : 0 ∉ edges.map Prod.snd) : (ofEdges edges).targets.Perm (edges.map Prod.snd) := by
  rw [targets_ofEdges h hroot, ← map_snd_sortEdges h]
  exact (sortEdges_perm edges).map Prod.snd

/-- The order of the edges makes no difference. -/
theorem ofEdges_perm {edges edges' : List (UInt8 × Nat)} (hp : edges'.Perm edges) (h : (edges.map Prod.fst).Nodup) :
    ofEdges edges' = ofEdges edges := by
  have h' : (edges'.map Prod.fst).Nodup := ((hp.map Prod.fst).nodup_iff).2 h
  have hsort : sortEdges edges' = sortEdges edges := by
    simp only [sortEdges_eq h', sortEdges_eq h, byByte, lookup_perm hp h]
  match edges, hp with
  | [], hp => rw [hp.eq_nil]
  | [(b, t)], hp => rw [List.perm_singleton.1 hp]
  | x :: y :: edges, hp =>
    match edges', hp.length_eq with
    | x' :: y' :: edges', hlen => simp only [ofEdges, hlen, hsort]

end GlobSieve.Literal.Transitions

/-! ## The edges of a trie -/

namespace GlobSieve.Literal.Trie.Spells

variable {t : Trie} {ws : List Bytes} {s c : Nat} {u : Bytes} {b : UInt8}

/-- An edge leads to the string one byte longer. -/
theorem mem_edges_iff (h : t.Spells ws) (hs : ws[s]? = some u) : (b, c) ∈ (t.state s).edges ↔ ws[c]? = some (u ++ [b]) := by
  rw [← h.child_iff hs, child, Transitions.lookup_eq_some_iff_mem (h.edges_nodup s)]

/-- The bytes that lead on from a state. -/
theorem mem_map_fst_edges_iff (h : t.Spells ws) (hs : ws[s]? = some u) :
    b ∈ (t.state s).edges.map Prod.fst ↔ u ++ [b] ∈ ws := by
  rw [List.mem_map, List.mem_iff_getElem?]
  simp only [← h.mem_edges_iff hs]
  constructor
  · rintro ⟨⟨_, c⟩, he, rfl⟩
    exact ⟨c, he⟩
  · rintro ⟨c, he⟩
    exact ⟨(b, c), he, rfl⟩

/-- A state that has an edge has a string. -/
theorem exists_of_mem_edges (h : t.Spells ws) (he : (b, c) ∈ (t.state s).edges) : ∃ u, ws[s]? = some u := by
  by_cases hs : s < ws.length
  · exact ⟨ws[s], List.getElem?_eq_getElem hs⟩
  · rw [state_of_size_le (h.size_eq.trans_le (Nat.le_of_not_lt hs))] at he
    cases he

/-- No edge leads to the root, as the empty string is not longer than another. -/
theorem zero_not_mem_edges (h : t.Spells ws) (s : Nat) : 0 ∉ (t.state s).edges.map Prod.snd := by
  intro hmem
  obtain ⟨⟨b, c⟩, he, rfl⟩ := List.mem_map.1 hmem
  obtain ⟨u, hs⟩ := h.exists_of_mem_edges he
  have hnil := Option.some.inj (h.root.symm.trans ((h.mem_edges_iff hs).1 he))
  exact List.append_ne_nil_of_right_ne_nil u (List.cons_ne_nil b []) hnil.symm

/-- No two edges of a state lead to the same state, as it has but one string. -/
theorem nodup_map_snd_edges (h : t.Spells ws) (s : Nat) : ((t.state s).edges.map Prod.snd).Nodup := by
  refine List.Nodup.map_on ?_ (List.Nodup.of_map Prod.fst (h.edges_nodup s))
  rintro ⟨b, c⟩ hb ⟨b', c'⟩ hb' hc
  obtain rfl : c = c' := hc
  obtain ⟨u, hs⟩ := h.exists_of_mem_edges hb
  have hstring := Option.some.inj (((h.mem_edges_iff hs).1 hb).symm.trans ((h.mem_edges_iff hs).1 hb'))
  obtain rfl : b = b' := by simpa using hstring
  rfl

end GlobSieve.Literal.Trie.Spells
