import Mathlib.Data.List.Sort
import GlobSieve.Proofs.Pattern.InPlace
import GlobSieve.Proofs.Pattern.Store

/-!
# Patterns that share a meta-word

Two patterns require the same if they have the same fragments (`requirement_eq_iff`), whatever the order and the number of
times. So they share a meta-word if they have the same fragments and any at all; patterns of wildcards have the same
fragments, none, and share no meta-word. Meta-words are numbered by their first patterns (`pairwise_idxOf_requiredSets`).
-/

namespace GlobSieve

open Glob

variable {κ : Type}

theorem head?_placesOf {α : Type} (p : α → Bool) (l : List α) : (placesOf p l).head? = l.findIdx? p := by
  rw [placesOf, List.head?_map, List.head?_filter, List.findIdx?_eq_fst_find?_zipIdx]

/-- Patterns with the same fragments require the same. -/
theorem StoredPattern.Grounded.requirement_eq_iff {table : FragmentTable} {p q : StoredPattern κ} (hp : p.Grounded table)
    (hq : q.Grounded table) (ht : table.Distinct) :
    p.requirement = q.requirement ↔ ∀ y, y ∈ fragments p.text ↔ y ∈ fragments q.text := by
  have hempty {q : StoredPattern κ} (hq : q.Grounded table) : q.requirement = .wildcardOnly ↔ ∀ y, y ∉ fragments q.text := by
    rw [hq.wildcardOnly_iff, List.eq_nil_iff_forall_not_mem]
  cases hpr : p.requirement with
  | wildcardOnly =>
    have hnone := (hempty hp).1 hpr
    rw [eq_comm, hempty hq]
    simp only [hnone, false_iff]
  | fragments hs =>
    constructor
    · intro hqr y
      rw [hp.mem_fragments_iff ht hpr, hq.mem_fragments_iff ht hqr.symm]
    · intro hsame
      cases hqr : q.requirement with
      | wildcardOnly =>
        have hnone := (hempty hq).1 hqr
        rw [(hempty hp).2 fun y hy => hnone y ((hsame y).1 hy)] at hpr
        cases hpr
      | fragments hs' =>
        have hmem (id : Nat) : id ∈ hs ↔ id ∈ hs' := by
          rw [hp.mem_iff ht hpr, hq.mem_iff ht hqr]
          simp only [hsame]
        rw [(hp.pairwise_requirement hpr).eq_of_mem_iff (hq.pairwise_requirement hqr) hmem]

namespace MetaWordIndex

variable {rs : List Requirement} {n f m m' i j : Nat} {s : List Nat} {w w' : MetaWord}

/-- The sets stand in the order of their first patterns. -/
theorem pairwise_idxOf_requiredSets (rs : List Requirement) :
    (requiredSets rs).Pairwise fun s s' => rs.idxOf (.fragments s) < rs.idxOf (.fragments s') := by
  induction rs using List.reverseRecOn with
  | nil => exact List.Pairwise.nil
  | append_singleton rs q ih =>
    -- the first pattern of an old set stays the first
    have hold {s : List Nat} (hs : s ∈ requiredSets rs) : (rs ++ [q]).idxOf (.fragments s) = rs.idxOf (.fragments s) := by
      rw [List.idxOf_append, if_pos (mem_requiredSets.1 hs)]
    have hsets : (requiredSets rs).Pairwise fun s s' =>
        (rs ++ [q]).idxOf (.fragments s) < (rs ++ [q]).idxOf (.fragments s') := by
      refine ih.imp_of_mem fun hs hs' hlt => ?_
      rwa [hold hs, hold hs']
    cases q with
    | wildcardOnly => rwa [requiredSets_concat_wildcardOnly]
    | fragments s =>
      rw [requiredSets_concat_fragments]
      split
      · exact hsets
      · next hnew =>
        refine List.pairwise_append.2 ⟨hsets, List.pairwise_singleton _ _, fun s' hs' s'' hs'' => ?_⟩
        rw [List.mem_singleton.1 hs'', hold hs', List.idxOf_append, if_neg (mt mem_requiredSets.2 hnew)]
        exact Nat.lt_add_left _ (List.idxOf_lt_length_of_mem (mem_requiredSets.1 hs'))

theorem head?_placesOf_requiredSets (hs : s ∈ requiredSets rs) :
    (placesOf (· == .fragments s) rs).head? = some (rs.idxOf (.fragments s)) := by
  rw [head?_placesOf]
  exact List.findIdx?_eq_some_of_exists ⟨_, mem_requiredSets.1 hs, beq_self_eq_true _⟩

/-- Meta-words are numbered by their first patterns. -/
theorem lt_iff_head?_lt (hw : (group rs n).get? m = some w) (hw' : (group rs n).get? m' = some w')
    (hi : w.patterns.head? = some i) (hj : w'.patterns.head? = some j) : m < m' ↔ i < j := by
  obtain ⟨s, hs, rfl⟩ := get?_group_eq_some_iff.1 hw
  obtain ⟨s', hs', rfl⟩ := get?_group_eq_some_iff.1 hw'
  rw [head?_placesOf_requiredSets (List.mem_of_getElem? hs)] at hi
  rw [head?_placesOf_requiredSets (List.mem_of_getElem? hs')] at hj
  cases hi
  cases hj
  have horder {m m' : Nat} {s s' : List Nat} (hs : (requiredSets rs)[m]? = some s) (hs' : (requiredSets rs)[m']? = some s')
      (hlt : m < m') : rs.idxOf (.fragments s) < rs.idxOf (.fragments s') := by
    obtain ⟨hm, rfl⟩ := List.getElem?_eq_some_iff.1 hs
    obtain ⟨hm', rfl⟩ := List.getElem?_eq_some_iff.1 hs'
    exact List.pairwise_iff_getElem.1 (pairwise_idxOf_requiredSets rs) m m' hm hm' hlt
  refine ⟨horder hs hs', fun hlt => ?_⟩
  by_contra hge
  rcases Nat.eq_or_lt_of_le (Nat.le_of_not_lt hge) with rfl | hgt
  · cases hs.symm.trans hs'
    omega
  · have := horder hs' hs hgt
    omega

/-- Patterns share a meta-word if they require the same set. -/
theorem shared_iff : (∃ m w, (group rs n).get? m = some w ∧ i ∈ w.patterns ∧ j ∈ w.patterns) ↔
    ∃ s, rs[i]? = some (.fragments s) ∧ rs[j]? = some (.fragments s) := by
  constructor
  · rintro ⟨m, w, hw, hi, hj⟩
    obtain ⟨s, -, rfl⟩ := get?_group_eq_some_iff.1 hw
    exact ⟨s, mem_placesOf_beq.1 hi, mem_placesOf_beq.1 hj⟩
  · rintro ⟨s, hi, hj⟩
    obtain ⟨m, hm⟩ := List.getElem?_of_mem (mem_requiredSets.2 (List.mem_of_getElem? hi))
    exact ⟨m, _, get?_group_eq_some_iff.2 ⟨s, hm, rfl⟩, mem_placesOf_beq.2 hi, mem_placesOf_beq.2 hj⟩

theorem count_filed_group (rs : List Requirement) (n i : Nat) :
    (group rs n).filed.count i = if i < rs.length then 1 else 0 := by
  split
  · next hi => exact count_filed rs n hi
  · next hi =>
    rw [List.count_eq_zero, filed_group, List.mem_append, List.mem_flatMap]
    rintro (⟨s, -, hs⟩ | hw)
    · exact hi (List.getElem?_eq_some_iff.1 (mem_placesOf_beq.1 hs)).1
    · exact hi (List.getElem?_eq_some_iff.1 (mem_placesOf_beq.1 hw)).1

/-! ## Of a registry -/

section Registry

variable {r : Registry κ} {table : FragmentTable} {p q : StoredPattern κ}

theorem getElem?_requirements_of_get? (hp : r.get? i = some p) :
    (r.toList.map (·.requirement))[i]? = some p.requirement := Registry.getElem?_requirements.2 ⟨p, hp, rfl⟩

theorem count_filed_build (r : Registry κ) (table : FragmentTable) (i : Nat) :
    (build r table).filed.count i = if i < r.size then 1 else 0 := by
  have hlen : (r.toList.map (·.requirement)).length = r.size := by simp [Registry.toList, Registry.size]
  rw [build, count_filed_group, hlen]

theorem mem_wildcardOnly_build (hp : r.get? i = some p) :
    i ∈ (build r table).wildcardOnly ↔ p.requirement = .wildcardOnly := by
  rw [build, mem_wildcardOnly_group, getElem?_requirements_of_get? hp, Option.some.injEq]

theorem mem_patterns_build (hp : r.get? i = some p) (hw : (build r table).get? m = some w) :
    i ∈ w.patterns ↔ p.requirement = .fragments w.fragments := by
  obtain ⟨s, -, rfl⟩ := get?_group_eq_some_iff.1 hw
  exact mem_placesOf_beq.trans (by rw [getElem?_requirements_of_get? hp, Option.some.injEq])

theorem pairwise_wildcardOnly_build (r : Registry κ) (table : FragmentTable) :
    (build r table).wildcardOnly.Pairwise (· < ·) := pairwise_placesOf (· == Requirement.wildcardOnly) _

theorem pairwise_containing_build (r : Registry κ) (table : FragmentTable) (f : Nat) :
    ((build r table).containing f).Pairwise (· < ·) := by
  rw [containing, Array.getD_eq_getD_getElem?]
  by_cases hf : f < table.size
  · simpa [build, group, hf] using pairwise_placesOf (fun s : List Nat => decide (f ∈ s)) _
  · simp [build, group, hf]

variable (h : r.Grounded table)
include h

/-- No meta-word lacks fragments or patterns. -/
theorem of_get?_build (hw : (build r table).get? m = some w) :
    w.fragments ≠ [] ∧ w.fragments.Pairwise (· < ·) ∧ w.patterns ≠ [] ∧ w.patterns.Pairwise (· < ·) := by
  obtain ⟨s, hs, rfl⟩ := get?_group_eq_some_iff.1 hw
  have hmem := List.mem_of_getElem? hs
  obtain ⟨hne, hasc, -⟩ := of_mem_requiredSets h hmem
  obtain ⟨i, hi⟩ := List.getElem?_of_mem (mem_requiredSets.1 hmem)
  exact ⟨hne, hasc, List.ne_nil_of_mem (mem_placesOf_beq.2 hi), pairwise_placesOf (· == Requirement.fragments s) _⟩

/-- Meta-words of the same fragments are the same. -/
theorem eq_of_fragments (hw : (build r table).get? m = some w) (hw' : (build r table).get? m' = some w')
    (hsame : ∀ f, f ∈ w.fragments ↔ f ∈ w'.fragments) : m = m' := by
  obtain ⟨-, hasc, -⟩ := of_get?_build h hw
  obtain ⟨-, hasc', -⟩ := of_get?_build h hw'
  obtain ⟨s, hs, rfl⟩ := get?_group_eq_some_iff.1 hw
  obtain ⟨s', hs', rfl⟩ := get?_group_eq_some_iff.1 hw'
  obtain rfl : s = s' := hasc.eq_of_mem_iff hasc' hsame
  exact eq_of_requiredSets hs hs'

/-- A fragment leads to the meta-words that it is in. -/
theorem mem_containing_build :
    m ∈ (build r table).containing f ↔ ∃ w, (build r table).get? m = some w ∧ f ∈ w.fragments := by
  refine mem_containing_group.trans ⟨?_, ?_⟩
  · rintro ⟨-, s, hs, hf⟩
    exact ⟨_, get?_group_eq_some_iff.2 ⟨s, hs, rfl⟩, hf⟩
  · rintro ⟨w, hw, hf⟩
    obtain ⟨s, hs, rfl⟩ := get?_group_eq_some_iff.1 hw
    obtain ⟨-, -, hlt⟩ := of_mem_requiredSets h (List.mem_of_getElem? hs)
    exact ⟨hlt f hf, s, hs, hf⟩

omit h in
theorem containing_build_eq_nil
    (hf : table.size ≤ f ∨ ∀ p ∈ r.toList, ∀ hs, p.requirement = .fragments hs → f ∉ hs) :
    (build r table).containing f = [] := by
  rw [List.eq_nil_iff_forall_not_mem]
  intro m hm
  obtain ⟨hlt, s, hs, hfs⟩ := mem_containing_group.1 hm
  rcases hf with hge | hnone
  · omega
  · obtain ⟨p, hp, he⟩ := List.mem_map.1 (mem_requiredSets.1 (List.mem_of_getElem? hs))
    exact hnone p hp s he hfs

/-- Patterns share a meta-word if they have the same fragments, and have any. -/
theorem shared_build_iff (hp : r.get? i = some p) (hq : r.get? j = some q) :
    (∃ m w, (build r table).get? m = some w ∧ i ∈ w.patterns ∧ j ∈ w.patterns) ↔
      fragments p.text ≠ [] ∧ ∀ y, y ∈ fragments p.text ↔ y ∈ fragments q.text := by
  have hp' := h.of_get? hp
  have hq' := h.of_get? hq
  rw [build, shared_iff, getElem?_requirements_of_get? hp, getElem?_requirements_of_get? hq,
    ← hp'.requirement_eq_iff hq' h.distinct, Ne, ← hp'.wildcardOnly_iff]
  cases p.requirement with
  | wildcardOnly => simp
  | fragments s => simp [eq_comm]

end Registry

end MetaWordIndex

namespace Store

/-- **The meta-words of a store are an exact grouping.** Whatever was put into a store, its patterns are grouped without a
failure. Every pattern is filed once, with the wildcards or under the set that it requires; no set is empty and none is there
twice; meta-words are numbered by their first patterns. Fragments lead to the meta-words that they are in. Two patterns share a
meta-word if they have the same fragments, and have any. -/
theorem buildInPlace_exact (c : Config) (ds : List (Deposit κ)) :
    let s : Store κ := (empty c).putAll ds
    ∃ x, MetaWordIndex.buildInPlace? s.registry s.pool.table = some x ∧
      (∀ i, x.filed.count i = if i < s.registry.size then 1 else 0) ∧
      (∀ i p, s.registry.get? i = some p → (i ∈ x.wildcardOnly ↔ p.requirement = .wildcardOnly) ∧
        ∀ m w, x.get? m = some w → (i ∈ w.patterns ↔ p.requirement = .fragments w.fragments)) ∧
      x.wildcardOnly.Pairwise (· < ·) ∧
      (∀ m w, x.get? m = some w → w.fragments ≠ [] ∧ w.fragments.Pairwise (· < ·) ∧
        w.patterns ≠ [] ∧ w.patterns.Pairwise (· < ·)) ∧
      (∀ m m' w w', x.get? m = some w → x.get? m' = some w' →
        ((∀ f, f ∈ w.fragments ↔ f ∈ w'.fragments) → m = m') ∧
        ∀ i i', w.patterns.head? = some i → w'.patterns.head? = some i' → (m < m' ↔ i < i')) ∧
      (∀ f, (x.containing f).Pairwise (· < ·) ∧ ∀ m, m ∈ x.containing f ↔ ∃ w, x.get? m = some w ∧ f ∈ w.fragments) ∧
      (∀ f, (s.pool.size ≤ f ∨ ∀ p ∈ s.registry.toList, ∀ hs, p.requirement = .fragments hs → f ∉ hs) →
        x.containing f = []) ∧
      ∀ i j p q, s.registry.get? i = some p → s.registry.get? j = some q →
        ((∃ m w, x.get? m = some w ∧ i ∈ w.patterns ∧ j ∈ w.patterns) ↔
          fragments p.text ≠ [] ∧ ∀ y, y ∈ fragments p.text ↔ y ∈ fragments q.text) := by
  intro s
  have h := ((Sound.empty c).putAll ds).1.grounded
  refine ⟨_, MetaWordIndex.buildInPlace?_eq h, MetaWordIndex.count_filed_build _ _, fun i p hp => ⟨?_, fun m w hw => ?_⟩,
    MetaWordIndex.pairwise_wildcardOnly_build _ _, fun m w hw => ?_, fun m m' w w' hw hw' => ⟨?_, fun i i' hi hi' => ?_⟩,
    fun f => ⟨?_, fun m => ?_⟩, fun f hf => ?_, fun i j p q hp hq => ?_⟩
  · exact MetaWordIndex.mem_wildcardOnly_build hp
  · exact MetaWordIndex.mem_patterns_build hp hw
  · exact MetaWordIndex.of_get?_build h hw
  · exact MetaWordIndex.eq_of_fragments h hw hw'
  · exact MetaWordIndex.lt_iff_head?_lt hw hw' hi hi'
  · exact MetaWordIndex.pairwise_containing_build _ _ _
  · exact MetaWordIndex.mem_containing_build h
  · exact MetaWordIndex.containing_build_eq_nil hf
  · exact MetaWordIndex.shared_build_iff h hp hq

/-- The patterns `*` and `?` have the same fragments, none, and share no meta-word. -/
theorem exists_same_fragments_not_shared :
    let s : Store Nat := (empty ⟨.sensitive, 1024⟩).putAll [.pattern [Sign.star] 0, .pattern [Sign.query] 1]
    ∃ x p q, MetaWordIndex.buildInPlace? s.registry s.pool.table = some x ∧
      s.registry.get? 0 = some p ∧ s.registry.get? 1 = some q ∧
      (∀ y, y ∈ fragments p.text ↔ y ∈ fragments q.text) ∧
      ¬∃ m w, x.get? m = some w ∧ 0 ∈ w.patterns ∧ 1 ∈ w.patterns := by
  intro s
  have hindex : MetaWordIndex.buildInPlace? s.registry s.pool.table = some ⟨#[], #[], [0, 1]⟩ := by decide +kernel
  have hstar : s.registry.texts[0]? = some [Sign.star] := by decide +kernel
  have hquery : s.registry.texts[1]? = some [Sign.query] := by decide +kernel
  obtain ⟨p, hp, hptext⟩ := Registry.getElem?_texts.1 hstar
  obtain ⟨q, hq, hqtext⟩ := Registry.getElem?_texts.1 hquery
  refine ⟨_, p, q, hindex, hp, hq, fun y => ?_, ?_⟩
  · have hnone : fragments p.text = [] ∧ fragments q.text = [] := by
      rw [hptext, hqtext]
      decide +kernel
    rw [hnone.1, hnone.2]
  · rintro ⟨m, w, hw, -⟩
    simp [MetaWordIndex.get?] at hw

end Store

end GlobSieve
