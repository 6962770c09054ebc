import GlobSieve.Pattern.InPlace
import GlobSieve.Proofs.Pattern.Filing

/-!
# Grouping in place is grouping

After some patterns the index in the making has the sets that they require, in the order of the first patterns, and the
directory has the place of each (`Grouping.ofSets`). The next pattern either finds the meta-word of its set or makes it, and
then it is filed there (`file?_ofSets`). If all handles that are required are in the table, no step fails, and the index
is the one that `MetaWordIndex.group` describes (`groupInPlace?_eq`).
-/

namespace GlobSieve

theorem placesOf_concat {α : Type} (p : α → Bool) (l : List α) (a : α) :
    placesOf p (l ++ [a]) = placesOf p l ++ if p a then [l.length] else [] := by
  rw [placesOf, placesOf, List.zipIdx_append, List.filter_append, List.map_append]
  by_cases h : p a <;> simp [h]

theorem getElem?_map_range {α : Type} (row : Nat → α) (n i : Nat) :
    ((List.range n).map row)[i]? = if i < n then some (row i) else none := by
  by_cases hi : i < n <;> simp [hi]

/-- One of several rows gets an entry. -/
theorem modify_map_range (n k m : Nat) (row : Nat → List Nat) : ((List.range n).map row).toArray.modify k (· ++ [m]) =
    ((List.range n).map fun i => row i ++ if i = k then [m] else []).toArray := by
  apply Array.ext_getElem?
  intro i
  simp only [Array.getElem?_modify, List.getElem?_toArray, getElem?_map_range]
  by_cases hk : k = i
  · subst hk
    by_cases hi : k < n <;> simp [hi]
  · by_cases hi : i < n
    · simp [hk, Ne.symm hk, hi]
    · simp [hk, hi]

/-- A row gets an entry at the first of several keys, or at a later one. -/
theorem append_ite_mem_cons {k : Nat} {ks : List Nat} (hk : k ∉ ks) (row : List Nat) (i m : Nat) :
    (row ++ if i = k then [m] else []) ++ (if i ∈ ks then [m] else []) = row ++ if i ∈ k :: ks then [m] else [] := by
  by_cases hi : i = k
  · subst hi
    simp [hk]
  · simp [hi]

/-- A directory of the places in a list without repeats. -/
theorem lookup_reverse_zipIdx {α : Type} [BEq α] [LawfulBEq α] {l : List α} (h : l.Nodup) (a : α) :
    l.zipIdx.reverse.lookup a = if a ∈ l then some (l.idxOf a) else none := by
  induction l using List.reverseRecOn with
  | nil => rfl
  | append_singleton l b ih =>
    have hb : b ∉ l := fun hm => List.disjoint_of_nodup_append h hm List.mem_cons_self
    rw [List.zipIdx_append, List.reverse_append, List.zipIdx_singleton, List.reverse_singleton, List.singleton_append,
      List.lookup_cons, ih h.of_append_left, List.idxOf_append]
    by_cases hab : a = b
    · subst hab
      simp [hb]
    · by_cases ha : a ∈ l <;> simp [hab, ha, beq_false_of_ne hab]

namespace MetaWordIndex

theorem requiredSets_concat_wildcardOnly (rs : List Requirement) :
    requiredSets (rs ++ [.wildcardOnly]) = requiredSets rs := by
  have hnone : [Requirement.wildcardOnly].filterMap Requirement.ids? = [] := rfl
  rw [requiredSets, List.filterMap_append, hnone, List.append_nil, requiredSets]

/-- The sets required, and this one. -/
theorem requiredSets_concat_fragments (rs : List Requirement) (s : List Nat) : requiredSets (rs ++ [.fragments s]) =
    if s ∈ requiredSets rs then requiredSets rs else requiredSets rs ++ [s] := by
  have hs : [Requirement.fragments s].filterMap Requirement.ids? = [s] := rfl
  rw [requiredSets, List.filterMap_append, hs, eraseDups_concat]
  simp only [requiredSets, List.mem_eraseDups]

end MetaWordIndex

namespace Grouping

open MetaWordIndex (requiredSets)

variable {n m : Nat} {s : List Nat} {sets : List (List Nat)} {rs : List Requirement}

/-- The index that has these sets and has filed these patterns. -/
def ofSets (sets : List (List Nat)) (rs : List Requirement) (n : Nat) : Grouping where
  metaWords := (sets.map fun s => ⟨s, placesOf (· == .fragments s) rs⟩).toArray
  backRefs := ((List.range n).map fun f => placesOf (·.contains f) sets).toArray
  wildcardOnly := placesOf (· == .wildcardOnly) rs
  directory := sets.zipIdx.reverse

/-- The members of a set refer to its meta-word, besides what they referred to. -/
theorem foldlM_refer? (hs : s.Nodup) (hlt : ∀ f ∈ s, f < n) (row : Nat → List Nat) :
    s.foldlM (refer? m) ((List.range n).map row).toArray =
      some ((List.range n).map fun f => row f ++ if f ∈ s then [m] else []).toArray := by
  induction s generalizing row with
  | nil => simp
  | cons f s ih =>
    obtain ⟨hf, hs⟩ := List.nodup_cons.1 hs
    have hfirst : refer? m ((List.range n).map row).toArray f =
        some ((List.range n).map fun g => row g ++ if g = f then [m] else []).toArray := by
      rw [refer?, if_pos (by simpa using hlt f List.mem_cons_self), modify_map_range]
    rw [List.foldlM_cons, hfirst, Option.bind_eq_bind, Option.bind_some, ih hs fun g hg => hlt g (List.mem_cons_of_mem _ hg)]
    simp only [append_ite_mem_cons hf]

/-- A set gets a meta-word, if it has none. -/
theorem metaWordOf?_ofSets (hsets : sets.Nodup) (hnew : s ∉ sets → .fragments s ∉ rs) (hs : s.Nodup) (hlt : ∀ f ∈ s, f < n) :
    let sets' := if s ∈ sets then sets else sets ++ [s]
    (ofSets sets rs n).metaWordOf? s = some (sets'.idxOf s, ofSets sets' rs n) := by
  intro sets'
  have hlook := lookup_reverse_zipIdx hsets s
  unfold metaWordOf?
  rw [show (ofSets sets rs n).directory.lookup s = _ from hlook]
  by_cases hm : s ∈ sets
  · simp [sets', hm]
  · have hfiled : placesOf (· == .fragments s) rs = [] := by
      rw [← List.length_eq_zero_iff, length_placesOf, List.countP_eq_zero]
      intro q hq he
      exact hnew hm (eq_of_beq he ▸ hq)
    have hrefs := foldlM_refer? (m := sets.length) hs hlt fun f => placesOf (·.contains f) sets
    have hsize : (ofSets sets rs n).metaWords.size = sets.length := by simp [ofSets]
    rw [if_neg hm]
    simp only [hsize]
    rw [show s.foldlM (refer? sets.length) (ofSets sets rs n).backRefs = _ from hrefs]
    simp [sets', hm, ofSets, List.idxOf_append, hfiled, placesOf_concat, List.zipIdx_append]

/-- A pattern is filed under the meta-word of its set. -/
theorem set_metaWords_ofSets (hsets : sets.Nodup) (hs : s ∈ sets) (rs : List Requirement) (n : Nat) :
    let w : MetaWord := ⟨s, placesOf (· == .fragments s) rs⟩
    (ofSets sets rs n).metaWords[sets.idxOf s]? = some w ∧
      (ofSets sets rs n).metaWords.setIfInBounds (sets.idxOf s) { w with patterns := w.patterns ++ [rs.length] } =
        (ofSets sets (rs ++ [.fragments s]) n).metaWords := by
  intro w
  have hget : sets[sets.idxOf s]? = some s := List.getElem?_idxOf hs
  refine ⟨by simp [ofSets, hget, w], ?_⟩
  simp only [ofSets, List.setIfInBounds_toArray]
  congr 1
  apply List.ext_getElem?
  intro m
  rw [List.getElem?_set]
  by_cases hm : sets.idxOf s = m
  · subst hm
    have hlt := List.idxOf_lt_length_of_mem hs
    simp [hlt, w, placesOf_concat]
  · -- another meta-word has another set, which the pattern does not require
    have hother (s' : List Nat) (hs' : sets[m]? = some s') : s' ≠ s := by
      rintro rfl
      exact hm ((idxOf_eq_iff hsets hs).2 hs')
    cases hs' : sets[m]? with
    | none => simp [hm, hs']
    | some s' => simp [hm, hs', placesOf_concat, Ne.symm (hother s' hs')]

/-- The next pattern. -/
theorem file?_ofSets {q : Requirement} (hq : ∀ s, q = .fragments s → s.Nodup ∧ ∀ f ∈ s, f < n) :
    (ofSets (requiredSets rs) rs n).file? (q, rs.length) = some (ofSets (requiredSets (rs ++ [q])) (rs ++ [q]) n) := by
  cases q with
  | wildcardOnly =>
    rw [MetaWordIndex.requiredSets_concat_wildcardOnly]
    simp [file?, ofSets, placesOf_concat]
  | fragments s =>
    obtain ⟨hs, hlt⟩ := hq s rfl
    have hnodup := MetaWordIndex.nodup_requiredSets rs
    have hnodup' := MetaWordIndex.nodup_requiredSets (rs ++ [.fragments s])
    have hnew : s ∉ requiredSets rs → .fragments s ∉ rs := fun hm hr => hm (MetaWordIndex.mem_requiredSets.2 hr)
    have hmem : s ∈ requiredSets (rs ++ [.fragments s]) :=
      MetaWordIndex.mem_requiredSets.2 (List.mem_append_right _ List.mem_cons_self)
    have hword := metaWordOf?_ofSets (n := n) hnodup hnew hs hlt
    rw [← MetaWordIndex.requiredSets_concat_fragments] at hword
    obtain ⟨hget, hset⟩ := set_metaWords_ofSets hnodup' hmem rs n
    simp only [file?, hword, hget, hset, Option.bind_eq_bind, Option.bind_some, Option.pure_def]
    simp [ofSets, placesOf_concat]

/-- The index of some patterns, in the making. -/
theorem foldlM_file? (h : ∀ s, .fragments s ∈ rs → s.Nodup ∧ ∀ f ∈ s, f < n) :
    rs.zipIdx.foldlM file? (start n) = some (ofSets (requiredSets rs) rs n) := by
  induction rs using List.reverseRecOn with
  | nil => simp [start, ofSets, requiredSets, placesOf, List.map_const']
  | append_singleton rs q ih =>
    have hq : ∀ s, q = .fragments s → s.Nodup ∧ ∀ f ∈ s, f < n := by
      rintro s rfl
      exact h s (List.mem_append_right _ List.mem_cons_self)
    rw [List.zipIdx_append, List.foldlM_append, ih fun s hs => h s (List.mem_append_left _ hs), Option.bind_eq_bind,
      Option.bind_some, List.zipIdx_singleton, List.foldlM_cons, Nat.zero_add, file?_ofSets hq]
    rfl

end Grouping

namespace MetaWordIndex

/-- Grouping in place is grouping, when the sets have no repeats and are in the table. -/
theorem groupInPlace?_eq {rs : List Requirement} {n : Nat} (h : ∀ s, .fragments s ∈ rs → s.Nodup ∧ ∀ f ∈ s, f < n) :
    groupInPlace? rs n = some (group rs n) := by
  rw [groupInPlace?, Grouping.foldlM_file? h]
  rfl

/-- The index of a registry is made without a failure. -/
theorem buildInPlace?_eq {κ : Type} {r : Registry κ} {table : FragmentTable} (h : r.Grounded table) :
    buildInPlace? r table = some (build r table) := by
  apply groupInPlace?_eq
  intro s hs
  obtain ⟨-, hasc, hlt⟩ := of_mem_requiredSets h (mem_requiredSets.2 hs)
  exact ⟨hasc.imp Nat.ne_of_lt, hlt⟩

end MetaWordIndex

end GlobSieve
