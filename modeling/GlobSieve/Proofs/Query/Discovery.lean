import Mathlib.Data.List.Perm.Subperm
import GlobSieve.Proofs.Pattern.Grouping
import GlobSieve.Query.Resolution

/-!
# What the filter finds

For an index made of sets of ids, one for each fragment (`CompiledIndex.ofSets`), and any list of ids seen:

* a fragment completes at most once, when the last of the hits that it needs comes (`count_completions`);
* so the fragments found are those all of whose ids were seen, each once (`mem_found`, `nodup_found`);
* the candidates are the patterns all of whose fragments were found, each once (`mem_candidates`,
  `nodup_candidates`).

Nothing is assumed of the ids, which fragments may share, nor of the order and the number of times in which they are seen.
-/

namespace GlobSieve

/-! ## Counting hits -/

section Completions

variable {needed : Array Nat} {f g : Nat}

theorem count_completions_cons (needed hits : Array Nat) (g f : Nat) (fs : List Nat) :
    (completions needed hits (g :: fs)).count f = (if needed[g]? = some (hits.getD g 0 + 1) ∧ g = f then 1 else 0) +
      (completions needed (hits.setIfInBounds g (hits.getD g 0 + 1)) fs).count f := by
  rw [completions]
  split
  · next h => rw [List.count_cons]; simp only [h, beq_iff_eq, true_and]; omega
  · next h => simp only [h, false_and, if_false]; omega

/-- A fragment completes when its hits reach what it needs, and not again. -/
theorem count_completions (f : Nat) (fs : List Nat) {hits : Array Nat} (hsize : hits.size = needed.size) :
    (completions needed hits fs).count f =
      if hits.getD f 0 < needed.getD f 0 ∧ needed.getD f 0 ≤ hits.getD f 0 + fs.count f then 1 else 0 := by
  induction fs generalizing hits with
  | nil =>
    rw [if_neg (by simp only [List.count_nil]; omega)]
    rfl
  | cons g fs ih =>
    rw [count_completions_cons, ih (by rw [Array.size_setIfInBounds, hsize]), List.count_cons]
    by_cases hg : g = f
    · subst hg
      by_cases hlt : g < needed.size
      · have hn : needed[g]? = some (needed.getD g 0) := by
          rw [Array.getD_eq_getD_getElem?, Array.getElem?_eq_getElem hlt]
          rfl
        have hh : (hits.setIfInBounds g (hits.getD g 0 + 1)).getD g 0 = hits.getD g 0 + 1 := by
          rw [Array.getD_eq_getD_getElem?, Array.getElem?_setIfInBounds_self_of_lt (hsize ▸ hlt)]
          rfl
        rw [hn, hh, if_pos (beq_self_eq_true g)]
        generalize needed.getD g 0 = n, hits.getD g 0 = k
        simp only [Option.some.injEq, and_true]
        split <;> split <;> split <;> omega
      · have hn : needed[g]? = none := Array.getElem?_eq_none (Nat.le_of_not_lt hlt)
        have hn' : needed.getD g 0 = 0 := by rw [Array.getD_eq_getD_getElem?, hn]; rfl
        simp [hn, hn']
    · have hh : (hits.setIfInBounds g (hits.getD g 0 + 1)).getD f 0 = hits.getD f 0 := by
        rw [Array.getD_eq_getD_getElem?, Array.getElem?_setIfInBounds_ne hg, ← Array.getD_eq_getD_getElem?]
      have hgf : ¬(g == f) = true := fun e => hg (eq_of_beq e)
      rw [hh, if_neg (fun h => hg h.2), if_neg hgf, Nat.zero_add, Nat.add_zero]

theorem getD_replicate_zero (n f : Nat) : (Array.replicate n 0).getD f 0 = 0 := by
  rw [Array.getD_eq_getD_getElem?, Array.getElem?_replicate]
  split <;> rfl

theorem nodup_completions (needed : Array Nat) (fs : List Nat) :
    (completions needed (Array.replicate needed.size 0) fs).Nodup := by
  refine List.nodup_iff_count_le_one.2 fun f => ?_
  rw [count_completions f fs Array.size_replicate]
  split <;> omega

/-- Without hits before, a fragment completes if it is hit as often as it needs. -/
theorem mem_completions {fs : List Nat} : f ∈ completions needed (Array.replicate needed.size 0) fs ↔
    0 < needed.getD f 0 ∧ needed.getD f 0 ≤ fs.count f := by
  rw [← List.count_pos_iff, count_completions f fs Array.size_replicate, getD_replicate_zero, Nat.zero_add]
  split
  · next h => exact iff_of_true Nat.one_pos h
  · next h => exact iff_of_false (Nat.lt_irrefl 0) h

end Completions

/-! ## The fragments found -/

namespace CompiledIndex

variable {S : Scanner} {metaWords : MetaWordIndex} {scanner : S.Built} {sets : List (List Nat)} {ids s : List Nat}
variable {f id : Nat}

theorem lt_foldl_max {l : List Nat} (n : Nat) : n ≤ l.foldl (fun n id => max n (id + 1)) n ∧
    ∀ id ∈ l, id < l.foldl (fun n id => max n (id + 1)) n := by
  induction l generalizing n with
  | nil => exact ⟨Nat.le_refl n, fun _ h => by cases h⟩
  | cons a l ih =>
    obtain ⟨hle, hlt⟩ := ih (max n (a + 1))
    rw [List.foldl_cons]
    constructor
    · omega
    · intro id hid
      rcases List.mem_cons.1 hid with rfl | hid
      · omega
      · exact hlt id hid

theorem lt_slotCount (hs : s ∈ sets) (hid : id ∈ s) : id < slotCount sets :=
  (lt_foldl_max 0).2 id (List.mem_flatten.2 ⟨s, hs, hid⟩)

theorem fragmentsOf_ofSets (id : Nat) : (ofSets metaWords scanner sets).fragmentsOf id =
    if id < slotCount sets then placesOf (·.contains id) sets else [] := by
  rw [fragmentsOf, Array.getD_eq_getD_getElem?]
  by_cases hid : id < slotCount sets
  · simp [ofSets, hid]
  · simp [ofSets, hid]

/-- An id leads to the fragments that have it. -/
theorem mem_fragmentsOf_ofSets :
    f ∈ (ofSets metaWords scanner sets).fragmentsOf id ↔ ∃ s, sets[f]? = some s ∧ id ∈ s := by
  rw [fragmentsOf_ofSets]
  split
  · simp [mem_placesOf]
  · next hid =>
    refine iff_of_false List.not_mem_nil ?_
    rintro ⟨s, hs, hm⟩
    exact hid (lt_slotCount (List.mem_of_getElem? hs) hm)

theorem nodup_fragmentsOf_ofSets (id : Nat) : ((ofSets metaWords scanner sets).fragmentsOf id).Nodup := by
  rw [fragmentsOf_ofSets]
  split
  · exact nodup_placesOf _ _
  · exact List.nodup_nil

/-- Different ids hit a fragment as often as they are in its set. -/
theorem count_flatMap_fragmentsOf (hs : sets[f]? = some s) (l : List Nat) :
    (l.flatMap (ofSets metaWords scanner sets).fragmentsOf).count f = (l.filter (s.contains ·)).length := by
  induction l with
  | nil => rfl
  | cons id l ih =>
    rw [List.flatMap_cons, List.count_append, ih, List.filter_cons, (nodup_fragmentsOf_ofSets id).count]
    simp only [mem_fragmentsOf_ofSets, hs, Option.some.injEq, exists_eq_left', List.contains_iff_mem]
    split <;> simp [Nat.add_comm]

/-- Of a set without repeats as many members are in a list without repeats as it has, if all are. -/
theorem length_le_length_filter_iff (hs : s.Nodup) (hl : ids.Nodup) :
    s.length ≤ (ids.filter (s.contains ·)).length ↔ ∀ i ∈ s, i ∈ ids := by
  have hmem (i : Nat) : i ∈ ids.filter (s.contains ·) ↔ i ∈ ids ∧ i ∈ s := by simp
  constructor
  · intro hle i hi
    have hsub : (ids.filter (s.contains ·)).Subperm s :=
      List.subperm_of_subset (hl.filter _) fun i hi => ((hmem i).1 hi).2
    exact ((hmem i).1 ((hsub.perm_of_length_le hle).mem_iff.2 hi)).1
  · exact fun h => (List.subperm_of_subset hs fun i hi => (hmem i).2 ⟨h i hi, hi⟩).length_le

/-- No fragment is found twice. -/
theorem nodup_found (ids : List Nat) : ((ofSets metaWords scanner sets).found ids).Nodup := by
  rw [found]
  refine List.nodup_append.2 ⟨nodup_completions _ _, nodup_placesOf _ _, fun f hf g hg => ?_⟩
  rintro rfl
  have hpos := (mem_completions.1 hf).1
  obtain ⟨s, hs, he⟩ := mem_placesOf.1 hg
  simp [ofSets, Array.getD_eq_getD_getElem?, hs, List.isEmpty_iff.1 he] at hpos

/-- A fragment is found when all its ids were seen. -/
theorem mem_found (hsets : ∀ s ∈ sets, s.Nodup) :
    f ∈ (ofSets metaWords scanner sets).found ids ↔ ∃ s, sets[f]? = some s ∧ ∀ i ∈ s, i ∈ ids := by
  rw [found, List.mem_append, mem_completions]
  have hneeded : (ofSets metaWords scanner sets).literalsNeeded.getD f 0 = (sets[f]?.map List.length).getD 0 := by
    simp [ofSets, Array.getD_eq_getD_getElem?]
  have halways : f ∈ (ofSets metaWords scanner sets).alwaysPresent ↔ sets[f]? = some [] := by
    simp [ofSets, mem_placesOf]
  rw [hneeded, halways, hitList]
  cases hs : sets[f]? with
  | none => simp
  | some s =>
    have hnd := hsets s (List.mem_of_getElem? hs)
    have hle := length_le_length_filter_iff hnd (nodup_eraseDups ids)
    simp only [List.mem_eraseDups] at hle
    simp only [Option.map_some, Option.getD_some, Option.some.injEq, exists_eq_left', count_flatMap_fragmentsOf hs, hle]
    cases s with
    | nil => simp
    | cons i s => simp

/-! ## The candidates -/

section Candidates

open MetaWordIndex

variable {x : CompiledIndex S} {rs : List Requirement} {n m : Nat} {matched : List Nat}
variable (hx : x.metaWords = .group rs n)
include hx

theorem isSatisfied_iff :
    x.isSatisfied matched m = true ↔ ∃ s, (requiredSets rs)[m]? = some s ∧ ∀ f ∈ s, f ∈ matched := by
  rw [isSatisfied, hx, get?_group]
  cases (requiredSets rs)[m]? with
  | none => simp
  | some s => simp

theorem patternsOf_eq (m : Nat) : x.patternsOf m = match (requiredSets rs)[m]? with
    | some s => placesOf (· == .fragments s) rs
    | none => [] := by
  rw [patternsOf, hx, get?_group]
  cases (requiredSets rs)[m]? <;> rfl

/-- The patterns of a meta-word are those that require its set. -/
theorem mem_patternsOf :
    id ∈ x.patternsOf m ↔ ∃ s, (requiredSets rs)[m]? = some s ∧ rs[id]? = some (.fragments s) := by
  rw [patternsOf_eq hx]
  cases (requiredSets rs)[m]? <;> simp [mem_placesOf]

theorem nodup_patternsOf (m : Nat) : (x.patternsOf m).Nodup := by
  rw [patternsOf_eq hx]
  split
  · exact nodup_placesOf _ _
  · exact List.nodup_nil

/-- The candidates are the patterns all of whose fragments were found. One fragment has to be found to get at them. -/
theorem mem_candidates : id ∈ (x.resolve ids).candidates ↔
    ∃ s, rs[id]? = some (.fragments s) ∧ (∃ f ∈ s, f < n) ∧ ∀ f ∈ s, f ∈ x.found ids := by
  simp only [resolve, List.mem_flatMap, List.mem_filter, List.mem_eraseDups, mem_patternsOf hx, isSatisfied_iff hx]
  rw [hx]
  simp only [mem_containing_group]
  constructor
  · rintro ⟨m, ⟨⟨f, hf, hlt, s, hs, hfs⟩, s', hs', hall⟩, s'', hs'', hid⟩
    obtain rfl := Option.some.inj (hs.symm.trans hs')
    obtain rfl := Option.some.inj (hs.symm.trans hs'')
    exact ⟨s, hid, ⟨f, hfs, hlt⟩, hall⟩
  · rintro ⟨s, hid, ⟨f, hfs, hlt⟩, hall⟩
    obtain ⟨m, hm⟩ := List.mem_iff_getElem?.1 (mem_requiredSets.2 (List.mem_of_getElem? hid))
    exact ⟨m, ⟨⟨f, hall f hfs, hlt, s, hm, hfs⟩, s, hm, hall⟩, s, hm, hid⟩

/-- Different meta-words have different patterns. -/
theorem nodup_flatMap_patternsOf {ms : List Nat} (hms : ms.Nodup) : (ms.flatMap x.patternsOf).Nodup := by
  refine List.nodup_flatMap.2 ⟨fun m _ => nodup_patternsOf hx m, ?_⟩
  refine List.Pairwise.imp ?_ hms
  intro m m' hne id hm hm'
  obtain ⟨s, hs, hid⟩ := (mem_patternsOf hx).1 hm
  obtain ⟨s', hs', hid'⟩ := (mem_patternsOf hx).1 hm'
  rw [hid] at hid'
  cases hid'
  exact hne (eq_of_requiredSets hs hs')

/-- No pattern is a candidate twice. -/
theorem nodup_candidates (ids : List Nat) : (x.resolve ids).candidates.Nodup :=
  nodup_flatMap_patternsOf hx ((nodup_eraseDups _).filter _)

end Candidates

end CompiledIndex

end GlobSieve
