import GlobSieve.Proofs.Pattern.Vocabulary
import GlobSieve.Proofs.Query.Report

/-!
# What the counters of a query count

A meta-word is looked at if one of its fragments was found, and satisfied if all of them were (`mem_checked_iff`,
`mem_satisfied_iff`), whichever fragments lead to it and in whatever order they were found. So whatever the scanner lists, the
counters of a query are read off the meta-words and the fragments found (`Outcome.Tallied`, `tallied_run`): the patterns tried
are those of the satisfied meta-words and those of wildcards, each once.

Let a query find the fragments whose texts have a property `P`. Then every counter of the filter is the size of a set of
texts, or counts pattern texts: the fragments with `P` (`length_found`), the required sets with some fragment that has `P`
(`length_checked`), those all of whose fragments have it (`satisfied_resolve`), and the patterns with fragments all of which
have it (`length_candidates`).
-/

namespace GlobSieve

open MetaWordIndex (requiredSets of_mem_requiredSets countP_requiredSets)

variable {S : Scanner} {κ : Type} {r : Registry κ} {table : FragmentTable} {x : CompiledIndex S} {ids : List Nat} {m : Nat}

/-- The counters of an outcome account for what was found and done. Of the meta-words `words` those with some fragment found
were looked at, and for those with all fragments found the patterns were tried, besides `apart` others. -/
structure Outcome.Tallied (o : Outcome κ) (words : List MetaWord) (apart : Nat) : Prop where
  nodup : o.context.matched.Nodup
  fragmentsMatched : o.stats.fragmentsMatched = o.context.matched.length
  metaWordsChecked : o.stats.metaWordsChecked = words.countP fun w => w.fragments.any o.context.matched.contains
  metaWordsSatisfied : o.stats.metaWordsSatisfied = words.countP fun w => w.fragments.all o.context.matched.contains
  candidates : o.stats.candidates =
    ((words.filter fun w => w.fragments.all o.context.matched.contains).map (·.patterns.length)).sum + apart
  globCalls : o.stats.globCalls = o.stats.candidates
  hits : o.stats.hits = o.count
  entries : o.entries.length = o.count
  count_le : o.count ≤ o.stats.globCalls

namespace CompiledIndex

variable (hr : r.Sound table) (hx : build S r table = .ok x)

/-! ## The meta-words by handles -/

section Handles

include hx

/-- The meta-words are the sets required. -/
theorem exists_get?_iff {P : List Nat → Prop} : (∃ w, x.metaWords.get? m = some w ∧ P w.fragments) ↔
    ∃ s, (requiredSets (r.toList.map (·.requirement)))[m]? = some s ∧ P s := by
  rw [metaWords_of_build hx, MetaWordIndex.build, MetaWordIndex.get?_group]
  simp only [Option.map_eq_some_iff]
  constructor
  · rintro ⟨w, ⟨s, hs, rfl⟩, hP⟩
    exact ⟨s, hs, hP⟩
  · rintro ⟨s, hs, hP⟩
    exact ⟨_, ⟨s, hs, rfl⟩, hP⟩

include hr

/-- A meta-word is looked at if a fragment of it was found. -/
theorem mem_checked_iff : m ∈ (x.resolve ids).checked ↔
    ∃ w, x.metaWords.get? m = some w ∧ ∃ f ∈ w.fragments, f ∈ x.found ids := by
  rw [exists_get?_iff (P := fun s => ∃ f ∈ s, f ∈ x.found ids) hx]
  simp only [resolve, List.mem_eraseDups, List.mem_flatMap, metaWords_of_build hx, MetaWordIndex.build,
    MetaWordIndex.mem_containing_group]
  constructor
  · rintro ⟨f, hf, -, s, hs, hfs⟩
    exact ⟨s, hs, f, hfs, hf⟩
  · rintro ⟨s, hs, f, hfs, hf⟩
    obtain ⟨-, -, hlt⟩ := of_mem_requiredSets hr.grounded (List.mem_of_getElem? hs)
    exact ⟨f, hf, hlt f hfs, s, hs, hfs⟩

/-- A meta-word is satisfied if all its fragments were found. -/
theorem mem_satisfied_iff : m ∈ (x.resolve ids).checked.filter (x.isSatisfied (x.found ids)) ↔
    ∃ w, x.metaWords.get? m = some w ∧ ∀ f ∈ w.fragments, f ∈ x.found ids := by
  have hall := exists_get?_iff (m := m) (P := fun s => ∀ f ∈ s, f ∈ x.found ids) hx
  rw [List.mem_filter, isSatisfied_iff (metaWords_of_build hx), ← hall, mem_checked_iff hr hx]
  refine and_iff_right_of_imp ?_
  rintro ⟨w, hw, hfound⟩
  -- a required set has a fragment, so the meta-word is looked at
  obtain ⟨s, hs, rfl⟩ := (exists_get?_iff (P := (· = w.fragments)) hx).1 ⟨w, hw, rfl⟩
  obtain ⟨f, hf⟩ := List.exists_mem_of_ne_nil _ (of_mem_requiredSets hr.grounded (List.mem_of_getElem? hs)).1
  exact ⟨w, hw, f, hf, hfound f hf⟩

theorem length_checked_eq_countP : (x.resolve ids).checked.length =
    x.metaWords.metaWords.toList.countP fun w => w.fragments.any (x.found ids).contains := by
  refine length_eq_countP (nodup_eraseDups _) fun m => ?_
  rw [mem_checked_iff hr hx]
  simp only [MetaWordIndex.get?, Array.getElem?_toList, List.any_eq_true, List.contains_iff_mem]

/-- The satisfied meta-words are met in some order, each once. -/
theorem perm_satisfied : ((x.resolve ids).checked.filter (x.isSatisfied (x.found ids))).Perm
    (placesOf (fun w => w.fragments.all (x.found ids).contains) x.metaWords.metaWords.toList) := by
  refine (List.perm_ext_iff_of_nodup ((nodup_eraseDups _).filter _) (nodup_placesOf _ _)).2 fun m => ?_
  refine (mem_satisfied_iff hr hx).trans ?_
  rw [mem_placesOf]
  simp only [MetaWordIndex.get?, Array.getElem?_toList, List.all_eq_true, List.contains_iff_mem]

theorem satisfied_eq_countP : (x.resolve ids).satisfied =
    x.metaWords.metaWords.toList.countP fun w => w.fragments.all (x.found ids).contains := by
  rw [← length_placesOf]
  exact (perm_satisfied hr hx).length_eq

/-- The candidates are as many as the patterns of the satisfied meta-words. -/
theorem length_candidates_eq_sum : (x.resolve ids).candidates.length =
    ((x.metaWords.metaWords.toList.filter fun w => w.fragments.all (x.found ids).contains).map (·.patterns.length)).sum := by
  have hlen : ∀ m w, x.metaWords.metaWords.toList[m]? = some w → (x.patternsOf m).length = w.patterns.length := by
    intro m w hw
    rw [Array.getElem?_toList] at hw
    rw [patternsOf, MetaWordIndex.get?, hw]
  calc (x.resolve ids).candidates.length
      = (((x.resolve ids).checked.filter (x.isSatisfied (x.found ids))).map fun m => (x.patternsOf m).length).sum :=
        List.length_flatMap
    _ = ((placesOf (fun w => w.fragments.all (x.found ids).contains) x.metaWords.metaWords.toList).map
          fun m => (x.patternsOf m).length).sum := ((perm_satisfied hr hx).map _).sum_eq
    _ = _ := by rw [map_placesOf hlen]

/-- The counters of a query account for it, whatever the scanner lists. -/
theorem tallied_run (t : Bytes) :
    (x.run r t).Tallied x.metaWords.metaWords.toList (r.texts.countP wildcardOnly) where
  nodup := nodup_found_of_build hx _
  fragmentsMatched := rfl
  metaWordsChecked := length_checked_eq_countP hr hx
  metaWordsSatisfied := satisfied_eq_countP hr hx
  candidates := by
    rw [← length_wildcardOnly hr hx]
    exact congrArg (· + _) (length_candidates_eq_sum hr hx)
  globCalls := by
    rw [globCalls_run hr hx, ← length_wildcardOnly hr hx]
    rfl
  hits := hits_stats_run x r t
  entries := List.length_map _
  count_le := List.length_filter_le _ _

end Handles

/-! ## The meta-words by texts -/

variable {P : Bytes → Prop} (hfound : ∀ f, f ∈ x.found ids ↔ ∃ fr, table.get? f = some fr ∧ P fr.text)
include hr hx hfound

theorem mem_checked : m ∈ (x.resolve ids).checked ↔
    ∃ s, (requiredSets (r.toList.map (·.requirement)))[m]? = some s ∧ ∃ y ∈ table.textsOf s, P y := by
  rw [mem_checked_iff hr hx, exists_get?_iff (P := fun s => ∃ f ∈ s, f ∈ x.found ids) hx]
  simp only [hfound, FragmentTable.mem_textsOf]
  refine exists_congr fun s => and_congr_right fun _ => ?_
  constructor
  · rintro ⟨f, hf, fr, hfr, hP⟩
    exact ⟨fr.text, ⟨f, hf, fr, hfr, rfl⟩, hP⟩
  · rintro ⟨y, ⟨f, hf, fr, hfr, rfl⟩, hP⟩
    exact ⟨f, hf, fr, hfr, hP⟩

theorem mem_satisfied : m ∈ (x.resolve ids).checked.filter (x.isSatisfied (x.found ids)) ↔
    ∃ s, (requiredSets (r.toList.map (·.requirement)))[m]? = some s ∧ ∀ y ∈ table.textsOf s, P y := by
  rw [mem_satisfied_iff hr hx, exists_get?_iff (P := fun s => ∀ f ∈ s, f ∈ x.found ids) hx]
  simp only [hfound]
  refine exists_congr fun s => and_congr_right fun hs => ?_
  constructor
  · intro hall y hy
    obtain ⟨f, hf, fr, hfr, rfl⟩ := FragmentTable.mem_textsOf.1 hy
    obtain ⟨fr', hfr', hP⟩ := hall f hf
    obtain rfl := Option.some.inj (hfr.symm.trans hfr')
    exact hP
  · intro hall f hf
    obtain ⟨-, -, hlt⟩ := of_mem_requiredSets hr.grounded (List.mem_of_getElem? hs)
    have hfr : table.get? f = some _ := Array.getElem?_eq_getElem (hlt f hf)
    exact ⟨_, hfr, hall _ (FragmentTable.mem_textsOf.2 ⟨f, hf, _, hfr, rfl⟩)⟩

/-! ## The counters by texts -/

variable [DecidablePred P]

theorem length_found (hf : r.Filled table) : (x.found ids).length = ((fragmentSet r.texts).filter P).card := by
  rw [← Registry.countP_toList hr hf]
  refine length_eq_countP (nodup_found_of_build hx ids) fun f => ?_
  simp only [hfound, FragmentTable.getElem?_toList, decide_eq_true_eq]

theorem length_checked :
    (x.resolve ids).checked.length = ((requiredSet r.texts).filter fun s => ∃ y ∈ s, P y).card := by
  rw [← countP_requiredSets hr]
  refine length_eq_countP (nodup_eraseDups _) fun m => ?_
  simp only [mem_checked hr hx hfound, decide_eq_true_eq]

theorem satisfied_resolve :
    (x.resolve ids).satisfied = ((requiredSet r.texts).filter fun s => ∀ y ∈ s, P y).card := by
  rw [← countP_requiredSets hr]
  refine length_eq_countP ((nodup_eraseDups _).filter _) fun m => ?_
  simp only [decide_eq_true_eq]
  exact mem_satisfied hr hx hfound

theorem length_candidates : (x.resolve ids).candidates.length =
    r.texts.countP fun p => wildcardOnly p = false ∧ ∀ y ∈ fragments p, P y := by
  refine length_eq_countP (nodup_candidates (metaWords_of_build hx) ids) fun id => ?_
  rw [mem_candidates_iff_texts hr hx]
  simp only [decide_eq_true_eq, hfound]
  refine exists_congr fun p => and_congr_right fun hp => and_congr_right fun _ => forall₂_congr fun y hy => ?_
  constructor
  · rintro ⟨f, ⟨fr, hfr, hP⟩, fr', hfr', rfl⟩
    obtain rfl := Option.some.inj (hfr.symm.trans hfr')
    exact hP
  · intro hP
    obtain ⟨q, hq, rfl⟩ := Registry.getElem?_texts.1 hp
    obtain ⟨f, fr, hfr, rfl⟩ := (hr.of_get? hq).exists_of_mem_fragments hy
    exact ⟨f, ⟨fr, hfr, hP⟩, fr, hfr, rfl⟩

end CompiledIndex

end GlobSieve
