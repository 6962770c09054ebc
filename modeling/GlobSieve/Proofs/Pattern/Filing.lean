import Mathlib.Algebra.BigOperators.Group.List.Basic
import Mathlib.Algebra.GroupWithZero.Nat
import GlobSieve.Engine.Audit
import GlobSieve.Proofs.Fragment.Wildcards
import GlobSieve.Proofs.Pattern.Grouping
import GlobSieve.Proofs.Pattern.Origin

/-!
# How patterns are filed

The meta-words of a sound registry pass their check (`MetaWordIndex.defects_build`): the sets that patterns require are
not empty, ascending and in the table, each pattern is filed once, under its own set or with the wildcards
(`count_filed`), and fragments lead to the meta-words they are in and to no others. So the references back are as many as
the sets have members (`backRefCount_build`).
-/

namespace GlobSieve

variable {κ : Type}

theorem numbered_eq_nil {α β : Type} {l : List α} {f : Nat → α → List β} (h : ∀ i a, l[i]? = some a → f i a = []) :
    numbered l f = [] := by
  rw [numbered, List.flatMap_eq_nil_iff]
  rintro ⟨a, i⟩ hm
  exact h i a (List.mem_zipIdx_iff_getElem?.1 hm)

/-! ## Patterns -/

namespace StoredPattern.Faithful

variable {m : CaseMode} {table : FragmentTable} {p : StoredPattern κ} {hs : List Nat}

theorem defects_eq_nil (h : p.Faithful m table) (ht : table.Sound) (i : Nat) : p.defects table.size i = [] := by
  unfold StoredPattern.defects
  cases he : p.requirement with
  | wildcardOnly =>
    have hw : wildcardOnly p.text = true := h.wildcardOnly_text_iff.2 (h.wildcardOnly_iff.1 he)
    simp [hw]
  | fragments hs =>
    have hw : wildcardOnly p.text = false := by
      rw [Bool.eq_false_iff, Ne, h.wildcardOnly_text_iff, ← h.wildcardOnly_iff, he]
      simp
    have hin : hs.filter (table.size ≤ ·) = [] := filter_le_eq_nil fun f hf => h.grounded.lt_size ht.nodup he hf
    simp [hw, hin, h.ne_nil_of_requirement he, isHandleSet_iff.2 (h.grounded.pairwise_requirement he)]

theorem isWildcardOnly_iff (h : p.Faithful m table) :
    p.requirement.isWildcardOnly = true ↔ p.text.all isWildcardByte = true := by
  have hall : wildcardOnly p.text = true ↔ ∀ b ∈ p.text, isWildcardByte b = true :=
    GlobSieve.wildcardOnly_iff.trans (and_iff_right h.ne_nil)
  rw [List.all_eq_true, ← hall, h.wildcardOnly_text_iff, ← h.wildcardOnly_iff]
  cases p.requirement <;> simp [Requirement.isWildcardOnly]

end StoredPattern.Faithful

namespace Registry

variable {r : Registry κ} {table : FragmentTable}

theorem wildcardOnlyCount_eq (h : r.Sound table) : r.wildcardOnlyCount = r.texts.countP (·.all isWildcardByte) := by
  rw [wildcardOnlyCount, texts, List.countP_map]
  apply List.countP_congr
  intro p hp
  exact (h.faithful p hp).isWildcardOnly_iff

/-- No fragment is left that no pattern requires. -/
theorem unreferenced_eq_zero (h : r.Filled table) (hs : r.Sound table) : r.unreferenced table.size = 0 := by
  rw [unreferenced, List.countP_eq_zero]
  intro f hf
  have hlt : f < table.entries.size := List.mem_range.1 hf
  obtain ⟨p, hp, ids, he, hid⟩ := h.exists_requirement hs (Array.getElem?_eq_getElem hlt)
  simp only [Bool.not_eq_true', Bool.not_eq_false, List.contains_iff_mem, List.mem_flatten, List.mem_filterMap]
  exact ⟨ids, ⟨p, hp, by rw [he]; rfl⟩, hid⟩

end Registry

/-! ## Meta-words -/

/-- A place has one requirement. -/
theorem eq_of_mem_placesOf {l : List Requirement} {q q' : Requirement} {i : Nat} (h : i ∈ placesOf (· == q) l)
    (h' : i ∈ placesOf (· == q') l) : q = q' := by
  rw [mem_placesOf_beq] at h h'
  exact Option.some.inj (h.symm.trans h')

namespace MetaWordIndex

section Group

variable (rs : List Requirement) (n : Nat)

theorem getElem?_metaWords {m : Nat} {w : MetaWord} : (group rs n).metaWords.toList[m]? = some w ↔
    ∃ s, (requiredSets rs)[m]? = some s ∧ w = ⟨s, placesOf (· == .fragments s) rs⟩ := by
  rw [Array.getElem?_toList]
  exact get?_group_eq_some_iff

theorem filed_group : (group rs n).filed =
    (requiredSets rs).flatMap (fun s => placesOf (· == .fragments s) rs) ++ placesOf (· == .wildcardOnly) rs := by
  simp [filed, group, requiredSets, List.flatMap_map]

theorem nodup_filed_group : (group rs n).filed.Nodup := by
  rw [filed_group]
  refine List.nodup_append.2 ⟨?_, nodup_placesOf _ _, ?_⟩
  · refine List.nodup_flatMap.2 ⟨fun s _ => nodup_placesOf _ _, ?_⟩
    refine (nodup_requiredSets rs).imp ?_
    intro s s' hne i hi hi'
    exact hne (Requirement.fragments.inj (eq_of_mem_placesOf hi hi'))
  · intro i hi j hj hij
    obtain ⟨s, -, hs⟩ := List.mem_flatMap.1 hi
    rw [hij] at hs
    cases eq_of_mem_placesOf hs hj

theorem mem_filed_group {i : Nat} (hi : i < rs.length) : i ∈ (group rs n).filed := by
  have hget := List.getElem?_eq_getElem hi
  rw [filed_group, List.mem_append, List.mem_flatMap]
  cases he : rs[i] with
  | wildcardOnly =>
    rw [he] at hget
    exact .inr (mem_placesOf_beq.2 hget)
  | fragments s =>
    rw [he] at hget
    have hs : s ∈ requiredSets rs := mem_requiredSets.2 (List.mem_of_getElem? hget)
    exact .inl ⟨s, hs, mem_placesOf_beq.2 hget⟩

/-- Every pattern is filed once. -/
theorem count_filed {i : Nat} (hi : i < rs.length) : (group rs n).filed.count i = 1 :=
  List.count_eq_one_of_mem (nodup_filed_group rs n) (mem_filed_group rs n hi)

theorem filingDefects_group : (group rs n).filingDefects rs.length = [] := by
  rw [filingDefects, List.flatMap_eq_nil_iff]
  intro i hi
  exact if_pos (count_filed rs n (List.mem_range.1 hi))

theorem eq_of_getElem?_backRefs {f : Nat} {refs : List Nat} (h : (group rs n).backRefs.toList[f]? = some refs) :
    refs = placesOf (·.contains f) (requiredSets rs) := by
  have hlt : f < n := by simpa [group] using (List.getElem?_eq_some_iff.1 h).1
  simpa [group, hlt, requiredSets, eq_comm] using h

theorem strayBackRefs_group : (group rs n).strayBackRefs = [] := by
  apply numbered_eq_nil
  intro f refs hrefs
  obtain rfl := eq_of_getElem?_backRefs rs n hrefs
  rw [List.map_eq_nil_iff, List.filter_eq_nil_iff]
  intro m hm
  obtain ⟨s, hs, hf⟩ := mem_placesOf.1 hm
  simp [get?_group, hs, List.contains_iff_mem.1 hf]

end Group

/-! ## Counting references -/

/-- As many of the first handles are in a set of some of them as it has members. -/
theorem countP_range_contains {s : List Nat} {n : Nat} (hnd : s.Nodup) (hlt : ∀ f ∈ s, f < n) :
    (List.range n).countP (s.contains ·) = s.length := by
  rw [List.countP_eq_length_filter]
  refine List.Perm.length_eq ((List.perm_ext_iff_of_nodup (List.nodup_range.filter _) hnd).2 ?_)
  intro f
  simp only [List.mem_filter, List.mem_range, List.contains_iff_mem]
  exact ⟨And.right, fun hf => ⟨hlt f hf, hf⟩⟩

theorem sum_map_ite {α : Type} (p : α → Bool) (l : List α) : (l.map fun a => if p a = true then 1 else 0).sum = l.countP p := by
  induction l with
  | nil => rfl
  | cons a l ih => rw [List.map_cons, List.sum_cons, ih, List.countP_cons, Nat.add_comm]

/-- Counting over the handles the sets that have them is counting over the sets their members. -/
theorem sum_countP_contains {n : Nat} {sets : List (List Nat)} (h : ∀ s ∈ sets, s.Nodup ∧ ∀ f ∈ s, f < n) :
    ((List.range n).map fun f => sets.countP (·.contains f)).sum = (sets.map List.length).sum := by
  induction sets with
  | nil => simp
  | cons s sets ih =>
    obtain ⟨hnd, hlt⟩ := h s List.mem_cons_self
    have hrest := ih fun s' hs' => h s' (List.mem_cons_of_mem _ hs')
    have hs : ((List.range n).map fun f => if s.contains f = true then 1 else 0).sum = s.length := by
      rw [sum_map_ite, countP_range_contains hnd hlt]
    simp only [List.countP_cons, List.sum_map_add, hrest, hs, List.map_cons, List.sum_cons]
    omega

section Registry

variable {r : Registry κ} {table : FragmentTable}

theorem of_mem_requiredSets (h : r.Grounded table) {s : List Nat}
    (hs : s ∈ requiredSets (r.toList.map (·.requirement))) : s ≠ [] ∧ s.Pairwise (· < ·) ∧ ∀ f ∈ s, f < table.size := by
  obtain ⟨p, hp, he⟩ := List.mem_map.1 (mem_requiredSets.1 hs)
  have hground := h.grounded p hp
  exact ⟨hground.ne_nil_of_requirement he, hground.pairwise_requirement he, fun f hf => hground.lt_size h.distinct he hf⟩

variable (h : r.Sound table)
include h

theorem defectsOf_build {m : Nat} {w : MetaWord} (hw : (build r table).metaWords.toList[m]? = some w) :
    (build r table).defectsOf r table.size m w = [] := by
  obtain ⟨s, hs, rfl⟩ := (getElem?_metaWords _ _).1 hw
  obtain ⟨hne, hasc, hlt⟩ := of_mem_requiredSets h.grounded (List.mem_of_getElem? hs)
  simp only [defectsOf, List.append_eq_nil_iff, List.flatMap_eq_nil_iff]
  refine ⟨⟨⟨?_, ?_⟩, ?_⟩, ?_⟩
  · simp [hne]
  · rw [if_pos (isHandleSet_iff.2 hasc)]
  · intro f hf
    have hback : m ∈ (build r table).containing f := mem_containing_group.2 ⟨hlt f hf, s, hs, hf⟩
    rw [if_neg (Nat.not_le.2 (hlt f hf)), if_pos (List.contains_iff_mem.2 hback)]
  · intro i hi
    obtain ⟨p, hp, he⟩ := Registry.getElem?_requirements.1 (mem_placesOf_beq.1 hi)
    simp only [hp]
    rw [if_pos he]

/-- The meta-words of a sound registry pass their check. -/
theorem defects_build : (build r table).defects r table.size = [] := by
  have hlen : (r.toList.map (·.requirement)).length = r.size := by simp [Registry.toList, Registry.size]
  simp only [defects, List.append_eq_nil_iff]
  refine ⟨⟨⟨⟨?_, ?_⟩, ?_⟩, ?_⟩, strayBackRefs_group _ _⟩
  · exact numbered_eq_nil fun m w hw => defectsOf_build h hw
  · rw [List.map_eq_nil_iff]
    apply filter_le_eq_nil
    intro i hi
    rw [← hlen]
    exact (List.getElem?_eq_some_iff.1 (mem_wildcardOnly_group.1 hi)).1
  · rw [← hlen]
    exact filingDefects_group _ _
  · rw [if_pos]
    simp [build, group]

/-- There are as many references back as the sets of the meta-words have members. -/
theorem backRefCount_build :
    (build r table).backRefCount = ((build r table).metaWords.toList.map (·.fragments.length)).sum := by
  have hsets : ∀ s ∈ requiredSets (r.toList.map (·.requirement)), s.Nodup ∧ ∀ f ∈ s, f < table.size := by
    intro s hs
    obtain ⟨-, hasc, hlt⟩ := of_mem_requiredSets h.grounded hs
    exact ⟨hasc.imp Nat.ne_of_lt, hlt⟩
  calc (build r table).backRefCount
      = ((List.range table.size).map fun f =>
          (requiredSets (r.toList.map (·.requirement))).countP (·.contains f)).sum := by
        simp [backRefCount, build, group, List.length_flatten, length_placesOf, requiredSets, Function.comp_def]
    _ = ((requiredSets (r.toList.map (·.requirement))).map List.length).sum := sum_countP_contains hsets
    _ = ((build r table).metaWords.toList.map (·.fragments.length)).sum := by
        simp [build, group, requiredSets, Function.comp_def]

end Registry

end MetaWordIndex

end GlobSieve
