import Mathlib.Data.Finset.Card
import Mathlib.Data.List.Sort
import GlobSieve.Proofs.Pattern.Filing

/-!
# What patterns say, without handles

The fragments of a collection of patterns, their needles, and the sets of fragments that patterns require, as sets of texts
(`fragmentSet`, `literalSet`, `requiredSet`). Handles depend on the order of insertion, these sets do not. A table has one
handle for each fragment (`countP_toList`), and there is one set of handles for each set of texts (`countP_requiredSets`), so
whatever is counted by handles is counted by texts.
-/

namespace GlobSieve

/-- The fragments of some patterns. -/
def fragmentSet (ps : List Bytes) : Finset Bytes := (ps.flatMap fragments).toFinset

/-- The needles of some patterns, folded. -/
def literalSet (m : CaseMode) (ps : List Bytes) : Finset Bytes :=
  (((ps.flatMap fragments).flatMap needles).map m.foldBytes).toFinset

/-- The sets of fragments that some patterns require; a pattern of wildcards requires none. -/
def requiredSet (ps : List Bytes) : Finset (Finset Bytes) := (ps.map fun p => (fragments p).toFinset).toFinset.erase ∅

/-! ## Counting -/

/-- Handles of the entries with a property are as many as these entries. -/
theorem length_eq_countP {α : Type} {l : List Nat} {as : List α} {p : α → Bool} (hnd : l.Nodup)
    (hmem : ∀ i, i ∈ l ↔ ∃ a, as[i]? = some a ∧ p a = true) : l.length = as.countP p := by
  rw [← length_placesOf]
  refine ((List.perm_ext_iff_of_nodup hnd (nodup_placesOf p as)).2 fun i => ?_).length_eq
  rw [hmem, mem_placesOf]

/-- Entries that can be told apart by what `g` says of them are counted by it. -/
theorem countP_eq_card {α β : Type} [DecidableEq β] {l : List α} {g : α → β} (hnd : (l.map g).Nodup) (P : β → Prop)
    [DecidablePred P] : l.countP (fun a => P (g a)) = ((l.map g).toFinset.filter P).card := by
  have hmap : (l.map g).countP (fun b => P b) = l.countP fun a => P (g a) := List.countP_map
  rw [← hmap, List.countP_eq_length_filter, ← List.toFinset_card_of_nodup (hnd.filter _), List.toFinset_filter]
  simp only [decide_eq_true_eq]

/-! ## Fragments -/

namespace FragmentTable

/-- The texts of a set of handles. -/
def textsOf (table : FragmentTable) (hs : List Nat) : Finset Bytes :=
  (hs.filterMap fun f => (table.get? f).map (·.text)).toFinset

theorem mem_textsOf {table : FragmentTable} {hs : List Nat} {y : Bytes} :
    y ∈ table.textsOf hs ↔ ∃ f ∈ hs, ∃ fr, table.get? f = some fr ∧ fr.text = y := by
  simp [textsOf]

end FragmentTable

variable {κ : Type} {r : Registry κ} {table : FragmentTable}

theorem StoredPattern.Faithful.textsOf_requirement {m : CaseMode} {p : StoredPattern κ} {hs : List Nat}
    (h : p.Faithful m table) (ht : table.Sound) (he : p.requirement = .fragments hs) :
    table.textsOf hs = (fragments p.text).toFinset := by
  ext y
  rw [FragmentTable.mem_textsOf, List.mem_toFinset]
  constructor
  · rintro ⟨f, hf, fr, hfr, rfl⟩
    obtain ⟨fr', hfr', hm⟩ := (h.mem_iff ht he).1 hf
    obtain rfl := Option.some.inj (hfr.symm.trans hfr')
    exact hm
  · intro hy
    obtain ⟨f, fr, hfr, rfl⟩ := h.exists_of_mem_fragments hy
    exact ⟨f, (h.mem_iff ht he).2 ⟨fr, hfr, hy⟩, fr, hfr, rfl⟩

namespace Registry

variable (hs : r.Sound table) (hf : r.Filled table)
include hs hf

theorem toFinset_map_text : (table.toList.map (·.text)).toFinset = fragmentSet r.texts := by
  ext y
  rw [fragmentSet, List.mem_toFinset, List.mem_toFinset, List.mem_map, List.mem_flatMap]
  constructor
  · rintro ⟨f, hm, rfl⟩
    exact hf.origin f hm
  · rintro ⟨y', hy', hm⟩
    obtain ⟨p, hp, rfl⟩ := List.mem_map.1 hy'
    obtain ⟨id, f, hid, rfl⟩ := (hs.faithful p hp).exists_of_mem_fragments hm
    exact ⟨f, FragmentTable.mem_toList_of_get? hid, rfl⟩

/-- Fragments are counted by their texts. -/
theorem countP_toList (P : Bytes → Prop) [DecidablePred P] :
    table.toList.countP (fun f => P f.text) = ((fragmentSet r.texts).filter P).card := by
  rw [countP_eq_card hs.interned.nodup P, toFinset_map_text hs hf]

theorem size_eq_card : table.size = (fragmentSet r.texts).card := by
  rw [← toFinset_map_text hs hf, List.toFinset_card_of_nodup hs.interned.nodup]
  simp [FragmentTable.size, FragmentTable.toList]

end Registry

namespace MetaWordIndex

variable (hs : r.Sound table)
include hs

/-- A set that is required is the one of a pattern with fragments. -/
theorem exists_of_mem_requiredSets {s : List Nat} (h : s ∈ requiredSets (r.toList.map (·.requirement))) :
    ∃ p ∈ r.toList, p.requirement = .fragments s ∧ table.textsOf s = (fragments p.text).toFinset := by
  obtain ⟨p, hp, he⟩ := List.mem_map.1 (mem_requiredSets.1 h)
  exact ⟨p, hp, he, (hs.faithful p hp).textsOf_requirement hs.interned he⟩

/-- Sets of the same texts are the same. -/
theorem eq_of_textsOf {s s' : List Nat} (h : s ∈ requiredSets (r.toList.map (·.requirement)))
    (h' : s' ∈ requiredSets (r.toList.map (·.requirement))) (he : table.textsOf s = table.textsOf s') : s = s' := by
  obtain ⟨p, hp, hreq, htexts⟩ := exists_of_mem_requiredSets hs h
  obtain ⟨p', hp', hreq', htexts'⟩ := exists_of_mem_requiredSets hs h'
  have hmem (f : Nat) : f ∈ s ↔ f ∈ s' := by
    rw [(hs.faithful p hp).mem_iff hs.interned hreq, (hs.faithful p' hp').mem_iff hs.interned hreq']
    simp only [← List.mem_toFinset, ← htexts, ← htexts', he]
  have hasc := (hs.faithful p hp).grounded.pairwise_requirement hreq
  have hasc' := (hs.faithful p' hp').grounded.pairwise_requirement hreq'
  exact hasc.eq_of_mem_iff hasc' hmem

theorem nodup_map_textsOf : ((requiredSets (r.toList.map (·.requirement))).map table.textsOf).Nodup :=
  (nodup_requiredSets _).map_on fun _ h _ h' he => eq_of_textsOf hs h h' he

theorem toFinset_map_textsOf :
    ((requiredSets (r.toList.map (·.requirement))).map table.textsOf).toFinset = requiredSet r.texts := by
  ext s
  rw [requiredSet, Finset.mem_erase, List.mem_toFinset, List.mem_toFinset, List.mem_map, List.mem_map]
  constructor
  · rintro ⟨ids, hids, rfl⟩
    obtain ⟨p, hp, hreq, htexts⟩ := exists_of_mem_requiredSets hs hids
    have hne : fragments p.text ≠ [] := by
      intro he
      rw [(hs.faithful p hp).wildcardOnly_iff.2 he] at hreq
      cases hreq
    exact ⟨by simpa [htexts] using hne, p.text, List.mem_map_of_mem hp, htexts.symm⟩
  · rintro ⟨hne, y, hy, rfl⟩
    obtain ⟨p, hp, rfl⟩ := List.mem_map.1 hy
    cases hreq : p.requirement with
    | wildcardOnly =>
      rw [(hs.faithful p hp).wildcardOnly_iff.1 hreq] at hne
      exact absurd rfl hne
    | fragments ids =>
      have hids : .fragments ids ∈ r.toList.map (·.requirement) := hreq ▸ List.mem_map_of_mem hp
      exact ⟨ids, mem_requiredSets.2 hids, (hs.faithful p hp).textsOf_requirement hs.interned hreq⟩

/-- Meta-words are counted by the texts of their fragments. -/
theorem countP_requiredSets (P : Finset Bytes → Prop) [DecidablePred P] :
    (requiredSets (r.toList.map (·.requirement))).countP (fun s => P (table.textsOf s)) =
      ((requiredSet r.texts).filter P).card := by
  rw [countP_eq_card (nodup_map_textsOf hs) P, toFinset_map_textsOf hs]

theorem size_build : (build r table).size = (requiredSet r.texts).card := by
  rw [← toFinset_map_textsOf hs, List.toFinset_card_of_nodup (nodup_map_textsOf hs), List.length_map]
  simp [size, build, group, requiredSets]

end MetaWordIndex

end GlobSieve
