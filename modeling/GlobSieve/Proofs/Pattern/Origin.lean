import GlobSieve.Proofs.Pattern.Interning

/-!
# Where fragments come from

The fragments of a table that a registry has filled are those of its patterns, and these have passed what `insert` asks
of a pattern (`Registry.Filled`). So every fragment is required by some pattern (`Filled.exists_requirement`), and every
needle has at least one byte and no more than the limit (`Filled.needle_bounds`).
-/

namespace GlobSieve

/-- Interning a text adds no other. -/
theorem FragmentTable.mem_toList_intern {t : FragmentTable} {text : Bytes} {f : Fragment}
    (h : f ∈ (t.intern text).2.toList) : f ∈ t.toList ∨ f.text = text := by
  unfold intern at h
  cases hf : t.find? text with
  | some id =>
    rw [internWith_of_find? hf] at h
    exact .inl h
  | none =>
    rw [internWith_of_find?_none hf] at h
    simp only [toList, Array.toList_push, List.mem_append, List.mem_singleton] at h
    rcases h with h | rfl
    · exact .inl h
    · exact .inr rfl

theorem FragmentTable.mem_toList_internAll {f : Fragment} : ∀ {texts : List Bytes} {t : FragmentTable},
    f ∈ (t.internAll texts).2.toList → f ∈ t.toList ∨ f.text ∈ texts
  | [], _, h => .inl h
  | text :: texts, t, h => by
    have h' : f ∈ ((t.intern text).2.internAll texts).2.toList := h
    rcases mem_toList_internAll h' with hf | hf
    · rcases mem_toList_intern hf with hf | rfl
      · exact .inl hf
      · exact .inr List.mem_cons_self
    · exact .inr (List.mem_cons_of_mem _ hf)

namespace Registry

variable {κ : Type} {r r' : Registry κ} {table table' : FragmentTable} {p n y : Bytes} {cookie : κ} {id : Nat}

/-- The patterns were accepted, and the fragments are theirs. -/
structure Filled (r : Registry κ) (table : FragmentTable) : Prop where
  accepted : ∀ p ∈ r.texts, refusal? r.config p = none
  origin : ∀ f ∈ table.toList, ∃ p ∈ r.texts, f.text ∈ fragments p

/-- Needles of an accepted pattern are neither empty nor too long. -/
theorem needle_bounds_of_refusal? {c : Config} (h : refusal? c p = none) (hy : y ∈ fragments p) (hn : n ∈ needles y) :
    n ≠ [] ∧ n.length ≤ c.literalLimit := by
  constructor
  · exact ne_nil_of_mem_runs (List.mem_eraseDups.1 hn)
  · exact (refusal?_eq_none_iff.1 h).2 y hy n hn

theorem texts_of_insert_eq_ok (h : r.insert table p cookie = .ok (id, r', table')) : r'.texts = r.texts ++ [p] := by
  obtain ⟨-, -, -, rfl⟩ := of_insert_eq_ok h
  simp [texts, toList]

namespace Filled

theorem empty (c : Config) : (Registry.empty c : Registry κ).Filled .empty := by
  constructor
  · intro p hp
    cases hp
  · intro f hf
    cases hf

/-- An insertion adds an accepted pattern and its fragments. -/
theorem insert (h : r.Filled table) (hi : r.insert table p cookie = .ok (id, r', table')) : r'.Filled table' := by
  have htexts := texts_of_insert_eq_ok hi
  obtain ⟨hr, -, rfl, rfl⟩ := of_insert_eq_ok hi
  constructor
  · intro q hq
    rw [htexts] at hq
    rcases List.mem_append.1 hq with hq | hq
    · exact h.accepted q hq
    · rw [List.mem_singleton.1 hq]
      exact hr
  · intro f hf
    rw [htexts]
    rcases FragmentTable.mem_toList_internAll hf with hf | hf
    · obtain ⟨q, hq, hm⟩ := h.origin f hf
      exact ⟨q, List.mem_append_left _ hq, hm⟩
    · exact ⟨p, List.mem_append_right _ List.mem_cons_self, hf⟩

theorem needle_bounds (h : r.Filled table) (hs : r.Sound table) {f : Fragment} (hf : f ∈ table.toList)
    (hn : n ∈ f.needles) : n ≠ [] ∧ n.length ≤ r.config.literalLimit := by
  obtain ⟨p, hp, hm⟩ := h.origin f hf
  rw [hs.interned.needles_eq f hf] at hn
  exact needle_bounds_of_refusal? (h.accepted p hp) hm hn

/-- Every fragment is required by some pattern. -/
theorem exists_requirement (h : r.Filled table) (hs : r.Sound table) {fr : Fragment} (hf : table.get? id = some fr) :
    ∃ p ∈ r.toList, ∃ ids, p.requirement = .fragments ids ∧ id ∈ ids := by
  obtain ⟨y, hy, hm⟩ := h.origin fr (FragmentTable.mem_toList_of_get? hf)
  obtain ⟨p, hp, rfl⟩ := List.mem_map.1 hy
  have hfaith := hs.faithful p hp
  cases he : p.requirement with
  | wildcardOnly =>
    rw [hfaith.wildcardOnly_iff.1 he] at hm
    cases hm
  | fragments ids => exact ⟨p, hp, ids, he, (hfaith.mem_iff hs.interned he).2 ⟨fr, hf, hm⟩⟩

end Filled

end Registry

end GlobSieve
