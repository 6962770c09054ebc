import Mathlib.Data.List.Nodup
import GlobSieve.Pattern.MetaWord

/-!
# Meta-words of a list of requirements

There is one meta-word for each set of fragments that some pattern requires (`get?_group`, `nodup_requiredSets`), and a
fragment leads to the meta-words whose set it is in (`mem_containing_group`).
-/

namespace GlobSieve

theorem nodup_eraseDups {α : Type} [BEq α] [LawfulBEq α] : ∀ l : List α, l.eraseDups.Nodup
  | [] => List.nodup_nil
  | a :: l => by
    rw [List.eraseDups_cons]
    refine List.nodup_cons.2 ⟨fun h => ?_, nodup_eraseDups _⟩
    have := (List.mem_filter.1 (List.mem_eraseDups.1 h)).2
    simp at this
termination_by l => l.length
decreasing_by exact Nat.lt_succ_of_le (List.length_filter_le _ _)

/-- The last of a row is left out if it came before. -/
theorem eraseDups_concat {α : Type} [BEq α] [LawfulBEq α] (l : List α) (a : α) :
    (l ++ [a]).eraseDups = if a ∈ l then l.eraseDups else l.eraseDups ++ [a] := by
  rw [List.eraseDups_append]
  by_cases h : a ∈ l
  · simp [h, List.removeAll]
  · simp [h, List.removeAll, List.eraseDups_cons]

/-- In a list without repeats each member has one place. -/
theorem idxOf_eq_iff {α : Type} [BEq α] [LawfulBEq α] {l : List α} {a : α} {i : Nat} (h : l.Nodup) (ha : a ∈ l) :
    l.idxOf a = i ↔ l[i]? = some a := by
  have hget := List.getElem?_idxOf ha
  constructor
  · rintro rfl
    exact hget
  · intro hi
    exact (List.getElem?_inj (List.getElem?_eq_some_iff.1 hget).1 h).1 (hget.trans hi.symm)

namespace MetaWordIndex

variable {rs : List Requirement} {n f i m m' : Nat} {s : List Nat}

/-- The sets of fragments required, each once. -/
def requiredSets (rs : List Requirement) : List (List Nat) := (rs.filterMap Requirement.ids?).eraseDups

theorem nodup_requiredSets (rs : List Requirement) : (requiredSets rs).Nodup := nodup_eraseDups _

theorem mem_requiredSets : s ∈ requiredSets rs ↔ .fragments s ∈ rs := by
  rw [requiredSets, List.mem_eraseDups, List.mem_filterMap]
  constructor
  · rintro ⟨r, hr, e⟩
    cases r with
    | wildcardOnly => cases e
    | fragments ids => cases e; exact hr
  · exact fun h => ⟨_, h, rfl⟩

theorem get?_group (rs : List Requirement) (n m : Nat) :
    (group rs n).get? m = (requiredSets rs)[m]?.map fun s => ⟨s, placesOf (· == .fragments s) rs⟩ := by
  simp [get?, group, requiredSets]

theorem get?_group_eq_some_iff {w : MetaWord} : (group rs n).get? m = some w ↔
    ∃ s, (requiredSets rs)[m]? = some s ∧ w = ⟨s, placesOf (· == .fragments s) rs⟩ := by
  rw [get?_group, Option.map_eq_some_iff]
  exact exists_congr fun s => and_congr_right fun _ => eq_comm

/-- A fragment leads to the sets that it is in. -/
theorem mem_containing_group : m ∈ (group rs n).containing f ↔ f < n ∧ ∃ s, (requiredSets rs)[m]? = some s ∧ f ∈ s := by
  rw [containing, Array.getD_eq_getD_getElem?]
  by_cases hf : f < n
  · simp [group, hf, requiredSets]
  · simp [group, hf]

theorem mem_wildcardOnly_group : i ∈ (group rs n).wildcardOnly ↔ rs[i]? = some .wildcardOnly := by
  simp [group]

theorem nodup_wildcardOnly_group : (group rs n).wildcardOnly.Nodup :=
  nodup_placesOf (· == Requirement.wildcardOnly) rs

/-- Meta-words of the same set are the same. -/
theorem eq_of_requiredSets (h : (requiredSets rs)[m]? = some s) (h' : (requiredSets rs)[m']? = some s) : m = m' :=
  (List.getElem?_inj (List.getElem?_eq_some_iff.1 h).1 (nodup_requiredSets rs)).1 (h.trans h'.symm)

end MetaWordIndex

end GlobSieve
