import GlobSieve.Engine.Tabulation
import GlobSieve.Proofs.Pattern.InPlace
import GlobSieve.Proofs.Query.Discovery

/-!
# Tabulation is what the sets say

After some fragments the tables in the making are those of the sets of ids so far (`Tables.ofSets`): the next fragment is entered
under each of its ids once, and the rows that are missing below the greatest of them are empty (`Tables.enter_ofSets`). So the
index that is made in place is the one that `CompiledIndex.build` describes, over any scanner (`buildInPlace?_eq`).
-/

namespace GlobSieve

namespace Tables

open CompiledIndex (slotCount lt_slotCount)

variable {f n id : Nat} {row : Nat → List Nat} {ids s : List Nat} {sets : List (List Nat)}

/-- The tables of fragments with these sets of ids. -/
def ofSets (sets : List (List Nat)) : Tables where
  literalFragments := ((List.range (slotCount sets)).map fun id => placesOf (·.contains id) sets).toArray
  literalsNeeded := (sets.map List.length).toArray
  alwaysPresent := placesOf List.isEmpty sets

/-- Rows that are missing are empty. -/
theorem append_replicate_range (hrow : ∀ i, n ≤ i → row i = []) (k : Nat) :
    ((List.range n).map row).toArray ++ Array.replicate (k - n) [] = ((List.range (max n k)).map row).toArray := by
  apply Array.ext_getElem?
  intro i
  simp only [Array.getElem?_append, Array.getElem?_replicate, List.getElem?_toArray, getElem?_map_range, List.size_toArray,
    List.length_map, List.length_range]
  by_cases hi : i < n
  · rw [if_pos hi, if_pos hi, if_pos (by omega)]
  · rw [if_neg hi, hrow i (by omega)]
    exact if_congr (by omega) rfl rfl

/-- A fragment is entered once under each of its ids. -/
theorem foldl_noteAt (hids : ids.Nodup) (hrow : ∀ i, n ≤ i → row i = []) :
    ids.foldl (noteAt f) ((List.range n).map row).toArray =
      ((List.range (ids.foldl (fun n id => max n (id + 1)) n)).map fun i =>
        row i ++ if i ∈ ids then [f] else []).toArray := by
  induction ids generalizing n row with
  | nil => simp
  | cons id ids ih =>
    obtain ⟨hid, hids⟩ := List.nodup_cons.1 hids
    have hrow' : ∀ i, max n (id + 1) ≤ i → (row i ++ if i = id then [f] else []) = [] := by
      intro i hi
      rw [hrow i (by omega), if_neg (by omega), List.nil_append]
    have hfirst : noteAt f ((List.range n).map row).toArray id =
        ((List.range (max n (id + 1))).map fun i => row i ++ if i = id then [f] else []).toArray := by
      rw [noteAt, List.size_toArray, List.length_map, List.length_range, append_replicate_range hrow, modify_map_range]
    rw [List.foldl_cons, List.foldl_cons, hfirst, ih hids hrow']
    simp only [append_ite_mem_cons hid]

/-- The next fragment. -/
theorem enter_ofSets (hs : s.Nodup) (sets : List (List Nat)) :
    (ofSets sets).enter sets.length s = ofSets (sets ++ [s]) := by
  have hrow : ∀ id, slotCount sets ≤ id → placesOf (·.contains id) sets = [] := by
    intro id hid
    rw [List.eq_nil_iff_forall_not_mem]
    intro i hi
    obtain ⟨t, ht, hm⟩ := mem_placesOf.1 hi
    have hlt := lt_slotCount (List.mem_of_getElem? ht) (List.contains_iff_mem.1 hm)
    omega
  have hcount : slotCount (sets ++ [s]) = s.foldl (fun n id => max n (id + 1)) (slotCount sets) := by
    simp [slotCount, List.foldl_append]
  have hnote := foldl_noteAt (f := sets.length) hs hrow
  simp only [enter, ofSets, hnote, hcount, placesOf_concat, Tables.mk.injEq]
  refine ⟨by simp, by simp, ?_⟩
  cases s <;> simp

end Tables

namespace CompiledIndex

variable {S : Scanner} {κ : Type}

/-- The pass over the fragments enters what was answered for each. -/
theorem tabulate_eq (b : S.Builder) (sets : List (List Nat)) (fs : List Fragment) :
    tabulate b (Tables.ofSets sets) (fs.zipIdx sets.length) =
      (offerFragments b fs).map fun r => (Tables.ofSets (sets ++ r.1), r.2) := by
  induction fs generalizing b sets with
  | nil => simp [tabulate, offerFragments, Except.map]
  | cons f fs ih =>
    rw [List.zipIdx_cons, tabulate, offerFragments]
    cases ho : offerAll b f.needles with
    | error err => rfl
    | ok r =>
      obtain ⟨ids, b'⟩ := r
      have hnodup : (handleSet ids).Nodup := (pairwise_handleSet ids).imp Nat.ne_of_lt
      have hih := ih b' (sets ++ [handleSet ids])
      rw [List.length_append, List.length_singleton] at hih
      simp only [Tables.enter_ofSets hnodup, hih]
      cases offerFragments b' fs with
      | error err => rfl
      | ok r => simp [Except.map]

/-- The index that is made in place is the index. -/
theorem buildInPlace?_eq {r : Registry κ} {table : FragmentTable} (h : r.Grounded table) :
    buildInPlace? S r table = some (build S r table) := by
  have htab := tabulate_eq (S.start r.config) [] table.toList
  have hempty : Tables.ofSets [] = .empty := rfl
  rw [hempty, List.length_nil] at htab
  rw [buildInPlace?, MetaWordIndex.buildInPlace?_eq h, Option.map_some, htab, build]
  cases offerFragments (S.start r.config) table.toList with
  | error err => rfl
  | ok r => rfl

end CompiledIndex

end GlobSieve
