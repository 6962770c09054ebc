import Mathlib.Data.List.Infix
import GlobSieve.CaseMode

/-!
# The longest suffix in a set of strings

`longestIn ws v` is the longest suffix of `v` that is one of the strings `ws`, which have the empty string among them.
For strings that come with their prefixes it can be kept up byte by byte: the longest suffix after one more byte is found
from the longest suffix before it (`longestIn_append_one`). And whatever is asked of the suffixes of `v`, if only strings
of `ws` have an answer, is answered by the suffixes of `longestIn ws v` alone (`filterMap_tails_longestIn`).
-/

namespace GlobSieve.Literal

variable {ws : List Bytes} {u v : Bytes}

/-- The longest suffix of a text among the strings. -/
def longestIn (ws : List Bytes) : Bytes → Bytes
  | [] => []
  | b :: v => if b :: v ∈ ws then b :: v else longestIn ws v

theorem longestIn_of_mem (h : v ∈ ws) : longestIn ws v = v := by
  cases v with
  | nil => rfl
  | cons b v => rw [longestIn, if_pos h]

theorem longestIn_cons {b : UInt8} (h : b :: v ∉ ws) : longestIn ws (b :: v) = longestIn ws v := by
  rw [longestIn, if_neg h]

theorem longestIn_suffix (ws : List Bytes) : ∀ v : Bytes, longestIn ws v <:+ v
  | [] => List.nil_suffix
  | b :: v => by
    by_cases h : b :: v ∈ ws
    · rw [longestIn_of_mem h]
    · rw [longestIn_cons h]
      exact (longestIn_suffix ws v).trans (List.suffix_cons b v)

theorem length_longestIn_le (ws : List Bytes) (v : Bytes) : (longestIn ws v).length ≤ v.length :=
  (longestIn_suffix ws v).length_le

theorem longestIn_mem (h0 : [] ∈ ws) : ∀ v : Bytes, longestIn ws v ∈ ws
  | [] => h0
  | b :: v => by
    by_cases h : b :: v ∈ ws
    · rwa [longestIn_of_mem h]
    · rw [longestIn_cons h]
      exact longestIn_mem h0 v

/-- No suffix among the strings is longer. -/
theorem suffix_longestIn (hu : u ∈ ws) : ∀ {v : Bytes}, u <:+ v → u <:+ longestIn ws v
  | [], h => h
  | b :: v, h => by
    by_cases hv : b :: v ∈ ws
    · rwa [longestIn_of_mem hv]
    · rw [longestIn_cons hv]
      rcases List.suffix_cons_iff.1 h with rfl | h
      · exact absurd hu hv
      · exact suffix_longestIn hu h

/-- A suffix among the strings that no other exceeds is the longest. -/
theorem longestIn_eq (h0 : [] ∈ ws) (hu : u ∈ ws) (huv : u <:+ v) (hmax : ∀ x ∈ ws, x <:+ v → x <:+ u) :
    longestIn ws v = u := by
  have h1 := suffix_longestIn hu huv
  have h2 := hmax _ (longestIn_mem h0 v) (longestIn_suffix ws v)
  exact h2.eq_of_length (Nat.le_antisymm h2.length_le h1.length_le)

/-- After one more byte the longest suffix comes from the longest suffix before. -/
theorem longestIn_append_one (h0 : [] ∈ ws) (hp : ∀ {u w : Bytes}, u ++ w ∈ ws → u ∈ ws) (v : Bytes) (b : UInt8) :
    longestIn ws (v ++ [b]) = longestIn ws (longestIn ws v ++ [b]) := by
  refine longestIn_eq h0 (longestIn_mem h0 _) ?_ fun x hx hxv => suffix_longestIn hx ?_
  · exact (longestIn_suffix ws _).trans (List.suffix_append_inj_of_length_eq rfl |>.2 ⟨longestIn_suffix ws v, rfl⟩)
  · rcases List.suffix_concat_iff.1 hxv with rfl | ⟨y, rfl, hy⟩
    · exact List.nil_suffix
    · -- a non-empty suffix ends in the new byte, and the rest of it was a suffix before
      exact List.suffix_append_inj_of_length_eq rfl |>.2 ⟨suffix_longestIn (hp hx) hy, rfl⟩

/-- Only the suffixes of the longest one can have an answer. -/
theorem filterMap_tails_longestIn {f : Bytes → Option Nat} (hf : ∀ x, x ∉ ws → f x = none) :
    ∀ v : Bytes, (longestIn ws v).tails.filterMap f = v.tails.filterMap f
  | [] => rfl
  | b :: v => by
    by_cases h : b :: v ∈ ws
    · rw [longestIn_of_mem h]
    · rw [longestIn_cons h, filterMap_tails_longestIn hf v, List.tails_cons, List.filterMap_cons_none (hf _ h)]

end GlobSieve.Literal
