import GlobSieve.Fragment.Pool
import GlobSieve.Proofs.Pattern.Interning

/-!
# A pool is its table

The directory of a pool finds what a search of the table finds (`FragmentPool.InStep`), and interning keeps it so. Interning in
a pool is therefore interning in its table (`InStep.internWith`), and the same for several texts (`InStep.internEach`).
-/

namespace GlobSieve

theorem FragmentTable.find?_push (t : FragmentTable) (f : Fragment) (x : Bytes) :
    (⟨t.entries.push f⟩ : FragmentTable).find? x = (t.find? x).or (if f.text == x then some t.size else none) := by
  rw [find?, Array.toList_push, List.findIdx?_append, find?]
  congr 1
  by_cases hx : f.text == x <;> simp [hx, size]

namespace FragmentPool

variable {pool : FragmentPool}

/-- The directory finds what is in the table. -/
def InStep (pool : FragmentPool) : Prop := ∀ text, pool.find? text = pool.table.find? text

namespace InStep

theorem empty : FragmentPool.empty.InStep := fun _ => rfl

/-- Interning in a pool is interning in its table. -/
theorem internWith (h : pool.InStep) (text : Bytes) (ns : List Bytes) : ∃ pool',
    pool.internWith text ns = ((pool.table.internWith text ns).1, pool') ∧
      pool'.table = (pool.table.internWith text ns).2 ∧ pool'.InStep := by
  cases hf : pool.table.find? text with
  | some id =>
    rw [FragmentTable.internWith_of_find? hf, FragmentPool.internWith, h text, hf]
    exact ⟨pool, rfl, rfl, h⟩
  | none =>
    rw [FragmentTable.internWith_of_find?_none hf, FragmentPool.internWith, h text, hf]
    refine ⟨_, rfl, rfl, fun x => ?_⟩
    rw [FragmentPool.find?, List.lookup_cons, FragmentTable.find?_push]
    by_cases hx : x = text
    · subst hx
      simp [hf, FragmentPool.size]
    · have hold := h x
      rw [FragmentPool.find?] at hold
      simp [beq_false_of_ne hx, beq_false_of_ne (Ne.symm hx), hold]

theorem intern (h : pool.InStep) (text : Bytes) : ∃ pool', pool.intern text = ((pool.table.intern text).1, pool') ∧
    pool'.table = (pool.table.intern text).2 ∧ pool'.InStep := by
  have hwith : pool.intern text = pool.internWith text (needles text) := by
    rw [FragmentPool.intern]
    cases hf : pool.find? text with
    | some id => rw [FragmentPool.internWith, hf]
    | none => rfl
  rw [hwith]
  exact h.internWith text _

/-- Texts with their own needles are interned in a pool as they are in its table. -/
theorem internEach (h : pool.InStep) (texts : List Bytes) : ∃ pool',
    pool.internEach (texts.map fun x => (x, needles x)) = ((pool.table.internAll texts).1, pool') ∧
      pool'.table = (pool.table.internAll texts).2 ∧ pool'.InStep := by
  induction texts generalizing pool with
  | nil => exact ⟨pool, rfl, rfl, h⟩
  | cons text texts ih =>
    obtain ⟨pool₁, he₁, ht₁, h₁⟩ := h.internWith text (needles text)
    obtain ⟨pool₂, he₂, ht₂, h₂⟩ := ih h₁
    rw [ht₁] at he₂ ht₂
    refine ⟨pool₂, ?_, ht₂, h₂⟩
    rw [List.map_cons, FragmentPool.internEach, he₁]
    simp only
    rw [he₂]
    rfl

end InStep

end FragmentPool

end GlobSieve
