/-!
# Maximal runs

`runs f l` cuts a list at the elements on which `f` is undefined and keeps the images of what lies between, without
the empty pieces: a stretch of elements between two cuts gives one run. Fragments are the runs between wildcards,
and needles are the runs between brackets.
-/

namespace GlobSieve

variable {α β : Type}

/-- Put a run in front, unless it is empty. -/
def consRun (r : List β) (rs : List (List β)) : List (List β) := if r.isEmpty then rs else r :: rs

/-- The run that the list opens with, which may be empty, and the later runs. -/
def openRuns (f : α → Option β) : List α → List β × List (List β)
  | [] => ([], [])
  | a :: l =>
    match f a with
    | some b => (b :: (openRuns f l).1, (openRuns f l).2)
    | none => ([], consRun (openRuns f l).1 (openRuns f l).2)

/-- The non-empty maximal runs of elements on which `f` is defined, as images. -/
def runs (f : α → Option β) (l : List α) : List (List β) := consRun (openRuns f l).1 (openRuns f l).2

@[simp] theorem runs_nil (f : α → Option β) : runs f [] = [] := rfl

/-- An element where `f` is undefined only separates. -/
theorem runs_cons_none {f : α → Option β} {a : α} (h : f a = none) (l : List α) : runs f (a :: l) = runs f l := by
  simp [runs, openRuns, h, consRun]

theorem mem_consRun {r x : List β} {rs : List (List β)} : x ∈ consRun r rs ↔ (x = r ∧ r ≠ []) ∨ x ∈ rs := by
  cases r <;> simp [consRun]

theorem ne_nil_of_mem_openRuns {f : α → Option β} {r : List β} : ∀ {l : List α}, r ∈ (openRuns f l).2 → r ≠ []
  | [], h => by cases h
  | a :: l, h => by
    cases hf : f a with
    | some b => rw [openRuns, hf] at h; exact ne_nil_of_mem_openRuns h
    | none =>
      rw [openRuns, hf] at h
      rcases mem_consRun.1 h with ⟨rfl, hr⟩ | hr
      · exact hr
      · exact ne_nil_of_mem_openRuns hr

/-- No run is empty. -/
theorem ne_nil_of_mem_runs {f : α → Option β} {l : List α} {r : List β} (h : r ∈ runs f l) : r ≠ [] := by
  rcases mem_consRun.1 h with ⟨rfl, hr⟩ | hr
  · exact hr
  · exact ne_nil_of_mem_openRuns hr

end GlobSieve
