/-!
# Sets of handles

Handles are numbers given out from zero. A set of them is written as a strictly ascending list, so equal sets are
equal lists. Handles are natural numbers, and what is proved of them is also true of words of 32 bits as long as fewer than
`2 ^ 32` are given out.
-/

namespace GlobSieve

/-- Put a handle into an ascending list, unless it is there. -/
def insertHandle (h : Nat) : List Nat → List Nat
  | [] => [h]
  | x :: xs => if h < x then h :: x :: xs else if h = x then x :: xs else x :: insertHandle h xs

/-- The set of the handles in a list. -/
def handleSet (hs : List Nat) : List Nat := hs.foldr insertHandle []

/-- The places of a list at which a condition holds, ascending. -/
def placesOf {α : Type} (p : α → Bool) (l : List α) : List Nat := (l.zipIdx.filter fun x => p x.1).map Prod.snd

/-- Whether a list is strictly ascending. -/
def isHandleSet : List Nat → Bool
  | x :: y :: xs => x < y && isHandleSet (y :: xs)
  | _ => true

@[simp] theorem mem_placesOf {α : Type} {p : α → Bool} {l : List α} {i : Nat} :
    i ∈ placesOf p l ↔ ∃ a, l[i]? = some a ∧ p a = true := by
  simp [placesOf, List.mem_zipIdx_iff_getElem?]

theorem mem_placesOf_beq {α : Type} [BEq α] [LawfulBEq α] {a : α} {l : List α} {i : Nat} :
    i ∈ placesOf (· == a) l ↔ l[i]? = some a := by
  simp

/-- The places of a list are a set of handles. -/
theorem pairwise_placesOf {α : Type} (p : α → Bool) (l : List α) : (placesOf p l).Pairwise (· < ·) := by
  have hall : (l.zipIdx.map Prod.snd).Pairwise (· < ·) := by
    rw [List.zipIdx_map_snd]
    exact List.pairwise_lt_range'
  exact hall.sublist (List.filter_sublist.map _)

theorem nodup_placesOf {α : Type} (p : α → Bool) (l : List α) : (placesOf p l).Nodup :=
  (pairwise_placesOf p l).imp Nat.ne_of_lt

theorem length_placesOf {α : Type} (p : α → Bool) (l : List α) : (placesOf p l).length = l.countP p := by
  have hcount : (l.zipIdx.map Prod.fst).countP p = l.zipIdx.countP fun x => p x.1 := List.countP_map
  rw [placesOf, List.length_map, ← List.countP_eq_length_filter, ← hcount, List.zipIdx_map_fst]

/-- What is read off the places is read off the elements there. -/
theorem map_placesOf {α β : Type} {p : α → Bool} {l : List α} {f : Nat → β} {g : α → β}
    (h : ∀ i a, l[i]? = some a → f i = g a) : (placesOf p l).map f = (l.filter p).map g := by
  have hfst : (l.zipIdx.filter fun x => p x.1).map Prod.fst = l.filter p := by
    rw [show (fun x : α × Nat => p x.1) = p ∘ Prod.fst from rfl, ← List.filter_map, List.zipIdx_map_fst]
  rw [placesOf, ← hfst, List.map_map, List.map_map]
  refine List.map_congr_left fun x hx => h x.2 x.1 ?_
  exact List.mem_zipIdx_iff_getElem?.1 (List.mem_filter.1 hx).1

/-- Of handles below a bound none is beyond it. -/
theorem filter_le_eq_nil {n : Nat} {hs : List Nat} (h : ∀ i ∈ hs, i < n) : hs.filter (n ≤ ·) = [] := by
  rw [List.filter_eq_nil_iff]
  intro i hi
  have hlt := h i hi
  simp only [decide_eq_true_eq]
  omega

@[simp] theorem mem_insertHandle {h x : Nat} : ∀ {xs : List Nat}, x ∈ insertHandle h xs ↔ x = h ∨ x ∈ xs
  | [] => by simp [insertHandle]
  | y :: ys => by
    unfold insertHandle
    split
    · simp
    · split
      · next e => simp [e]
      · rw [List.mem_cons, mem_insertHandle, List.mem_cons]
        exact or_left_comm

@[simp] theorem mem_handleSet {x : Nat} {hs : List Nat} : x ∈ handleSet hs ↔ x ∈ hs := by
  induction hs with
  | nil => simp [handleSet]
  | cons h hs ih =>
    rw [handleSet, List.foldr_cons, mem_insertHandle, List.mem_cons]
    exact or_congr_right ih

theorem pairwise_insertHandle {h : Nat} : ∀ {xs : List Nat}, xs.Pairwise (· < ·) → (insertHandle h xs).Pairwise (· < ·)
  | [], _ => List.pairwise_singleton _ _
  | y :: ys, p => by
    have hy : ∀ z ∈ ys, y < z := fun z => List.rel_of_pairwise_cons p
    unfold insertHandle
    split
    · next lt =>
      refine List.pairwise_cons.2 ⟨fun z hz => ?_, p⟩
      rcases List.mem_cons.1 hz with rfl | hz
      · exact lt
      · exact Nat.lt_trans lt (hy z hz)
    · split
      · exact p
      · refine List.pairwise_cons.2 ⟨fun z hz => ?_, pairwise_insertHandle p.of_cons⟩
        rcases mem_insertHandle.1 hz with rfl | hz
        · omega
        · exact hy z hz

/-- A set of handles is strictly ascending. -/
theorem pairwise_handleSet (hs : List Nat) : (handleSet hs).Pairwise (· < ·) := by
  induction hs with
  | nil => exact List.Pairwise.nil
  | cons h hs ih => exact pairwise_insertHandle ih

theorem isHandleSet_iff : ∀ {xs : List Nat}, isHandleSet xs = true ↔ xs.Pairwise (· < ·)
  | [] => by simp [isHandleSet]
  | [x] => by simp [isHandleSet]
  | x :: y :: xs => by
    rw [isHandleSet, Bool.and_eq_true, decide_eq_true_iff, isHandleSet_iff, List.pairwise_cons (a := x)]
    constructor
    · rintro ⟨lt, p⟩
      refine ⟨fun z hz => ?_, p⟩
      rcases List.mem_cons.1 hz with rfl | hz
      · exact lt
      · exact Nat.lt_trans lt (List.rel_of_pairwise_cons p hz)
    · rintro ⟨h, p⟩
      exact ⟨h y List.mem_cons_self, p⟩

end GlobSieve
