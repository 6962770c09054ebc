import GlobSieve.Literal.Builder
import GlobSieve.Proofs.Literal.Spelling

/-!
# The literals a builder has

`b.Holds ls` says that `ls` are the literals that the builder `b` has accepted, folded, each at the place of its id. The
states of its trie stand for the prefixes of these literals and for nothing else.

A literal that is accepted goes to the end of the list (`Holds.of_add_ok`), one that is refused as a duplicate has the id
of its folding (`Holds.of_add_duplicate`), and after a row of offers, whatever the answers, the builder has what it
had and what was accepted (`Holds.offerEach`).
-/

namespace GlobSieve.Literal.Builder

/-- Offer literals in turn. The accepted ones with their ids, and the builder that has them. -/
def offerEach (b : Builder) : List Bytes → List (Bytes × Nat) × Builder
  | [] => ([], b)
  | l :: ls =>
    match b.add l with
    | .ok (id, b') => ((l, id) :: (b'.offerEach ls).1, (b'.offerEach ls).2)
    | .error _ => b.offerEach ls

/-- The folded literals of the builder are those of the list, by their ids. -/
structure Holds (b : Builder) (ls : List Bytes) : Prop where
  nodup : ls.Nodup
  ne_nil : ∀ l ∈ ls, l ≠ []
  count_eq : b.count = ls.length
  find?_iff : ∀ v id, b.trie.find? v = some id ↔ ls[id]? = some v
  spells : ∃ ws, b.trie.Spells ws ∧ ∀ v, v ∈ ws ↔ v = [] ∨ ∃ l ∈ ls, v <+: l

variable {b b' : Builder} {ls : List Bytes} {l : Bytes} {id : Nat}

/-- What an accepted literal has passed, and the builder that knows it. -/
theorem of_add_eq_ok (h : b.add l = .ok (id, b')) :
    l ≠ [] ∧ l.length ≤ b.limit ∧ b.trie.find? (b.mode.foldBytes l) = none ∧
      b.trie.size + l.length ≤ maxStates ∧ id = b.count ∧
      b' = { b with trie := b.trie.insert (b.mode.foldBytes l) b.count, count := b.count + 1 } := by
  unfold add at h
  split at h
  · cases h
  next he =>
  split at h
  · cases h
  next hlen =>
  split at h
  · cases h
  next hfind =>
  split at h
  · cases h
  next hmax =>
  cases h
  refine ⟨fun e => he ?_, by omega, hfind, by omega, rfl, rfl⟩
  rw [e]; rfl

theorem find?_of_add_eq_duplicate (h : b.add l = .error (.duplicate id)) :
    b.trie.find? (b.mode.foldBytes l) = some id := by
  unfold add at h
  split at h
  · cases h
  split at h
  · cases h
  split at h
  · next hfind => cases h; exact hfind
  · split at h <;> cases h

/-- What is accepted was offered. -/
theorem mem_of_accepted : ∀ {lits : List Bytes} {b : Builder} {x : Bytes × Nat}, x ∈ (b.offerEach lits).1 → x.1 ∈ lits
  | l :: lits, b, x, hx => by
    rw [offerEach] at hx
    cases ha : b.add l with
    | error e =>
      rw [ha] at hx
      exact List.mem_cons_of_mem _ (mem_of_accepted hx)
    | ok r =>
      rw [ha] at hx
      rcases List.mem_cons.1 hx with rfl | hx
      · exact List.mem_cons_self
      · exact List.mem_cons_of_mem _ (mem_of_accepted hx)

namespace Holds

theorem empty (mode : CaseMode) (limit : Nat) : (Builder.empty mode limit).Holds [] where
  nodup := List.nodup_nil
  ne_nil := by simp
  count_eq := rfl
  find?_iff v id := by
    -- the only state is the root, and it has no id
    refine ⟨fun h => ?_, fun h => by simp at h⟩
    obtain ⟨s, -, ho⟩ := Trie.Spells.empty.find?_eq_some_iff.1 h
    rcases s with _ | s <;> simp [Trie.empty, Trie.state, TrieState.root] at ho
  spells := ⟨[[]], Trie.Spells.empty, by simp⟩

theorem find?_eq_none_iff (h : b.Holds ls) {v : Bytes} : b.trie.find? v = none ↔ v ∉ ls := by
  rw [Option.eq_none_iff_forall_ne_some, List.mem_iff_getElem?, not_exists]
  exact forall_congr' fun id => (h.find?_iff v id).not

/-- A literal that is accepted goes to the end. -/
theorem of_add_ok (h : b.Holds ls) (ha : b.add l = .ok (id, b')) :
    id = ls.length ∧ b.mode.foldBytes l ∉ ls ∧ b'.mode = b.mode ∧ b'.Holds (ls ++ [b.mode.foldBytes l]) := by
  obtain ⟨hne, -, hfind, -, rfl, rfl⟩ := of_add_eq_ok ha
  obtain ⟨ws, hws, hmem⟩ := h.spells
  obtain ⟨ws', hws', hmem', hfind'⟩ := hws.insert (b.mode.foldBytes l) b.count
  have hnew := h.find?_eq_none_iff.1 hfind
  refine ⟨h.count_eq, hnew, rfl, ?_, fun x hx => ?_, by simp [h.count_eq], fun v k => ?_, ws', hws', fun v => ?_⟩
  · refine List.nodup_append.2 ⟨h.nodup, by simp, fun x hx y hy => ?_⟩
    rw [List.mem_singleton.1 hy]
    exact fun e => hnew (e ▸ hx)
  · rcases List.mem_append.1 hx with hx | hx
    · exact h.ne_nil x hx
    · rw [List.mem_singleton.1 hx]
      simpa [CaseMode.foldBytes] using hne
  · rw [hfind', Trie.Spells.getElem?_append_one, ← h.find?_iff, ← h.count_eq]
    by_cases hv : v = b.mode.foldBytes l
    · subst hv
      simp [hfind, eq_comm]
    · simp [hv]
  · rw [hmem', hmem]
    simp only [List.mem_append, List.mem_singleton, or_and_right, exists_or, exists_eq_left]
    exact or_assoc

/-- A duplicate has the id of its folding. -/
theorem of_add_duplicate (h : b.Holds ls) (ha : b.add l = .error (.duplicate id)) :
    ls[id]? = some (b.mode.foldBytes l) :=
  (h.find?_iff _ _).1 (find?_of_add_eq_duplicate ha)

/-- The builder after a row of offers has what was accepted, in the order of the ids. -/
theorem offerEach {b : Builder} {ls : List Bytes} (h : b.Holds ls) :
    ∀ lits : List Bytes, (b.offerEach lits).2.mode = b.mode ∧
      (b.offerEach lits).2.Holds (ls ++ (b.offerEach lits).1.map fun x => b.mode.foldBytes x.1) ∧
      (b.offerEach lits).1 = ((b.offerEach lits).1.map Prod.fst).zipIdx ls.length
  | [] => by simpa [Builder.offerEach] using h
  | l :: lits => by
    rw [Builder.offerEach]
    cases ha : b.add l with
    | error e => exact offerEach h lits
    | ok r =>
      obtain ⟨id, b'⟩ := r
      obtain ⟨rfl, -, hmode, h'⟩ := h.of_add_ok ha
      obtain ⟨h1, h2, h3⟩ := offerEach h' lits
      refine ⟨h1.trans hmode, ?_, ?_⟩
      · simpa [hmode] using h2
      · simpa using h3

end Holds

end GlobSieve.Literal.Builder
