import Mathlib.Algebra.Order.BigOperators.Group.List
import Mathlib.Algebra.GroupWithZero.Nat
import Mathlib.Algebra.Order.Group.Nat
import Mathlib.Data.List.Nodup
import Mathlib.Data.List.Perm.Subperm
import GlobSieve.Proofs.Literal.Accepted

/-!
# Room for literals

The states of a builder stand for the prefixes of its literals, so beside the root there is at most one for each byte of
them (`Holds.size_le`). A literal that is neither empty nor too long is accepted, known already, or one for which there
is no room (`add_of_fits`); in the last case the literals have more bytes than there may be states
(`Holds.maxStates_lt`).
-/

namespace GlobSieve.Literal

/-- The number of bytes of all strings together. -/
def totalLength (ls : List Bytes) : Nat := (ls.map List.length).sum

theorem totalLength_append (ls ls' : List Bytes) : totalLength (ls ++ ls') = totalLength ls + totalLength ls' := by
  simp [totalLength]

/-- Different strings have no more bytes together than any strings that they are among. -/
theorem totalLength_le_of_subset {ls ls' : List Bytes} (hnd : ls.Nodup) (hsub : ls ⊆ ls') :
    totalLength ls ≤ totalLength ls' := by
  obtain ⟨l, hperm, hl⟩ := List.subperm_of_subset hnd hsub
  have hsum : totalLength l = totalLength ls := (hperm.map List.length).sum_eq
  rw [← hsum]
  exact (hl.map List.length).sum_le_sum fun _ _ => Nat.zero_le _

namespace Builder

variable {b : Builder} {ls : List Bytes} {l : Bytes}

/-- The refusal of a literal for which there is no room. -/
def noRoom : LiteralError := .resourceLimit s!"automaton would exceed {maxStates} states"

/-- A literal that fits the limit is accepted unless it is known or there is no room. -/
theorem add_of_fits (hne : l ≠ []) (hlen : l.length ≤ b.limit) : b.add l =
    match b.trie.find? (b.mode.foldBytes l) with
    | some id => .error (.duplicate id)
    | none =>
      if maxStates < b.trie.size + l.length then .error noRoom
      else .ok (b.count, { b with
        trie := b.trie.insert (b.mode.foldBytes l) b.count, count := b.count + 1 }) := by
  have he : ¬l.isEmpty = true := fun h => hne (List.isEmpty_iff.1 h)
  rw [add, if_neg he, if_neg (Nat.not_lt.2 hlen)]
  rfl

/-- The prefixes of a string but the empty one. -/
def nonemptyPrefixes (l : Bytes) : List Bytes := (List.range l.length).map fun i => l.take (i + 1)

theorem mem_nonemptyPrefixes {v l : Bytes} : v ∈ nonemptyPrefixes l ↔ v ≠ [] ∧ v <+: l := by
  rw [nonemptyPrefixes, List.mem_map]
  constructor
  · rintro ⟨i, hi, rfl⟩
    have hlt := List.mem_range.1 hi
    refine ⟨List.length_pos_iff.1 ?_, List.take_prefix _ _⟩
    rw [List.length_take]
    omega
  · rintro ⟨hv, h⟩
    have hpos : 0 < v.length := List.length_pos_iff.2 hv
    have hle := h.length_le
    refine ⟨v.length - 1, List.mem_range.2 (by omega), ?_⟩
    rw [show v.length - 1 + 1 = v.length by omega]
    exact (List.prefix_iff_eq_take.1 h).symm

namespace Holds

/-- Beside the root there is at most one state for each byte of the literals. -/
theorem size_le (h : b.Holds ls) : b.trie.size ≤ 1 + totalLength ls := by
  obtain ⟨ws, hws, hmem⟩ := h.spells
  have hsub : ws ⊆ [] :: ls.flatMap nonemptyPrefixes := by
    intro v hv
    rcases (hmem v).1 hv with rfl | ⟨l, hl, hp⟩
    · exact List.mem_cons_self
    · by_cases hnil : v = []
      · rw [hnil]
        exact List.mem_cons_self
      · exact List.mem_cons_of_mem _ (List.mem_flatMap.2 ⟨l, hl, mem_nonemptyPrefixes.2 ⟨hnil, hp⟩⟩)
  have hle := (List.subperm_of_subset hws.nodup hsub).length_le
  have hlen : (ls.flatMap nonemptyPrefixes).length = totalLength ls := by
    simp [nonemptyPrefixes, totalLength, List.length_flatMap]
  rw [List.length_cons, hlen] at hle
  rw [hws.size_eq]
  omega

/-- Where there is no room for a new literal, the literals have more bytes than there may be states. -/
theorem maxStates_lt (h : b.Holds ls) (hnew : b.mode.foldBytes l ∉ ls) (hfull : maxStates < b.trie.size + l.length)
    {ls' : List Bytes} (hsub : ls ++ [b.mode.foldBytes l] ⊆ ls') : maxStates < 1 + totalLength ls' := by
  have hnd : (ls ++ [b.mode.foldBytes l]).Nodup := by
    refine List.nodup_append.2 ⟨h.nodup, List.nodup_singleton _, ?_⟩
    intro x hx y hy hxy
    rw [List.mem_singleton.1 hy] at hxy
    exact hnew (hxy ▸ hx)
  have hle := totalLength_le_of_subset hnd hsub
  have hsize := h.size_le
  rw [totalLength_append] at hle
  simp only [totalLength, List.map_cons, List.map_nil, List.sum_cons, List.sum_nil, CaseMode.length_foldBytes] at hle hsize ⊢
  omega

/-- Literals that fit are all known in the end, as long as there is room for them. -/
theorem mem_of_offered : ∀ {lits : List Bytes} {b : Builder} {ls : List Bytes}, b.Holds ls →
    (∀ l ∈ lits, l ≠ [] ∧ l.length ≤ b.limit) → 1 + totalLength ls + totalLength lits ≤ maxStates → ∀ l ∈ lits,
      b.mode.foldBytes l ∈ ls ++ (b.offerEach lits).1.map fun x => b.mode.foldBytes x.1
  | l :: lits, b, ls, h, hfit, hroom, v, hv => by
    obtain ⟨hne, hlen⟩ := hfit l List.mem_cons_self
    have hlater : ∀ l ∈ lits, l ≠ [] ∧ l.length ≤ b.limit := fun l hl => hfit l (List.mem_cons_of_mem _ hl)
    have hsum : totalLength (l :: lits) = l.length + totalLength lits := by simp [totalLength]
    have hadd := add_of_fits hne hlen
    rw [Builder.offerEach]
    cases hf : b.trie.find? (b.mode.foldBytes l) with
    | some id =>
      rw [hf] at hadd
      rw [hadd]
      rcases List.mem_cons.1 hv with rfl | hv
      · exact List.mem_append_left _ (List.mem_of_getElem? ((h.find?_iff _ _).1 hf))
      · exact mem_of_offered h hlater (by omega) v hv
    | none =>
      have hsize := h.size_le
      rw [hf] at hadd
      simp only [if_neg (Nat.not_lt.2 (show b.trie.size + l.length ≤ maxStates by omega))] at hadd
      obtain ⟨-, -, -, h'⟩ := h.of_add_ok hadd
      rw [hadd, List.map_cons, ← List.singleton_append, ← List.append_assoc]
      rcases List.mem_cons.1 hv with rfl | hv
      · exact List.mem_append_left _ (List.mem_append_right _ List.mem_cons_self)
      · refine mem_of_offered h' hlater ?_ v hv
        rw [totalLength_append]
        simp only [totalLength, List.map_cons, List.map_nil, List.sum_cons, List.sum_nil, CaseMode.length_foldBytes] at hroom ⊢
        omega

end Holds

end Builder

end GlobSieve.Literal
