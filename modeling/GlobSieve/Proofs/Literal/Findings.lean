import Mathlib.Data.Finset.Card
import GlobSieve.Proofs.Literal.Capacity
import GlobSieve.Proofs.Literal.Integrity

/-!
# The findings about an automaton

An audit of the automaton of a builder has nothing to report (`audit_offerEach`). Beside the defects that it does not have:

* a state has a slot for every byte only if it has more edges than a sorted table takes (`wasteful_ofBuilder`);
* the marks spread from the root by one depth a round (`Marks.round`), and no string is longer than there are states, so in the
  end all states are marked (`orphaned_ofBuilder`);
* every state has one of the four encodings (`sum_map_countP_encoding`), and beside the root there is one state for each prefix
  of a literal (`size_eq_card`).
-/

namespace GlobSieve.Literal

/-! ## Encodings -/

theorem Transitions.sparseLimit_lt {edges : List (UInt8 × Nat)} (h : (ofEdges edges).encoding = .dense) :
    sparseLimit < edges.length := by
  unfold ofEdges at h
  split at h
  · cases h
  · cases h
  · split at h
    · cases h
    · next hlt => exact Nat.lt_of_not_le hlt

/-- Each of the four encodings is counted, and nothing twice. -/
theorem sum_map_countP_encoding {α : Type} (f : α → Encoding) (l : List α) :
    (Encoding.all.map fun e => l.countP (f · == e)).sum = l.length := by
  induction l with
  | nil => rfl
  | cons x l ih =>
    simp only [Encoding.all, List.map_cons, List.map_nil, List.sum_cons, List.sum_nil, List.countP_cons,
      List.length_cons] at ih ⊢
    cases f x <;> simp <;> omega

namespace Automaton

open Builder

variable {b : Builder} {ls ws : List Bytes} {s : Nat} {v : Bytes}

theorem isWasteful_ofBuilder (h : b.trie.Spells ws) (hs : ws[s]? = some v) :
    Node.isWasteful ((ofBuilder b).node s) = false := by
  rw [Node.isWasteful, Bool.and_eq_false_iff, (has_ofBuilder h hs).transitions]
  by_cases hdense : (Transitions.ofEdges (b.trie.state s).edges).encoding = .dense
  · right
    have hlt := Transitions.sparseLimit_lt hdense
    have hlen := (Transitions.perm_targets_ofEdges (h.edges_nodup s) (h.zero_not_mem_edges s)).length_eq
    rw [List.length_map] at hlen
    rw [decide_eq_false_iff_not, hlen]
    exact Nat.not_le.2 hlt
  · left
    exact beq_false_of_ne hdense

/-- No state has a slot for every byte without need. -/
theorem wasteful_ofBuilder (h : b.trie.Spells ws) : (ofBuilder b).wasteful = [] := by
  rw [wasteful, List.map_eq_nil_iff, List.filter_eq_nil_iff]
  rintro ⟨n, s⟩ hn
  obtain ⟨v, hs, rfl⟩ := exists_of_mem_zipIdx h hn
  show ¬Node.isWasteful ((ofBuilder b).node s) = true
  rw [isWasteful_ofBuilder h hs]
  exact Bool.false_ne_true

/-! ## Marks -/

/-- After `d` rounds the states of the strings up to the length `d` are marked, and those of this length are the front. -/
structure Marks (ws : List Bytes) (d : Nat) (front : List Nat) (seen : Array Bool) : Prop where
  size_eq : seen.size = ws.length
  mem_front : ∀ {s}, s ∈ front ↔ ∃ v, ws[s]? = some v ∧ v.length = d
  seen_iff : ∀ {s v}, ws[s]? = some v → (seen.getD s true = true ↔ v.length ≤ d)

theorem size_foldl_setIfInBounds (l : List Nat) (seen : Array Bool) :
    (l.foldl (·.setIfInBounds · true) seen).size = seen.size := by
  induction l generalizing seen with
  | nil => rfl
  | cons r l ih => rw [List.foldl_cons, ih, Array.size_setIfInBounds]

/-- The states of a list are marked, and no others. -/
theorem getD_foldl_setIfInBounds (l : List Nat) (seen : Array Bool) :
    (l.foldl (·.setIfInBounds · true) seen).getD s true = true ↔ s ∈ l ∨ seen.getD s true = true := by
  induction l generalizing seen with
  | nil => simp
  | cons r l ih =>
    have hone : (seen.setIfInBounds r true).getD s true = true ↔ s = r ∨ seen.getD s true = true := by
      simp only [Array.getD_eq_getD_getElem?, Array.getElem?_setIfInBounds]
      by_cases hr : r = s
      · subst hr
        by_cases hlt : r < seen.size <;> simp [hlt]
      · simp [hr, Ne.symm hr]
    rw [List.foldl_cons, ih, hone, List.mem_cons, or_left_comm, or_assoc]

/-- The states one edge beyond the strings of length `d` that are not marked yet are those of length `d + 1`. -/
theorem Marks.mem_next (h : b.trie.Spells ws) {d : Nat} {front : List Nat} {seen : Array Bool} (hm : Marks ws d front seen) :
    s ∈ (front.flatMap fun r => ((ofBuilder b).node r).transitions.targets).filter (fun r => !seen.getD r true) ↔
      ∃ v, ws[s]? = some v ∧ v.length = d + 1 := by
  rw [List.mem_filter, List.mem_flatMap, Bool.not_eq_true', ← Bool.not_eq_true]
  constructor
  · rintro ⟨⟨r, hr, hs⟩, -⟩
    obtain ⟨u, hu, rfl⟩ := hm.mem_front.1 hr
    obtain ⟨c, hc⟩ := (mem_targets_iff h hu).1 hs
    exact ⟨u ++ [c], hc, List.length_append⟩
  · rintro ⟨v, hs, hlen⟩
    refine ⟨?_, fun hseen => ?_⟩
    · -- the string without its last byte has a state, and an edge leads on from there
      obtain ⟨u, c, rfl⟩ : ∃ u c, v = u ++ [c] := by
        have hne : v ≠ [] := by
          rintro rfl
          cases hlen
        exact ⟨v.dropLast, v.getLast hne, (List.dropLast_append_getLast hne).symm⟩
      obtain ⟨r, hr⟩ := List.mem_iff_getElem?.1 (h.mem_of_append (List.mem_of_getElem? hs))
      rw [List.length_append, List.length_singleton] at hlen
      exact ⟨r, hm.mem_front.2 ⟨u, hr, by omega⟩, (mem_targets_iff h hr).2 ⟨c, hs⟩⟩
    · have hle := (hm.seen_iff hs).1 hseen
      omega

/-- A round marks the states of the strings one byte longer. -/
theorem Marks.round (h : b.trie.Spells ws) {d : Nat} {front : List Nat} {seen : Array Bool} (hm : Marks ws d front seen) :
    let next := (front.flatMap fun r => ((ofBuilder b).node r).transitions.targets).filter fun r => !seen.getD r true
    Marks ws (d + 1) next (next.foldl (·.setIfInBounds · true) seen) where
  size_eq := (size_foldl_setIfInBounds _ _).trans hm.size_eq
  mem_front := hm.mem_next h
  seen_iff {s v} hs := by
    rw [getD_foldl_setIfInBounds, hm.mem_next h, hm.seen_iff hs]
    constructor
    · rintro (⟨v', hs', hlen⟩ | hle)
      · obtain rfl := Option.some.inj (hs.symm.trans hs')
        omega
      · omega
    · intro hle
      rcases Nat.le_succ_iff.1 hle with hle | hlen
      · exact .inr hle
      · exact .inl ⟨v, hs, hlen⟩

/-- After `k` more rounds the marks are `k` bytes further. -/
theorem Marks.mark (h : b.trie.Spells ws) (k : Nat) {d : Nat} {front : List Nat} {seen : Array Bool}
    (hm : Marks ws d front seen) : ∃ front', Marks ws (d + k) front' ((ofBuilder b).mark k front seen) := by
  induction k generalizing d front seen with
  | zero => exact ⟨front, hm⟩
  | succ k ih =>
    obtain ⟨front', hm'⟩ := ih (hm.round h)
    exact ⟨front', by rwa [Nat.add_right_comm] at hm'⟩

theorem Marks.start (h : b.trie.Spells ws) : Marks ws 0 [0] ((Array.replicate ws.length false).setIfInBounds 0 true) := by
  have hroot {s : Nat} {v : Bytes} (hs : ws[s]? = some v) : v.length = 0 ↔ s = 0 := by
    rw [List.length_eq_zero_iff]
    constructor
    · rintro rfl
      exact h.eq_of_string hs h.root
    · rintro rfl
      exact Option.some.inj (hs.symm.trans h.root)
  refine ⟨?_, fun {s} => ?_, fun {s v} hs => ?_⟩
  · rw [Array.size_setIfInBounds, Array.size_replicate]
  · rw [List.mem_singleton]
    constructor
    · rintro rfl
      exact ⟨[], h.root, rfl⟩
    · rintro ⟨v, hs, hlen⟩
      exact (hroot hs).1 hlen
  · have hlt : s < ws.length := (List.getElem?_eq_some_iff.1 hs).1
    rw [Nat.le_zero, hroot hs, Array.getD_eq_getD_getElem?, Array.getElem?_setIfInBounds]
    by_cases h0 : s = 0
    · subst h0
      simp [hlt]
    · simp [h0, Ne.symm h0, hlt]

/-- Every state can be reached from the root. -/
theorem orphaned_ofBuilder (h : b.trie.Spells ws) : (ofBuilder b).orphaned = 0 := by
  have hsize : (ofBuilder b).nodes.size = ws.length := (size_freeze b.trie).trans h.size_eq
  obtain ⟨front, hm⟩ := (Marks.start h).mark h ws.length
  rw [orphaned, hsize, Array.count_eq_zero]
  intro hmem
  obtain ⟨s, hlt, hfalse⟩ := Array.mem_iff_getElem.1 hmem
  have hs := List.getElem?_eq_getElem (hm.size_eq ▸ hlt)
  have hshort := h.length_lt (List.mem_of_getElem? hs)
  have hseen := (hm.seen_iff hs).2 (by omega)
  rw [Array.getD_eq_getD_getElem?, Array.getElem?_eq_getElem hlt, hfalse] at hseen
  cases hseen

/-! ## All findings -/

/-- Beside the root there is a state for each prefix of a literal. -/
theorem size_eq_card (h : b.Holds ls) : b.trie.size = 1 + (ls.flatMap nonemptyPrefixes).toFinset.card := by
  obtain ⟨ws, hws, hmem⟩ := h.spells
  have hset : ws.toFinset = insert [] (ls.flatMap nonemptyPrefixes).toFinset := by
    ext v
    rw [List.mem_toFinset, hmem, Finset.mem_insert, List.mem_toFinset, List.mem_flatMap]
    by_cases hv : v = []
    · exact iff_of_true (.inl hv) (.inl hv)
    · simp only [mem_nonemptyPrefixes, hv, ne_eq, not_false_eq_true, true_and, false_or]
  have hnil : [] ∉ (ls.flatMap nonemptyPrefixes).toFinset := by
    rw [List.mem_toFinset, List.mem_flatMap]
    rintro ⟨l, -, hl⟩
    exact (mem_nonemptyPrefixes.1 hl).1 rfl
  rw [hws.size_eq, ← List.toFinset_card_of_nodup hws.nodup, hset, Finset.card_insert_of_notMem hnil, Nat.add_comm]

/-- **An audit finds nothing wrong** with an automaton that was built, whatever literals were offered and whichever of them
were refused. Its states are the root and the prefixes of the accepted literals, folded. -/
theorem audit_offerEach (m : CaseMode) (limit : Nat) (lits : List Bytes) :
    let run := (Builder.empty m limit).offerEach lits
    let a := (ofBuilder run.2).audit
    a.errors = [] ∧ a.warnings = [] ∧ a.orphaned = 0 ∧
      a.encodings.length = 4 ∧ a.encodings.sum = a.nodeCount ∧
      a.literalCount = run.1.length ∧
      a.nodeCount = 1 + (run.1.flatMap fun x => nonemptyPrefixes (m.foldBytes x.1)).toFinset.card := by
  intro run a
  obtain ⟨-, hholds, -⟩ := (Holds.empty m limit).offerEach lits
  rw [List.nil_append] at hholds
  obtain ⟨ws, hws, -⟩ := hholds.spells
  have herrors : a.errors = [] := defects_ofBuilder hholds
  have horphaned : a.orphaned = 0 := by
    show (if a.errors.isEmpty then (ofBuilder run.2).orphaned else 0) = 0
    rw [herrors]
    exact orphaned_ofBuilder hws
  refine ⟨herrors, ?_, horphaned, rfl, ?_, ?_, ?_⟩
  · show (ofBuilder run.2).wasteful ++ (if a.orphaned = 0 then [] else [.unreachable a.orphaned]) = []
    rw [wasteful_ofBuilder hws, if_pos horphaned]
    rfl
  · exact (sum_map_countP_encoding (fun n : Node => n.transitions.encoding) _).trans Array.length_toList
  · exact hholds.count_eq.trans (List.length_map _)
  · refine (size_freeze _).trans ((size_eq_card hholds).trans ?_)
    rw [List.flatMap_map]
    rfl

end Automaton

end GlobSieve.Literal
