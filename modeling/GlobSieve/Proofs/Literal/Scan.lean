import Mathlib.Data.List.Perm.Basic
import Mathlib.Data.List.Sort
import GlobSieve.Proofs.Literal.Accepted
import GlobSieve.Proofs.Literal.Freezing
import GlobSieve.Proofs.Literal.Links
import GlobSieve.Proofs.Literal.Lookup

/-!
# What a scan lists

The automaton of a builder walks through a text from state to state, and its state always stands for the longest suffix
of what was read, folded, that begins a literal (`step_spells`). The outputs there are the ids of the literals that end
at this place (`scan_eq`), the longest first. So a scan lists, by the place where they end, all accepted literals that
occur in the text and nothing else (`scan_eq_endings`); as a set it is the literals in the text (`mem_scan_iff`). Bytes are
folded as they are read, so texts that fold to the same bytes are scanned alike (`scan_congr`).
-/

namespace GlobSieve.Literal.Automaton

open Builder

variable {b : Builder} {ls ws : List Bytes} {s : Nat} {v : Bytes}

/-! ## The states of the automaton -/

theorem has_ofBuilder (h : b.trie.Spells ws) (hs : ws[s]? = some v) :
    (ofBuilder b).Has s (b.trie.state s) ((linksOf b.trie).getD s .root) := has_freeze (h.lt_size hs)

/-- Every state keeps the edges that it has in the trie. -/
theorem transitions_node (b : Builder) (s : Nat) :
    ((ofBuilder b).node s).transitions = .ofEdges (b.trie.state s).edges := by
  by_cases hs : s < b.trie.size
  · exact (has_freeze hs).transitions
  · have hsize : (ofBuilder b).nodes.size ≤ s := (size_freeze b.trie).trans_le (Nat.le_of_not_lt hs)
    rw [Frozen.node_of_size_le hsize, Trie.state_of_size_le (Nat.le_of_not_lt hs)]
    rfl

/-- The edges of the automaton are those of the trie. -/
theorem target?_ofBuilder (h : b.trie.Spells ws) (s : Nat) (c : UInt8) :
    ((ofBuilder b).node s).transitions.target? c = b.trie.child s c := by
  rw [transitions_node, Transitions.target?_ofEdges (h.edges_nodup s) (h.zero_not_mem_edges s), Trie.child]

/-- After a byte the state stands for the longest suffix again. -/
theorem step_spells (h : b.trie.Spells ws) (hnil : b.trie.find? [] = none) (hs : ws[s]? = some (longestIn ws v))
    (c : UInt8) : ws[(ofBuilder b).step s c]? = some (longestIn ws (v ++ [c])) := by
  rw [longestIn_append_one h.nil_mem h.mem_of_append]
  refine follow_spells h (fun r => target?_ofBuilder h r c) _ hs ?_ fun {r x} hr _ => ?_
  · rw [(has_ofBuilder h hs).depth, h.depth_eq hs]
  · rw [(has_ofBuilder h hr).failure]
    exact (linksOf_fits h hnil hr).failure

theorem outputs_ofBuilder (h : b.trie.Spells ws) (hnil : b.trie.find? [] = none) (hs : ws[s]? = some (longestIn ws v)) :
    (ofBuilder b).outputsOf s = v.tails.filterMap b.trie.find? := by
  rw [(has_ofBuilder h hs).outputs, (linksOf_fits h hnil hs).outputs, filterMap_tails_longestIn fun x hx => h.find?_eq_none hx]

/-- A scan from the state of what was read goes on as a scan of the whole. -/
theorem scanFrom_eq (h : b.trie.Spells ws) (hnil : b.trie.find? [] = none) :
    ∀ {s : Nat} {v : Bytes} (t : Bytes), ws[s]? = some (longestIn ws v) →
      (ofBuilder b).scanFrom s t = (List.range t.length).flatMap fun e =>
        (v ++ b.mode.foldBytes (t.take (e + 1))).tails.filterMap b.trie.find?
  | _, _, [], _ => rfl
  | s, v, c :: t, hs => by
    have hs' := step_spells h hnil hs (b.mode.fold c)
    rw [scanFrom, List.length_cons, List.range_succ_eq_map, List.flatMap_cons, List.flatMap_map]
    show (ofBuilder b).outputsOf ((ofBuilder b).step s (b.mode.fold c)) ++ _ = _
    congr 1
    · rw [outputs_ofBuilder h hnil hs']
      simp
    · refine (scanFrom_eq h hnil t hs').trans ?_
      simp

/-! ## Folding -/

/-- Bytes are folded as they are read, so it makes no difference when they were before. -/
theorem scanFrom_foldBytes (a : Automaton) (s : Nat) (t : Bytes) : a.scanFrom s (a.mode.foldBytes t) = a.scanFrom s t := by
  induction t generalizing s with
  | nil => rfl
  | cons c t ih =>
    rw [CaseMode.foldBytes_cons, scanFrom, scanFrom, CaseMode.fold_fold]
    exact congrArg _ (ih _)

theorem scan_congr {a : Automaton} {t t' : Bytes} (h : a.mode.foldBytes t = a.mode.foldBytes t') :
    a.scan t = a.scan t' := by
  rw [scan, scan, ← scanFrom_foldBytes a 0 t, h, scanFrom_foldBytes]

/-! ## The literals that end at a place -/

section Holds

variable (h : b.Holds ls)

include h

theorem find?_nil : b.trie.find? [] = none := h.find?_eq_none_iff.2 fun hm => h.ne_nil [] hm rfl

/-- A scan lists by the place where they end the literals that are suffixes there. -/
theorem scan_eq (t : Bytes) :
    (ofBuilder b).scan t = (List.range t.length).flatMap fun e =>
      (b.mode.foldBytes (t.take (e + 1))).tails.filterMap b.trie.find? := by
  obtain ⟨ws, hws, -⟩ := h.spells
  exact scanFrom_eq hws (find?_nil h) (v := []) t hws.root

theorem mem_filterMap_tails {id : Nat} :
    id ∈ v.tails.filterMap b.trie.find? ↔ ∃ l, ls[id]? = some l ∧ l <:+ v := by
  simp only [List.mem_filterMap, List.mem_tails, h.find?_iff]
  exact exists_congr fun l => And.comm

/-- The set of ids that a scan lists is the set of the literals in the text. -/
theorem mem_scan_iff {t : Bytes} {id : Nat} :
    id ∈ (ofBuilder b).scan t ↔ ∃ l, ls[id]? = some l ∧ l <:+: b.mode.foldBytes t := by
  rw [scan_eq h, List.mem_flatMap]
  simp only [mem_filterMap_tails h]
  constructor
  · rintro ⟨e, -, l, hl, hsuf⟩
    refine ⟨l, hl, hsuf.isInfix.trans (List.IsPrefix.isInfix ?_)⟩
    exact (List.take_prefix (e + 1) t).map _
  · rintro ⟨l, hl, x, y, hxy⟩
    -- the literal is not empty, so it ends at a place
    have hpos : 0 < l.length := List.length_pos_iff.2 (h.ne_nil l (List.mem_of_getElem? hl))
    have hlen := congrArg List.length hxy
    simp only [List.length_append, CaseMode.length_foldBytes] at hlen
    refine ⟨x.length + l.length - 1, List.mem_range.2 (by omega), l, hl, x, ?_⟩
    rw [show x.length + l.length - 1 + 1 = (x ++ l).length by rw [List.length_append]; omega, CaseMode.foldBytes,
      List.map_take, ← CaseMode.foldBytes, ← hxy, List.take_left]

/-- Longer suffixes come first. -/
theorem pairwise_filterMap_tails :
    ∀ v : Bytes, (v.tails.filterMap b.trie.find?).Pairwise fun i j => (ls.getD j []).length < (ls.getD i []).length
  | [] => by simp [find?_nil h]
  | c :: v => by
    rw [List.tails_cons]
    cases hf : b.trie.find? (c :: v) with
    | none =>
      rw [List.filterMap_cons_none hf]
      exact pairwise_filterMap_tails v
    | some i =>
      rw [List.filterMap_cons_some hf]
      refine List.pairwise_cons.2 ⟨fun j hj => ?_, pairwise_filterMap_tails v⟩
      obtain ⟨l, hl, hsuf⟩ := (mem_filterMap_tails h).1 hj
      have hi := (h.find?_iff _ _).1 hf
      rw [List.getD_eq_getElem?_getD, List.getD_eq_getElem?_getD, hi, hl]
      exact Nat.lt_succ_of_le hsuf.length_le

end Holds

/-! ## The literals accepted -/

/-- The accepted literals that end a text, up to the mode, the longest first. -/
def endings (m : CaseMode) (accepted : List (Bytes × Nat)) (t : Bytes) : List (Bytes × Nat) :=
  (accepted.filter fun x => (m.foldBytes x.1).isSuffixOf (m.foldBytes t)).mergeSort fun x y => y.1.length ≤ x.1.length

theorem mem_endings {m : CaseMode} {accepted : List (Bytes × Nat)} {t : Bytes} {x : Bytes × Nat} :
    x ∈ endings m accepted t ↔ x ∈ accepted ∧ m.foldBytes x.1 <:+ m.foldBytes t := by
  rw [endings, (List.mergeSort_perm _ _).mem_iff, List.mem_filter, List.isSuffixOf_iff_suffix]

/-- No two literals that end a text have the same length. -/
theorem pairwise_endings {m : CaseMode} {accepted : List (Bytes × Nat)}
    (hnd : (accepted.map fun x => m.foldBytes x.1).Nodup) (t : Bytes) :
    (endings m accepted t).Pairwise fun x y => y.1.length < x.1.length := by
  have hle : (endings m accepted t).Pairwise fun x y => decide (y.1.length ≤ x.1.length) = true :=
    List.pairwise_mergeSort (fun a b c h1 h2 => by simp only [decide_eq_true_eq] at *; omega)
      (fun a b => by simp only [Bool.or_eq_true, decide_eq_true_eq]; omega) _
  have hne : ((endings m accepted t).map fun x => m.foldBytes x.1).Nodup := by
    rw [endings, ((List.mergeSort_perm _ _).map _).nodup_iff]
    exact hnd.sublist (List.filter_sublist.map _)
  refine ((List.pairwise_map.1 hne).and hle).imp_of_mem fun {x y} hx hy ⟨hxy, hlen⟩ => ?_
  refine Nat.lt_of_le_of_ne (of_decide_eq_true hlen) fun e => hxy ?_
  -- suffixes of one text that have the same length are equal
  have hlen' : (m.foldBytes x.1).length = (m.foldBytes y.1).length := by simpa using e.symm
  exact (List.suffix_of_suffix_length_le (mem_endings.1 hx).2 (mem_endings.1 hy).2 (Nat.le_of_eq hlen')).eq_of_length
    hlen'

/-- The ids of the accepted literals that end a text are what its suffixes answer. -/
theorem map_snd_endings {accepted : List (Bytes × Nat)} (h : b.Holds (accepted.map fun x => b.mode.foldBytes x.1))
    (hids : accepted = (accepted.map Prod.fst).zipIdx) (t : Bytes) :
    (endings b.mode accepted t).map Prod.snd = (b.mode.foldBytes t).tails.filterMap b.trie.find? := by
  generalize hls : (accepted.map fun x => b.mode.foldBytes x.1) = ls at h
  have hget (id : Nat) : ls[id]? = (accepted.map Prod.fst)[id]?.map b.mode.foldBytes := by
    simp [← hls, Function.comp_def]
  have hmem (l : Bytes) (id : Nat) : (l, id) ∈ accepted ↔ (accepted.map Prod.fst)[id]? = some l := by
    conv => lhs; rw [hids]
    exact List.mem_zipIdx_iff_getElem?
  have hlen {l : Bytes} {id : Nat} (hm : (l, id) ∈ accepted) : (ls.getD id []).length = l.length := by
    rw [List.getD_eq_getElem?_getD, hget, (hmem l id).1 hm]
    exact b.mode.length_foldBytes l
  have hX : ((endings b.mode accepted t).map Prod.snd).Pairwise
      fun i j => (ls.getD j []).length < (ls.getD i []).length := by
    refine List.pairwise_map.2 ((pairwise_endings (hls ▸ h.nodup) t).imp_of_mem fun {x y} hx hy hxy => ?_)
    rwa [hlen (mem_endings.1 hx).1, hlen (mem_endings.1 hy).1]
  have hY := pairwise_filterMap_tails h (b.mode.foldBytes t)
  have hne {i j : Nat} (hij : (ls.getD j []).length < (ls.getD i []).length) : i ≠ j := by
    rintro rfl
    exact Nat.lt_irrefl _ hij
  -- two lists of the same ids, both by descending length
  refine List.Perm.eq_of_pairwise (fun i j _ _ h1 h2 => absurd h1 (Nat.lt_asymm h2)) hX hY ?_
  refine (List.perm_ext_iff_of_nodup (hX.imp hne) (hY.imp hne)).2 fun id => ?_
  rw [mem_filterMap_tails h, List.mem_map]
  constructor
  · rintro ⟨⟨l, _⟩, hx, rfl⟩
    obtain ⟨hl, hsuf⟩ := mem_endings.1 hx
    exact ⟨b.mode.foldBytes l, by rw [hget, (hmem _ _).1 hl]; rfl, hsuf⟩
  · rintro ⟨w, hw, hsuf⟩
    rw [hget] at hw
    obtain ⟨l, hl, rfl⟩ := Option.map_eq_some_iff.1 hw
    exact ⟨(l, id), mem_endings.2 ⟨(hmem l id).2 hl, hsuf⟩, rfl⟩

/-- A scan lists, place by place, the accepted literals that end there, the longest first, each once. -/
theorem scan_eq_endings (m : CaseMode) (limit : Nat) (lits : List Bytes) (t : Bytes) :
    let run := (Builder.empty m limit).offerEach lits
    (ofBuilder run.2).scan t =
      (List.range t.length).flatMap fun e => (endings m run.1 (t.take (e + 1))).map Prod.snd := by
  intro run
  obtain ⟨hmode, hholds, hids⟩ := (Holds.empty m limit).offerEach lits
  rw [List.nil_append, ← hmode] at hholds
  rw [scan_eq hholds]
  congr 1
  funext e
  rw [← map_snd_endings hholds hids, hmode]
  rfl

example : ((Builder.empty .insensitive 9).offerEach [[72, 101], [], [115, 104, 69], [104, 101]]).1
    = [([72, 101], 0), ([115, 104, 69], 1)] := by decide

end GlobSieve.Literal.Automaton
