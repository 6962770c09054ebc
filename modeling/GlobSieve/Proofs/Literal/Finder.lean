import GlobSieve.Literal.Finder
import GlobSieve.Proofs.Literal.Integrity
import GlobSieve.Proofs.Literal.Offers

/-!
# The states of a search

A state of an automaton has one string, which leads to it from the root (`Automaton.walk?`); the strings are the beginnings of the
literals. From any state a byte leads on after finitely many links (`next?_ofBuilder`), and the state of a search is that of the
longest suffix of what it has read (`Reading`). A search asked for `n` literals gives the first `n` of those that a scan lists
(`Reading.take?`), and whether a text is a match is told by the first one (`isMatch?_ofBuilder`). So what it gives are the
accepted literals, by the place where they end (`Automaton.scan_offerEach`).

Every automaton that is built in place has these properties (`Draft.states_are_longest_suffixes`).
-/

namespace GlobSieve.Literal

variable {b : Builder} {ls ws : List Bytes} {s : Nat} {t u v w : Bytes} {f : Finder}

/-- The string begins one of these, or it is empty. -/
def Begins (ls : List Bytes) (u : Bytes) : Prop := u = [] ∨ ∃ l ∈ ls, u <+: l

/-- Of the suffixes of `v` that begin one of these strings, `u` is the longest. -/
structure IsLongest (ls : List Bytes) (v u : Bytes) : Prop where
  suffix : u <:+ v
  begins : Begins ls u
  greatest : ∀ x, x <:+ v → Begins ls x → x.length ≤ u.length

theorem isLongest_longestIn (hmem : ∀ v, v ∈ ws ↔ Begins ls v) (v : Bytes) : IsLongest ls v (longestIn ws v) where
  suffix := longestIn_suffix ws v
  begins := (hmem _).1 (longestIn_mem ((hmem []).2 (.inl rfl)) v)
  greatest x hx hbegins := (suffix_longestIn ((hmem x).2 hbegins) hx).length_le

namespace Automaton

/-- The state that a string leads to from the root. -/
def walk? (a : Automaton) (w : Bytes) : Option Nat := w.foldlM (fun s c => (a.node s).transitions.target? c) 0

/-- The string of a state leads to it, and no other does. -/
theorem walk?_eq_some_iff (h : b.trie.Spells ws) : (ofBuilder b).walk? w = some s ↔ ws[s]? = some w := by
  have hwalk : ∀ r, w.foldlM (fun s c => ((ofBuilder b).node s).transitions.target? c) r = b.trie.walk r w := by
    induction w with
    | nil => intro r; rfl
    | cons c w ih =>
      intro r
      rw [List.foldlM_cons, target?_ofBuilder h, Trie.walk]
      cases b.trie.child r c with
      | none => rfl
      | some next => exact ih next
  rw [walk?, hwalk, h.walk_iff s h.root, List.nil_append]

section Spells

variable (h : b.trie.Spells ws) (hnil : b.trie.find? [] = none)

include h hnil

/-- The links that are followed for a byte come to an end. -/
theorem next?_ofBuilder (hs : ws[s]? = some u) (c : UInt8) : (ofBuilder b).next? s c = some ((ofBuilder b).step s c) := by
  have hsize : (ofBuilder b).nodes.size = b.trie.size := size_freeze b.trie
  have hfail : ∀ {r x}, ws[r]? = some x → x.length ≤ u.length →
      ws[((ofBuilder b).node r).failure]? = some (longestIn ws x.tail) := by
    intro r x hr _
    rw [(has_ofBuilder h hr).failure]
    exact (linksOf_fits h hnil hr).failure
  rw [next?, hsize, climb?_size h hs hfail, step, depth_node h hs]

/-- After more bytes the state is that of the longest suffix. -/
theorem foldlM_next? (t : Bytes) : ∀ {s : Nat} {v : Bytes}, ws[s]? = some (longestIn ws v) →
    ∃ s', t.foldlM (fun s c => (ofBuilder b).next? s (b.mode.fold c)) s = some s' ∧
      ws[s']? = some (longestIn ws (v ++ b.mode.foldBytes t)) := by
  induction t with
  | nil =>
    intro s v hs
    exact ⟨s, rfl, by simpa using hs⟩
  | cons c t ih =>
    intro s v hs
    obtain ⟨s', hs', hlast⟩ := ih (step_spells h hnil hs (b.mode.fold c))
    refine ⟨s', ?_, by simpa using hlast⟩
    rw [List.foldlM_cons, next?_ofBuilder h hnil hs]
    exact hs'

end Spells

end Automaton

/-! ## A search -/

open Automaton

namespace Finder

variable {a : Automaton} {s' : Nat} {c : UInt8}

/-- The first output of the next state is the next literal, and the others are pending. -/
theorem readOn?_of_output {id : Nat} {pending : List Nat} (h : a.next? s (a.mode.fold c) = some s')
    (ho : a.outputsOf s' = id :: pending) : readOn? a s (c :: t) = some (some id, ⟨t, s', pending⟩) := by
  simp [readOn?, h, ho]

/-- Where there is none, the search goes on. -/
theorem readOn?_of_none (h : a.next? s (a.mode.fold c) = some s') (ho : a.outputsOf s' = []) :
    readOn? a s (c :: t) = readOn? a s' t := by
  simp [readOn?, h, ho]

end Finder

/-- The search has read a part of the text, and its state is that of the longest suffix of it. -/
def Reading (b : Builder) (ws : List Bytes) (t : Bytes) (f : Finder) : Prop :=
  ∃ read, t = read ++ f.rest ∧ ws[f.state]? = some (longestIn ws (b.mode.foldBytes read))

/-- What a scan would list from here on. -/
def Finder.remaining (a : Automaton) (f : Finder) : List Nat := f.pending ++ a.scanFrom f.state f.rest

section Spells

variable (h : b.trie.Spells ws) (hnil : b.trie.find? [] = none)

include h hnil

/-- To read on gives the next literal, if there is one more. -/
theorem readOn?_ofBuilder (t : Bytes) : ∀ {s : Nat} {v : Bytes}, ws[s]? = some (longestIn ws v) →
    ∃ found f read, Finder.readOn? (ofBuilder b) s t = some (found, f) ∧ t = read ++ f.rest ∧
      ws[f.state]? = some (longestIn ws (v ++ b.mode.foldBytes read)) ∧
      (ofBuilder b).scanFrom s t = found.toList ++ f.remaining (ofBuilder b) ∧
      (found = none → f.remaining (ofBuilder b) = []) := by
  induction t with
  | nil =>
    intro s v hs
    exact ⟨none, ⟨[], s, []⟩, [], rfl, rfl, by simpa using hs, rfl, fun _ => rfl⟩
  | cons c t ih =>
    intro s v hs
    have hnext := next?_ofBuilder h hnil hs (b.mode.fold c)
    have hs' := step_spells h hnil hs (b.mode.fold c)
    have hscan : (ofBuilder b).scanFrom s (c :: t) = (ofBuilder b).outputsOf ((ofBuilder b).step s (b.mode.fold c)) ++
        (ofBuilder b).scanFrom ((ofBuilder b).step s (b.mode.fold c)) t := rfl
    cases ho : (ofBuilder b).outputsOf ((ofBuilder b).step s (b.mode.fold c)) with
    | cons id pending =>
      rw [ho] at hscan
      exact ⟨some id, _, [c], Finder.readOn?_of_output hnext ho, rfl, hs', hscan, fun e => by cases e⟩
    | nil =>
      rw [ho] at hscan
      obtain ⟨found, f, read, hf, ht, hstate, hremaining, hnone⟩ := ih hs'
      refine ⟨found, f, c :: read, (Finder.readOn?_of_none hnext ho).trans hf, by rw [ht, List.cons_append], ?_,
        hscan.trans hremaining, hnone⟩
      simpa using hstate

/-- A search can be asked for one more literal. -/
theorem Reading.next? (hf : Reading b ws t f) : ∃ found f', f.next? (ofBuilder b) = some (found, f') ∧ Reading b ws t f' ∧
    f.remaining (ofBuilder b) = found.toList ++ f'.remaining (ofBuilder b) ∧
    (found = none → f'.remaining (ofBuilder b) = []) := by
  obtain ⟨read, ht, hstate⟩ := hf
  rw [Finder.next?, Finder.remaining]
  cases f.pending with
  | cons id pending => exact ⟨some id, _, rfl, ⟨read, ht, hstate⟩, rfl, fun e => by cases e⟩
  | nil =>
    obtain ⟨found, f', read', hf', ht', hstate', hremaining, hnone⟩ := readOn?_ofBuilder h hnil f.rest hstate
    refine ⟨found, f', hf', ⟨read ++ read', ?_, ?_⟩, hremaining, hnone⟩
    · rw [ht, ht', List.append_assoc]
    · rw [hstate', CaseMode.foldBytes_append]

/-- A search can be asked for any number of literals, and gives the first of those that remain. -/
theorem Reading.take? (n : Nat) : ∀ {f : Finder}, Reading b ws t f → ∃ f',
    f.take? (ofBuilder b) n = some ((f.remaining (ofBuilder b)).take n, f') ∧ Reading b ws t f' ∧
      f'.remaining (ofBuilder b) = (f.remaining (ofBuilder b)).drop n := by
  induction n with
  | zero =>
    intro f hf
    exact ⟨f, rfl, hf, rfl⟩
  | succ n ih =>
    intro f hf
    obtain ⟨found, f', hnext, hf', hremaining, hnone⟩ := hf.next? h hnil
    obtain ⟨f'', htake, hf'', hrest⟩ := ih hf'
    refine ⟨f'', ?_, hf'', ?_⟩
    · rw [Finder.take?, hnext, hremaining]
      show (f'.take? (ofBuilder b) n).bind _ = _
      rw [htake]
      cases found with
      | some id => rfl
      | none =>
        rw [hnone rfl]
        simp
    · rw [hrest, hremaining]
      cases found with
      | some id => rfl
      | none =>
        rw [hnone rfl]
        simp

/-- A text is a match if its first literal is found. -/
theorem isMatch?_ofBuilder (t : Bytes) : (ofBuilder b).isMatch? t = some ((ofBuilder b).isMatch t) := by
  obtain ⟨found, f, hnext, -, hscan, hnone⟩ := Reading.next? h hnil (t := t) (f := .start t) ⟨[], rfl, h.root⟩
  have hscan' : (ofBuilder b).scan t = found.toList ++ f.remaining (ofBuilder b) := hscan
  rw [isMatch?, hnext, isMatch, hscan']
  cases found with
  | some id => rfl
  | none => rw [hnone rfl]; rfl

end Spells

/-- **What a search gives.** However many literals it is asked for, it gives the accepted ones place by place, those that end
there, the longest first, each once, and nothing else; and a text is a match if the first one is found. The automaton is the one
that is built in place, from a draft that accepts the same literals. -/
theorem Automaton.scan_offerEach (m : CaseMode) (limit : Nat) (lits : List Bytes) (t : Bytes) :
    let run := (Builder.empty m limit).offerEach lits
    let a := ofBuilder run.2
    let found := (List.range t.length).flatMap fun e => (endings m run.1 (t.take (e + 1))).map Prod.snd
    (Draft.accepted ((Draft.empty m limit).offerEach lits).1 = run.1 ∧
        ∀ order, ((Draft.empty m limit).offerEach lits).2.build? order = some a) ∧
      (∀ n, ∃ f, (Finder.start t).take? a n = some (found.take n, f)) ∧
      a.scan t = found ∧
      a.isMatch? t = some (!found.isEmpty) ∧ (a.isMatch t = true ↔ found ≠ []) := by
  intro run a found
  obtain ⟨haccepted, hfollows, -⟩ := @Draft.Follows.offers lits _ _ _ (Draft.Follows.empty m limit) (Builder.Holds.empty m limit)
  obtain ⟨-, hholds, -⟩ := (Builder.Holds.empty m limit).offerEach lits
  obtain ⟨ws, h, -⟩ := hholds.spells
  have hnil := find?_nil hholds
  have hscan : a.scan t = found := scan_eq_endings m limit lits t
  have hmatch : a.isMatch t = !found.isEmpty := by rw [isMatch, hscan]
  refine ⟨⟨haccepted, fun order => hfollows.built hholds order⟩, fun n => ?_, hscan, ?_, ?_⟩
  · obtain ⟨f, htake, -⟩ := Reading.take? h hnil n (f := .start t) ⟨[], rfl, h.root⟩
    rw [← hscan]
    exact ⟨f, htake⟩
  · rw [← hmatch]
    exact isMatch?_ofBuilder h hnil t
  · simp [hmatch]

/-! ## What is built in place -/

namespace Automaton

section Spells

variable (h : b.trie.Spells ws)

include h

/-- Every state has one string. -/
theorem existsUnique_walk? (hs : s < (ofBuilder b).nodes.size) : ∃! w, (ofBuilder b).walk? w = some s := by
  have hlt : s < ws.length := by
    rw [← h.size_eq, ← size_freeze]
    exact hs
  refine ⟨ws[s], (walk?_eq_some_iff h).2 (List.getElem?_eq_getElem hlt), ?_⟩
  intro w hw
  exact Option.some.inj (((walk?_eq_some_iff h).1 hw).symm.trans (List.getElem?_eq_getElem hlt))

theorem lt_size_of_walk? (hs : (ofBuilder b).walk? w = some s) : s < (ofBuilder b).nodes.size ∧
    ((ofBuilder b).node s).depth = w.length := by
  have hs' := (walk?_eq_some_iff h).1 hs
  exact ⟨(has_ofBuilder h hs').lt_size, depth_node h hs'⟩

/-- A failure link leads to the longest proper suffix, and so it leads up. -/
theorem failure_of_walk? (hnil : b.trie.find? [] = none) {c : UInt8} (hs : (ofBuilder b).walk? (c :: u) = some s) :
    (ofBuilder b).walk? (longestIn ws u) = some ((ofBuilder b).node s).failure ∧
      ((ofBuilder b).node ((ofBuilder b).node s).failure).depth < ((ofBuilder b).node s).depth := by
  have hs' := (walk?_eq_some_iff h).1 hs
  have hlink : ws[((ofBuilder b).node s).failure]? = some (longestIn ws u) := by
    rw [(has_ofBuilder h hs').failure]
    exact (linksOf_fits h hnil hs').failure
  refine ⟨(walk?_eq_some_iff h).2 hlink, ?_⟩
  rw [depth_node h hlink, depth_node h hs', List.length_cons]
  exact Nat.lt_succ_of_le (length_longestIn_le ws u)

end Spells

/-- The outputs of a state are the literals that end its string, the longest first. -/
theorem outputs_of_walk? (hb : b.Holds ls) (hs : (ofBuilder b).walk? w = some s) :
    (∀ id, id ∈ (ofBuilder b).outputsOf s ↔ ∃ l, ls[id]? = some l ∧ l <:+ w) ∧
      ((ofBuilder b).outputsOf s).Pairwise fun i j => (ls.getD j []).length < (ls.getD i []).length := by
  obtain ⟨ws, h, -⟩ := hb.spells
  have hs' := (walk?_eq_some_iff h).1 hs
  have houtputs : (ofBuilder b).outputsOf s = w.tails.filterMap b.trie.find? := by
    apply outputs_ofBuilder h (find?_nil hb)
    rw [longestIn_of_mem (List.mem_of_getElem? hs')]
    exact hs'
  rw [houtputs]
  exact ⟨fun id => mem_filterMap_tails hb, pairwise_filterMap_tails hb w⟩

end Automaton

/-- **The states of an automaton stand for longest suffixes.** Whatever literals were accepted, and in whatever order the edges of
the states are taken, the states can be linked. Each state has one string, a beginning of a literal. Its failure link leads to
the longest proper suffix that begins a literal, which is shallower, so from every state and by every byte the links that are
followed come to an end. Its outputs are the literals that end its string, the longest first. After any bytes, and however
often a search is asked for one more literal, the state is that of the longest suffix of what was read that begins a literal. -/
theorem Draft.states_are_longest_suffixes (m : CaseMode) (limit : Nat) (lits : List Bytes) (order : EdgeOrder) :
    let run := (Draft.empty m limit).offerEach lits
    let folded := (Draft.accepted run.1).map fun x => m.foldBytes x.1
    ∃ a, run.2.build? order = some a ∧
      ((∀ s < a.nodes.size, ∃! w, a.walk? w = some s) ∧
        (∀ w, (∃ s, a.walk? w = some s) ↔ Begins folded w) ∧
        ∀ w s, a.walk? w = some s → s < a.nodes.size ∧ (a.node s).depth = w.length) ∧
      (∀ c u s, a.walk? (c :: u) = some s →
        (∃ x, IsLongest folded u x ∧ a.walk? x = some (a.node s).failure) ∧
          (a.node (a.node s).failure).depth < (a.node s).depth) ∧
      (∀ s < a.nodes.size, ∀ c, (a.next? s c).isSome = true) ∧
      (∀ w s, a.walk? w = some s →
        (∀ id, id ∈ a.outputsOf s ↔ ∃ l, folded[id]? = some l ∧ l <:+ w) ∧
          ((a.outputsOf s).Pairwise fun i j => (folded.getD j []).length < (folded.getD i []).length) ∧
          (a.outputsOf s).Nodup) ∧
      (∀ t, ∃ s x, t.foldlM (fun s c => a.next? s (m.fold c)) 0 = some s ∧
        IsLongest folded (m.foldBytes t) x ∧ a.walk? x = some s) ∧
      ∀ t n, ∃ f read x, (Finder.start t).take? a n = some ((a.scan t).take n, f) ∧ t = read ++ f.rest ∧
        IsLongest folded (m.foldBytes read) x ∧ a.walk? x = some f.state := by
  intro run folded
  obtain ⟨b, hfollows, rfl, -, hb, -⟩ := Draft.exists_follows m limit lits
  obtain ⟨ws, h, hmem⟩ := hb.spells
  have hnil := find?_nil hb
  have hbegins : ∀ v, v ∈ ws ↔ Begins folded v := hmem
  have hlongest := isLongest_longestIn hbegins
  refine ⟨ofBuilder b, hfollows.built hb order, ⟨fun s hs => existsUnique_walk? h hs, ?_, fun w s hs => lt_size_of_walk? h hs⟩,
    ?_, ?_, ?_, ?_, ?_⟩
  · intro w
    rw [← hbegins, List.mem_iff_getElem?]
    exact exists_congr fun s => walk?_eq_some_iff h
  · intro c u s hs
    obtain ⟨hlink, hdepth⟩ := failure_of_walk? h hnil hs
    exact ⟨⟨_, hlongest u, hlink⟩, hdepth⟩
  · intro s hs c
    obtain ⟨w, hw, -⟩ := existsUnique_walk? h hs
    rw [next?_ofBuilder h hnil ((walk?_eq_some_iff h).1 hw)]
    rfl
  · intro w s hs
    obtain ⟨hmem', hsorted⟩ := outputs_of_walk? hb hs
    refine ⟨hmem', hsorted, hsorted.imp ?_⟩
    rintro i j hij rfl
    exact Nat.lt_irrefl _ hij
  · intro t
    obtain ⟨s, hs, hstate⟩ := foldlM_next? h hnil t (v := []) h.root
    exact ⟨s, _, hs, hlongest _, (walk?_eq_some_iff h).2 hstate⟩
  · intro t n
    obtain ⟨f, htake, ⟨read, ht, hstate⟩, -⟩ := Reading.take? h hnil n (f := .start t) ⟨[], rfl, h.root⟩
    exact ⟨f, read, _, htake, ht, hlongest _, (walk?_eq_some_iff h).2 hstate⟩

-- "he", "she", "his" and "hers" in "ushers"
example : (((Draft.empty .sensitive 9).addAll [[104, 101], [115, 104, 101], [104, 105, 115], [104, 101, 114, 115]]).2.build?
    .kept).bind (fun a => ((Finder.start [117, 115, 104, 101, 114, 115]).take? a 9).map Prod.fst) = some [1, 0, 3] := by cbv

end GlobSieve.Literal
