import Mathlib.Data.Finset.Union
import GlobSieve.Engine.Stats
import GlobSieve.Proofs.Engine.Exactness
import GlobSieve.Proofs.Engine.Literals
import GlobSieve.Proofs.Query.Counters

/-!
# What an engine counts

The sizes of the tables of an engine with the automaton, and the counters of its queries, in terms of the texts of its patterns
alone (`EngineStats.census`, `MatchStats.census`): there is an id for each different needle, up to the mode, and a state for
each beginning of one (`literalCount_eq_card`, `stateCount_eq_card`), and a query finds the fragments whose needles are in the
text. None of this depends on the order of the patterns (`MatchStats.census_perm`, `EngineStats.census_perm`), and neither does
what matches; so engines with the same patterns cannot be told apart by them.
-/

namespace GlobSieve

/-- All needles of a fragment are in a text, up to the mode. -/
def Present (m : CaseMode) (t y : Bytes) : Prop := ∀ n ∈ needles y, m.foldBytes n <:+: m.foldBytes t

instance (m : CaseMode) (t : Bytes) : DecidablePred (Present m t) := fun y =>
  inferInstanceAs (Decidable (∀ n ∈ needles y, m.foldBytes n <:+: m.foldBytes t))

/-- The strings with which some strings begin, the empty one among them. -/
def prefixSet (ls : Finset Bytes) : Finset Bytes := insert [] (ls.biUnion fun l => l.inits.toFinset)

attribute [ext] MatchStats

/-- The statistics of an engine with these patterns, before the first query. -/
def EngineStats.census (m : CaseMode) (ps : List Bytes) : EngineStats where
  patterns := ps.length
  wildcardOnly := ps.countP (·.all isWildcardByte)
  fragments := (fragmentSet ps).card
  literals := (literalSet m ps).card
  metaWords := (requiredSet ps).card
  scannerStates := (prefixSet (literalSet m ps)).card
  totalQueries := 0
  lastGlobCalls := 0

/-- The counters of a query of these patterns. -/
def MatchStats.census (m : CaseMode) (ps : List Bytes) (t : Bytes) : MatchStats :=
  let tried := (ps.countP fun p => wildcardOnly p = false ∧ ∀ y ∈ fragments p, Present m t y) + ps.countP wildcardOnly
  { fragmentsMatched := ((fragmentSet ps).filter (Present m t)).card
    metaWordsChecked := ((requiredSet ps).filter fun s => ∃ y ∈ s, Present m t y).card
    metaWordsSatisfied := ((requiredSet ps).filter fun s => ∀ y ∈ s, Present m t y).card
    candidates := tried
    globCalls := tried
    hits := ps.countP fun p => (Glob.parse m p).accepts t }

/-! ## The order of the patterns -/

section Order

variable {m : CaseMode} {ps qs : List Bytes} (h : ps.Perm qs)
include h

theorem fragmentSet_perm : fragmentSet ps = fragmentSet qs := List.toFinset_eq_of_perm _ _ (h.flatMap_right _)

theorem literalSet_perm : literalSet m ps = literalSet m qs :=
  List.toFinset_eq_of_perm _ _ (((h.flatMap_right _).flatMap_right _).map _)

theorem requiredSet_perm : requiredSet ps = requiredSet qs := by
  rw [requiredSet, requiredSet, List.toFinset_eq_of_perm _ _ (h.map _)]

theorem EngineStats.census_perm : EngineStats.census m ps = EngineStats.census m qs := by
  simp only [census, h.length_eq, h.countP_eq, fragmentSet_perm h, literalSet_perm h, requiredSet_perm h]

theorem MatchStats.census_perm (t : Bytes) : MatchStats.census m ps t = MatchStats.census m qs t := by
  simp only [census, h.countP_eq, fragmentSet_perm h, requiredSet_perm h]

end Order

/-! ## Literals and states -/

/-- The needles of a table are those of the patterns. -/
theorem Registry.mem_literalSet {κ : Type} {r : Registry κ} {table : FragmentTable} (hs : r.Sound table)
    (hf : r.Filled table) {m : CaseMode} {v : Bytes} : v ∈ literalSet m r.texts ↔ v ∈ table.needles.map m.foldBytes := by
  have hiff (y : Bytes) : y ∈ r.texts.flatMap fragments ↔ ∃ f ∈ table.toList, f.text = y := by
    rw [← List.mem_toFinset, ← fragmentSet, ← toFinset_map_text hs hf, List.mem_toFinset, List.mem_map]
  rw [literalSet, List.mem_toFinset, List.mem_map, List.mem_map]
  refine exists_congr fun n => and_congr_left fun _ => ?_
  rw [FragmentTable.needles, List.mem_flatMap, List.mem_flatMap]
  simp only [hiff]
  constructor
  · rintro ⟨y, ⟨f, hm, rfl⟩, hn⟩
    exact ⟨f, hm, by rwa [hs.interned.needles_eq f hm]⟩
  · rintro ⟨f, hm, hn⟩
    exact ⟨f.text, ⟨f, hm, rfl⟩, by rwa [← hs.interned.needles_eq f hm]⟩

namespace CompiledIndex

variable {κ : Type} {r : Registry κ} {table : FragmentTable} {x : CompiledIndex .automaton}
variable (hr : r.Sound table) (hf : r.Filled table) (hx : build .automaton r table = .ok x)
include hr hf hx

/-- There is an id for each literal. -/
theorem literalCount_eq_card : x.literalCount = (literalSet r.config.mode r.texts).card := by
  have hset : (table.literals r.config.mode).toFinset = literalSet r.config.mode r.texts := by
    ext v
    rw [List.mem_toFinset, FragmentTable.literals, List.mem_eraseDups, Registry.mem_literalSet hr hf]
  rw [literalCount_eq_length hx, ← hset, List.toFinset_card_of_nodup (table.nodup_literals _)]

/-- There is a state for each beginning of a literal. -/
theorem stateCount_eq_card :
    Scanner.automaton.stateCount x.scanner = (prefixSet (literalSet r.config.mode r.texts)).card := by
  obtain ⟨b, ls, hscan, -, hb, hmem, -⟩ := exists_holds_of_build hx
  obtain ⟨ws, hws, hprefix⟩ := hb.spells
  have hset : ws.toFinset = prefixSet (literalSet r.config.mode r.texts) := by
    ext v
    simp only [prefixSet, List.mem_toFinset, hprefix, Finset.mem_insert, Finset.mem_biUnion, List.mem_inits,
      Registry.mem_literalSet hr hf, hmem]
  have hsize : Scanner.automaton.stateCount x.scanner = b.trie.size := by
    rw [hscan]
    exact Literal.size_freeze b.trie
  rw [hsize, hws.size_eq, ← hset, List.toFinset_card_of_nodup hws.nodup]

end CompiledIndex

namespace Engine

variable {κ : Type} {c : Config} {e : Engine .automaton κ} {x : CompiledIndex .automaton}

theorem stats_eq_census (h : Reachable c e) (hx : e.phase.index? = some x) :
    e.stats = { EngineStats.census c.mode e.texts with
      totalQueries := e.totalQueries.toNat, lastGlobCalls := e.lastGlobCalls } := by
  have hs := h.sound
  have hb := hs.index x hx
  obtain rfl := hs.config_eq
  have hsize : e.registry.size = e.texts.length := by simp [texts, Registry.texts, Registry.toList, Registry.size]
  rw [stats, hx, EngineStats.census, EngineStats.of]
  simp only [Option.elim_some]
  rw [CompiledIndex.literalCount_eq_card hs.patterns h.filled hb, CompiledIndex.stateCount_eq_card hs.patterns h.filled hb,
    CompiledIndex.metaWords_of_build hb, MetaWordIndex.size_build hs.patterns, Registry.wildcardOnlyCount_eq hs.patterns,
    Registry.size_eq_card hs.patterns h.filled, hsize]
  rfl

/-- The patterns that are reported are counted by their texts. -/
theorem count_run_eq_countP (h : Reachable c e) (hx : e.phase.index? = some x) (t : Bytes) :
    (x.run e.registry t).count = e.texts.countP fun p => (Glob.parse c.mode p).accepts t := by
  have hperm := reported_perm_of_sees h.sound hx (sees_of_automaton h.sound hx t)
  rw [Outcome.count_of_perm rfl hperm, ← List.countP_eq_length_filter, texts, ← Registry.map_text_stored, List.countP_map]
  rfl

theorem stats_run_eq_census (h : Reachable c e) (hx : e.phase.index? = some x) (t : Bytes) :
    (x.run e.registry t).stats = .census c.mode e.texts t := by
  have hs := h.sound
  have hb := hs.index x hx
  have hfound (f : Nat) : f ∈ x.found (Scanner.automaton.scan x.scanner t) ↔
      ∃ fr, e.table.get? f = some fr ∧ Present c.mode t fr.text := mem_found_of_automaton hs hx
  have hcandidates := CompiledIndex.length_candidates hs.patterns hb hfound
  refine MatchStats.ext ?_ ?_ ?_ ?_ ?_ ?_
  · exact CompiledIndex.length_found hs.patterns hb hfound h.filled
  · exact CompiledIndex.length_checked hs.patterns hb hfound
  · exact CompiledIndex.satisfied_resolve hs.patterns hb hfound
  · show (x.resolve _).candidates.length + x.metaWords.wildcardOnly.length = _
    rw [hcandidates, length_wildcardOnly hs.patterns hb]
    rfl
  · rw [globCalls_run hs.patterns hb]
    show (x.resolve _).candidates.length + _ = _
    rw [hcandidates]
    rfl
  · rw [hits_stats_run, count_run_eq_countP h hx]
    rfl

/-- The texts that a query lists are those that match. -/
theorem mem_texts_run (h : Reachable c e) (hx : e.phase.index? = some x) (t y : Bytes) :
    y ∈ (x.run e.registry t).texts ↔ y ∈ e.texts ∧ (Glob.parse c.mode y).accepts t = true := by
  have hperm := reported_perm_of_sees h.sound hx (sees_of_automaton h.sound hx t)
  rw [Outcome.mem_texts_of_perm hperm, texts, ← Registry.map_text_stored, List.mem_map]
  simp only [List.mem_filter, Prod.exists]
  constructor
  · rintro ⟨id, k, hm, ha⟩
    exact ⟨⟨id, y, k, hm, rfl⟩, ha⟩
  · rintro ⟨⟨id, z, k, hm, rfl⟩, ha⟩
    exact ⟨id, k, hm, ha⟩

/-! ## Equal engines -/

/-- Engines are equal when their patterns are the same, in whatever order. -/
theorem beq_iff_perm {S : Scanner} (a b : Engine S κ) : (a == b) = true ↔ a.texts.Perm b.texts := by
  have hdef : (a == b) = (a.sortedTexts == b.sortedTexts) := rfl
  rw [hdef, beq_iff_eq]
  have ha : a.sortedTexts.Perm a.texts := List.mergeSort_perm _ _
  have hb : b.sortedTexts.Perm b.texts := List.mergeSort_perm _ _
  constructor
  · intro he
    exact (ha.symm.trans (he ▸ .refl _)).trans hb
  · intro h
    refine ((ha.trans h).trans hb.symm).eq_of_pairwise (fun _ _ _ _ => List.le_antisymm) ?_ ?_
    · exact List.pairwise_mergeSort' (· ≤ ·) _
    · exact List.pairwise_mergeSort' (· ≤ ·) _

/-- **The order of insertion does not matter.** Engines are equal when their patterns are the same, each as often, in whatever
order; and compiled engines that are equal and of the same settings count and list the same for every text, with the same
effort, and are of the same size. -/
theorem order_irrelevant :
    (∀ {S : Scanner} {κ : Type} (a b : Engine S κ), (a == b) = true ↔ a.texts.Perm b.texts) ∧
      ∀ {κ : Type} {c : Config} (a b : Engine .automaton κ), Reachable c a → Reachable c b →
        a.phase.isCompiled = true → b.phase.isCompiled = true → (a == b) = true →
        (∀ t, ∃ n found calls calls' s,
          (a.count t).1 = .ok n ∧ (b.count t).1 = .ok n ∧
          (a.get t).1 = .ok found ∧ (b.get t).1 = .ok found ∧
          (a.findWithStats t).1 = .ok (calls, s) ∧ (b.findWithStats t).1 = .ok (calls', s)) ∧
        a.stats.patterns = b.stats.patterns ∧ a.stats.wildcardOnly = b.stats.wildcardOnly ∧
        a.stats.fragments = b.stats.fragments ∧ a.stats.literals = b.stats.literals ∧
        a.stats.metaWords = b.stats.metaWords ∧ a.stats.scannerStates = b.stats.scannerStates := by
  refine ⟨fun a b => beq_iff_perm a b, fun {κ c} a b ha hb hca hcb heq => ?_⟩
  obtain ⟨x, hx⟩ := Option.isSome_iff_exists.1 hca
  obtain ⟨y, hy⟩ := Option.isSome_iff_exists.1 hcb
  have hperm := (beq_iff_perm a b).1 heq
  constructor
  · intro t
    have hstats : (x.run a.registry t).stats = (y.run b.registry t).stats := by
      rw [stats_run_eq_census ha hx, stats_run_eq_census hb hy, MatchStats.census_perm hperm]
    have hcount : (x.run a.registry t).count = (y.run b.registry t).count := by
      rw [← hits_stats_run, hstats, hits_stats_run]
    have htexts : (x.run a.registry t).texts = (y.run b.registry t).texts := by
      refine (Outcome.pairwise_texts _).eq_of_mem_iff (Outcome.pairwise_texts _) fun z => ?_
      rw [mem_texts_run ha hx, mem_texts_run hb hy, hperm.mem_iff]
    refine ⟨(y.run b.registry t).count, (y.run b.registry t).texts, (x.run a.registry t).entries,
      (y.run b.registry t).entries, (y.run b.registry t).stats, ?_, ask_of_index? Outcome.count hy t,
      ?_, ask_of_index? Outcome.texts hy t, ?_, ask_of_index? (fun o => (o.entries, o.stats)) hy t⟩
    · rw [← hcount]
      exact ask_of_index? Outcome.count hx t
    · rw [← htexts]
      exact ask_of_index? Outcome.texts hx t
    · rw [← hstats]
      exact ask_of_index? (fun o => (o.entries, o.stats)) hx t
  · rw [stats_eq_census ha hx, stats_eq_census hb hy, EngineStats.census_perm hperm]
    exact ⟨rfl, rfl, rfl, rfl, rfl, rfl⟩

/-- The patterns `ab*`, `*c?b` and `*`, and the same the other way round, where all handles and ids are different. -/
theorem order_irrelevant_reversed :
    let ps : List (Bytes × Nat) := [([97, 98, 42], 0), ([42, 99, 63, 98], 1), ([42], 2)]
    let a := ((Engine.empty .automaton Nat .standard).insertEach ps).2.compile.2
    let b := ((Engine.empty .automaton Nat .standard).insertEach ps.reverse).2.compile.2
    (a == b) = true ∧ (∀ t, ∃ n, (a.count t).1 = .ok n ∧ (b.count t).1 = .ok n) ∧
      a.stats.scannerStates = b.stats.scannerStates := by
  intro ps a b
  obtain ⟨hbeq, hagree⟩ := order_irrelevant
  have heq : (a == b) = true := (hbeq a b).2 (by decide +kernel)
  have hca : a.phase.isCompiled = true := by decide +kernel
  have hcb : b.phase.isCompiled = true := by decide +kernel
  obtain ⟨hqueries, -, -, -, -, -, hstates⟩ := hagree (c := .standard) a b (Reachable.empty.insertEach _).compile
    (Reachable.empty.insertEach _).compile hca hcb heq
  refine ⟨heq, fun t => ?_, hstates⟩
  obtain ⟨n, -, -, -, -, ha, hb, -⟩ := hqueries t
  exact ⟨n, ha, hb⟩

end Engine

end GlobSieve
