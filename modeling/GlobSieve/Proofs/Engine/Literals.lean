import Mathlib.Data.Finset.Card
import GlobSieve.Engine.Stats
import GlobSieve.Proofs.Engine.Reachable
import GlobSieve.Proofs.Engine.Tabulation
import GlobSieve.Proofs.Query.Report

/-!
# Literals of a compiled engine

Needles are taken for the same three times: a fragment lists each of its needles once, an engine that ignores case has one literal
for needles that differ in case alone, and fragments share literals. Over the automaton an id is the place of a literal among
those of the table (`FragmentTable.literals`), so the set of ids of a fragment is the set of its literals
(`mem_ids_iff`, `length_ids`), and the tables of the index are read off these sets.
-/

namespace GlobSieve

namespace CompiledIndex

theorem foldl_max_le {l : List Nat} {k n : Nat} (hk : k ≤ n) (h : ∀ id ∈ l, id < n) :
    l.foldl (fun n id => max n (id + 1)) k ≤ n := by
  induction l generalizing k with
  | nil => exact hk
  | cons id l ih =>
    have hid := h id List.mem_cons_self
    rw [List.foldl_cons]
    exact ih (by omega) fun i hi => h i (List.mem_cons_of_mem _ hi)

theorem slotCount_le {sets : List (List Nat)} {n : Nat} (h : ∀ s ∈ sets, ∀ id ∈ s, id < n) : slotCount sets ≤ n := by
  refine foldl_max_le (Nat.zero_le n) fun id hid => ?_
  obtain ⟨s, hs, hm⟩ := List.mem_flatten.1 hid
  exact h s hs id hm

variable {κ : Type} {r : Registry κ} {table : FragmentTable} {x : CompiledIndex .automaton} {fr : Fragment} {s : List Nat}
variable {f id : Nat} {n l : Bytes}

theorem mem_needles (hf : table.get? f = some fr) (hn : n ∈ fr.needles) : n ∈ table.needles :=
  List.mem_flatMap.2 ⟨fr, FragmentTable.mem_toList_of_get? hf, hn⟩

theorem mem_literals {m : CaseMode} (hf : table.get? f = some fr) (hn : n ∈ fr.needles) :
    m.foldBytes n ∈ table.literals m := List.mem_eraseDups.2 (List.mem_map_of_mem (mem_needles hf hn))

variable (hx : build .automaton r table = .ok x)
include hx

/-- An id is answered to the needles of its literal. -/
theorem mem_answers_iff : (n, id) ∈ Scanner.automaton.answers r.config table ↔
    n ∈ table.needles ∧ (table.literals r.config.mode).idxOf (r.config.mode.foldBytes n) = id := by
  obtain ⟨b, -, -, -, hans⟩ := holds_of_build hx
  rw [hans, List.mem_map]
  constructor
  · rintro ⟨n', hn, he⟩
    cases he
    exact ⟨hn, rfl⟩
  · rintro ⟨hn, rfl⟩
    exact ⟨n, hn, rfl⟩

/-- The ids of a fragment are the places of its literals. -/
theorem mem_ids_iff (ha : Answered (Scanner.automaton.answers r.config table) fr s) :
    id ∈ s ↔ ∃ n ∈ fr.needles, (table.literals r.config.mode).idxOf (r.config.mode.foldBytes n) = id := by
  constructor
  · intro hid
    obtain ⟨n, hn, hans⟩ := ha.of_mem id hid
    exact ⟨n, hn, ((mem_answers_iff hx).1 hans).2⟩
  · rintro ⟨n, hn, he⟩
    obtain ⟨id', hid', hans⟩ := ha.of_needle n hn
    rwa [← he, ((mem_answers_iff hx).1 hans).2]

/-- A fragment has as many ids as literals. -/
theorem length_ids (hf : table.get? f = some fr) (ha : Answered (Scanner.automaton.answers r.config table) fr s) :
    s.length = (fr.needles.map r.config.mode.foldBytes).toFinset.card := by
  have himage : s.toFinset = (fr.needles.map r.config.mode.foldBytes).toFinset.image
      fun v => (table.literals r.config.mode).idxOf v := by
    ext id
    rw [List.mem_toFinset, mem_ids_iff hx ha]
    simp
  rw [← List.toFinset_card_of_nodup ha.nodup, himage, Finset.card_image_of_injOn]
  intro v hv w hw he
  obtain ⟨n, hn, rfl⟩ := List.mem_map.1 (List.mem_toFinset.1 hv)
  exact (List.idxOf_inj (mem_literals hf hn)).1 he

/-- An index is made of the sets of ids of its fragments. -/
theorem exists_ids_of_build : ∃ sets, x = ofSets (.build r table) x.scanner sets ∧
    (∀ f fr, table.get? f = some fr → ∃ s, sets[f]? = some s ∧ Answered (Scanner.automaton.answers r.config table) fr s) ∧
    ∀ f s, sets[f]? = some s → ∃ fr, table.get? f = some fr ∧ Answered (Scanner.automaton.answers r.config table) fr s := by
  obtain ⟨sets, -, -, -, -, he, hall⟩ := of_build_eq_ok hx
  refine ⟨sets, he, fun f fr hf => ?_, fun f s hs => ?_⟩
  · exact exists_of_forall₂ hall ((FragmentTable.getElem?_toList table f).trans hf)
  · obtain ⟨fr, hf, ha⟩ := exists_of_forall₂ hall.flip hs
    exact ⟨fr, (FragmentTable.getElem?_toList table f).symm.trans hf, ha⟩

/-- An id leads to the fragments of its literal. -/
theorem mem_fragmentsOf_iff_literal (hl : (table.literals r.config.mode)[id]? = some l) : f ∈ x.fragmentsOf id ↔
    ∃ fr, table.get? f = some fr ∧ ∃ n ∈ fr.needles, r.config.mode.foldBytes n = l := by
  obtain ⟨sets, he, hof, hto⟩ := exists_ids_of_build hx
  have hplace {fr : Fragment} {n : Bytes} (hf : table.get? f = some fr) (hn : n ∈ fr.needles) :
      (table.literals r.config.mode).idxOf (r.config.mode.foldBytes n) = id ↔ r.config.mode.foldBytes n = l := by
    rw [idxOf_eq_iff (table.nodup_literals _) (mem_literals hf hn), hl, Option.some.injEq, eq_comm]
  rw [he, mem_fragmentsOf_ofSets]
  constructor
  · rintro ⟨s, hs, hid⟩
    obtain ⟨fr, hf, ha⟩ := hto f s hs
    obtain ⟨n, hn, hn'⟩ := (mem_ids_iff hx ha).1 hid
    exact ⟨fr, hf, n, hn, (hplace hf hn).1 hn'⟩
  · rintro ⟨fr, hf, n, hn, hn'⟩
    obtain ⟨s, hs, ha⟩ := hof f fr hf
    exact ⟨s, hs, (mem_ids_iff hx ha).2 ⟨n, hn, (hplace hf hn).2 hn'⟩⟩

theorem fragmentsOf_ne_nil (hl : (table.literals r.config.mode)[id]? = some l) : x.fragmentsOf id ≠ [] := by
  obtain ⟨n, hn, hfold⟩ := List.mem_map.1 (List.mem_eraseDups.1 (List.mem_of_getElem? hl))
  obtain ⟨fr, hfr, hn⟩ := List.mem_flatMap.1 hn
  obtain ⟨f, hf⟩ := List.getElem?_of_mem hfr
  rw [FragmentTable.getElem?_toList] at hf
  exact List.ne_nil_of_mem ((mem_fragmentsOf_iff_literal hx hl).2 ⟨fr, hf, n, hn, hfold⟩)

theorem pairwise_fragmentsOf (id : Nat) : (x.fragmentsOf id).Pairwise (· < ·) := by
  obtain ⟨sets, he, -, -⟩ := exists_ids_of_build hx
  rw [he, fragmentsOf_ofSets]
  split
  · exact pairwise_placesOf _ _
  · exact List.Pairwise.nil

/-- There is an id for each literal. -/
theorem literalCount_eq_length : x.literalCount = (table.literals r.config.mode).length := by
  obtain ⟨sets, he, hof, hto⟩ := exists_ids_of_build hx
  have hcount : x.literalCount = slotCount sets := by
    rw [he]
    simp [literalCount, ofSets]
  rw [hcount]
  refine Nat.le_antisymm (slotCount_le fun s hs id hid => ?_) (Nat.le_of_not_lt fun hlt => ?_)
  · -- an id that is answered is the place of a literal
    obtain ⟨f, hf⟩ := List.mem_iff_getElem?.1 hs
    obtain ⟨fr, hfr, ha⟩ := hto f s hf
    obtain ⟨n, hn, rfl⟩ := (mem_ids_iff hx ha).1 hid
    exact List.idxOf_lt_length_of_mem (mem_literals hfr hn)
  · -- a literal leads to a fragment, so its place was answered
    have hl := List.getElem?_eq_getElem hlt
    obtain ⟨f, hf⟩ := List.exists_mem_of_ne_nil _ (fragmentsOf_ne_nil hx hl)
    rw [he] at hf
    obtain ⟨s, hs, hid⟩ := mem_fragmentsOf_ofSets.1 hf
    exact Nat.lt_irrefl _ (lt_slotCount (List.mem_of_getElem? hs) hid)

theorem getElem?_literalsNeeded (hf : table.get? f = some fr) :
    x.literalsNeeded[f]? = some (fr.needles.map r.config.mode.foldBytes).toFinset.card := by
  obtain ⟨sets, he, hof, -⟩ := exists_ids_of_build hx
  obtain ⟨s, hs, ha⟩ := hof f fr hf
  rw [he]
  simp [ofSets, hs, length_ids hx hf ha]

theorem size_literalsNeeded : x.literalsNeeded.size = table.size := by
  obtain ⟨sets, -, -, -, -, he, hall⟩ := of_build_eq_ok hx
  rw [he]
  simp [ofSets, FragmentTable.size, FragmentTable.toList, ← hall.length_eq]

theorem pairwise_alwaysPresent : x.alwaysPresent.Pairwise (· < ·) := by
  obtain ⟨sets, he, -, -⟩ := exists_ids_of_build hx
  rw [he]
  exact pairwise_placesOf _ _

theorem mem_alwaysPresent_iff : f ∈ x.alwaysPresent ↔ ∃ fr, table.get? f = some fr ∧ fr.needles = [] := by
  obtain ⟨sets, he, hof, hto⟩ := exists_ids_of_build hx
  have hempty {fr : Fragment} {s : List Nat} (ha : Answered (Scanner.automaton.answers r.config table) fr s) :
      s.isEmpty = true ↔ fr.needles = [] := by
    rw [List.isEmpty_iff, List.eq_nil_iff_forall_not_mem, List.eq_nil_iff_forall_not_mem]
    constructor
    · intro hs n hn
      obtain ⟨id, hid, -⟩ := ha.of_needle n hn
      exact hs id hid
    · intro hs id hid
      obtain ⟨n, hn, -⟩ := ha.of_mem id hid
      exact hs n hn
  rw [he]
  refine mem_placesOf.trans ⟨?_, ?_⟩
  · rintro ⟨s, hs, hs'⟩
    obtain ⟨fr, hf, ha⟩ := hto f s hs
    exact ⟨fr, hf, (hempty ha).1 hs'⟩
  · rintro ⟨fr, hf, hn⟩
    obtain ⟨s, hs, ha⟩ := hof f fr hf
    exact ⟨s, hs, (hempty ha).2 hn⟩

end CompiledIndex

namespace Engine

variable {κ : Type} {c : Config} {e : Engine .automaton κ} {x : CompiledIndex .automaton}

/-- **Needles are mapped to literals exactly.** The index is made without a failure of an array access. Its ids are the places of
the literals, which are the needles of all fragments, folded, each once, in the order of their first places, and a scan lists the
ids of the literals in the text. An id leads to the fragments that have a needle of its literal, of which there is one at least;
of a fragment as many ids are needed as it has literals, and it is always present if it has no needle. The literals are counted in
the statistics. -/
theorem literals_exact (h : Reachable c e) (hx : e.phase.index? = some x) :
    let fold := c.mode.foldBytes
    let literals := (e.table.needles.map fold).eraseDups
    CompiledIndex.buildInPlace? .automaton e.registry e.table = some (.ok x) ∧
      Scanner.automaton.answers c e.table = e.table.needles.map (fun n => (n, literals.idxOf (fold n))) ∧
      (∀ (t : Bytes) (id : Nat), id ∈ Scanner.automaton.scan x.scanner t ↔ ∃ l, literals[id]? = some l ∧ l <:+: fold t) ∧
      x.literalFragments.size = literals.length ∧
      (∀ (id : Nat) (l : Bytes), literals[id]? = some l → ∃ fs, x.literalFragments[id]? = some fs ∧ fs ≠ [] ∧ fs.Pairwise (· < ·) ∧
        ∀ f, f ∈ fs ↔ ∃ fr, e.table.get? f = some fr ∧ ∃ n ∈ fr.needles, fold n = l) ∧
      x.literalsNeeded.size = e.table.size ∧
      (∀ f fr, e.table.get? f = some fr → x.literalsNeeded[f]? = some (fr.needles.map fold).toFinset.card) ∧
      x.alwaysPresent.Pairwise (· < ·) ∧
      (∀ f, f ∈ x.alwaysPresent ↔ ∃ fr, e.table.get? f = some fr ∧ fr.needles = []) ∧
      e.stats.literals = (e.table.needles.map fold).toFinset.card := by
  intro fold literals
  have hs := h.sound
  have hb := hs.index x hx
  have hsize := CompiledIndex.literalCount_eq_length hb
  obtain ⟨b, hscan, hmode, hholds, hans⟩ := holds_of_build hb
  rw [hs.config_eq] at hmode hholds hans hsize
  refine ⟨?_, hans, fun t id => ?_, hsize, fun id l hl => ?_, CompiledIndex.size_literalsNeeded hb, fun f fr hf => ?_,
    CompiledIndex.pairwise_alwaysPresent hb, fun f => CompiledIndex.mem_alwaysPresent_iff hb, ?_⟩
  · rw [CompiledIndex.buildInPlace?_eq hs.patterns.grounded, hb]
  · rw [hscan]
    refine (Literal.Automaton.mem_scan_iff hholds).trans ?_
    rw [hmode]
    rfl
  · have hlt : id < x.literalFragments.size := by
      rw [show x.literalFragments.size = literals.length from hsize]
      exact (List.getElem?_eq_some_iff.1 hl).1
    have hrow : x.literalFragments[id]? = some (x.fragmentsOf id) := by
      simp [CompiledIndex.fragmentsOf, Array.getD_eq_getD_getElem?, hlt]
    have hl' : (e.table.literals e.registry.config.mode)[id]? = some l := by rwa [hs.config_eq]
    refine ⟨_, hrow, CompiledIndex.fragmentsOf_ne_nil hb hl', CompiledIndex.pairwise_fragmentsOf hb id, fun f => ?_⟩
    rw [CompiledIndex.mem_fragmentsOf_iff_literal hb hl', hs.config_eq]
  · rw [CompiledIndex.getElem?_literalsNeeded hb hf, hs.config_eq]
  · have hstats : e.stats.literals = x.literalCount := by rw [stats, hx]; rfl
    have hset : literals.toFinset = (e.table.needles.map fold).toFinset := by
      ext v
      simp [literals]
    rw [hstats, hsize, ← hset, List.toFinset_card_of_nodup (nodup_eraseDups _)]
    rfl

/-- The patterns `ab[0-9]AB*[x]` and `AB?c[d]C` where case is ignored: of the four fragments the first and the last have two
needles but one literal each, the second has none, and the third shares the literal of the first. -/
theorem literals_exact_folded :
    let c : Config := ⟨.insensitive, 8⟩
    let ps : List (Bytes × Nat) :=
      [([97, 98, 91, 48, 45, 57, 93, 65, 66, 42, 91, 120, 93], 0), ([65, 66, 63, 99, 91, 100, 93, 67], 1)]
    let e := ((Engine.empty .automaton Nat c).insertEach ps).2.compile.2
    Reachable c e ∧ ∃ x, e.phase.index? = some x ∧ x.literalFragments.size = 2 ∧
      x.literalFragments[0]? = some [0, 2] ∧ x.literalsNeeded[0]? = some 1 ∧ 1 ∈ x.alwaysPresent ∧
      e.stats.literals = 2 := by
  intro c ps e
  have hr : Reachable c e := (Reachable.empty.insertEach ps).compile
  have hc : e.phase.isCompiled = true := by decide +kernel
  have hlits : (e.table.needles.map c.mode.foldBytes).eraseDups = [[97, 98], [99]] := by decide +kernel
  have htable : e.table.toList.map (·.needles) = [[[97, 98], [65, 66]], [], [[65, 66]], [[99], [67]]] := by decide +kernel
  have hget (f : Nat) : (e.table.get? f).map (·.needles) = [[[97, 98], [65, 66]], [], [[65, 66]], [[99], [67]]][f]? := by
    rw [← htable, List.getElem?_map, FragmentTable.getElem?_toList]
  obtain ⟨x, hx⟩ := Option.isSome_iff_exists.1 hc
  obtain ⟨-, -, -, hsize, hrow, -, hneeded, -, halways, hstats⟩ := literals_exact hr hx
  obtain ⟨fr, hfr, hneedles⟩ := Option.map_eq_some_iff.1 (hget 0)
  obtain ⟨fr', hfr', hneedles'⟩ := Option.map_eq_some_iff.1 (hget 1)
  obtain ⟨fs, hfs, -, hasc, hmem⟩ := hrow 0 [97, 98] (by rw [hlits]; rfl)
  have hshared : fs = [0, 2] := by
    refine hasc.eq_of_mem_iff (by decide) fun f => (hmem f).trans ?_
    have hrows : (∃ fr, e.table.get? f = some fr ∧ ∃ n ∈ fr.needles, c.mode.foldBytes n = [97, 98]) ↔
        ∃ ns, (e.table.get? f).map (·.needles) = some ns ∧ ∃ n ∈ ns, c.mode.foldBytes n = [97, 98] := by
      cases e.table.get? f <;> simp
    have hfold : c.mode.foldBytes [97, 98] = [97, 98] ∧ c.mode.foldBytes [65, 66] = [97, 98] ∧
        c.mode.foldBytes [99] = [99] ∧ c.mode.foldBytes [67] = [99] := by decide +kernel
    rw [hrows, hget]
    rcases f with _ | _ | _ | _ | f <;> simp [hfold]
  refine ⟨hr, x, hx, by rw [hsize, hlits]; rfl, by rw [hfs, hshared], ?_, (halways 1).2 ⟨fr', hfr', hneedles'⟩, ?_⟩
  · rw [hneeded 0 fr hfr, hneedles]
    decide +kernel
  · rw [hstats]
    decide +kernel

end Engine

end GlobSieve
