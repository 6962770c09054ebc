import GlobSieve.Proofs.Engine.Exactness
import GlobSieve.Proofs.Literal.Integrity
import GlobSieve.Proofs.Pattern.Filing

/-!
# An engine passes its check

Whatever calls were made, and whatever ids the scanner gave, nothing is wrong with an engine but what the scanner finds
wrong with itself (`audit_exact`). Every pattern is faithful and the meta-words are those of a sound registry; the tables
between ids and fragments are right because there is one set of ids for each fragment (`literalDefects_build`), and an
automaton that was built from needles finds nothing wrong with itself (`problems_of_build`).
-/

namespace GlobSieve

namespace CompiledIndex

variable {S : Scanner} {κ : Type} {r : Registry κ} {table : FragmentTable} {x : CompiledIndex S}

/-- The tables of as many sets of ids as there are fragments pass their check. -/
theorem literalDefects_ofSets (metaWords : MetaWordIndex) (scanner : S.Built) (sets : List (List Nat)) :
    (ofSets metaWords scanner sets).literalDefects sets.length = [] := by
  simp only [literalDefects, List.append_eq_nil_iff]
  refine ⟨⟨?_, ?_⟩, ?_⟩
  · rw [if_pos]
    simp [ofSets]
  · rw [List.map_eq_nil_iff, List.filter_eq_nil_iff]
    intro f hf
    obtain ⟨s, hs, he⟩ := mem_placesOf.1 hf
    simp [ofSets, hs, List.isEmpty_iff.1 he]
  · apply numbered_eq_nil
    intro id fs hfs
    rw [List.map_eq_nil_iff]
    apply filter_le_eq_nil
    intro f hf
    have hfs' : f ∈ (ofSets metaWords scanner sets).fragmentsOf id := by
      rw [fragmentsOf, Array.getD_eq_getD_getElem?, ← Array.getElem?_toList, hfs]
      exact hf
    obtain ⟨s, hs, -⟩ := mem_fragmentsOf_ofSets.1 hfs'
    exact (List.getElem?_eq_some_iff.1 hs).1

theorem literalDefects_build (hx : build S r table = .ok x) : x.literalDefects table.size = [] := by
  obtain ⟨sets, -, -, -, -, he, hall⟩ := of_build_eq_ok hx
  have hlen : table.size = sets.length := by
    rw [← hall.length_eq]
    simp [FragmentTable.size, FragmentTable.toList]
  rw [he, hlen]
  exact literalDefects_ofSets _ _ _

/-- Nothing is wrong with an index but what the scanner finds. -/
theorem defects_of_build (h : r.Sound table) (hx : build S r table = .ok x) :
    x.defects r table.size = (S.problems x.scanner).map .scanner := by
  rw [defects, literalDefects_build hx, metaWords_of_build hx, MetaWordIndex.defects_build h]
  rfl

/-- An automaton that was built from needles finds nothing wrong with itself. -/
theorem problems_of_build {x : CompiledIndex .automaton} (hx : build .automaton r table = .ok x) :
    Scanner.automaton.problems x.scanner = [] := by
  obtain ⟨b, ls, hscan, -, hb, -, -⟩ := exists_holds_of_build hx
  show (Literal.Automaton.defects x.scanner).map Literal.Defect.message = []
  rw [hscan, Literal.Automaton.defects_ofBuilder hb]
  rfl

end CompiledIndex

namespace Engine

variable {S : Scanner} {κ : Type} {c : Config} {e : Engine S κ} {x : CompiledIndex S}

/-- What is wrong with an engine is what is wrong with its scanner. -/
theorem errors_audit (h : Reachable c e) :
    e.audit.errors = e.phase.index?.elim [] fun x => (S.problems x.scanner).map .scanner := by
  have hs := h.sound
  have hpatterns : numbered e.registry.toList (StoredPattern.defects e.table.size) = [] := by
    apply numbered_eq_nil
    intro i p hp
    exact (hs.patterns.faithful p (List.mem_of_getElem? hp)).defects_eq_nil hs.patterns.interned i
  show numbered _ _ ++ e.phase.index?.elim [] (·.defects e.registry e.table.size) = _
  rw [hpatterns, List.nil_append]
  cases hx : e.phase.index? with
  | none => rfl
  | some x => exact CompiledIndex.defects_of_build hs.patterns (hs.index x hx)

/-- **An engine passes its check**, apart from what the scanner reports of itself. -/
theorem audit_exact (h : Reachable c e) :
    (e.phase.index? = none → e.audit.errors = []) ∧
      (∀ x, e.phase.index? = some x →
        e.audit.errors.map EngineDefect.message = (S.problems x.scanner).map ("Scanner: " ++ ·) ∧
          e.audit.backRefs = (x.metaWords.metaWords.toList.map (·.fragments.length)).sum) ∧
      (S = .automaton → e.audit.errors = []) ∧
      e.audit.unreferenced = 0 ∧
      e.audit.wildcardOnly = e.texts.countP (·.all isWildcardByte) := by
  have hs := h.sound
  have herrors := errors_audit h
  refine ⟨?_, ?_, ?_, Registry.unreferenced_eq_zero h.filled hs.patterns, Registry.wildcardOnlyCount_eq hs.patterns⟩
  · intro hn
    rw [herrors, hn]
    rfl
  · intro x hx
    constructor
    · rw [herrors, hx]
      show ((S.problems x.scanner).map EngineDefect.scanner).map EngineDefect.message = _
      rw [List.map_map]
      rfl
    · have hrefs : e.audit.backRefs = x.metaWords.backRefCount := by
        show e.phase.index?.elim 0 (·.metaWords.backRefCount) = _
        rw [hx]
        rfl
      rw [hrefs, CompiledIndex.metaWords_of_build (hs.index x hx), MetaWordIndex.backRefCount_build hs.patterns]
  · rintro rfl
    rw [herrors]
    cases hx : e.phase.index? with
    | none => rfl
    | some x =>
      show (Scanner.automaton.problems x.scanner).map EngineDefect.scanner = []
      rw [CompiledIndex.problems_of_build (hs.index x hx)]
      rfl

/-- Patterns that share fragments, one of them twice, wildcards among them, and a scanner that finds fault with itself. -/
theorem audit_exact_scripted :
    let script : Script := ⟨[.ok 3, .error (.duplicate 3)], none, [], 1, ["broken"]⟩
    let ps : List (Bytes × Nat) := [([97, 42, 98], 0), ([42, 63], 1), ([98, 63, 97], 2), ([98], 3)]
    let e := ((Engine.empty (.scripted script) Nat .standard).insertEach ps).2.compile.2
    Reachable .standard e ∧ e.audit.errors.map EngineDefect.message = ["Scanner: broken"] ∧ e.audit.backRefs = 3 ∧
      e.audit.wildcardOnly = 1 := by
  intro script ps e
  have hr : Reachable .standard e := (Reachable.empty.insertEach ps).compile
  have hc : e.phase.index?.isSome = true := by decide +kernel
  obtain ⟨x, hx⟩ := Option.isSome_iff_exists.1 hc
  obtain ⟨-, hcompiled, -, -, hwild⟩ := audit_exact hr
  obtain ⟨herrors, hrefs⟩ := hcompiled x hx
  refine ⟨hr, herrors, ?_, ?_⟩
  · have hsum : (e.phase.index?.map fun x => (x.metaWords.metaWords.toList.map (·.fragments.length)).sum) = some 3 := by
      decide +kernel
    rw [hx] at hsum
    exact hrefs.trans (Option.some.inj hsum)
  · rw [hwild]
    decide +kernel

end Engine

end GlobSieve
