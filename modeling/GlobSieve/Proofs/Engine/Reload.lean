import GlobSieve.Proofs.Archive.RoundTrip
import GlobSieve.Proofs.Engine.Reachable
import GlobSieve.Proofs.Pattern.Relabeling
import GlobSieve.Proofs.Query.Report

/-!
# An engine is built again from its archive

The archive of an engine has the texts of its patterns. Inserting these in turn into a new engine leads to the same registry
and the same table, whatever insertions failed in between and whatever the cookies are (`Reachable.replays`). An index
depends on nothing else, so compiling cannot fail where it did not before, and queries of the two engines take the same
course (`run_relabel`).
-/

namespace GlobSieve

variable {S : Scanner} {κ κ' : Type}

/-! ## The index and the cookies -/

namespace CompiledIndex

variable (f : Nat → Bytes → κ') (r : Registry κ)

/-- An index does not depend on cookies. -/
theorem build_relabel (table : FragmentTable) : build S (r.relabel f) table = build S r table := by
  have hmeta : MetaWordIndex.build (r.relabel f) table = .build r table := by
    rw [MetaWordIndex.build, MetaWordIndex.build, Registry.requirements_relabel]
  rw [build, build, hmeta, Registry.config_relabel]

theorem filterMap_get?_relabel (ids : List Nat) :
    (ids.filterMap fun id => ((r.relabel f).get? id).map (id, ·)) =
      (ids.filterMap fun id => (r.get? id).map (id, ·)).map fun (id, p) => (id, p.withCookie (f id p.text)) := by
  rw [List.map_filterMap]
  simp only [Registry.get?_relabel, Option.map_map]
  rfl

/-- A query of relabeled patterns finds the same, with the other cookies. -/
theorem run_relabel (x : CompiledIndex S) (t : Bytes) :
    (x.run (r.relabel f) t).hits = (x.run r t).hits.map (fun (id, p) => (id, p.withCookie (f id p.text))) ∧
      (x.run (r.relabel f) t).context = (x.run r t).context := by
  have hhits : (x.run (r.relabel f) t).hits =
      (x.run r t).hits.map (fun (id, p) => (id, p.withCookie (f id p.text))) := by
    rw [run, run]
    simp only
    rw [filterMap_get?_relabel, List.filter_map]
    rfl
  refine ⟨hhits, ?_⟩
  have hlen := congrArg List.length hhits
  rw [run, run] at hlen ⊢
  simp only [filterMap_get?_relabel, List.length_map] at hlen ⊢
  rw [hlen]

end CompiledIndex

namespace Engine

variable {c : Config} {e : Engine S κ}

/-! ## Inserting again -/

theorem insertAll_concat (e : Engine S κ) (ps : List (Bytes × κ)) (p : Bytes) (k : κ) :
    e.insertAll (ps ++ [(p, k)]) = (e.insertAll ps).bind fun e₁ => e₁.insertAll [(p, k)] := by
  induction ps generalizing e with
  | nil => rfl
  | cons x ps ih =>
    rw [List.cons_append, insertAll, insertAll]
    split
    · exact ih _
    · rfl

/-- Inserting the patterns again, with cookies by place and text, leads to the same fragments and the relabeled patterns. -/
def Replays (f : Nat → Bytes → κ') (e : Engine S κ) : Prop :=
  ∃ e₁ : Engine S κ', (Engine.empty S κ' e.config).insertAll (e.texts.zipIdx.map fun (p, id) => (p, f id p)) = .ok e₁ ∧
    e₁.IsOpen ∧ e₁.registry = e.registry.relabel f ∧ e₁.table = e.table

theorem invariant_replays (c : Config) (f : Nat → Bytes → κ') : Invariant c (Replays f : Engine S κ → Prop) where
  empty := ⟨.empty S κ' c, rfl, .inl rfl, rfl, rfl⟩
  refuse _ h := h
  insert {e p cookie id r table} h hi := by
    obtain ⟨e₁, hall, ho, hreg, htab⟩ := h
    have hsize : e.texts.length = e.registry.size := by simp [texts, Registry.texts, Registry.toList, Registry.size]
    have hconfig : r.config = e.registry.config := by
      obtain ⟨-, -, -, rfl⟩ := Registry.of_insert_eq_ok hi
      rfl
    have hi₁ : e₁.registry.insert e₁.table p (f e.registry.size p) = .ok (id, r.relabel f, table) := by
      rw [hreg, htab, Registry.insert_relabel f e.registry e.table p cookie, hi]
      rfl
    have hlast : e₁.insertAll [(p, f e.registry.size p)] =
        .ok { e₁ with registry := r.relabel f, table := table, phase := .accepting } := by
      rw [insertAll, insert_of_ok ho hi₁]
      rfl
    refine ⟨{ e₁ with registry := r.relabel f, table := table, phase := .accepting }, ?_, .inr rfl, rfl, rfl⟩
    show (Engine.empty S κ' r.config).insertAll (r.texts.zipIdx.map _) = _
    rw [hconfig, Registry.texts_of_insert_eq_ok hi, List.zipIdx_append, List.map_append]
    show (Engine.empty S κ' e.config).insertAll (e.texts.zipIdx.map _ ++ [(p, f (0 + e.texts.length) p)]) = _
    rw [insertAll_concat, hall, Nat.zero_add, hsize]
    exact hlast
  fail h := h
  compile h _ := h
  query _ _ h := h

theorem Reachable.replays (h : Reachable c e) (f : Nat → Bytes → κ') : Replays f e :=
  h.invariant (invariant_replays c f)

/-! ## Loading -/

/-- What is loaded from the archive of some patterns, if they fit into one, is the engine made from them. -/
theorem ofArchive_encode {ps : List Bytes} (h : Archive.Fits ps) (cookie : Nat → Bytes → κ) :
    ofArchive S c cookie (Archive.encode ps) = ofEntries S c (ps.zipIdx.map fun (p, id) => (p, cookie id p)) := by
  rw [ofArchive, Archive.decode_encode h]

/-- What is loaded from the archive of an engine has its index, and its patterns with the cookies given. -/
theorem ofArchive_toArchive {x : CompiledIndex S} (h : Reachable c e) (hx : e.phase.index? = some x)
    (hfits : Archive.Fits e.texts) (f : Nat → Bytes → κ') : ∃ e', ofArchive S e.config f e.toArchive = .ok e' ∧
      e'.phase.index? = some x ∧ e'.registry = e.registry.relabel f := by
  obtain ⟨e₁, hall, ho, hreg, htab⟩ := h.replays f
  have hb : CompiledIndex.build S e₁.registry e₁.table = .ok x := by
    rw [hreg, htab, CompiledIndex.build_relabel]
    exact h.sound.index x hx
  refine ⟨{ e₁ with phase := .compiled x }, ?_, rfl, hreg⟩
  rw [toArchive, ofArchive_encode hfits, ofEntries, hall]
  simp only [compile_of_ok ho hb]

/-- An engine that was made at once has an index. -/
theorem isCompiled_of_ofEntries {ps : List (Bytes × κ)} (h : ofEntries S c ps = .ok e) : e.phase.isCompiled = true := by
  unfold ofEntries at h
  split at h
  · cases h
  · next e₁ he =>
    split at h
    · next e₂ h₂ =>
      cases h
      obtain ⟨x, -, rfl⟩ := of_compile_eq_ok h₂
      rfl
    · cases h

/-- **Reloading is rebuilding.** From the archive of some patterns an engine is loaded, or fails to be, as it is made from
the patterns. The archive of a compiled engine can be loaded, and the engine that is loaded has the same patterns under the
same handles and reports the same, with the cookies that it was given. -/
theorem reload_eq_rebuild (S : Scanner) (c : Config) :
    (∀ ps, Archive.Fits ps →
      (∃ err, ofArchive S c (fun id _ => id) (Archive.encode ps) = .error err ∧ ofTexts S c ps = .error err) ∨
      ∃ e e' : Engine S Nat, ofArchive S c (fun id _ => id) (Archive.encode ps) = .ok e ∧ ofTexts S c ps = .ok e' ∧
        e.phase.isCompiled = true ∧ e'.phase.isCompiled = true ∧ (e == e') = true ∧
        ∀ t, (e.findAll t).1 = (e'.findAll t).1 ∧ (e.findWithStats t).1 = (e'.findWithStats t).1) ∧
      ∀ {κ κ' : Type} (e : Engine S κ) (f : Nat → Bytes → κ'), Reachable c e → e.phase.isCompiled = true →
        Archive.Fits e.texts →
        ∃ e' : Engine S κ', ofArchive S e.config f e.toArchive = .ok e' ∧ e'.phase.isCompiled = true ∧
          e'.registry.stored = e.texts.zipIdx.map (fun (p, id) => (id, p, f id p)) ∧
          ∀ t, (e'.findAll t).1 = (e.findAll t).1 ∧
            ∃ o o', (e.query t).1 = .ok o ∧ (e'.query t).1 = .ok o' ∧ o'.context = o.context ∧
              o'.reported = o.reported.map (fun (id, p, _) => (id, p, f id p)) := by
  constructor
  · intro ps hfits
    have hsame : ofArchive S c (fun id _ => id) (Archive.encode ps) = ofTexts S c ps := by
      rw [ofArchive_encode hfits, ofTexts, List.map_id']
    rw [hsame]
    cases hmade : ofTexts S c ps with
    | error err => exact .inl ⟨err, rfl, rfl⟩
    | ok e =>
      have hc := isCompiled_of_ofEntries hmade
      exact .inr ⟨e, e, rfl, rfl, hc, hc, beq_self_eq_true e.sortedTexts, fun t => ⟨rfl, rfl⟩⟩
  · intro κ κ' e f h hc hfits
    obtain ⟨x, hx⟩ := Option.isSome_iff_exists.1 hc
    obtain ⟨e', hload, hx', hreg⟩ := ofArchive_toArchive h hx hfits f
    refine ⟨e', hload, ?_, ?_, fun t => ?_⟩
    · rw [Phase.isCompiled, hx']
      rfl
    · rw [hreg, Registry.stored_relabel]
      rfl
    obtain ⟨hhits, hctx⟩ := CompiledIndex.run_relabel f e.registry x t
    refine ⟨?_, x.run e.registry t, x.run e'.registry t, query_of_index? hx t, query_of_index? hx' t, ?_, ?_⟩
    · rw [findAll, findAll, ask_of_index? _ hx, ask_of_index? _ hx', hreg, Outcome.ids, Outcome.ids, hhits, List.map_map]
      rfl
    · rw [hreg, hctx]
    · rw [Outcome.reported, Outcome.reported, hreg, hhits, List.map_map, List.map_map]
      rfl

/-- An engine that refused the empty pattern between `a*` and `*b` is loaded from its archive; the list that has the empty
pattern makes no engine, be it loaded or built. -/
theorem reload_eq_rebuild_refused :
    let ps : List (Bytes × Nat) := [([97, 42], 5), ([], 6), ([42, 98], 7)]
    let e := ((Engine.empty .automaton Nat .standard).insertEach ps).2.compile.2
    (∃ e' : Engine .automaton Nat, ofArchive .automaton e.config (fun id p => id + p.length) e.toArchive = .ok e' ∧
        e'.registry.stored = [(0, [97, 42], 2), (1, [42, 98], 3)]) ∧
      ∃ err, ofArchive .automaton .standard (fun id _ => id) (Archive.encode (ps.map Prod.fst)) = .error err ∧
        ofTexts .automaton .standard (ps.map Prod.fst) = .error err := by
  intro ps e
  obtain ⟨hlist, hengine⟩ := reload_eq_rebuild .automaton .standard
  have htexts : e.texts = [[97, 42], [42, 98]] := by decide +kernel
  constructor
  · have hc : e.phase.isCompiled = true := by decide +kernel
    have hfits : Archive.Fits e.texts := by
      rw [htexts]
      exact ⟨by decide, by decide⟩
    obtain ⟨e', hload, -, hstored, -⟩ := hengine e (fun id p => id + p.length) (Reachable.empty.insertEach ps).compile hc hfits
    exact ⟨e', hload, by rw [hstored, htexts]; rfl⟩
  · have hnone : (ofTexts .automaton .standard (ps.map Prod.fst)).toOption.isSome = false := by decide +kernel
    rcases hlist (ps.map Prod.fst) ⟨by decide, by decide⟩ with herr | ⟨_, _, -, hmade, -⟩
    · exact herr
    · rw [hmade] at hnone
      cases hnone

end Engine

end GlobSieve
