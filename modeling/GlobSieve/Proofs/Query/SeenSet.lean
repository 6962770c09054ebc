import GlobSieve.Proofs.Engine.Reachable
import GlobSieve.Proofs.Query.Checked
import GlobSieve.Scanner.Scripted

/-!
# Only the set of the ids seen counts

While an index is made, every needle of every fragment is assigned an id by the scanner (`Scanner.assigned`). Whatever ids the
scanner then lists, in whatever order and however often, the fragments found are those all of whose ids are listed, and the
candidates are the patterns all of whose fragments were found, each once; so two scans that list the same ids lead to the same
fragments, candidates and counters (`resolution_exact`).

This holds over any table of fragments. Of the patterns it matters only that they were inserted, into whatever table: then none
requires the empty set (`Registry.Inserted.ne_nil`), which no fragment leads to.
-/

namespace GlobSieve

variable {S : Scanner} {κ : Type} {r r' : Registry κ} {table table' : FragmentTable} {x : CompiledIndex S}

/-! ## Assigned ids -/

/-- The ids that a scanner assigns to the needles offered to it, be they new or known, each with the handle of the fragment. -/
def Scanner.assignments (S : Scanner) (b : S.Builder) : List (Nat × Bytes) → List (Nat × Nat)
  | [] => []
  | (f, n) :: offers =>
    match S.add b n with
    | (.ok id, b') | (.error (.duplicate id), b') => (f, id) :: S.assignments b' offers
    | (.error _, _) => []

/-- The needles of all fragments in turn, each with the handle of its fragment. -/
def FragmentTable.offers (t : FragmentTable) : List (Nat × Bytes) :=
  t.toList.zipIdx.flatMap fun (fr, f) => fr.needles.map (f, ·)

/-- The ids of every fragment: those assigned to its needles. -/
def Scanner.assigned (S : Scanner) (c : Config) (table : FragmentTable) : List (Nat × Nat) :=
  S.assignments (S.start c) table.offers

namespace CompiledIndex

theorem assignments_append {b b' : S.Builder} {ns : List Bytes} {ids : List Nat} (h : offerAll b ns = .ok (ids, b'))
    (f : Nat) (offers : List (Nat × Bytes)) :
    S.assignments b (ns.map (f, ·) ++ offers) = ids.map (f, ·) ++ S.assignments b' offers := by
  induction ns generalizing b ids with
  | nil => cases h; rfl
  | cons n ns ih =>
    obtain ⟨id, b₁, ids', ha, hr, rfl⟩ := of_offerAll_cons h
    rw [List.map_cons, List.cons_append, List.map_cons, List.cons_append, ← ih hr]
    rcases ha with ha | ha <;> rw [Scanner.assignments, ha]

/-- The set of a fragment has the ids assigned to it. The first of the fragments has the handle `k`. -/
theorem mem_assignments {b b' : S.Builder} {fs : List Fragment} {sets : List (List Nat)}
    (h : offerFragments b fs = .ok (sets, b')) (k : Nat) {g id : Nat} :
    (g, id) ∈ S.assignments b ((fs.zipIdx k).flatMap fun (fr, f) => fr.needles.map (f, ·)) ↔
      ∃ i s, g = k + i ∧ sets[i]? = some s ∧ id ∈ s := by
  induction fs generalizing b sets k with
  | nil =>
    cases h
    simp [Scanner.assignments]
  | cons fr fs ih =>
    obtain ⟨ids, b₁, sets', ha, hr, rfl⟩ := of_offerFragments_cons h
    rw [List.zipIdx_cons, List.flatMap_cons, assignments_append ha, List.mem_append, ih hr (k + 1)]
    constructor
    · rintro (hm | ⟨i, s, rfl, hs, hid⟩)
      · obtain ⟨id', hid', he⟩ := List.mem_map.1 hm
        obtain ⟨rfl, rfl⟩ := Prod.mk.inj he
        exact ⟨0, handleSet ids, rfl, rfl, mem_handleSet.2 hid'⟩
      · exact ⟨i + 1, s, by omega, hs, hid⟩
    · rintro ⟨i, s, rfl, hs, hid⟩
      cases i with
      | zero =>
        cases hs
        exact .inl (List.mem_map.2 ⟨id, mem_handleSet.1 hid, rfl⟩)
      | succ i => exact .inr ⟨i, s, by omega, hs, hid⟩

/-- An id leads to the fragments that it is assigned to. -/
theorem mem_fragmentsOf_iff_assigned (hx : build S r table = .ok x) {f id : Nat} :
    f ∈ x.fragmentsOf id ↔ (f, id) ∈ S.assigned r.config table := by
  obtain ⟨sets, b, hoff, -, he⟩ := exists_sets_of_build hx
  rw [he, mem_fragmentsOf_ofSets, Scanner.assigned, FragmentTable.offers, mem_assignments hoff 0]
  simp only [Nat.zero_add, exists_eq_left', exists_and_left]

end CompiledIndex

/-! ## Inserted patterns -/

/-- Patterns were inserted, and nothing else was done to the registry. Each may have gone with another table. -/
inductive Registry.Inserted : Registry κ → Prop
  | empty (c : Config) : Inserted (.empty c)
  | insert {r r' : Registry κ} {table table' : FragmentTable} {p : Bytes} {cookie : κ} {id : Nat} :
      Inserted r → r.insert table p cookie = .ok (id, r', table') → Inserted r'

theorem Engine.invariant_inserted (c : Config) : Invariant c fun e : Engine S κ => e.registry.Inserted where
  empty := .empty c
  refuse _ h := h
  insert h hi := h.insert hi
  fail h := h
  compile h _ := h
  query _ _ h := h

/-- The patterns of every engine that calls lead to were inserted. -/
theorem Engine.Reachable.inserted {c : Config} {e : Engine S κ} (h : Reachable c e) : e.registry.Inserted :=
  h.invariant (invariant_inserted c)

/-- What an inserted pattern requires is not the empty set. -/
theorem Registry.Inserted.ne_nil (h : r.Inserted) {p : StoredPattern κ} (hp : p ∈ r.toList) {fs : List Nat}
    (he : p.requirement = .fragments fs) : fs ≠ [] := by
  induction h with
  | empty c => cases hp
  | @insert r r' table table' text cookie id hr hi ih =>
    obtain ⟨hok, -, -, rfl⟩ := of_insert_eq_ok hi
    simp only [toList, Array.toList_push, List.mem_append, List.mem_singleton] at hp
    rcases hp with hp | rfl
    · exact ih hp
    · exact ne_nil_of_requirementOf (ne_nil_of_refusal?_eq_none hok) (table.length_internAll _) he

/-! ## The same ids -/

namespace CompiledIndex

variable (hx : build S r table = .ok x)
include hx

theorem mem_found_iff_assigned {ids : List Nat} {f : Nat} : f ∈ x.found ids ↔
    f < table.size ∧ ∀ id, (f, id) ∈ S.assigned r.config table → id ∈ ids := by
  simp only [mem_found_iff_of_build hx, mem_fragmentsOf_iff_assigned hx]

/-- The candidates are the patterns all of whose fragments were found, if they have any. -/
theorem mem_candidates_iff_requirement (hr : r.Inserted) {ids : List Nat} {id : Nat} :
    id ∈ (x.resolve ids).candidates ↔
      ∃ p fs, r.get? id = some p ∧ p.requirement = .fragments fs ∧ ∀ f ∈ fs, f ∈ x.found ids := by
  rw [mem_candidates (metaWords_of_build hx)]
  constructor
  · rintro ⟨fs, hreq, -, hfound⟩
    obtain ⟨p, hp, he⟩ := Registry.getElem?_requirements.1 hreq
    exact ⟨p, fs, hp, he, hfound⟩
  · rintro ⟨p, fs, hp, he, hfound⟩
    have hmem : p ∈ r.toList := List.mem_of_getElem? ((Array.getElem?_toList ..).trans hp)
    obtain ⟨f, hf⟩ := List.exists_mem_of_ne_nil fs (hr.ne_nil hmem he)
    exact ⟨fs, Registry.getElem?_requirements.2 ⟨p, hp, he⟩,
      ⟨f, hf, ((mem_found_iff_of_build hx).1 (hfound f hf)).1⟩, hfound⟩

variable {ids ids' : List Nat} (hids : ∀ id, id ∈ ids' ↔ id ∈ ids)
include hids

theorem found_perm : (x.found ids').Perm (x.found ids) := by
  refine (List.perm_ext_iff_of_nodup (nodup_found_of_build hx ids') (nodup_found_of_build hx ids)).2 fun f => ?_
  simp only [mem_found_iff_of_build hx, hids]

theorem checked_perm : (x.resolve ids').checked.Perm (x.resolve ids).checked := by
  refine (List.perm_ext_iff_of_nodup (nodup_eraseDups _) (nodup_eraseDups _)).2 fun m => ?_
  simp only [List.mem_eraseDups, List.mem_flatMap, (found_perm hx hids).mem_iff]

theorem satisfied_perm : ((x.resolve ids').checked.filter (x.isSatisfied (x.found ids'))).Perm
    ((x.resolve ids).checked.filter (x.isSatisfied (x.found ids))) := by
  have hsat : x.isSatisfied (x.found ids') = x.isSatisfied (x.found ids) := by
    funext m
    rw [Bool.eq_iff_iff, isSatisfied_iff (metaWords_of_build hx), isSatisfied_iff (metaWords_of_build hx)]
    simp only [(found_perm hx hids).mem_iff]
  rw [hsat]
  exact (checked_perm hx hids).filter _

theorem candidates_perm : (x.resolve ids').candidates.Perm (x.resolve ids).candidates :=
  (satisfied_perm hx hids).flatMap_right _

end CompiledIndex

/-- The counters of the matching do not depend on the order of the candidates. -/
theorem Registry.stats_verifyIn_congr (r : Registry κ) (wildcardOnly : List Nat) (t : Bytes) {ctx ctx' : QueryContext}
    (hc : ctx'.candidates.Perm ctx.candidates) (hs : ctx'.stats = ctx.stats) :
    (r.verifyIn wildcardOnly t ctx').stats = (r.verifyIn wildcardOnly t ctx).stats := by
  have htried := (hc.append_right wildcardOnly).filterMap fun id => (r.get? id).map (id, ·)
  have hhits : (r.matching t (ctx'.candidates ++ wildcardOnly)).Perm (r.matching t (ctx.candidates ++ wildcardOnly)) :=
    htried.filter _
  simp only [verifyIn, verify, foldl_attempt, Outcome.stats, hs, hc.length_eq, htried.length_eq, hhits.length_eq]

/-- Whatever the scanner lists, the filter finds its places and lists, each once, the fragments all of whose assigned ids are
listed and the patterns all of whose fragments are; and if the same ids are listed, it comes to the same. -/
theorem resolution_exact (hr : r.Inserted) (hx : CompiledIndex.build S r table = .ok x) (ids : List Nat) (ctx : QueryContext) :
    ∃ found, x.resolveIn? ids ctx.reset = some found ∧
      found.matched.Nodup ∧
      (∀ f, f ∈ found.matched ↔ f < table.size ∧ ∀ id, (f, id) ∈ S.assigned r.config table → id ∈ ids) ∧
      found.candidates.Nodup ∧
      (∀ id, id ∈ found.candidates ↔
        ∃ p fs, r.get? id = some p ∧ p.requirement = .fragments fs ∧ ∀ f ∈ fs, f ∈ found.matched) ∧
      ∀ (ids' : List Nat) (ctx' : QueryContext), (∀ id, id ∈ ids' ↔ id ∈ ids) →
        ∃ found', x.resolveIn? ids' ctx'.reset = some found' ∧
        found'.matched.Perm found.matched ∧ found'.candidates.Perm found.candidates ∧ found'.stats = found.stats ∧
        ∀ t, (r.verifyIn x.metaWords.wildcardOnly t found').stats = (r.verifyIn x.metaWords.wildcardOnly t found).stats := by
  have hresolve : ∀ ids ctx, x.resolveIn? ids (QueryContext.reset ctx) = some (x.resolveIn ids .fresh) :=
    fun ids ctx => CompiledIndex.resolveIn?_eq_some hx ids _
  refine ⟨_, hresolve ids ctx, ?_⟩
  rw [CompiledIndex.resolveIn_fresh hx]
  refine ⟨CompiledIndex.nodup_found_of_build hx ids, fun f => CompiledIndex.mem_found_iff_assigned hx,
    CompiledIndex.nodup_candidates (CompiledIndex.metaWords_of_build hx) ids,
    fun id => CompiledIndex.mem_candidates_iff_requirement hx hr, fun ids' ctx' hids => ⟨_, hresolve ids' ctx', ?_⟩⟩
  rw [CompiledIndex.resolveIn_fresh hx]
  have hfound := CompiledIndex.found_perm hx hids
  have hcandidates := CompiledIndex.candidates_perm hx hids
  have hstats : MatchStats.mk (x.found ids').length (x.resolve ids').checked.length (x.resolve ids').satisfied 0 0 0 =
      ⟨(x.found ids).length, (x.resolve ids).checked.length, (x.resolve ids).satisfied, 0, 0, 0⟩ := by
    have hsatisfied : (x.resolve ids').satisfied = (x.resolve ids).satisfied :=
      (CompiledIndex.satisfied_perm hx hids).length_eq
    rw [hfound.length_eq, (CompiledIndex.checked_perm hx hids).length_eq, hsatisfied]
  exact ⟨hfound, hcandidates, hstats, fun t => r.stats_verifyIn_congr _ t hcandidates hstats⟩

/-- A scanner that gives both needles of `a[x]b` one id and skips others: the fragment is found, whatever the order, the repeats
and the unknown ids of a scan, and so is the pattern `a[x]b*[yz]`. -/
theorem resolution_exact_shared :
    let S : Scanner := .scripted ⟨[.ok 3, .error (.duplicate 3), .ok 5], none, [], 1, []⟩
    let ps : List (Bytes × Nat) := [([97, 91, 120, 93, 98, 42, 91, 121, 122, 93], 7), ([42, 99], 8)]
    let e := ((Engine.empty S Nat .standard).insertEach ps).2.compile.2
    ∃ x, e.phase.index? = some x ∧ ∃ found found', x.resolveIn? [9, 3, 3] .fresh = some found ∧
      x.resolveIn? [3, 9, 9, 3] .fresh = some found' ∧ 0 ∈ found.matched ∧ 1 ∈ found.matched ∧ 2 ∉ found.matched ∧
      found'.matched.Perm found.matched ∧ found'.candidates.Perm found.candidates ∧ found'.stats = found.stats := by
  intro S ps e
  have hr : Engine.Reachable .standard e := (Engine.Reachable.empty.insertEach ps).compile
  have hc : e.phase.isCompiled = true := by decide +kernel
  obtain ⟨x, hx⟩ := Option.isSome_iff_exists.1 hc
  have hassigned : S.assigned e.registry.config e.table = [(0, 3), (0, 3), (2, 5)] := by decide +kernel
  have hsize : e.table.size = 3 := by decide +kernel
  obtain ⟨found, hfound, -, hmatched, -, -, hsame⟩ :=
    resolution_exact hr.inserted (hr.sound.index x hx) [9, 3, 3] .fresh
  obtain ⟨found', hfound', hmatched', hcandidates', hstats', -⟩ := hsame [3, 9, 9, 3] .fresh (by simp)
  refine ⟨x, hx, found, found', hfound, hfound', ?_, ?_, ?_, hmatched', hcandidates', hstats'⟩
  all_goals rw [hmatched, hassigned, hsize]; simp

end GlobSieve
