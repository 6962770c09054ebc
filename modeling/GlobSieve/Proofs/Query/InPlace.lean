import GlobSieve.Proofs.Query.Report
import GlobSieve.Query.InPlace

/-!
# A query in a context is the query

The steps of a query in a context, from the empty one on, lead to what `CompiledIndex.run` says at once:

* after a part of the scan the context holds the distinct ids, the hits of their fragments and the fragments completed so
  far (`foldl_see`);
* after some meta-words it holds those looked at, and the patterns of the satisfied ones (`foldl_visit`);
* after the patterns were matched it holds the counters, and the number returned is that of the reports (`foldl_attempt`).

A query empties the context first, so it does not matter what an earlier one left there (`runIn_eq_run`). The sets of the
context hold back what comes twice; where the description has no such guard, for fragments and for patterns, it is the index
that lists none twice.
-/

namespace GlobSieve

/-! ## Counts -/

theorem count_concat (l : List Nat) (a b : Nat) : (l ++ [a]).count b = l.count b + if b = a then 1 else 0 := by
  rw [List.count_append, List.count_singleton]
  by_cases h : b = a
  · simp [h]
  · simp [h, Ne.symm h]

theorem lookup_map (c : Nat → Nat) (f : Nat) (ks : List Nat) :
    (ks.map fun g => (g, c g)).lookup f = if f ∈ ks then some (c f) else none := by
  induction ks with
  | nil => rfl
  | cons k ks ih =>
    rw [List.map_cons, List.lookup_cons, ih]
    by_cases hk : f = k
    · simp [hk]
    · simp [hk, beq_false_of_ne hk]

theorem countOf_tallies (f : Nat) (fs : List Nat) : countOf f (tallies fs) = fs.count f := by
  rw [countOf, tallies, lookup_map]
  split
  · rfl
  · next h =>
    rw [List.mem_eraseDups] at h
    exact (List.count_eq_zero.2 h).symm

/-- To count one more is to have one more. -/
theorem increment_tallies (f : Nat) (fs : List Nat) : increment f (tallies fs) = tallies (fs ++ [f]) := by
  have hany : (tallies fs).any (·.1 == f) = decide (f ∈ fs) := by
    simp [tallies, List.any_map, Function.comp_def, List.any_beq']
  rw [increment, hany, tallies, tallies, eraseDups_concat]
  by_cases h : f ∈ fs
  · simp only [h, decide_true, if_true, List.map_map]
    refine List.map_congr_left fun g _ => ?_
    rw [count_concat]
    by_cases hg : g = f <;> simp [hg]
  · have hold : ∀ g ∈ fs.eraseDups, fs.count g = (fs ++ [f]).count g := by
      intro g hg
      have hne : g ≠ f := fun e => h (e ▸ List.mem_eraseDups.1 hg)
      rw [count_concat, if_neg hne, Nat.add_zero]
    have hnew : (fs ++ [f]).count f = 1 := by
      rw [count_concat, List.count_eq_zero.2 h, if_pos rfl]
    simp only [h, decide_false, if_false, Bool.false_eq_true, List.map_append, List.map_singleton, hnew]
    rw [List.map_congr_left fun g hg => congrArg (g, ·) (hold g hg)]

/-! ## The scan -/

theorem getD_setIfInBounds_succ {hits : Array Nat} {f : Nat} (hf : f < hits.size) (g : Nat) :
    (hits.setIfInBounds g (hits.getD g 0 + 1)).getD f 0 = hits.getD f 0 + if f = g then 1 else 0 := by
  simp only [Array.getD_eq_getD_getElem?, Array.getElem?_setIfInBounds]
  by_cases h : f = g
  · subst h
    simp [hf]
  · simp [h, Ne.symm h]

/-- One more hit completes its fragment, or it does not. -/
theorem completions_concat {needed : Array Nat} (l : List Nat) (f : Nat) {hits : Array Nat}
    (hsize : hits.size = needed.size) : completions needed hits (l ++ [f]) =
      completions needed hits l ++ if needed[f]? = some (hits.getD f 0 + l.count f + 1) then [f] else [] := by
  induction l generalizing hits with
  | nil => by_cases h : needed[f]? = some (hits.getD f 0 + 1) <;> simp [completions, h]
  | cons g l ih =>
    have hsize' : (hits.setIfInBounds g (hits.getD g 0 + 1)).size = needed.size := by
      rw [Array.size_setIfInBounds, hsize]
    have hlast : needed[f]? = some ((hits.setIfInBounds g (hits.getD g 0 + 1)).getD f 0 + l.count f + 1) ↔
        needed[f]? = some (hits.getD f 0 + (g :: l).count f + 1) := by
      by_cases hf : f < hits.size
      · rw [getD_setIfInBounds_succ hf, List.count_cons]
        by_cases h : f = g
        · simp only [h, if_true, beq_self_eq_true, Nat.add_assoc, Nat.add_comm 1]
        · simp [h, Ne.symm h]
      · rw [Array.getElem?_eq_none (by omega)]
        simp
    simp only [List.cons_append, completions, ih hsize', hlast]
    split <;> rfl

/-- A step that takes what is not known yet takes a list of such things one by one. -/
theorem foldl_of_nodup {σ : Type} {step : σ → Nat → σ} (known : σ → List Nat) (grow : σ → List Nat → σ) {ctx : σ}
    {as : List Nat} (hstep : ∀ s a, a ∉ known s → step s a = grow s [a]) (hknown : ∀ s as, known (grow s as) = known s ++ as)
    (hnil : ∀ s, grow s [] = s) (hgrow : ∀ s as bs, grow (grow s as) bs = grow s (as ++ bs)) (h : (known ctx ++ as).Nodup) :
    as.foldl step ctx = grow ctx as := by
  induction as generalizing ctx with
  | nil => exact (hnil ctx).symm
  | cons a as ih =>
    have hnew : a ∉ known ctx := by
      intro hm
      exact List.disjoint_of_nodup_append h hm List.mem_cons_self
    rw [List.foldl_cons, hstep ctx a hnew, ih (by rwa [hknown, List.append_assoc]), hgrow, List.singleton_append]

namespace QueryContext

variable {needed : Array Nat} {s l fs : List Nat} {f : Nat}

/-- The context after the ids `s` were seen and the fragments `l` were hit. -/
def scanned (needed : Array Nat) (s l : List Nat) : QueryContext :=
  { fresh with
    seen := s
    hits := tallies l
    present := completions needed (Array.replicate needed.size 0) l
    matched := completions needed (Array.replicate needed.size 0) l }

/-- A hit of one more fragment. -/
theorem hit_scanned (needed : Array Nat) (s l : List Nat) (f : Nat) :
    (scanned needed s l).hit needed f = scanned needed s (l ++ [f]) := by
  have hsize : (Array.replicate needed.size 0).size = needed.size := Array.size_replicate
  have hconcat := completions_concat l f hsize
  rw [getD_replicate_zero, Nat.zero_add] at hconcat
  have hhits : increment f (scanned needed s l).hits = tallies (l ++ [f]) := increment_tallies f l
  have hcount : countOf f (tallies (l ++ [f])) = l.count f + 1 := by
    rw [countOf_tallies, count_concat, if_pos rfl]
  unfold hit
  simp only [hhits, hcount]
  by_cases hlast : needed[f]? = some (l.count f + 1)
  · have hnew : f ∉ completions needed (Array.replicate needed.size 0) l := by
      intro hm
      have hle := (mem_completions.1 hm).2
      rw [Array.getD_eq_getD_getElem?, hlast, Option.getD_some] at hle
      omega
    rw [if_pos hlast] at hconcat
    simp [hlast, markPresent, scanned, hnew, hconcat]
  · rw [if_neg hlast, List.append_nil] at hconcat
    simp [hlast, scanned, hconcat]

theorem foldl_hit_scanned (needed : Array Nat) (s l fs : List Nat) :
    fs.foldl (hit needed) (scanned needed s l) = scanned needed s (l ++ fs) := by
  induction fs generalizing l with
  | nil => rw [List.foldl_nil, List.append_nil]
  | cons f fs ih => rw [List.foldl_cons, hit_scanned, ih, List.append_assoc, List.singleton_append]

/-- Fragments that are not noted yet are noted in turn. -/
theorem foldl_markPresent {ctx : QueryContext} (h : (ctx.present ++ fs).Nodup) :
    fs.foldl markPresent ctx = { ctx with present := ctx.present ++ fs, matched := ctx.matched ++ fs } := by
  refine foldl_of_nodup present
    (fun ctx fs => { ctx with present := ctx.present ++ fs, matched := ctx.matched ++ fs }) ?_ ?_ ?_ ?_ h
  · intro ctx f hf
    simp [markPresent, hf]
  all_goals simp

/-- Patterns that have not passed yet pass in turn. -/
theorem foldl_letPass {ctx : QueryContext} {ids : List Nat} (h : (ctx.admitted ++ ids).Nodup) :
    ids.foldl letPass ctx = { ctx with admitted := ctx.admitted ++ ids, candidates := ctx.candidates ++ ids } := by
  refine foldl_of_nodup admitted
    (fun ctx ids => { ctx with admitted := ctx.admitted ++ ids, candidates := ctx.candidates ++ ids }) ?_ ?_ ?_ ?_ h
  · intro ctx id hid
    simp [letPass, hid]
  all_goals simp

end QueryContext

namespace CompiledIndex

open QueryContext

variable {S : Scanner} {x : CompiledIndex S} {ctx : QueryContext}

/-- The scan fills the context. -/
theorem foldl_see (x : CompiledIndex S) (ids : List Nat) :
    ids.foldl x.see fresh = scanned x.literalsNeeded ids.eraseDups (x.hitList ids) := by
  induction ids using List.reverseRecOn with
  | nil => rfl
  | append_singleton ids id ih =>
    rw [List.foldl_concat, ih, see, hitList, hitList, eraseDups_concat]
    by_cases h : id ∈ ids
    · simp [scanned, h]
    · have hstart : { scanned x.literalsNeeded ids.eraseDups (x.hitList ids) with seen := ids.eraseDups ++ [id] } =
          scanned x.literalsNeeded (ids.eraseDups ++ [id]) (x.hitList ids) := rfl
      have hnew : (scanned x.literalsNeeded ids.eraseDups (x.hitList ids)).seen.contains id = false := by
        simp [scanned, h]
      rw [if_neg h, List.flatMap_append, List.flatMap_singleton, ← hitList, hnew, ← foldl_hit_scanned, ← hstart]
      rfl

/-! ## The meta-words -/

/-- The context after the meta-words `ms` were looked at. -/
def visited (x : CompiledIndex S) (ctx : QueryContext) (ms : List Nat) : QueryContext :=
  let satisfied := ms.eraseDups.filter (x.isSatisfied ctx.present)
  { ctx with
    candidates := satisfied.flatMap x.patternsOf
    stats := { ctx.stats with metaWordsChecked := ms.eraseDups.length, metaWordsSatisfied := satisfied.length }
    resolved := ms.eraseDups
    admitted := satisfied.flatMap x.patternsOf }

/-- A meta-word that was not looked at yet. -/
theorem visit_of_not_mem {m : Nat} (h : m ∉ ctx.resolved) : x.visit ctx m =
    if x.isSatisfied ctx.present m then
      (x.patternsOf m).foldl letPass { ctx with
        resolved := ctx.resolved ++ [m]
        stats := { ctx.stats with
          metaWordsChecked := ctx.stats.metaWordsChecked + 1
          metaWordsSatisfied := ctx.stats.metaWordsSatisfied + 1 } }
    else { ctx with
      resolved := ctx.resolved ++ [m]
      stats := { ctx.stats with metaWordsChecked := ctx.stats.metaWordsChecked + 1 } } := by
  rw [visit, if_neg (by simpa using h), isSatisfied, patternsOf]
  cases x.metaWords.get? m <;> rfl

/-- One meta-word more. -/
theorem visit_visited {rs : List Requirement} {n : Nat} (hx : x.metaWords = .group rs n) (ctx : QueryContext)
    (ms : List Nat) (m : Nat) : x.visit (x.visited ctx ms) m = x.visited ctx (ms ++ [m]) := by
  by_cases h : m ∈ ms
  · simp [visit, visited, eraseDups_concat, h]
  rw [visit_of_not_mem (by simpa [visited] using h)]
  by_cases hsat : x.isSatisfied ctx.present m = true
  · have hpass : (ms.eraseDups.filter (x.isSatisfied ctx.present)).flatMap x.patternsOf ++ x.patternsOf m =
        ((ms ++ [m]).eraseDups.filter (x.isSatisfied ctx.present)).flatMap x.patternsOf := by
      simp [eraseDups_concat, h, hsat]
    have hnd := nodup_flatMap_patternsOf hx ((nodup_eraseDups (ms ++ [m])).filter (x.isSatisfied ctx.present))
    rw [← hpass] at hnd
    rw [visited, if_pos hsat, foldl_letPass hnd, visited, ← hpass]
    simp [eraseDups_concat, h, hsat]
  · simp [visited, eraseDups_concat, h, hsat]

/-- The meta-words of the fragments found fill the context further. -/
theorem foldl_visit {rs : List Requirement} {n : Nat} (hx : x.metaWords = .group rs n) (ctx : QueryContext)
    (l ms : List Nat) : ms.foldl x.visit (x.visited ctx l) = x.visited ctx (l ++ ms) := by
  induction ms generalizing l with
  | nil => rw [List.foldl_nil, List.append_nil]
  | cons m ms ih => rw [List.foldl_cons, visit_visited hx, ih, List.append_assoc, List.singleton_append]

variable {κ : Type} {r : Registry κ} {table : FragmentTable}

/-- The context that the filter leaves. -/
theorem resolveIn_fresh (hx : build S r table = .ok x) (ids : List Nat) : x.resolveIn ids .fresh =
    { matched := x.found ids
      candidates := (x.resolve ids).candidates
      stats := { MatchStats.zero with
        fragmentsMatched := (x.found ids).length
        metaWordsChecked := (x.resolve ids).checked.length
        metaWordsSatisfied := (x.resolve ids).satisfied }
      seen := ids.eraseDups
      hits := tallies (x.hitList ids)
      present := x.found ids
      resolved := (x.resolve ids).checked
      admitted := (x.resolve ids).candidates } := by
  have hfound : x.alwaysPresent.foldl markPresent (ids.foldl x.see fresh) =
      { scanned x.literalsNeeded ids.eraseDups (x.hitList ids) with
        matched := x.found ids
        present := x.found ids } := by
    rw [foldl_see, foldl_markPresent (nodup_found_of_build hx ids)]
    rfl
  rw [resolveIn, hfound]
  simp only
  rw [← List.foldl_flatMap]
  -- no meta-word was looked at yet
  exact foldl_visit (metaWords_of_build hx) { scanned x.literalsNeeded ids.eraseDups (x.hitList ids) with
    matched := x.found ids
    present := x.found ids
    stats := { MatchStats.zero with fragmentsMatched := (x.found ids).length } } [] _

end CompiledIndex

/-! ## Matching -/

section Attempts

variable {κ σ : Type} (r : Registry κ) (t : Bytes)

/-- The patterns of some handles that match, in this order. -/
def Registry.matching (ids : List Nat) : List (Nat × StoredPattern κ) :=
  (ids.filterMap fun id => (r.get? id).map (id, ·)).filter fun (_, p) => p.glob.accepts t

/-- Patterns are matched in turn. Those that match are counted one by one, and reported. -/
theorem foldl_attempt (report : σ → Nat → StoredPattern κ → σ) (ids : List Nat) (v : Verification σ) :
    ids.foldl (r.attempt t report) v =
      { count := v.count + (r.matching t ids).length
        stats := { v.stats with
          globCalls := v.stats.globCalls + (ids.filterMap fun id => (r.get? id).map (id, ·)).length }
        reports := (r.matching t ids).foldl (fun s x => report s x.1 x.2) v.reports } := by
  induction ids generalizing v with
  | nil => rfl
  | cons id ids ih =>
    rw [List.foldl_cons, ih, Registry.attempt]
    cases hp : r.get? id with
    | none => simp [Registry.matching, hp]
    | some p => by_cases ha : p.glob.accepts t = true <;>
        simp [Registry.matching, hp, ha, Nat.add_assoc, Nat.add_comm 1]

/-- To put images at the end of a list one by one is to append them. -/
theorem foldl_append_map {α β : Type} (f : α → β) (l : List α) (l' : List β) :
    l.foldl (fun l a => l ++ [f a]) l' = l' ++ l.map f := by
  rw [List.foldl_append_eq_append, ← List.flatMap_def, ← List.map_eq_flatMap]

/-- A query with reports of any kind comes to the counters of the query with a list of them, and what it makes of the reports is
what is made of this list. -/
theorem verify_eq_verifyIn (ctx : QueryContext) (wildcardOnly : List Nat) (report : σ → Nat → StoredPattern κ → σ) (start : σ) :
    let o := r.verifyIn wildcardOnly t ctx
    r.verify ctx.candidates wildcardOnly t ctx.stats report start =
      ⟨o.count, o.stats, o.hits.foldl (fun s x => report s x.1 x.2) start⟩ := by
  simp only [Registry.verifyIn, Registry.verify, foldl_attempt, Outcome.stats, foldl_append_map, List.map_id', List.nil_append]

end Attempts

/-- Whatever a context holds, a query in it is the query. -/
theorem CompiledIndex.runIn_eq_run {S : Scanner} {κ : Type} {r : Registry κ} {table : FragmentTable} {x : CompiledIndex S}
    (hx : build S r table = .ok x) (t : Bytes) (ctx : QueryContext) : x.runIn r t ctx = x.run r t := by
  have hreset : ctx.reset = .fresh := rfl
  rw [runIn, hreset, resolveIn_fresh hx, Registry.verifyIn, Registry.verify, foldl_attempt, run]
  simp only [MatchStats.zero, Nat.zero_add, foldl_append_map, List.map_id', List.nil_append]
  rfl

end GlobSieve
