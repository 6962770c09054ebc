import GlobSieve.Proofs.Engine.Lifecycle
import GlobSieve.Proofs.Query.Counters
import GlobSieve.Scanner.Scripted

/-!
# The counters of an engine

Of a run of calls only the queries that are answered are counted. `Engine.outcomes` lists what they came to. One call adds what
it came to, if anything (`counters_perform`), so after a run the engine has counted the outcomes, as far as a word of 64 bits
can, and knows how many patterns the last of them tried (`counters_run`).

What a query of a compiled engine came to accounts for itself, whatever the scanner (`Outcome.Tallied`). `accounting` puts both
together for every run of a new engine.
-/

namespace GlobSieve.Engine

variable {S : Scanner} {κ : Type} {c : Config} {e : Engine S κ} {x : CompiledIndex S}

/-- What a call comes to, if it is a query that is answered. -/
def outcome? (e : Engine S κ) : Call κ → Option (Outcome κ)
  | .query t => (e.query t).1.toOption
  | .insert _ _ | .compile => none

/-- What the queries of a run come to, those that are answered. -/
def outcomes (e : Engine S κ) : List (Call κ) → List (Outcome κ)
  | [] => []
  | a :: calls => (e.outcome? a).toList ++ (e.perform a).2.outcomes calls

/-! ## One call -/

/-- A call without an outcome leaves the counters as they are. -/
theorem counters_perform_of_none {a : Call κ} (h : e.outcome? a = none) :
    (e.perform a).2.totalQueries = e.totalQueries ∧ (e.perform a).2.lastGlobCalls = e.lastGlobCalls := by
  cases a with
  | insert p cookie =>
    simp only [perform]
    rcases insert_cases e p cookie with ⟨err, hi⟩ | ⟨-, id, r, table, -, hi⟩
    · rw [hi]
      exact ⟨rfl, rfl⟩
    · rw [hi]
      exact ⟨rfl, rfl⟩
  | compile =>
    simp only [perform]
    rcases compile_cases e with ⟨err, hc⟩ | ⟨-, ⟨err, -, hc⟩ | ⟨x, -, hc⟩⟩
    · rw [hc]
      exact ⟨rfl, rfl⟩
    · rw [hc]
      exact ⟨rfl, rfl⟩
    · rw [hc]
      exact ⟨rfl, rfl⟩
  | query t =>
    simp only [perform]
    rcases query_cases e t with ⟨-, hq⟩ | ⟨x, -, hq⟩
    · rw [hq]
      exact ⟨rfl, rfl⟩
    · rw [outcome?, hq] at h
      cases h

/-- A call with an outcome is counted. -/
theorem counters_perform_of_some {a : Call κ} {o : Outcome κ} (h : e.outcome? a = some o) :
    (e.perform a).2.totalQueries = e.totalQueries + 1 ∧ (e.perform a).2.lastGlobCalls = o.stats.globCalls := by
  cases a with
  | insert p cookie => cases h
  | compile => cases h
  | query t =>
    simp only [perform]
    rw [outcome?] at h
    rcases query_cases e t with ⟨-, hq⟩ | ⟨x, -, hq⟩
    · rw [hq] at h
      cases h
    · rw [hq] at h ⊢
      cases h
      exact ⟨rfl, rfl⟩

/-! ## A run of calls -/

/-- After a run the outcomes were counted, and the last one was kept, if there was one. -/
theorem counters_run (e : Engine S κ) (calls : List (Call κ)) :
    (e.run calls).2.totalQueries = e.totalQueries + UInt64.ofNat (e.outcomes calls).length ∧
      (e.run calls).2.lastGlobCalls = ((e.outcomes calls).getLast?.map (·.stats.globCalls)).getD e.lastGlobCalls := by
  induction calls generalizing e with
  | nil => exact ⟨(UInt64.add_zero _).symm, rfl⟩
  | cons a calls ih =>
    obtain ⟨htotal, hlast⟩ := ih (e.perform a).2
    show ((e.perform a).2.run calls).2.totalQueries = _ ∧ ((e.perform a).2.run calls).2.lastGlobCalls = _
    rw [htotal, hlast, outcomes]
    cases ho : e.outcome? a with
    | none =>
      obtain ⟨htotal', hlast'⟩ := counters_perform_of_none ho
      rw [htotal', hlast']
      exact ⟨rfl, rfl⟩
    | some o =>
      obtain ⟨htotal', hlast'⟩ := counters_perform_of_some ho
      rw [htotal', hlast']
      show _ = e.totalQueries + UInt64.ofNat ((e.perform a).2.outcomes calls).length.succ ∧
        _ = ((o :: (e.perform a).2.outcomes calls).getLast?.map (·.stats.globCalls)).getD _
      constructor
      · rw [Nat.succ_eq_add_one, UInt64.ofNat_add, UInt64.add_assoc, UInt64.add_comm 1]
        rfl
      · rw [List.getLast?_cons]
        cases ((e.perform a).2.outcomes calls).getLast? <;> rfl

/-! ## Every run -/

theorem outcome?_of_index? (hx : e.phase.index? = some x) (t : Bytes) :
    e.outcome? (.query t) = some (x.run e.registry t) := by
  rw [outcome?, query_of_index? hx]
  rfl

/-- **The counters account exactly**, whatever the scanner. After every run of a new engine those of the engine are about the
queries answered, and those of a further query about its outcome, which is the same however the query is put. -/
theorem accounting (S : Scanner) (κ : Type) (c : Config) (calls : List (Call κ)) :
    let e := ((Engine.empty S κ c).run calls).2
    let answered := (Engine.empty S κ c).outcomes calls
    e.lastGlobCalls = (answered.getLast?.map (·.stats.globCalls)).getD 0 ∧
      e.totalQueries.toNat = answered.length % 2 ^ 64 ∧
      (∀ a, e.outcome? a = none →
        (e.perform a).2.totalQueries = e.totalQueries ∧ (e.perform a).2.lastGlobCalls = e.lastGlobCalls) ∧
      ∀ x, e.phase.index? = some x → ∀ t, ∃ o e',
        e.outcome? (.query t) = some o ∧ (e.perform (.query t)).2 = e' ∧
        (∀ ctx, e.queryIn t ctx = (.ok o, e', o.context)) ∧
        e.find t = (.ok o.entries, e') ∧
        e.findWithStats t = (.ok (o.entries, o.stats), e') ∧
        e.count t = (.ok o.stats.hits, e') ∧
        (∀ f, f ∈ o.context.matched ↔
          f < e.table.size ∧ ∀ id, f ∈ x.fragmentsOf id → id ∈ S.scan x.scanner t) ∧
        o.Tallied x.metaWords.metaWords.toList (e.texts.countP wildcardOnly) := by
  intro e answered
  obtain ⟨htotal, hlast⟩ := counters_run (Engine.empty S κ c) calls
  have hs : Sound c e := (Reachable.empty.run calls).sound
  refine ⟨hlast, ?_, fun a ha => counters_perform_of_none ha, fun x hx t => ?_⟩
  · have hnew : (Engine.empty S κ c).totalQueries = 0 := rfl
    show e.totalQueries.toNat = answered.length % 2 ^ 64
    rw [htotal, hnew, UInt64.zero_add, UInt64.toNat_ofNat']
  · have hb := hs.index x hx
    have htallied := CompiledIndex.tallied_run hs.patterns hb t
    refine ⟨_, _, outcome?_of_index? hx t, rfl, fun ctx => queryIn_of_index? hs hx t ctx, ask_eq_of_index? _ hx t,
      ask_eq_of_index? _ hx t, ?_, fun f => CompiledIndex.mem_found_iff_of_build hb, htallied⟩
    rw [htallied.hits]
    exact ask_eq_of_index? _ hx t

/-- Over a scanner that sees the first needle in every text the patterns `ab*` and `*` are tried, and `c` is not. The query before
the index was there and the insertion after it fail and are not counted. -/
theorem accounting_refused :
    let S : Scanner := .scripted ⟨[], none, [0, 5, 0], 1, []⟩
    let calls : List (Call Nat) := [.insert [97, 98, 42] 7, .insert [99] 8, .insert [42] 9, .query [97, 98], .compile,
      .query [97, 98], .query [99], .insert [99] 9]
    let e := ((Engine.empty S Nat .standard).run calls).2
    e.totalQueries.toNat = 2 ∧ e.lastGlobCalls = 2 ∧ ∃ x, e.phase.index? = some x ∧
      ∃ o, e.outcome? (.query [99]) = some o ∧ o.Tallied x.metaWords.metaWords.toList 1 := by
  intro S calls e
  have hc : e.phase.isCompiled = true := by decide +kernel
  have hone : e.texts.countP wildcardOnly = 1 := by decide +kernel
  obtain ⟨x, hx⟩ := Option.isSome_iff_exists.1 hc
  obtain ⟨hlast, htotal, -, hquery⟩ := accounting S Nat .standard calls
  obtain ⟨o, -, ho, -, -, -, -, -, -, htallied⟩ := hquery x hx [99]
  refine ⟨htotal.trans (by decide +kernel), hlast.trans (by decide +kernel), x, hx, o, ho, ?_⟩
  rwa [← hone]

end GlobSieve.Engine
