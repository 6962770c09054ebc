import GlobSieve.Engine.Matcher
import GlobSieve.Proofs.Engine.Atomicity
import GlobSieve.Proofs.Engine.Tabulation
import GlobSieve.Proofs.Query.Checked
import GlobSieve.Scanner.Scripted

/-!
# The life of a matcher

Each operation on the fields of an engine does what the engine does (`runOn?_insert`, `runOn?_compile`, `ask?_matcher`), and no
table is asked for a place that it does not have. So a run of a new matcher is the run of a new engine (`run?_new`), and whatever
the calls were (`lifecycle`):

* there is an index exactly at the stage `compiled`; an engine has this by its type, a matcher by what was done to it;
* an empty matcher has neither patterns nor fragments, and one that accepts patterns has some;
* a matcher that was closed, by success or by failure, keeps stage, patterns, fragments and index, and what it answers to further
  calls is fixed;
* an inquiry fails, for want of an index, unless the matcher is compiled;
* the error remembered is that of the last call that was refused, queries left out.
-/

namespace GlobSieve

variable {S : Scanner} {κ α β σ : Type} {c : Config}

theorem Operation.runOn?_bind {steps : Operation S κ α} {next : α → Operation S κ β} {a : α} {m m' : Matcher S κ}
    (h : steps.runOn? m = some (.ok a, m')) : (steps >>= next : Operation S κ β).runOn? m = (next a).runOn? m' := by
  simp only [runOn?, ExceptT.run_bind, StateT.run_bind] at h ⊢
  rw [h]
  rfl

/-- What an inquiry makes of an outcome. -/
def Inquiry.read (q : Inquiry κ σ α) (r : Registry κ) (o : Outcome κ) : α :=
  q.answer r o.count o.stats (o.hits.foldl (fun s y => q.report s y.1 y.2) q.start)

section Kinds

variable (r : Registry κ)

theorem Inquiry.read_find : find.read r = fun o => (o.count, o.entries) := by
  funext o
  simp only [read, find, foldl_append_map, List.nil_append]
  rfl

theorem Inquiry.read_findWithStats : findWithStats.read r = fun o => (o.entries, o.stats) := by
  funext o
  simp only [read, findWithStats, foldl_append_map, List.nil_append]
  rfl

theorem Inquiry.read_findAll : findAll.read r = Outcome.ids := by
  funext o
  simp only [read, findAll, foldl_append_map, List.nil_append]
  rfl

variable {r}

/-- The texts are looked up under the handles that were reported. -/
theorem Inquiry.read_get {o : Outcome κ} (h : ∀ y ∈ o.hits, r.get? y.1 = some y.2) : get.read r o = o.texts := by
  have htexts : (o.hits.map Prod.fst).filterMap (fun id => (r.get? id).map (·.text)) = o.hits.map (·.2.text) := by
    rw [List.filterMap_map, ← List.filterMap_eq_map]
    apply List.filterMap_congr
    intro y hy
    simp [h y hy]
  simp only [read, get, foldl_append_map, List.nil_append, htexts]
  rfl

theorem get?_of_mem_hits (x : CompiledIndex S) (r : Registry κ) (t : Bytes) :
    ∀ y ∈ (x.run r t).hits, r.get? y.1 = some y.2 := by
  intro y hy
  obtain ⟨id, -, hid⟩ := List.mem_filterMap.1 (List.mem_filter.1 hy).1
  obtain ⟨p, hp, rfl⟩ := Option.map_eq_some_iff.1 hid
  exact hp

end Kinds

theorem Phase.stage_eq_empty {ph : Phase S} : ph.stage = .empty ↔ ph = .empty := by
  cases ph <;> simp [stage]

theorem Phase.stage_eq_accepting {ph : Phase S} : ph.stage = .accepting ↔ ph = .accepting := by
  cases ph <;> simp [stage]

namespace Matcher

variable {m : Matcher S κ} {p : Bytes} {cookie : κ} {err : EngineError} {x : CompiledIndex S}

/-- More patterns may come. -/
def IsOpen (m : Matcher S κ) : Prop := m.stage = .empty ∨ m.stage = .accepting

theorem not_isOpen_iff : ¬m.IsOpen ↔ m.stage = .compiled ∨ m.stage = .failed := by
  rw [IsOpen]
  cases m.stage <;> simp

theorem runOn?_get (m : Matcher S κ) : (get : Operation S κ _).runOn? m = some (.ok m, m) := rfl

theorem runOn?_onStore {steps : Insertion κ α} {result : Except EngineError α} {registry : Registry κ} {table : FragmentTable}
    (h : steps.runOn (m.registry, m.table) = (result, registry, table)) :
    (onStore steps).runOn? m = some (.ok result, { m with registry, table }) := by
  have hstore : (onStore steps).runOn? m = some (.ok (steps.runOn (m.registry, m.table)).1, { m with
    registry := (steps.runOn (m.registry, m.table)).2.1, table := (steps.runOn (m.registry, m.table)).2.2 }) := rfl
  rw [hstore, h]

/-- An open matcher goes on to store the pattern. -/
theorem runOn?_insert_of_isOpen (h : m.IsOpen) (p : Bytes) (cookie : κ) :
    (insert p cookie).runOn? m = (store p cookie).runOn? m := by
  rw [insert, Operation.runOn?_bind (runOn?_get m)]
  rcases h with h | h <;> rw [h]

theorem runOn?_store_of_error (hi : m.registry.insert m.table p cookie = .error err) :
    (store p cookie).runOn? m = some (.error err, { m with lastError := some err }) := by
  have hsteps := Registry.insertHere_runOn m.registry m.table p cookie
  rw [hi] at hsteps
  exact Operation.runOn?_bind (runOn?_onStore hsteps)

theorem runOn?_store_of_ok {id : Nat} {r : Registry κ} {table : FragmentTable}
    (hi : m.registry.insert m.table p cookie = .ok (id, r, table)) :
    (store p cookie).runOn? m = some (.ok id, { m with registry := r, table := table, stage := .accepting }) := by
  have hsteps := Registry.insertHere_runOn m.registry m.table p cookie
  rw [hi] at hsteps
  exact Operation.runOn?_bind (runOn?_onStore hsteps)

/-- A closed matcher takes no more patterns. -/
theorem runOn?_insert_of_closed (h : ¬m.IsOpen) (p : Bytes) (cookie : κ) :
    (insert p cookie).runOn? m = some (.error .closed, { m with lastError := some .closed }) := by
  have hstart : (insert p cookie).runOn? m = (fail .closed : Operation S κ Nat).runOn? m := by
    rw [insert, Operation.runOn?_bind (runOn?_get m)]
    rcases not_isOpen_iff.1 h with h | h <;> rw [h]
  exact hstart

/-- An open matcher goes on to build the index, and no place is missing there. -/
theorem runOn?_compile_of_isOpen (h : m.IsOpen) : compile.runOn? m = (build : Operation S κ Unit).runOn? m := by
  rw [compile, Operation.runOn?_bind (runOn?_get m)]
  rcases h with h | h <;> rw [h]

theorem runOn?_build (h : m.registry.Grounded m.table) : build.runOn? m =
    match CompiledIndex.build S m.registry m.table with
    | .error err => some (.error (.ofLiteral err), { m with stage := .failed, lastError := some (.ofLiteral err) })
    | .ok x => some (.ok (), { m with index? := some x, stage := .compiled }) := by
  have hbuild : (liftM (CompiledIndex.buildInPlace? S m.registry m.table) : Operation S κ _).runOn? m =
      some (.ok (CompiledIndex.build S m.registry m.table), m) := by
    rw [CompiledIndex.buildInPlace?_eq h]
    rfl
  rw [build, Operation.runOn?_bind (runOn?_get m), Operation.runOn?_bind hbuild]
  cases CompiledIndex.build S m.registry m.table <;> rfl

/-- A closed matcher cannot be compiled again. -/
theorem runOn?_compile_of_closed (h : ¬m.IsOpen) : compile.runOn? m =
    let err := if m.stage = .compiled then .alreadyCompiled else .closed
    some (.error err, { m with lastError := some err }) := by
  have hstart : compile.runOn? m =
      (fail (if m.stage = .compiled then .alreadyCompiled else .closed) : Operation S κ Unit).runOn? m := by
    rw [compile, Operation.runOn?_bind (runOn?_get m)]
    rcases not_isOpen_iff.1 h with h | h <;> rw [h] <;> rfl
  exact hstart

/-! ## Engines -/

theorem isOpen_matcher {e : Engine S κ} : e.matcher.IsOpen ↔ e.IsOpen := by
  show e.phase.stage = .empty ∨ e.phase.stage = .accepting ↔ e.phase = .empty ∨ e.phase = .accepting
  rw [Phase.stage_eq_empty, Phase.stage_eq_accepting]

/-- An open engine has no index to lose. -/
theorem index?_matcher_of_isOpen {e : Engine S κ} (h : e.IsOpen) : e.matcher.index? = none := by
  show e.phase.index? = none
  rcases h with h | h <;> rw [h] <;> rfl

/-- To insert into the fields of an engine is to insert into the engine. -/
theorem runOn?_insert (e : Engine S κ) (p : Bytes) (cookie : κ) :
    (insert p cookie).runOn? e.matcher = some ((e.insert p cookie).1, (e.insert p cookie).2.matcher) := by
  by_cases ho : e.IsOpen
  · rw [runOn?_insert_of_isOpen (isOpen_matcher.2 ho)]
    cases hi : e.registry.insert e.table p cookie with
    | error err =>
      rw [runOn?_store_of_error (m := e.matcher) hi, Engine.insert_of_error ho hi]
      rfl
    | ok res =>
      rw [runOn?_store_of_ok (m := e.matcher) hi, Engine.insert_of_ok ho hi, index?_matcher_of_isOpen ho]
      rfl
  · rw [runOn?_insert_of_closed (mt isOpen_matcher.1 ho), Engine.insert_of_closed ho]
    rfl

/-- To compile the fields of an engine is to compile the engine. -/
theorem runOn?_compile {e : Engine S κ} (h : Engine.Sound c e) :
    compile.runOn? e.matcher = some (e.compile.1, e.compile.2.matcher) := by
  by_cases ho : e.IsOpen
  · have hbuild : build.runOn? e.matcher = _ := runOn?_build h.patterns.grounded
    rw [runOn?_compile_of_isOpen (isOpen_matcher.2 ho), hbuild]
    show (match CompiledIndex.build S e.registry e.table with | .error _ => _ | .ok _ => _) = _
    cases hb : CompiledIndex.build S e.registry e.table with
    | error err =>
      rw [Engine.compile_of_error ho hb, index?_matcher_of_isOpen ho]
      rfl
    | ok x =>
      rw [Engine.compile_of_ok ho hb]
      rfl
  · rw [runOn?_compile_of_closed (mt isOpen_matcher.1 ho), Engine.compile_of_closed ho]
    simp only [e.phase.isCompiled_iff]
    rfl

/-! ## Queries -/

/-- Without an index there is no answer, and nothing is changed. -/
theorem query?_of_index?_eq_none (h : m.index? = none) (ctx : QueryContext) (t : Bytes)
    (report : σ → Nat → StoredPattern κ → σ) (start : σ) :
    m.query? ctx t report start = some (.error .notCompiled, m, ctx, start) := by
  rw [query?, h]

/-- With an index there is one, in any context. What is made of the reports is made of the list of them. -/
theorem query?_of_index? (hx : m.index? = some x) (hb : CompiledIndex.build S m.registry m.table = .ok x)
    (ctx : QueryContext) (t : Bytes) (report : σ → Nat → StoredPattern κ → σ) (start : σ) :
    let o := x.run m.registry t
    m.query? ctx t report start = some (.ok o.count,
      { m with totalQueries := m.totalQueries + 1, lastGlobCalls := o.stats.globCalls }, o.context,
      o.hits.foldl (fun s y => report s y.1 y.2) start) := by
  simp only [query?, hx, CompiledIndex.resolveIn?_eq_some hb, verify_eq_verifyIn, ← CompiledIndex.runIn_eq_run hb t ctx]
  rfl

/-- To ask the fields of an engine, in any context, is to ask the engine. -/
theorem ask?_matcher {e : Engine S κ} (h : Engine.Sound c e) (q : Inquiry κ σ α) (ctx : QueryContext) (t : Bytes) :
    e.matcher.ask? q ctx t =
      some ((e.ask (q.read e.registry) t).1, (e.query t).2.matcher, (e.queryIn t ctx).2.2) := by
  rcases Engine.query_cases e t with ⟨hn, hq⟩ | ⟨x, hx, hq⟩
  · have hask := query?_of_index?_eq_none (m := e.matcher) hn ctx t q.report q.start
    rw [ask?, hask, Engine.ask, hq, Engine.queryIn_of_index?_eq_none hn]
    rfl
  · have hask := query?_of_index? (m := e.matcher) hx (h.index x hx) ctx t q.report q.start
    rw [ask?, hask, Engine.ask, Engine.queryIn_of_index? h hx, hq]
    rfl

/-- The kinds of query of a matcher answer as those of the engine do. -/
theorem ask?_kinds {e : Engine S κ} (h : Engine.Sound c e) (ctx : QueryContext) (t : Bytes) :
    let m := (e.query t).2.matcher
    let ctx' := (e.queryIn t ctx).2.2
    e.matcher.ask? .find ctx t = some ((e.ask (fun o => (o.count, o.entries)) t).1, m, ctx') ∧
      e.matcher.ask? .findWithStats ctx t = some ((e.findWithStats t).1, m, ctx') ∧
      e.matcher.ask? .count ctx t = some ((e.count t).1, m, ctx') ∧
      e.matcher.ask? .findAll ctx t = some ((e.findAll t).1, m, ctx') ∧
      e.matcher.ask? .get ctx t = some ((e.get t).1, m, ctx') := by
  have hget : (e.ask (Inquiry.get.read e.registry) t).1 = (e.get t).1 := by
    rcases Engine.query_cases e t with ⟨-, hq⟩ | ⟨x, hx, -⟩
    · rw [Engine.get, Engine.ask, Engine.ask, hq]
      rfl
    · rw [Engine.get, Engine.ask_of_index? _ hx, Engine.ask_of_index? _ hx, Inquiry.read_get (get?_of_mem_hits x e.registry t)]
  refine ⟨?_, ?_, ?_, ?_, ?_⟩ <;> rw [ask?_matcher h]
  · rw [Inquiry.read_find]
  · rw [Inquiry.read_findWithStats]
    rfl
  · rfl
  · rw [Inquiry.read_findAll]
    rfl
  · rw [hget]

/-- What is reported of the fields of an engine is what the engine reports. -/
theorem reports_matcher [ToString κ] (e : Engine S κ) : e.matcher.isCompiled = e.phase.isCompiled ∧
    e.matcher.errorMessage = e.errorMessage ∧ e.matcher.stats = e.stats ∧ e.matcher.audit = e.audit ∧
    e.matcher.dump = e.dump ∧ e.matcher.inspect = e.inspect := by
  refine ⟨?_, ?_, rfl, rfl, rfl, rfl⟩
  · rw [Bool.eq_iff_iff, e.phase.isCompiled_iff]
    exact beq_iff_eq
  · rw [errorMessage, Engine.errorMessage, Engine.matcher]
    cases e.lastError <;> rfl

/-! ## Runs -/

/-- Make a call. Its failure, if it fails, and the matcher after it. -/
def perform? (m : Matcher S κ) : Call κ → Option (Option EngineError × Matcher S κ)
  | .insert p cookie => ((insert p cookie).runOn? m).map fun (r, m) => (failure? r, m)
  | .compile => (compile.runOn? m).map fun (r, m) => (failure? r, m)
  | .query t => (m.ask? .count .fresh t).map fun (r, m, _) => (failure? r, m)

/-- Make calls in turn. The log of them, and the matcher after them. -/
def run? (m : Matcher S κ) : List (Call κ) → Option (List (Call κ × Option EngineError) × Matcher S κ)
  | [] => some ([], m)
  | a :: calls => do
    let (err, m) ← m.perform? a
    let (log, m) ← m.run? calls
    return ((a, err) :: log, m)

theorem failure?_map {ε : Type} (f : α → β) (r : Except ε α) : failure? (r.map f) = failure? r := by
  cases r <;> rfl

variable {e : Engine S κ}

/-- A call on the fields of an engine is the call on the engine. -/
theorem perform?_matcher (h : Engine.Sound c e) (a : Call κ) :
    e.matcher.perform? a = some ((e.perform a).1, (e.perform a).2.matcher) := by
  cases a with
  | insert p cookie =>
    rw [perform?, runOn?_insert]
    rfl
  | compile =>
    rw [perform?, runOn?_compile h]
    rfl
  | query t =>
    rw [perform?, ask?_matcher h, Engine.perform, ← failure?_map (Inquiry.count.read e.registry)]
    rfl

/-- A run of the fields of an engine is the run of the engine. -/
theorem run?_matcher (h : Engine.Reachable c e) (calls : List (Call κ)) :
    e.matcher.run? calls = some ((e.run calls).1, (e.run calls).2.matcher) := by
  induction calls generalizing e with
  | nil => rfl
  | cons a calls ih =>
    simp only [run?, perform?_matcher h.sound, Option.bind_eq_bind, Option.bind_some, ih (h.perform a)]
    rfl

/-- A run of a new matcher is the run of a new engine. -/
theorem run?_new (S : Scanner) (κ : Type) (c : Config) (calls : List (Call κ)) :
    (new S κ c).run? calls =
      some (((Engine.empty S κ c).run calls).1, ((Engine.empty S κ c).run calls).2.matcher) :=
  run?_matcher .empty calls

/-- Without an index an inquiry fails, and with one it does not. -/
theorem ask_decides (e : Engine S κ) (f : Outcome κ → α) (t : Bytes) :
    ((e.ask f t).1 = .error .notCompiled ↔ e.matcher.stage ≠ .compiled) ∧
      (e.matcher.stage = .compiled → ∃ a, (e.ask f t).1 = .ok a) := by
  have hstage : e.phase.index?.isSome = true ↔ e.matcher.stage = .compiled := e.phase.isCompiled_iff
  rcases Engine.query_cases e t with ⟨hn, hq⟩ | ⟨x, hx, -⟩
  · simp [← hstage, hn, Engine.ask, hq, Except.map]
  · simp [← hstage, hx, Engine.ask_of_index? f hx]

/-- **The life of a matcher**, whatever the scanner answers and whatever the calls were. An inquiry may be of any kind, in any
context. -/
theorem lifecycle (S : Scanner) (κ : Type) (c : Config) (calls : List (Call κ)) :
    ∃ log m, (new S κ c).run? calls = some (log, m) ∧
      (m.index?.isSome = true ↔ m.stage = .compiled) ∧
      (m.stage = .empty → m.registry.texts = [] ∧ m.table.toList = []) ∧
      (m.stage = .accepting → m.registry.texts ≠ []) ∧
      (m.stage = .compiled ∨ m.stage = .failed → ∀ later : List (Call κ), ∃ m',
        m.run? later = some (later.map fun a => (a, m.stage.closedFailure a), m') ∧
          m'.stage = m.stage ∧ m'.registry = m.registry ∧ m'.table = m.table ∧ m'.index? = m.index?) ∧
      (∀ {σ α : Type} (q : Inquiry κ σ α) (ctx : QueryContext) (t : Bytes), ∃ r m' ctx',
        m.ask? q ctx t = some (r, m', ctx') ∧
          (r = .error .notCompiled ↔ m.stage ≠ .compiled) ∧
          (m.stage = .compiled → ∃ a, r = .ok a) ∧
          m.perform? (.query t) = some (failure? r, m')) ∧
      m.lastError = (refusals log).getLast? := by
  have hr : Engine.Reachable c ((Engine.empty S κ c).run calls).2 := Engine.Reachable.empty.run calls
  have hlast := Engine.lastError_run (Engine.empty S κ c) calls
  refine ⟨_, _, run?_new S κ c calls, ?_⟩
  generalize ((Engine.empty S κ c).run calls).1 = log at hlast ⊢
  generalize ((Engine.empty S κ c).run calls).2 = e at hr hlast ⊢
  refine ⟨e.phase.isCompiled_iff, ?_, ?_, ?_, ?_, ?_⟩
  · intro hs
    exact hr.staged.empty (Phase.stage_eq_empty.1 hs)
  · intro hs
    exact hr.staged.accepting (Phase.stage_eq_accepting.1 hs)
  · intro hs later
    obtain ⟨hlog, hphase, hreg, htab⟩ := Engine.run_of_closed (mt isOpen_matcher.2 (not_isOpen_iff.2 hs)) later
    refine ⟨(e.run later).2.matcher, (run?_matcher hr later).trans ?_, congrArg Phase.stage hphase, hreg, htab,
      congrArg Phase.index? hphase⟩
    rw [hlog]
    rfl
  · intro σ α q ctx t
    obtain ⟨hno, hyes⟩ := ask_decides e (q.read e.registry) t
    refine ⟨_, _, _, ask?_matcher hr.sound q ctx t, hno, hyes, (perform?_matcher hr.sound _).trans ?_⟩
    rw [Engine.ask, failure?_map]
    rfl
  · exact hlast.trans Option.or_none

/-- After a failure to compile, a matcher is closed for another attempt too. -/
example : ((Matcher.new (.scripted ⟨[], some (.resourceLimit "full"), [], 0, []⟩) Nat .standard).run?
    [.insert [97] 0, .compile, .query [97], .compile]).map (refusals ·.1) =
      some [.scanner (.resourceLimit "full"), .closed] := by decide +kernel

end Matcher

end GlobSieve
