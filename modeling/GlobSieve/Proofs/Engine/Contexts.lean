import GlobSieve.Proofs.Engine.Reachable
import GlobSieve.Proofs.Query.InPlace

/-!
# Contexts that are used again

A query in a context answers as the query does, whatever the context holds (`queryIn_of_index?`, by `runIn_eq_run`), so it
may come from any queries of any engines. An engine without an index does not touch it (`queryIn_of_index?_eq_none`).
-/

namespace GlobSieve.Engine

variable {S : Scanner} {κ : Type} {c : Config} {e : Engine S κ} {x : CompiledIndex S}

theorem queryIn_of_index? (h : Sound c e) (hx : e.phase.index? = some x) (t : Bytes) (ctx : QueryContext) :
    e.queryIn t ctx = (.ok (x.run e.registry t), (e.query t).2, (x.run e.registry t).context) := by
  have hrun := CompiledIndex.runIn_eq_run (h.index x hx) t ctx
  unfold queryIn query
  cases hp : e.phase with
  | compiled y =>
    rw [hp] at hx
    cases hx
    simp only [hrun]
  | empty | accepting | failed => rw [hp] at hx; cases hx

theorem queryIn_of_index?_eq_none (hn : e.phase.index? = none) (t : Bytes) (ctx : QueryContext) :
    e.queryIn t ctx = (.error .notCompiled, e, ctx) := by
  unfold queryIn
  cases hp : e.phase with
  | compiled y => rw [hp] at hn; cases hn
  | empty | accepting | failed => rfl

/-- **A context carries nothing over.** A query of a compiled engine does in any context what it does in a fresh one, and
finds what every other query finds; an engine that is not compiled leaves the context as it was. -/
theorem queryIn_context_irrelevant (h : Reachable c e) (t : Bytes) (ctx : QueryContext) :
    (e.phase.isCompiled = true → ∃ (o : Outcome κ) (e' : Engine S κ),
      e.queryIn t ctx = (.ok o, e', o.context) ∧
        e.queryIn t .fresh = (.ok o, e', o.context) ∧
        e.find t = (.ok o.entries, e') ∧
        e.findWithStats t = (.ok (o.entries, o.context.stats), e') ∧
        e.count t = (.ok o.count, e') ∧
        e.findAll t = (.ok o.ids, e')) ∧
      (e.phase.isCompiled = false → e.queryIn t ctx = (.error .notCompiled, e, ctx)) := by
  constructor
  · intro hc
    obtain ⟨x, hx⟩ := Option.isSome_iff_exists.1 hc
    have hask {α : Type} (f : Outcome κ → α) : e.ask f t = (.ok (f (x.run e.registry t)), (e.query t).2) :=
      Prod.ext (ask_of_index? f hx t) rfl
    exact ⟨_, _, queryIn_of_index? h.sound hx t ctx, queryIn_of_index? h.sound hx t .fresh, hask _, hask _, hask _, hask _⟩
  · intro hc
    exact queryIn_of_index?_eq_none (Option.isNone_iff_eq_none.1 (by simpa [Phase.isCompiled] using hc)) t ctx

/-- The context that the query of `a*` and `b` for `ab` leaves, used for the query of `*b` and `c` for `b`: the handles that
it holds now mean other fragments and patterns. -/
theorem queryIn_context_irrelevant_leftover :
    let ctx : QueryContext := ⟨[0, 1], [0, 1], ⟨2, 2, 2, 2, 2, 1⟩, [0, 1], [(0, 1), (1, 1)], [0, 1], [0, 1], [0, 1]⟩
    let e := ((Engine.empty .automaton Nat .standard).insertEach [([42, 98], 7), ([99], 8)]).2.compile.2
    Reachable .standard e ∧ e.phase.isCompiled = true ∧ e.queryIn [98] ctx = e.queryIn [98] .fresh := by
  intro ctx e
  have hr : Reachable .standard e := (Reachable.empty.insertEach _).compile
  have hc : e.phase.isCompiled = true := by decide +kernel
  obtain ⟨o, e', hctx, hfresh, -⟩ := (queryIn_context_irrelevant hr [98] ctx).1 hc
  exact ⟨hr, hc, hctx.trans hfresh.symm⟩

end GlobSieve.Engine
