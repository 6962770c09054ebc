import GlobSieve.Proofs.Engine.Contexts
import GlobSieve.Proofs.Glob.Tokens

/-!
# Case in texts

Where case is ignored a query sees no more of a text than its folded bytes. The scanner folds every byte as it reads it
(`Literal.Automaton.scan_congr`). A glob is not folded: its literals are compared after folding, and its classes are asked
for both letters of a byte. Still it accepts of two texts that fold alike both or neither (`Glob.accepts_congr`). All else that
a query does depends on these two alone (`run_congr`), so not even its counters tell such texts apart.
-/

namespace GlobSieve

variable {κ : Type} {c : Config} {t t' : Bytes}

/-- The scan and the matches of an index with the automaton go by the folded text. -/
theorem CompiledIndex.run_congr {r : Registry κ} {table : FragmentTable} {x : CompiledIndex .automaton}
    (hr : r.Sound table) (hx : build .automaton r table = .ok x)
    (ht : r.config.mode.foldBytes t = r.config.mode.foldBytes t') : x.run r t = x.run r t' := by
  have hscan : Scanner.automaton.scan x.scanner t = Scanner.automaton.scan x.scanner t' := by
    obtain ⟨b, ls, hb, hmode, -⟩ := exists_holds_of_build hx
    rw [hb]
    refine Literal.Automaton.scan_congr ?_
    show b.mode.foldBytes t = b.mode.foldBytes t'
    rw [hmode, ht]
  have haccepts {id : Nat} {p : StoredPattern κ} (hp : r.get? id = some p) : p.glob.accepts t = p.glob.accepts t' := by
    refine Glob.accepts_congr ?_
    rw [(hr.of_get? hp).glob_eq]
    exact ht
  have hhits (ids : List Nat) : (ids.filterMap fun id => (r.get? id).map (id, ·)).filter (fun y => y.2.glob.accepts t) =
      (ids.filterMap fun id => (r.get? id).map (id, ·)).filter fun y => y.2.glob.accepts t' := by
    refine List.filter_congr fun y hy => ?_
    obtain ⟨id, -, hid⟩ := List.mem_filterMap.1 hy
    obtain ⟨p, hp, rfl⟩ := Option.map_eq_some_iff.1 hid
    exact haccepts hp
  simp only [run, hscan, hhits]

namespace Engine

variable {e : Engine .automaton κ}

/-- Queries for texts that fold to the same bytes answer alike and leave the same engine. -/
theorem query_congr (h : Reachable c e) (ht : c.mode.foldBytes t = c.mode.foldBytes t') : e.query t = e.query t' := by
  have hs := h.sound
  unfold query
  cases hp : e.phase with
  | compiled x =>
    have hx : e.phase.index? = some x := by rw [hp]; rfl
    have hrun : x.run e.registry t = x.run e.registry t' :=
      CompiledIndex.run_congr hs.patterns (hs.index x hx) (by rwa [hs.config_eq])
    simp only [hrun]
  | empty | accepting | failed => rfl

/-- **Case in a text is invisible** where it is ignored: all queries for texts that fold to the same bytes come to the same
outcome, whatever is asked of it, and leave the same engine and the same context. -/
theorem outcome_of_foldBytes (h : Reachable c e) (hc : e.phase.isCompiled = true) (t : Bytes) :
    ∃ (o : Outcome κ) (e' : Engine .automaton κ), ∀ t', c.mode.foldBytes t' = c.mode.foldBytes t →
      (∀ ctx, e.queryIn t' ctx = (.ok o, e', o.context)) ∧
        e.findAll t' = (.ok o.ids, e') ∧
        e.find t' = (.ok o.entries, e') ∧
        e.findWithStats t' = (.ok (o.entries, o.context.stats), e') ∧
        e.count t' = (.ok o.count, e') ∧
        e.get t' = (.ok o.texts, e') := by
  obtain ⟨x, hx⟩ := Option.isSome_iff_exists.1 hc
  refine ⟨x.run e.registry t, (e.query t).2, fun t' ht => ?_⟩
  have hquery := query_congr h ht
  have hask {α : Type} (f : Outcome κ → α) : e.ask f t' = (.ok (f (x.run e.registry t)), (e.query t).2) := by
    rw [← ask_eq_of_index? f hx t, ask, ask, hquery]
  have hrun : x.run e.registry t' = x.run e.registry t := by
    have hok := query_of_index? hx t'
    rw [hquery, query_of_index? hx t] at hok
    exact (Except.ok.inj hok).symm
  refine ⟨fun ctx => ?_, hask _, hask _, hask _, hask _, hask _⟩
  rw [queryIn_of_index? h.sound hx, hrun, hquery]

/-- The patterns `[Z-a]x*` and `B[!k-m]` where case is ignored: the range from `Z` to `a` lies across letters and signs. The
texts `zXbK` and `ZxBk` are not told apart. -/
theorem outcome_of_foldBytes_straddling :
    let c : Config := ⟨.insensitive, 8⟩
    let ps : List (Bytes × Nat) := [([91, 90, 45, 97, 93, 120, 42], 7), ([66, 91, 33, 107, 45, 109, 93], 8)]
    let e := ((Engine.empty .automaton Nat c).insertEach ps).2.compile.2
    Reachable c e ∧ e.phase.isCompiled = true ∧
      c.mode.foldBytes [90, 120, 66, 107] = c.mode.foldBytes [122, 88, 98, 75] ∧
      e.findAll [90, 120, 66, 107] = e.findAll [122, 88, 98, 75] ∧
      e.queryIn [90, 120, 66, 107] .fresh = e.queryIn [122, 88, 98, 75] .fresh := by
  intro c ps e
  have hr : Reachable c e := (Reachable.empty.insertEach ps).compile
  have hc : e.phase.isCompiled = true := by decide +kernel
  have hfold : c.mode.foldBytes [90, 120, 66, 107] = c.mode.foldBytes [122, 88, 98, 75] := by decide +kernel
  obtain ⟨o, e', hsame⟩ := outcome_of_foldBytes hr hc [122, 88, 98, 75]
  obtain ⟨hctx, hall, -⟩ := hsame _ rfl
  obtain ⟨hctx', hall', -⟩ := hsame _ hfold
  exact ⟨hr, hc, hfold, hall'.trans hall.symm, (hctx' _).trans (hctx _).symm⟩

end Engine

end GlobSieve
