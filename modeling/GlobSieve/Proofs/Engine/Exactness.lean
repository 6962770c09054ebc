import GlobSieve.Proofs.Engine.Contexts
import GlobSieve.Proofs.Glob.Dangling
import GlobSieve.Proofs.Glob.InPlace
import GlobSieve.Proofs.Glob.OnePass
import GlobSieve.Proofs.Query.Report
import GlobSieve.Scanner.Scripted

/-!
# What an engine reports

* With the automaton, a query reports the stored patterns that match, whatever it is asked for (`findAll_exact`).
* With any scanner, a query reports only patterns that match, each at most once, and all of them if the scan lists the
  needles of the text. So scanners that do this agree (`reported_of_scanner`).
* With the automaton, the filter passes what it should and nothing else: a fragment is found when its needles are in the
  text, and a pattern is tried when its fragments are found (`filter_exact`).
* A pattern that does not match is in none of the views of a report (`not_reported_of_rejects`), and so never is one that ends
  in an odd number of backslashes (`dangling_exact`).
-/

namespace GlobSieve.Engine

variable {S : Scanner} {κ : Type} {c : Config} {ps : List (Bytes × κ)}

theorem index?_of_compile {e : Engine S κ} (h : ((Engine.empty S κ c).insertEach ps).2.compile = (.ok (), e)) :
    ∃ x, e.phase.index? = some x ∧ Sound c e ∧ e.registry.stored = ((Engine.empty S κ c).insertEach ps).1 := by
  have hs := ((Reachable.empty (S := S) (κ := κ) (c := c)).insertEach ps).compile.sound
  rw [h] at hs
  obtain ⟨x, -, rfl⟩ := of_compile_eq_ok h
  exact ⟨x, rfl, hs, stored_insertEach (Engine.empty S κ c) ps⟩

/-- The handles of patterns picked from the stored ones are ascending. -/
theorem pairwise_filter_stored (e : Engine S κ) (f : Nat × Bytes × κ → Bool) :
    ((e.registry.stored.filter f).map Prod.fst).Pairwise (· < ·) :=
  e.registry.pairwise_stored.sublist (List.filter_sublist.map _)

theorem reported_perm_of_sees {e : Engine S κ} {x : CompiledIndex S} {t : Bytes} (h : Sound c e)
    (hx : e.phase.index? = some x) (hsees : x.Sees c e.table t) : (x.run e.registry t).reported.Perm
      (e.registry.stored.filter fun (_, p, _) => (Glob.parse c.mode p).accepts t) := by
  obtain rfl := h.config_eq
  exact reported_perm h.patterns (h.index x hx) hsees

theorem sees_of_automaton {e : Engine .automaton κ} {x : CompiledIndex .automaton} (h : Sound c e)
    (hx : e.phase.index? = some x) (t : Bytes) : x.Sees c e.table t := by
  obtain rfl := h.config_eq
  exact sees_automaton (h.index x hx) t

/-- What a query of an engine with the automaton reports, whatever patterns were offered to it. -/
theorem findAll_exact {e : Engine .automaton κ}
    (h : ((Engine.empty .automaton κ c).insertEach ps).2.compile = (.ok (), e)) (t : Bytes) :
    let stored := ((Engine.empty .automaton κ c).insertEach ps).1
    let matching := stored.filter fun (_, p, _) => (Glob.parse c.mode p).accepts t
    e.registry.stored = stored ∧
      (e.findAll t).1 = .ok (matching.map Prod.fst) ∧
      (matching.map Prod.fst).Pairwise (· < ·) ∧
      (e.count t).1 = .ok matching.length ∧
      (∃ calls, (e.find t).1 = .ok calls ∧ calls.length = matching.length ∧ calls.Perm (matching.map Prod.snd)) ∧
      ∃ texts, (e.get t).1 = .ok texts ∧ texts.Pairwise (· < ·) ∧ ∀ p, p ∈ texts ↔ ∃ id k, (id, p, k) ∈ matching := by
  obtain ⟨x, hx, hs, hst⟩ := index?_of_compile h
  have hperm := reported_perm_of_sees hs hx (sees_of_automaton hs hx t)
  rw [← hst]
  intro stored matching
  have hms : (matching.map Prod.fst).Pairwise (· < ·) := pairwise_filter_stored e _
  have hcalls : (x.run e.registry t).entries.Perm (matching.map Prod.snd) := Outcome.entries_of_perm hperm
  refine ⟨rfl, ?_, hms, ?_, ⟨_, ask_of_index? _ hx t, ?_, hcalls⟩, _, ask_of_index? _ hx t,
    Outcome.pairwise_texts _, fun p => Outcome.mem_texts_of_perm hperm⟩
  · rw [← Outcome.ids_of_perm hperm hms]
    exact ask_of_index? _ hx t
  · rw [← Outcome.count_of_perm rfl hperm]
    exact ask_of_index? _ hx t
  · rw [hcalls.length_eq, List.length_map]

/-- Three patterns, `a[bc]*`, `?` and `A*d`, case ignored, and the empty one, which is refused. -/
theorem findAll_exact_brackets :
    let ps : List (Bytes × Nat) := [([97, 91, 98, 99, 93, 42], 7), ([], 8), ([63], 9), ([65, 42, 100], 5)]
    ∃ e : Engine .automaton Nat, ((Engine.empty .automaton Nat ⟨.insensitive, 9⟩).insertEach ps).2.compile = (.ok (), e) ∧
      (e.findAll [65, 98, 68]).1 = .ok [0, 2] := by
  intro ps
  have hc : ((Engine.empty .automaton Nat ⟨.insensitive, 9⟩).insertEach ps).2.compile.1 = .ok () := by decide +kernel
  refine ⟨_, Prod.ext hc rfl, ?_⟩
  obtain ⟨-, hids, -⟩ := findAll_exact (Prod.ext hc rfl) [65, 98, 68]
  rw [hids]
  decide +kernel

/-- What a query reports over any scanner, and what it reports when the scan lists the needles of the text. -/
theorem reported_of_scanner {e : Engine S κ}
    (h : ((Engine.empty S κ c).insertEach ps).2.compile = (.ok (), e)) (t : Bytes) :
    let stored := ((Engine.empty S κ c).insertEach ps).1
    let matching := stored.filter fun (_, p, _) => (Glob.parse c.mode p).accepts t
    ∃ x o, e.phase.index? = some x ∧ (e.query t).1 = .ok o ∧
      o.reported ⊆ matching ∧ (o.reported.map Prod.fst).Nodup ∧
      (x.Sees c e.table t → o.reported.Perm matching) ∧
      ∀ {S' : Scanner} {e' : Engine S' κ} {x' : CompiledIndex S'},
        ((Engine.empty S' κ c).insertEach ps).2.compile = (.ok (), e') → e'.phase.index? = some x' →
        x.Sees c e.table t → x'.Sees c e'.table t → (e.findAll t).1 = (e'.findAll t).1 := by
  obtain ⟨x, hx, hs, hst⟩ := index?_of_compile h
  rw [← hst]
  intro stored matching
  refine ⟨x, x.run e.registry t, hx, query_of_index? hx t, ?_, nodup_reported hs.patterns (hs.index x hx) t,
    reported_perm_of_sees hs hx, ?_⟩
  · have hsub := reported_subset hs.patterns (x := x) (t := t)
    rwa [hs.config_eq] at hsub
  intro S' e' x' h' hx' hsees hsees'
  obtain ⟨y, -, hs', hst'⟩ := index?_of_compile h'
  have hperm := reported_perm_of_sees hs hx hsees
  have hperm' := reported_perm_of_sees hs' hx' hsees'
  have hids := Outcome.ids_of_perm hperm (pairwise_filter_stored e _)
  have hids' := Outcome.ids_of_perm hperm' (pairwise_filter_stored e' _)
  have hstored : e.registry.stored = e'.registry.stored := by
    rw [hst, hst']
    exact insertEach_scanner ps (.inl rfl) (.inl rfl) rfl rfl
  rw [findAll, findAll, ask_of_index? _ hx, ask_of_index? _ hx', hids, hids', hstored]

/-- Two needles share an id, and every scan lists it, next to one that no needle has. The automaton gives the same. -/
theorem reported_of_scanner_shared :
    let ps : List (Bytes × Nat) := [([97, 98, 42], 7), ([42, 99, 100], 8), ([], 9)]
    let script : Script := ⟨[.ok 5, .error (.duplicate 5)], none, [5, 9, 5], 1, []⟩
    ∃ e e', ((Engine.empty (.scripted script) Nat .standard).insertEach ps).2.compile = (.ok (), e) ∧
      ((Engine.empty .automaton Nat .standard).insertEach ps).2.compile = (.ok (), e') ∧
      (e.findAll [97, 98, 120]).1 = (e'.findAll [97, 98, 120]).1 := by
  intro ps script
  have hc : ((Engine.empty (.scripted script) Nat .standard).insertEach ps).2.compile.1 = .ok () := by decide +kernel
  have hc' : ((Engine.empty .automaton Nat .standard).insertEach ps).2.compile.1 = .ok () := by decide +kernel
  refine ⟨_, _, Prod.ext hc rfl, Prod.ext hc' rfl, ?_⟩
  obtain ⟨x, -, hx, -, -, -, -, hagree⟩ := reported_of_scanner (Prod.ext hc rfl) [97, 98, 120]
  obtain ⟨x', hx', hs', -⟩ := index?_of_compile (S := .automaton) (Prod.ext hc' rfl)
  refine hagree (Prod.ext hc' rfl) hx' (fun n id hans _ => ?_) (sees_of_automaton hs' hx' _)
  have hall : (Scanner.scripted script).answers .standard
      ((Engine.empty (.scripted script) Nat .standard).insertEach ps).2.compile.2.table = [([97, 98], 5), ([99, 100], 5)] := by
    decide +kernel
  rw [hall] at hans
  show id ∈ [5, 9, 5]
  simp only [List.mem_cons, Prod.mk.injEq, List.not_mem_nil, or_false] at hans
  rcases hans with ⟨-, rfl⟩ | ⟨-, rfl⟩ <;> decide

/-- A fragment is found by the automaton when all its needles are in the text, up to the mode. -/
theorem mem_found_of_automaton {e : Engine .automaton κ} {x : CompiledIndex .automaton} (h : Sound c e)
    (hx : e.phase.index? = some x) {t : Bytes} {f : Nat} : f ∈ x.found (Scanner.automaton.scan x.scanner t) ↔
      ∃ fr, e.table.get? f = some fr ∧ ∀ n ∈ needles fr.text, c.mode.foldBytes n <:+: c.mode.foldBytes t := by
  obtain rfl := h.config_eq
  have hb := h.index x hx
  constructor
  · intro hf
    obtain ⟨fr, hfr, hseen⟩ := CompiledIndex.of_mem_found hb hf
    refine ⟨fr, hfr, fun n hn => ?_⟩
    rw [← h.patterns.interned.needles_eq fr (FragmentTable.mem_toList_of_get? hfr)] at hn
    obtain ⟨id, hid, hans⟩ := hseen n hn
    exact (mem_scan_iff_of_answers hb hans t).1 hid
  · rintro ⟨fr, hfr, hall⟩
    refine CompiledIndex.mem_found_of_seen hb hfr fun n hn id hans => ?_
    rw [h.patterns.interned.needles_eq fr (FragmentTable.mem_toList_of_get? hfr)] at hn
    exact (mem_scan_iff_of_answers hb hans t).2 (hall n hn)

/-- What the filter finds and passes in an engine with the automaton, however it was reached. -/
theorem filter_exact {e : Engine .automaton κ} (h : Reachable c e) (hc : e.phase.isCompiled = true) (t : Bytes)
    (ctx : QueryContext) : ∃ o e' ctx', e.queryIn t ctx = (.ok o, e', ctx') ∧
      ctx'.matched.Nodup ∧
      (∀ f, f ∈ ctx'.matched ↔ ∃ fr, e.table.get? f = some fr ∧
        ∀ n ∈ needles fr.text, c.mode.foldBytes n <:+: c.mode.foldBytes t) ∧
      ctx'.candidates.Nodup ∧
      (∀ id, id ∈ ctx'.candidates ↔ ∃ p, e.texts[id]? = some p ∧ wildcardOnly p = false ∧
        ∀ y ∈ fragments p, ∃ f ∈ ctx'.matched, ∃ fr, e.table.get? f = some fr ∧ fr.text = y) ∧
      ctx'.stats.globCalls = ctx'.candidates.length + e.texts.countP wildcardOnly ∧
      ∀ id p, e.texts[id]? = some p → id ∈ ctx'.candidates ∨ wildcardOnly p = true →
        ∀ y ∈ fragments p, ∀ n ∈ needles y, c.mode.foldBytes n <:+: c.mode.foldBytes t := by
  obtain ⟨x, hx⟩ := Option.isSome_iff_exists.1 hc
  have hs := h.sound
  have hb := hs.index x hx
  have hmatched := @mem_found_of_automaton κ c e x hs hx t
  have hcand (id : Nat) := @CompiledIndex.mem_candidates_iff_texts κ _ _ _ x (Scanner.automaton.scan x.scanner t) id
    hs.patterns hb
  refine ⟨_, _, _, queryIn_of_index? hs hx t ctx, CompiledIndex.nodup_found_of_build hb _, fun f => hmatched,
    CompiledIndex.nodup_candidates (CompiledIndex.metaWords_of_build hb) _, hcand,
    globCalls_run hs.patterns hb t, fun id p hp hid y hy n hn => ?_⟩
  rcases hid with hid | hw
  · obtain ⟨q, hq, -, hall⟩ := (hcand id).1 hid
    obtain rfl := Option.some.inj (hp.symm.trans hq)
    obtain ⟨f, hf, fr, hfr, rfl⟩ := hall y hy
    obtain ⟨fr', hfr', hin⟩ := hmatched.1 hf
    obtain rfl := Option.some.inj (hfr.symm.trans hfr')
    exact hin n hn
  · -- a pattern of wildcards has no fragment that could be absent
    rw [wildcardOnly, Bool.and_eq_true, List.isEmpty_iff] at hw
    rw [hw.1] at hy
    cases hy

/-- Of the patterns `a*b`, `*` and `ac*` the last is not tried on the text `axb`, where its needle is absent. -/
theorem filter_exact_absent :
    let ps : List (Bytes × Nat) := [([97, 42, 98], 7), ([42], 8), ([97, 99, 42], 9)]
    let e := ((Engine.empty .automaton Nat .standard).insertEach ps).2.compile.2
    Reachable .standard e ∧ e.phase.isCompiled = true ∧
      ∃ o e' ctx', e.queryIn [97, 120, 98] .fresh = (.ok o, e', ctx') ∧ 2 ∉ ctx'.candidates ∧
        ctx'.stats.globCalls = ctx'.candidates.length + 1 := by
  intro ps e
  have hr : Reachable .standard e := (Reachable.empty.insertEach ps).compile
  have hc : e.phase.isCompiled = true := by decide +kernel
  have hone : e.texts.countP wildcardOnly = 1 := by decide +kernel
  obtain ⟨o, e', ctx', hq, -, -, -, -, hcalls, habsent⟩ := filter_exact hr hc [97, 120, 98] .fresh
  refine ⟨hr, hc, o, e', ctx', hq, fun hid => ?_, by rw [hcalls, hone]⟩
  have hin := habsent 2 [97, 99, 42] (by decide +kernel) (.inl hid) [97, 99] (by decide +kernel) [97, 99] (by decide +kernel)
  revert hin
  decide +kernel

/-! ## What is never reported -/

/-- A pattern that does not match the text is reported neither by handle nor by text. -/
theorem not_reported_of_rejects {e : Engine S κ} (h : Sound c e) (x : CompiledIndex S) {p t : Bytes}
    (hno : (Glob.parse c.mode p).accepts t = false) :
    (∀ id, e.texts[id]? = some p → id ∉ (x.run e.registry t).ids) ∧
      p ∉ (x.run e.registry t).texts ∧ ∀ k, (p, k) ∉ (x.run e.registry t).entries := by
  obtain rfl := h.config_eq
  have hout {id : Nat} {k : κ} (hm : (id, p, k) ∈ (x.run e.registry t).reported) : False := by
    have haccepts := (List.mem_filter.1 (reported_subset h.patterns hm)).2
    simp only [hno, Bool.false_eq_true] at haccepts
  refine ⟨fun id hid hm => ?_, fun hm => ?_, fun k hm => ?_⟩
  · rw [Outcome.ids, (List.mergeSort_perm _ _).mem_iff, ← Outcome.map_fst_reported] at hm
    obtain ⟨⟨i, y, k⟩, hin, rfl⟩ := List.mem_map.1 hm
    obtain ⟨q, hq, rfl, -⟩ := mem_reported.1 hin
    obtain ⟨q', hq', rfl⟩ := Registry.getElem?_texts.1 hid
    obtain rfl := Option.some.inj (hq.symm.trans hq')
    exact hout hin
  · obtain ⟨id, k, hm⟩ := (Outcome.mem_texts_of_perm (List.Perm.refl _)).1 hm
    exact hout hm
  · rw [← Outcome.map_snd_reported] at hm
    obtain ⟨⟨id, y, k'⟩, hin, he⟩ := List.mem_map.1 hm
    cases he
    exact hout hin

/-- A backslash dangles just if the pattern ends in an odd number of them, and then the pattern matches no text and no engine
that holds it reports it. -/
theorem dangling_exact (m : CaseMode) (p : Bytes) :
    ((Glob.parseOnePass m p).dangling = true ↔ Odd (Glob.trailingEscapes p)) ∧
      (Odd (Glob.trailingEscapes p) →
        (∀ t, (Glob.parseOnePass m p).acceptsInPlace? t = some false) ∧
        ∀ {S : Scanner} {κ : Type} {c : Config} {e : Engine S κ}, Reachable c e → e.phase.isCompiled = true →
          ∀ (t : Bytes) (ctx : QueryContext), ∃ o, (e.query t).1 = .ok o ∧ (e.queryIn t ctx).1 = .ok o ∧
            (∀ id, e.texts[id]? = some p → id ∉ o.ids) ∧ p ∉ o.texts ∧ ∀ k, (p, k) ∉ o.entries) := by
  rw [Glob.parseOnePass_eq]
  refine ⟨Glob.dangling_parse_iff m p, fun hodd => ?_⟩
  have hrejects (m : CaseMode) (t : Bytes) : (Glob.parse m p).accepts t = false := by
    rw [Glob.accepts, (Glob.dangling_parse_iff m p).2 hodd]
    rfl
  refine ⟨fun t => ?_, fun {S κ c e} hr hc t ctx => ?_⟩
  · rw [Glob.acceptsInPlace?_eq, hrejects]
  · obtain ⟨x, hx⟩ := Option.isSome_iff_exists.1 hc
    refine ⟨_, query_of_index? hx t, ?_, not_reported_of_rejects hr.sound x (hrejects _ t)⟩
    rw [queryIn_of_index? hr.sound hx]

/-- Three backslashes at the end of `[a\]\\\`, whose bracket is not closed. -/
theorem dangling_exact_unclosed :
    let p : Bytes := [91, 97, 92, 93, 92, 92, 92]
    let e := ((Engine.empty .automaton Nat .standard).insertEach [(p, 7), ([42], 8)]).2.compile.2
    (Glob.parseOnePass .sensitive p).dangling = true ∧ Reachable .standard e ∧ e.phase.isCompiled = true ∧
      e.texts[0]? = some p ∧ ∃ o, (e.query [91, 97, 93, 92, 92]).1 = .ok o ∧ 0 ∉ o.ids := by
  intro p e
  have hodd : Odd (Glob.trailingEscapes p) := by decide
  have hr : Reachable .standard e := (Reachable.empty.insertEach _).compile
  have hc : e.phase.isCompiled = true := by decide +kernel
  have hp : e.texts[0]? = some p := by decide +kernel
  obtain ⟨hiff, hnever⟩ := dangling_exact .sensitive p
  obtain ⟨o, ho, -, hids, -⟩ := (hnever hodd).2 hr hc [91, 97, 93, 92, 92] .fresh
  exact ⟨hiff.2 hodd, hr, hc, hp, o, ho, hids 0 hp⟩

end GlobSieve.Engine
