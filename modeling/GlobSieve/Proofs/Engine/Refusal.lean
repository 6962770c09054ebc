import GlobSieve.Proofs.Engine.Lifecycle
import GlobSieve.Proofs.Engine.Offering
import GlobSieve.Proofs.Literal.Capacity
import GlobSieve.Scanner.Scripted

/-!
# Why an engine cannot be compiled

There is no index when the scanner refuses a needle, for another reason than that it has it already, or when it cannot be
finished (`CompiledIndex.build_cases`).

* The automaton can always be finished, and it refuses no needle that `insert` has let pass unless there is no room
  (`offerAll_automaton`). So an engine with the automaton compiles, or its patterns have too many bytes
  (`compile_insertEach`).
* A duplicate among the needles is no failure, but one that a scanner reports when it is finished is: the engine is closed
  then, and yet the error says that it may be ignored (`recoverable_iff_of_compile`).
-/

namespace GlobSieve

namespace CompiledIndex

variable {S : Scanner} {κ : Type} {b : S.Builder} {ns : List Bytes} {err : LiteralError}

/-- No offer fails because of a duplicate. -/
theorem ne_duplicate_of_offerAll (h : offerAll b ns = .error err) (id : Nat) : err ≠ .duplicate id := by
  induction ns generalizing b with
  | nil => cases h
  | cons n ns ih =>
    rcases offerAll_cons_cases b n with ⟨i, b', -, hcons⟩ | ⟨err', hne, hcons⟩
    · rw [hcons] at h
      cases hr : offerAll b' ns with
      | error err' =>
        rw [hr] at h
        cases h
        exact ih hr
      | ok r =>
        rw [hr] at h
        cases h
    · rw [hcons] at h
      cases h
      exact hne id

/-- To a scanner the fragments are no more than their needles in a row. -/
theorem offerFragments_cases (b : S.Builder) (fs : List Fragment) :
    (∃ err, offerFragments b fs = .error err ∧ offerAll b (fs.flatMap (·.needles)) = .error err) ∨
    ∃ sets ids b', offerFragments b fs = .ok (sets, b') ∧ offerAll b (fs.flatMap (·.needles)) = .ok (ids, b') := by
  induction fs generalizing b with
  | nil => exact .inr ⟨[], [], b, rfl, rfl⟩
  | cons f fs ih =>
    rw [List.flatMap_cons, offerAll_append, offerFragments]
    cases offerAll b f.needles with
    | error err => exact .inl ⟨err, rfl, rfl⟩
    | ok r =>
      simp only [Except.bind]
      rcases ih r.2 with ⟨err, hf, ha⟩ | ⟨sets, ids, b', hf, ha⟩
      · rw [hf, ha]
        exact .inl ⟨err, rfl, rfl⟩
      · rw [hf, ha]
        exact .inr ⟨_, _, b', rfl, rfl⟩

/-- There is no index because a needle was refused, or because the scanner could not be finished. -/
theorem build_cases (S : Scanner) (r : Registry κ) (table : FragmentTable) :
    (∃ err, offerAll (S.start r.config) table.needles = .error err ∧ build S r table = .error err) ∨
    ∃ ids b, offerAll (S.start r.config) table.needles = .ok (ids, b) ∧
      ((∃ err, S.finish b = .error err ∧ build S r table = .error err) ∨
        ∃ x, S.finish b = .ok x.scanner ∧ build S r table = .ok x) := by
  unfold build
  rcases offerFragments_cases (S.start r.config) table.toList with ⟨err, hf, ha⟩ | ⟨sets, ids, b, hf, ha⟩
  · rw [hf]
    exact .inl ⟨err, ha, rfl⟩
  · rw [hf]
    refine .inr ⟨ids, b, ha, ?_⟩
    cases hfin : S.finish b with
    | error err => exact .inl ⟨err, rfl, by simp [hfin, Except.map]⟩
    | ok scanner => exact .inr ⟨ofSets (.build r table) scanner sets, rfl, by simp [hfin, Except.map]⟩

end CompiledIndex

/-! ## Room in the automaton -/

section Automaton

open Literal Literal.Builder

variable {b : Literal.Builder} {ls all ns : List Bytes} {n : Bytes}

/-- A needle that fits the limit is answered, and known from then on, unless there is no room for it. -/
theorem offer_cases (h : b.Holds ls) (hne : n ≠ []) (hlen : n.length ≤ b.limit) :
    (∃ id b', (Scanner.offer b n = (.ok id, b') ∨ Scanner.offer b n = (.error (.duplicate id), b')) ∧
      b'.mode = b.mode ∧ b'.limit = b.limit ∧ ∃ new, b'.Holds (ls ++ new) ∧ new ⊆ [b.mode.foldBytes n]) ∨
    Scanner.offer b n = (.error noRoom, b) ∧ b.mode.foldBytes n ∉ ls ∧ maxStates < b.trie.size + n.length := by
  have hadd := add_of_fits hne hlen
  unfold Scanner.offer
  cases hfind : b.trie.find? (b.mode.foldBytes n) with
  | some id =>
    simp only [hfind] at hadd
    rw [hadd]
    exact .inl ⟨id, b, .inr rfl, rfl, rfl, [], by rwa [List.append_nil], List.nil_subset _⟩
  | none =>
    simp only [hfind] at hadd
    by_cases hfull : maxStates < b.trie.size + n.length
    · rw [if_pos hfull] at hadd
      rw [hadd]
      exact .inr ⟨rfl, h.find?_eq_none_iff.1 hfind, hfull⟩
    · rw [if_neg hfull] at hadd
      obtain ⟨-, -, hmode, h'⟩ := h.of_add_ok hadd
      rw [hadd]
      exact .inl ⟨_, _, .inl rfl, hmode, rfl, _, h', List.Subset.refl _⟩

/-- Needles that fit the limit are all answered, or they have more bytes than there may be states. -/
theorem offerAll_automaton (h : b.Holds ls) (hfits : ∀ n ∈ ns, n ≠ [] ∧ n.length ≤ b.limit) (hls : ls ⊆ all)
    (hns : ∀ n ∈ ns, b.mode.foldBytes n ∈ all) :
    (∃ r, CompiledIndex.offerAll (S := .automaton) b ns = .ok r) ∨
      CompiledIndex.offerAll (S := .automaton) b ns = .error noRoom ∧ maxStates < 1 + totalLength all := by
  induction ns generalizing b ls with
  | nil => exact .inl ⟨_, rfl⟩
  | cons n ns ih =>
    obtain ⟨hne, hlen⟩ := hfits n List.mem_cons_self
    have hn := hns n List.mem_cons_self
    rcases offer_cases h hne hlen with ⟨id, b', ha, hmode, hlimit, new, h', hnew⟩ | ⟨ha, hn', hfull⟩
    · have hall : ls ++ new ⊆ all := by
        refine List.append_subset.2 ⟨hls, fun x hx => ?_⟩
        rw [List.mem_singleton.1 (hnew hx)]
        exact hn
      have hfits' : ∀ n ∈ ns, n ≠ [] ∧ n.length ≤ b'.limit := by
        intro m hm
        rw [hlimit]
        exact hfits m (List.mem_cons_of_mem _ hm)
      have hns' : ∀ n ∈ ns, b'.mode.foldBytes n ∈ all := by
        intro m hm
        rw [hmode]
        exact hns m (List.mem_cons_of_mem _ hm)
      rw [CompiledIndex.offerAll_cons (S := .automaton) ha]
      rcases ih h' hfits' hall hns' with ⟨r, hr⟩ | ⟨herr, hfull⟩
      · rw [hr]
        exact .inl ⟨_, rfl⟩
      · rw [herr]
        exact .inr ⟨rfl, hfull⟩
    · have hroom : ls ++ [b.mode.foldBytes n] ⊆ all := List.append_subset.2 ⟨hls, by simpa using hn⟩
      refine .inr ⟨?_, h.maxStates_lt hn' hfull hroom⟩
      exact CompiledIndex.offerAll_cons_of_refused (S := .automaton) ha (fun id he => by cases he) ns

end Automaton

namespace Engine

variable {S : Scanner} {κ : Type} {c : Config}

/-- The needles of all patterns, folded, each once. -/
def literals (e : Engine S κ) : List Bytes :=
  (((e.texts.flatMap fragments).flatMap needles).map e.config.mode.foldBytes).eraseDups

section Needles

variable {e : Engine S κ} (h : Reachable c e) {n : Bytes} (hn : n ∈ e.table.needles)
include h hn

/-- A needle of a fragment is one of a pattern. -/
theorem mem_literals_of_mem_needles : c.mode.foldBytes n ∈ e.literals := by
  obtain ⟨f, hf, hnf⟩ := List.mem_flatMap.1 hn
  obtain ⟨p, hp, hm⟩ := h.filled.origin f hf
  rw [h.sound.patterns.interned.needles_eq f hf] at hnf
  unfold literals config
  rw [h.sound.config_eq, List.mem_eraseDups]
  exact List.mem_map_of_mem (List.mem_flatMap.2 ⟨f.text, List.mem_flatMap.2 ⟨p, hp, hm⟩, hnf⟩)

/-- A needle of a fragment fits the limit. -/
theorem fits_of_mem_needles : n ≠ [] ∧ n.length ≤ c.literalLimit := by
  obtain ⟨f, hf, hnf⟩ := List.mem_flatMap.1 hn
  have hbounds := h.filled.needle_bounds h.sound.patterns hf hnf
  rwa [h.sound.config_eq] at hbounds

end Needles

/-- The first call to compile an engine with the automaton, whatever patterns were offered to it: it fails only for want of
room, and there is room if all bytes of the needles have a state beside the root. -/
theorem compile_insertEach (c : Config) (ps : List (Bytes × κ)) :
    let e := ((Engine.empty .automaton κ c).insertEach ps).2
    (e.compile.1 = .ok () ∨ ∃ d, e.compile.1 = .error (.scanner (.resourceLimit d))) ∧
      (1 + Literal.totalLength e.literals ≤ Literal.Builder.maxStates → e.compile.1 = .ok ()) := by
  intro e
  have hr : Reachable c e := Reachable.empty.insertEach ps
  have ho : e.IsOpen := IsOpen.insertEach (.inl rfl) ps
  have hoff := offerAll_automaton (Literal.Builder.Holds.empty c.mode c.literalLimit)
    (fun n hn => fits_of_mem_needles hr hn) (List.nil_subset _) (fun n hn => mem_literals_of_mem_needles hr hn)
  rcases CompiledIndex.build_cases .automaton e.registry e.table with ⟨err, hall, hb⟩ | ⟨ids, b, -, hfin⟩
  · rw [hr.sound.config_eq] at hall
    rcases hoff with ⟨r, hok⟩ | ⟨herr, hfull⟩
    · cases hall.symm.trans hok
    · obtain rfl : err = Literal.Builder.noRoom := Except.error.inj (hall.symm.trans herr)
      rw [compile_of_error ho hb]
      exact ⟨.inr ⟨_, rfl⟩, fun hroom => absurd hroom (Nat.not_le.2 hfull)⟩
  · -- the automaton can always be finished
    rcases hfin with ⟨err, hfin, -⟩ | ⟨x, -, hb⟩
    · cases hfin
    · rw [compile_of_ok ho hb]
      exact ⟨.inl rfl, fun _ => rfl⟩

/-- An open engine that fails to compile is closed for good. -/
theorem failed_of_compile_eq_error {e e' : Engine S κ} {err : EngineError} (ho : e.IsOpen)
    (h : e.compile = (.error err, e')) : e'.phase = .failed := by
  cases hb : CompiledIndex.build S e.registry e.table with
  | error cause =>
    rw [compile_of_error ho hb] at h
    cases h
    rfl
  | ok x =>
    rw [compile_of_ok ho hb] at h
    cases h

theorem recoverable_ofLiteral {err : LiteralError} :
    (EngineError.ofLiteral err).recoverable = true ↔ ∃ id, err = .duplicate id := by
  cases err <;> simp [EngineError.ofLiteral, EngineError.recoverable]

/-- When a call to compile fails the engine is closed for good. The error says that it may be ignored only if the scanner
answered all needles and then, when it was to be finished, reported a duplicate. -/
theorem recoverable_iff_of_compile {e e' : Engine S κ} {err : EngineError} (ho : e.IsOpen)
    (h : e.compile = (.error err, e')) :
    e'.phase = .failed ∧ (err.recoverable = true ↔
      ∃ ids b id, CompiledIndex.offerAll (S.start e.config) e.table.needles = .ok (ids, b) ∧
        S.finish b = .error (.duplicate id)) := by
  refine ⟨failed_of_compile_eq_error ho h, ?_⟩
  rcases CompiledIndex.build_cases S e.registry e.table with
    ⟨cause, hall, hb⟩ | ⟨ids, b, hall, ⟨cause, hfin, hb⟩ | ⟨x, -, hb⟩⟩
  · rw [compile_of_error ho hb] at h
    cases h
    rw [recoverable_ofLiteral]
    constructor
    · rintro ⟨id, rfl⟩
      exact absurd rfl (CompiledIndex.ne_duplicate_of_offerAll hall id)
    · rintro ⟨ids, b, id, hok, -⟩
      cases hall.symm.trans hok
  · rw [compile_of_error ho hb] at h
    cases h
    rw [recoverable_ofLiteral]
    constructor
    · rintro ⟨id, rfl⟩
      exact ⟨ids, b, id, hall, hfin⟩
    · rintro ⟨ids', b', id, hok, hfin'⟩
      cases hall.symm.trans hok
      exact ⟨id, Except.error.inj (hfin.symm.trans hfin')⟩
  · rw [compile_of_ok ho hb] at h
    cases h

/-- The first needle is called a duplicate and the second one empty. Only the second answer ends the attempt. -/
theorem recoverable_iff_of_compile_refused :
    let script : Script := ⟨[.error (.duplicate 7), .error .zeroLength], some (.duplicate 2), [], 0, []⟩
    let ps : List (Bytes × Nat) := [([97, 42], 0), ([42, 98, 99], 1)]
    let e := ((Engine.empty (.scripted script) Nat .standard).insertEach ps).2
    e.IsOpen ∧ ∃ err e', e.compile = (.error err, e') ∧ e'.phase = .failed ∧ err.recoverable = false := by
  intro script ps e
  have ho : e.IsOpen := IsOpen.insertEach (.inl rfl) ps
  have hc : e.compile.1 = .error (.invalidLiteral "Invalid literal: zero length") := by decide +kernel
  obtain ⟨hfailed, hrec⟩ := recoverable_iff_of_compile ho (Prod.ext hc rfl)
  refine ⟨ho, _, _, Prod.ext hc rfl, hfailed, ?_⟩
  rw [Bool.eq_false_iff, Ne, hrec]
  rintro ⟨ids, b, id, hok, -⟩
  have hneedles : e.table.needles = [[97], [98, 99]] := by decide +kernel
  rw [hneedles] at hok
  cases hok

/-- A failure to compile may claim to be no failure: here the scanner takes the only needle, and reports a duplicate when
it is finished. -/
theorem not_forall_recoverable_eq_false_of_failed :
    ¬∀ (S : Scanner) (e e' : Engine S Nat) (err : EngineError), Reachable .standard e → e.IsOpen →
      e.compile = (.error err, e') → e'.phase = .failed → err.recoverable = false := by
  intro h
  let script : Script := ⟨[], some (.duplicate 2), [], 0, []⟩
  let e : Engine (.scripted script) Nat := ((Engine.empty _ Nat .standard).insertEach [([97, 98, 99], 0)]).2
  have ho : e.IsOpen := IsOpen.insertEach (.inl rfl) _
  have hc : e.compile.1 = .error (.duplicateLiteral 2) := by decide +kernel
  have hcompile : e.compile = (.error (.duplicateLiteral 2), e.compile.2) := Prod.ext hc rfl
  cases h _ e e.compile.2 _ (Reachable.empty.insertEach _) ho hcompile (failed_of_compile_eq_error ho hcompile)

end Engine

end GlobSieve
