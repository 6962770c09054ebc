import GlobSieve.Proofs.Engine.Contexts

/-!
# The life of an engine

`run` makes calls in turn and logs each with its failure, if it failed. Whatever the calls were:

* without a pattern there is no fragment, and an engine that accepts patterns has one (`Reachable.staged`);
* an engine that was closed, by success or by failure, keeps its patterns, fragments and index, and what it answers to
  further calls is fixed (`run_of_closed`);
* the error remembered is that of the last call in the log that was refused, queries left out (`lastError_run`).
-/

namespace GlobSieve

variable {S : Scanner} {κ : Type}

/-- Why there is no result. -/
def failure? {ε α : Type} : Except ε α → Option ε
  | .error err => some err
  | .ok _ => none

/-- A call on an engine. -/
inductive Call (κ : Type) where
  | insert (p : Bytes) (cookie : κ)
  | compile
  | query (t : Bytes)

/-- The failure, if the call is one that an engine remembers. -/
def Call.refusal? : Call κ → Option EngineError → Option EngineError
  | .query _, _ => none
  | _, err => err

/-- The failures of the calls other than queries, in order. -/
def refusals (log : List (Call κ × Option EngineError)) : List EngineError :=
  log.filterMap fun (a, err) => a.refusal? err

/-- How a call fails at a stage where no more patterns are taken. -/
def Stage.closedFailure (s : Stage) : Call κ → Option EngineError
  | .insert _ _ => some .closed
  | .compile => some (if s = .compiled then .alreadyCompiled else .closed)
  | .query _ => if s = .compiled then none else some .notCompiled

theorem Phase.isCompiled_iff (ph : Phase S) : ph.isCompiled = true ↔ ph.stage = .compiled := by
  cases ph <;> simp [isCompiled, index?, stage]

namespace Engine

/-- Make a call. Its failure, if it fails, and the engine after it. -/
def perform (e : Engine S κ) : Call κ → Option EngineError × Engine S κ
  | .insert p cookie => (failure? (e.insert p cookie).1, (e.insert p cookie).2)
  | .compile => (failure? e.compile.1, e.compile.2)
  | .query t => (failure? (e.query t).1, (e.query t).2)

/-- Make calls in turn. The log of them, and the engine after them. -/
def run (e : Engine S κ) : List (Call κ) → List (Call κ × Option EngineError) × Engine S κ
  | [] => ([], e)
  | a :: calls =>
    let (err, e₁) := e.perform a
    let (log, e₂) := e₁.run calls
    ((a, err) :: log, e₂)

variable {c : Config} {e : Engine S κ}

theorem Reachable.perform (h : Reachable c e) (a : Call κ) : Reachable c (e.perform a).2 := by
  cases a with
  | insert p cookie => exact h.insert p cookie
  | compile => exact h.compile
  | query t => exact h.query t

theorem Reachable.run (h : Reachable c e) (calls : List (Call κ)) : Reachable c (e.run calls).2 := by
  induction calls generalizing e with
  | nil => exact h
  | cons a calls ih => exact ih (h.perform a)

/-! ## Patterns and phases -/

/-- What the phase says of patterns and fragments. -/
structure Staged (e : Engine S κ) : Prop where
  empty : e.phase = .empty → e.texts = [] ∧ e.table.toList = []
  accepting : e.phase = .accepting → e.texts ≠ []

theorem invariant_staged : Invariant c (Staged : Engine S κ → Prop) where
  empty := ⟨fun _ => ⟨rfl, rfl⟩, fun hp => by cases hp⟩
  refuse _ h := ⟨h.empty, h.accepting⟩
  insert _ hi := by
    obtain ⟨-, -, -, rfl⟩ := Registry.of_insert_eq_ok hi
    constructor
    · intro hp
      cases hp
    · intro _
      simp [texts, Registry.texts, Registry.toList]
  fail _ := by constructor <;> intro hp <;> cases hp
  compile _ _ := by constructor <;> intro hp <;> cases hp
  query _ _ h := ⟨h.empty, h.accepting⟩

theorem Reachable.staged (h : Reachable c e) : Staged e := h.invariant invariant_staged

/-! ## Closed engines -/

/-- A call on a closed engine changes neither phase nor patterns. -/
theorem perform_of_closed (h : ¬e.IsOpen) (a : Call κ) : (e.perform a).1 = e.phase.stage.closedFailure a ∧
    (e.perform a).2.phase = e.phase ∧ (e.perform a).2.registry = e.registry ∧ (e.perform a).2.table = e.table := by
  cases a with
  | insert p cookie =>
    simp only [perform, insert_of_closed h]
    exact ⟨rfl, rfl, rfl, rfl⟩
  | compile =>
    simp only [perform, compile_of_closed h, e.phase.isCompiled_iff]
    exact ⟨rfl, rfl, rfl, rfl⟩
  | query t =>
    simp only [perform, Stage.closedFailure, ← Phase.isCompiled_iff, Phase.isCompiled]
    rcases query_cases e t with ⟨hn, hq⟩ | ⟨x, hx, hq⟩
    · simp [hq, hn, failure?]
    · simp [hq, hx, failure?]

/-- **A closed engine stays as it is**, and answers every call by its phase. -/
theorem run_of_closed (h : ¬e.IsOpen) (calls : List (Call κ)) :
    (e.run calls).1 = calls.map (fun a => (a, e.phase.stage.closedFailure a)) ∧
      (e.run calls).2.phase = e.phase ∧ (e.run calls).2.registry = e.registry ∧ (e.run calls).2.table = e.table := by
  induction calls generalizing e with
  | nil => exact ⟨rfl, rfl, rfl, rfl⟩
  | cons a calls ih =>
    obtain ⟨herr, hphase, hreg, htab⟩ := perform_of_closed h a
    have hclosed : ¬(e.perform a).2.IsOpen := by
      unfold IsOpen
      rw [hphase]
      exact h
    obtain ⟨hlog, hphase', hreg', htab'⟩ := ih hclosed
    refine ⟨?_, hphase'.trans hphase, hreg'.trans hreg, htab'.trans htab⟩
    show (a, (e.perform a).1) :: ((e.perform a).2.run calls).1 = _
    rw [herr, hlog, hphase, List.map_cons]

/-! ## The error remembered -/

theorem lastError_perform (e : Engine S κ) (a : Call κ) :
    (e.perform a).2.lastError = (a.refusal? (e.perform a).1).or e.lastError := by
  cases a with
  | insert p cookie =>
    simp only [perform]
    rcases insert_cases e p cookie with ⟨err, hi⟩ | ⟨-, id, r, table, -, hi⟩ <;> rw [hi] <;> rfl
  | compile =>
    simp only [perform]
    rcases compile_cases e with ⟨err, hc⟩ | ⟨-, ⟨err, -, hc⟩ | ⟨x, -, hc⟩⟩ <;> rw [hc] <;> rfl
  | query t =>
    simp only [perform]
    rcases query_cases e t with ⟨-, hq⟩ | ⟨x, -, hq⟩ <;> rw [hq] <;> rfl

theorem getLast?_refusals_cons (a : Call κ) (err : Option EngineError) (log : List (Call κ × Option EngineError)) :
    (refusals ((a, err) :: log)).getLast? = (refusals log).getLast?.or (a.refusal? err) := by
  cases hr : a.refusal? err with
  | none =>
    have hcons : refusals ((a, err) :: log) = refusals log := List.filterMap_cons_none hr
    rw [hcons, Option.or_none]
  | some x =>
    have hcons : refusals ((a, err) :: log) = x :: refusals log := List.filterMap_cons_some hr
    rw [hcons, List.getLast?_cons]
    cases (refusals log).getLast? <;> rfl

/-- The error remembered is that of the last refusal, or the one that was remembered before. -/
theorem lastError_run (e : Engine S κ) (calls : List (Call κ)) :
    (e.run calls).2.lastError = (refusals (e.run calls).1).getLast?.or e.lastError := by
  induction calls generalizing e with
  | nil => rfl
  | cons a calls ih =>
    show ((e.perform a).2.run calls).2.lastError =
      (refusals ((a, (e.perform a).1) :: ((e.perform a).2.run calls).1)).getLast?.or e.lastError
    rw [ih, lastError_perform, getLast?_refusals_cons, Option.or_assoc]

end Engine

end GlobSieve
