import GlobSieve.Engine.Basic
import GlobSieve.Proofs.Engine.Offering
import GlobSieve.Proofs.Pattern.Origin

/-!
# Runs of an engine

`Reachable` is what an engine can be after any calls in any order, failures included. It has what a new engine has and
every change keeps (`Invariant`, `Reachable.invariant`). Its patterns are always stored as their texts say, and an index
that it has is the one built from them (`Reachable.sound`): no call changes the patterns once there is an index. Its
fragments are those of its patterns (`Reachable.filled`).

`insertEach` is a row of insertions, some of which may fail. What an engine stores is what was accepted
(`stored_insertEach`), and this does not depend on the scanner (`insertEach_scanner`).
-/

namespace GlobSieve.Engine

variable {S S' : Scanner} {κ : Type} {c : Config} {e e' : Engine S κ} {p t : Bytes} {cookie : κ} {x : CompiledIndex S}

/-! ## What a call does -/

/-- More patterns may come. -/
def IsOpen (e : Engine S κ) : Prop := e.phase = .empty ∨ e.phase = .accepting

theorem insert_of_error (h : e.IsOpen) {err : EngineError}
    (hi : e.registry.insert e.table p cookie = .error err) : e.insert p cookie = e.refuse err := by
  unfold insert
  rcases h with h | h <;> rw [h] <;> simp only [hi]

theorem insert_of_ok (h : e.IsOpen) {id : Nat} {r : Registry κ} {table : FragmentTable}
    (hi : e.registry.insert e.table p cookie = .ok (id, r, table)) :
    e.insert p cookie = (.ok id, { e with registry := r, table := table, phase := .accepting }) := by
  unfold insert
  rcases h with h | h <;> rw [h] <;> simp only [hi]

/-- A closed engine takes no more patterns. -/
theorem insert_of_closed (h : ¬e.IsOpen) (p : Bytes) (cookie : κ) : e.insert p cookie = e.refuse .closed := by
  unfold insert
  cases hp : e.phase with
  | empty => exact absurd (.inl hp) h
  | accepting => exact absurd (.inr hp) h
  | compiled x => rfl
  | failed => rfl

/-- An insertion is refused, or the registry takes the pattern. -/
theorem insert_cases (e : Engine S κ) (p : Bytes) (cookie : κ) : (∃ err, e.insert p cookie = e.refuse err) ∨
    e.IsOpen ∧ ∃ id r table, e.registry.insert e.table p cookie = .ok (id, r, table) ∧
      e.insert p cookie = (.ok id, { e with registry := r, table := table, phase := .accepting }) := by
  by_cases ho : e.IsOpen
  · cases hi : e.registry.insert e.table p cookie with
    | error err => exact .inl ⟨err, insert_of_error ho hi⟩
    | ok res => exact .inr ⟨ho, res.1, res.2.1, res.2.2, rfl, insert_of_ok ho hi⟩
  · exact .inl ⟨_, insert_of_closed ho p cookie⟩

theorem compile_of_error (h : e.IsOpen) {err : LiteralError}
    (hb : CompiledIndex.build S e.registry e.table = .error err) :
    e.compile = { e with phase := .failed }.refuse (.ofLiteral err) := by
  unfold compile
  rcases h with h | h <;> rw [h] <;> simp only [hb]

theorem compile_of_ok (h : e.IsOpen) (hb : CompiledIndex.build S e.registry e.table = .ok x) :
    e.compile = (.ok (), { e with phase := .compiled x }) := by
  unfold compile
  rcases h with h | h <;> rw [h] <;> simp only [hb]

/-- A closed engine cannot be compiled again. -/
theorem compile_of_closed (h : ¬e.IsOpen) :
    e.compile = e.refuse (if e.phase.isCompiled then .alreadyCompiled else .closed) := by
  unfold compile
  cases hp : e.phase with
  | empty => exact absurd (.inl hp) h
  | accepting => exact absurd (.inr hp) h
  | compiled x => rfl
  | failed => rfl

/-- A call to compile is refused, or it closes an open engine, with an index or for good. -/
theorem compile_cases (e : Engine S κ) : (∃ err, e.compile = e.refuse err) ∨
    e.IsOpen ∧ ((∃ err, CompiledIndex.build S e.registry e.table = .error err ∧
        e.compile = { e with phase := .failed }.refuse (.ofLiteral err)) ∨
      ∃ x, CompiledIndex.build S e.registry e.table = .ok x ∧ e.compile = (.ok (), { e with phase := .compiled x })) := by
  by_cases ho : e.IsOpen
  · cases hb : CompiledIndex.build S e.registry e.table with
    | error err => exact .inr ⟨ho, .inl ⟨err, rfl, compile_of_error ho hb⟩⟩
    | ok x => exact .inr ⟨ho, .inr ⟨x, rfl, compile_of_ok ho hb⟩⟩
  · exact .inl ⟨_, compile_of_closed ho⟩

theorem of_compile_eq_ok (h : e.compile = (.ok (), e')) :
    ∃ x, CompiledIndex.build S e.registry e.table = .ok x ∧ e' = { e with phase := .compiled x } := by
  rcases compile_cases e with ⟨err, hc⟩ | ⟨-, ⟨err, -, hc⟩ | ⟨x, hb, hc⟩⟩
  · rw [hc] at h; cases h
  · rw [hc] at h; cases h
  · rw [hc] at h; cases h; exact ⟨x, hb, rfl⟩

/-- With an index, a query answers and counts; without one it does nothing. -/
theorem query_cases (e : Engine S κ) (t : Bytes) : (e.phase.index? = none ∧ e.query t = (.error .notCompiled, e)) ∨
    ∃ x, e.phase.index? = some x ∧ e.query t = (.ok (x.run e.registry t), { e with
      totalQueries := e.totalQueries + 1, lastGlobCalls := (x.run e.registry t).stats.globCalls }) := by
  unfold query
  cases hp : e.phase with
  | empty => exact .inl ⟨rfl, rfl⟩
  | accepting => exact .inl ⟨rfl, rfl⟩
  | compiled x => exact .inr ⟨x, rfl, rfl⟩
  | failed => exact .inl ⟨rfl, rfl⟩

theorem query_of_index? (h : e.phase.index? = some x) (t : Bytes) : (e.query t).1 = .ok (x.run e.registry t) := by
  rcases query_cases e t with ⟨hn, -⟩ | ⟨y, hy, hq⟩
  · rw [h] at hn; cases hn
  · rw [h] at hy; cases hy; rw [hq]

theorem ask_of_index? {α : Type} (f : Outcome κ → α) (h : e.phase.index? = some x) (t : Bytes) :
    (e.ask f t).1 = .ok (f (x.run e.registry t)) := by
  show (e.query t).1.map f = _
  rw [query_of_index? h]
  rfl

/-- With an index every kind of query reads its answer off the outcome, and leaves the engine that the query leaves. -/
theorem ask_eq_of_index? {α : Type} (f : Outcome κ → α) (h : e.phase.index? = some x) (t : Bytes) :
    e.ask f t = (.ok (f (x.run e.registry t)), (e.query t).2) :=
  Prod.ext (ask_of_index? f h t) rfl

/-! ## Calls in any order -/

/-- What an engine can be after calls in any order. -/
inductive Reachable (c : Config) : Engine S κ → Prop
  | empty : Reachable c (.empty S κ c)
  | insert {e : Engine S κ} (p : Bytes) (cookie : κ) : Reachable c e → Reachable c (e.insert p cookie).2
  | compile {e : Engine S κ} : Reachable c e → Reachable c e.compile.2
  | query {e : Engine S κ} (t : Bytes) : Reachable c e → Reachable c (e.query t).2

/-- What a new engine has and every change of an engine keeps. -/
structure Invariant (c : Config) (P : Engine S κ → Prop) : Prop where
  empty : P (.empty S κ c)
  refuse : ∀ {e : Engine S κ} (err : EngineError), P e → P { e with lastError := some err }
  insert : ∀ {e : Engine S κ} {p : Bytes} {cookie : κ} {id : Nat} {r : Registry κ} {table : FragmentTable}, P e →
    e.registry.insert e.table p cookie = .ok (id, r, table) →
      P { e with registry := r, table := table, phase := .accepting }
  fail : ∀ {e : Engine S κ}, P e → P { e with phase := .failed }
  compile : ∀ {e : Engine S κ} {x : CompiledIndex S}, P e → CompiledIndex.build S e.registry e.table = .ok x →
    P { e with phase := .compiled x }
  query : ∀ {e : Engine S κ} (n : UInt64) (k : Nat), P e → P { e with totalQueries := n, lastGlobCalls := k }

/-- An invariant holds of every engine that calls lead to. -/
theorem Reachable.invariant {P : Engine S κ → Prop} (hP : Invariant c P) (h : Reachable c e) : P e := by
  induction h with
  | empty => exact hP.empty
  | insert p cookie _ ih =>
    rcases insert_cases _ p cookie with ⟨err, hi⟩ | ⟨-, id, r, table, hr, hi⟩
    · rw [hi]
      exact hP.refuse err ih
    · rw [hi]
      exact hP.insert ih hr
  | compile _ ih =>
    rcases compile_cases _ with ⟨err, hc⟩ | ⟨-, ⟨err, -, hc⟩ | ⟨x, hb, hc⟩⟩
    · rw [hc]
      exact hP.refuse err ih
    · rw [hc]
      exact hP.refuse _ (hP.fail ih)
    · rw [hc]
      exact hP.compile ih hb
  | query t _ ih =>
    rcases query_cases _ t with ⟨-, hq⟩ | ⟨x, -, hq⟩
    · rw [hq]
      exact ih
    · rw [hq]
      exact hP.query _ _ ih

/-- The patterns are stored as their texts say, and the index is theirs. -/
structure Sound (c : Config) (e : Engine S κ) : Prop where
  config_eq : e.registry.config = c
  patterns : e.registry.Sound e.table
  index : ∀ x, e.phase.index? = some x → CompiledIndex.build S e.registry e.table = .ok x

theorem invariant_sound : Invariant c (Sound c : Engine S κ → Prop) where
  empty := ⟨rfl, .empty c, fun x hx => by cases hx⟩
  refuse _ h := ⟨h.config_eq, h.patterns, h.index⟩
  insert h hi := by
    obtain ⟨hs, hc⟩ := h.patterns.insert hi
    exact ⟨hc.trans h.config_eq, hs, fun x hx => by cases hx⟩
  fail h := ⟨h.config_eq, h.patterns, fun x hx => by cases hx⟩
  compile h hb := ⟨h.config_eq, h.patterns, fun x hx => by cases hx; exact hb⟩
  query _ _ h := ⟨h.config_eq, h.patterns, h.index⟩

/-- Every engine that calls lead to is sound. -/
theorem Reachable.sound (h : Reachable c e) : Sound c e := h.invariant invariant_sound

theorem invariant_filled : Invariant c fun e : Engine S κ => e.registry.Filled e.table where
  empty := .empty c
  refuse _ h := h
  insert h hi := h.insert hi
  fail h := h
  compile h _ := h
  query _ _ h := h

/-- The fragments of every engine that calls lead to are those of its patterns. -/
theorem Reachable.filled (h : Reachable c e) : e.registry.Filled e.table := h.invariant invariant_filled

/-! ## A row of insertions -/

/-- Insert patterns in turn. The accepted ones with their handles, and the engine that has them. -/
def insertEach (e : Engine S κ) : List (Bytes × κ) → List (Nat × Bytes × κ) × Engine S κ
  | [] => ([], e)
  | (p, cookie) :: ps =>
    match e.insert p cookie with
    | (.ok id, e') => ((id, p, cookie) :: (e'.insertEach ps).1, (e'.insertEach ps).2)
    | (.error _, e') => e'.insertEach ps

theorem Reachable.insertEach (h : Reachable c e) (ps : List (Bytes × κ)) : Reachable c (e.insertEach ps).2 := by
  induction ps generalizing e with
  | nil => exact h
  | cons x ps ih =>
    have h' := h.insert x.1 x.2
    rw [Engine.insertEach]
    split
    · next id e₁ he => rw [he] at h'; exact ih h'
    · next err e₁ he => rw [he] at h'; exact ih h'

/-- A row of insertions does not close an engine. -/
theorem IsOpen.insertEach (h : e.IsOpen) (ps : List (Bytes × κ)) : (e.insertEach ps).2.IsOpen := by
  induction ps generalizing e with
  | nil => exact h
  | cons x ps ih =>
    rcases insert_cases e x.1 x.2 with ⟨err, hi⟩ | ⟨-, id, r, table, -, hi⟩
    · rw [Engine.insertEach, hi]
      exact ih h
    · rw [Engine.insertEach, hi]
      exact ih (.inr rfl)

/-- What is stored after a row of insertions is what was and what was accepted. -/
theorem stored_insertEach (e : Engine S κ) (ps : List (Bytes × κ)) :
    (e.insertEach ps).2.registry.stored = e.registry.stored ++ (e.insertEach ps).1 := by
  induction ps generalizing e with
  | nil => simp [insertEach]
  | cons x ps ih =>
    rcases insert_cases e x.1 x.2 with ⟨err, hi⟩ | ⟨-, id, r, table, hr, hi⟩
    · rw [insertEach, hi]
      exact ih _
    · rw [insertEach, hi]
      refine (ih _).trans ?_
      show r.stored ++ _ = _
      rw [Registry.stored_of_insert_eq_ok hr, List.append_assoc, List.singleton_append]

/-- What is accepted does not depend on the scanner. -/
theorem insertEach_scanner {e : Engine S κ} {e' : Engine S' κ} (ps : List (Bytes × κ)) (ho : e.IsOpen) (ho' : e'.IsOpen)
    (hr : e.registry = e'.registry) (ht : e.table = e'.table) : (e.insertEach ps).1 = (e'.insertEach ps).1 := by
  induction ps generalizing e e' with
  | nil => rfl
  | cons x ps ih =>
    rw [insertEach, insertEach]
    cases hi : e'.registry.insert e'.table x.1 x.2 with
    | error err =>
      rw [insert_of_error ho' hi, insert_of_error ho (by rw [hr, ht, hi])]
      exact ih ho ho' hr ht
    | ok res =>
      rw [insert_of_ok ho' hi, insert_of_ok ho (by rw [hr, ht, hi])]
      exact congrArg _ (ih (.inr rfl) (.inr rfl) rfl rfl)

end GlobSieve.Engine
