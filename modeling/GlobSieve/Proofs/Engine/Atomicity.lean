import GlobSieve.Engine.InPlace
import GlobSieve.Proofs.Engine.Accounting

/-!
# A refused pattern leaves no trace

Insertion in place fails before it has changed anything (`Registry.insertHere_runOn`), so it is the insertion of the engine
(`Engine.insertHere_eq`). Why it fails is said by the text and the limit alone (`Registry.refusal?_eq_some_iff`).

So the calls that failed may be left out of a row of insertions (`Engine.insertEach_accepted`): the engines after both
differ in the error that they remember and in nothing else (`Engine.Alike`), and they answer all later calls alike
(`Engine.Alike.run`).
-/

namespace GlobSieve

variable {κ α β : Type} {s s' : Registry κ × FragmentTable} {limit : Nat}

theorem Insertion.runOn_bind_of_ok {steps : Insertion κ α} {next : α → Insertion κ β} {a : α}
    (h : steps.runOn s = (.ok a, s')) : (steps >>= next : Insertion κ β).runOn s = (next a).runOn s' := by
  simp only [runOn, ExceptT.run_bind, StateT.run_bind] at h ⊢
  rw [h]
  rfl

theorem Insertion.runOn_bind_of_error {steps : Insertion κ α} {next : α → Insertion κ β} {err : EngineError}
    (h : steps.runOn s = (.error err, s')) : (steps >>= next : Insertion κ β).runOn s = (.error err, s') := by
  simp only [runOn, ExceptT.run_bind, StateT.run_bind] at h ⊢
  rw [h]
  rfl

namespace Registry

theorem measure_of_none {f : Bytes} (h : (needles f).find? (limit < ·.length) = none) :
    (measure limit f : Insertion κ _).runOn s = (.ok (f, needles f), s) := by
  rw [measure, h]
  rfl

theorem measure_of_some {f n : Bytes} (h : (needles f).find? (limit < ·.length) = some n) :
    (measure limit f : Insertion κ _).runOn s =
      (.error (.invalidLiteral s!"literal of length {n.length} exceeds maximum {limit}"), s) := by
  rw [measure, h]
  rfl

/-- To measure fragments changes nothing, and it fails at the first needle that is too long. -/
theorem mapM_measure (limit : Nat) (fs : List Bytes) (s : Registry κ × FragmentTable) :
    (fs.mapM (measure limit) : Insertion κ _).runOn s = match (fs.flatMap needles).find? (limit < ·.length) with
      | some n => (.error (.invalidLiteral s!"literal of length {n.length} exceeds maximum {limit}"), s)
      | none => (.ok (fs.map fun f => (f, needles f)), s) := by
  induction fs with
  | nil => rfl
  | cons f fs ih =>
    rw [List.mapM_cons, List.flatMap_cons, List.find?_append]
    cases hf : (needles f).find? (limit < ·.length) with
    | some n => rw [Insertion.runOn_bind_of_error (measure_of_some hf)]; rfl
    | none =>
      rw [Insertion.runOn_bind_of_ok (measure_of_none hf), Option.none_or]
      cases hfs : (fs.flatMap needles).find? (limit < ·.length) with
      | some n =>
        rw [hfs] at ih
        rw [Insertion.runOn_bind_of_error ih]
      | none =>
        rw [hfs] at ih
        rw [Insertion.runOn_bind_of_ok ih]
        rfl

/-- Fragments are interned in turn. -/
theorem mapM_internHere (fs : List Bytes) (r : Registry κ) (table : FragmentTable) :
    ((fs.map fun f => (f, needles f)).mapM internHere : Insertion κ _).runOn (r, table) =
      (.ok (table.internAll fs).1, r, (table.internAll fs).2) := by
  induction fs generalizing table with
  | nil => rfl
  | cons f fs ih =>
    have hf : (internHere (f, needles f) : Insertion κ Nat).runOn (r, table) =
        (.ok (table.intern f).1, r, (table.intern f).2) := rfl
    rw [List.map_cons, List.mapM_cons, Insertion.runOn_bind_of_ok hf, Insertion.runOn_bind_of_ok (ih _)]
    rfl

/-- A pattern requires the handles of its fragments. -/
theorem requireHere_runOn (r : Registry κ) (table : FragmentTable) (p : Bytes) :
    (requireHere p ((fragments p).map fun f => (f, needles f)) : Insertion κ _).runOn (r, table) =
      (.ok (requirementOf p (table.internAll (fragments p)).1), r, (table.internAll (fragments p)).2) := by
  unfold requireHere requirementOf
  split
  · next hw =>
    -- there is nothing to intern
    rw [wildcardOnly, Bool.and_eq_true] at hw
    have hnil : fragments p = [] := List.isEmpty_iff.1 hw.1
    rw [hnil]
    rfl
  · rw [Insertion.runOn_bind_of_ok (mapM_internHere (fragments p) r table)]
    rfl

/-- What insertion in place leaves is what insertion gives; if it fails, nothing has changed. -/
theorem insertHere_runOn (r : Registry κ) (table : FragmentTable) (p : Bytes) (cookie : κ) :
    (insertHere p cookie).runOn (r, table) = match r.insert table p cookie with
      | .error err => (.error err, r, table)
      | .ok (id, r', table') => (.ok id, r', table') := by
  unfold insertHere Registry.insert refusal?
  split
  · rfl
  · have hget : (get : Insertion κ (Registry κ × FragmentTable)).runOn (r, table) = (.ok (r, table), r, table) := rfl
    have hmeasure := mapM_measure r.config.literalLimit (fragments p) (r, table)
    rw [Insertion.runOn_bind_of_ok hget, overlong?]
    cases hn : ((fragments p).flatMap needles).find? (r.config.literalLimit < ·.length) with
    | some n =>
      rw [hn] at hmeasure
      rw [Insertion.runOn_bind_of_error hmeasure]
      rfl
    | none =>
      rw [hn] at hmeasure
      rw [Insertion.runOn_bind_of_ok hmeasure, Insertion.runOn_bind_of_ok (requireHere_runOn r table p)]
      rfl

/-- A pattern is refused if it is empty, or for its first needle that is too long. -/
theorem refusal?_eq_some_iff {c : Config} {p : Bytes} {err : EngineError} : refusal? c p = some err ↔
    p = [] ∧ err = .invalidPattern "empty pattern" ∨
    ∃ before n after, (fragments p).flatMap needles = before ++ n :: after ∧
      (∀ n' ∈ before, n'.length ≤ c.literalLimit) ∧ c.literalLimit < n.length ∧
      err = .invalidLiteral s!"literal of length {n.length} exceeds maximum {c.literalLimit}" := by
  unfold refusal? overlong?
  cases p with
  | nil =>
    have hnil : fragments [] = [] := by simp [fragments]
    simp [hnil, eq_comm]
  | cons b r =>
    simp only [List.isEmpty_cons, Bool.false_eq_true, if_false, Option.map_eq_some_iff, List.find?_eq_some_iff_append,
      decide_eq_true_eq, reduceCtorEq, false_and, false_or, Bool.not_eq_true', decide_eq_false_iff_not, Nat.not_lt]
    constructor
    · rintro ⟨n, ⟨hn, before, after, he, hbefore⟩, rfl⟩
      exact ⟨before, n, after, he, hbefore, hn, rfl⟩
    · rintro ⟨before, n, after, he, hbefore, hn, rfl⟩
      exact ⟨n, ⟨hn, before, after, he, hbefore⟩, rfl⟩

/-- A pattern is refused if and only if it is empty or has a needle that is too long. -/
theorem exists_refusal?_iff {c : Config} {p : Bytes} : (∃ err, refusal? c p = some err) ↔
    p = [] ∨ ∃ f ∈ fragments p, ∃ n ∈ needles f, c.literalLimit < n.length := by
  rw [← Option.ne_none_iff_exists', ne_eq, refusal?_eq_none_iff, not_and_or]
  simp only [ne_eq, not_not, not_forall, Nat.not_le, exists_prop]

theorem insert_eq_error_iff (r : Registry κ) (table : FragmentTable) (p : Bytes) (cookie : κ) {err : EngineError} :
    r.insert table p cookie = .error err ↔ refusal? r.config p = some err := by
  unfold insert
  split
  · next he => simp [he]
  · next he => simp [he]

end Registry

/-- To insert in place is to insert. -/
theorem Engine.insertHere_eq {S : Scanner} (e : Engine S κ) (p : Bytes) (cookie : κ) :
    e.insertHere p cookie = e.insert p cookie := by
  obtain ⟨r, table, phase, lastError, totalQueries, lastGlobCalls⟩ := e
  simp only [insertHere, insert, Registry.insertHere_runOn]
  cases phase with
  | empty => cases r.insert table p cookie <;> rfl
  | accepting => cases r.insert table p cookie <;> rfl
  | compiled x => rfl
  | failed => rfl

/-! ## Engines alike -/

namespace Engine

variable {S : Scanner} {e e' : Engine S κ}

/-- The engines differ in the error remembered, if at all. -/
def Alike (e e' : Engine S κ) : Prop := e = { e' with lastError := e.lastError }

namespace Alike

theorem trans {e'' : Engine S κ} (h : e.Alike e') (h' : e'.Alike e'') : e.Alike e'' := by
  unfold Alike at h h' ⊢
  rw [h, h']

theorem insert (h : e.Alike e') (p : Bytes) (cookie : κ) :
    (e.insert p cookie).1 = (e'.insert p cookie).1 ∧ Alike (e.insert p cookie).2 (e'.insert p cookie).2 := by
  rw [h]
  obtain ⟨r, table, phase, lastError', totalQueries, lastGlobCalls⟩ := e'
  unfold Engine.insert
  cases phase with
  | empty => cases r.insert table p cookie <;> exact ⟨rfl, rfl⟩
  | accepting => cases r.insert table p cookie <;> exact ⟨rfl, rfl⟩
  | compiled x => exact ⟨rfl, rfl⟩
  | failed => exact ⟨rfl, rfl⟩

theorem compile (h : e.Alike e') : e.compile.1 = e'.compile.1 ∧ Alike e.compile.2 e'.compile.2 := by
  rw [h]
  obtain ⟨r, table, phase, lastError', totalQueries, lastGlobCalls⟩ := e'
  unfold Engine.compile
  cases phase with
  | empty => cases CompiledIndex.build S r table <;> exact ⟨rfl, rfl⟩
  | accepting => cases CompiledIndex.build S r table <;> exact ⟨rfl, rfl⟩
  | compiled x => exact ⟨rfl, rfl⟩
  | failed => exact ⟨rfl, rfl⟩

theorem query (h : e.Alike e') (t : Bytes) : (e.query t).1 = (e'.query t).1 ∧ Alike (e.query t).2 (e'.query t).2 := by
  rw [h]
  obtain ⟨r, table, phase, lastError', totalQueries, lastGlobCalls⟩ := e'
  unfold Engine.query
  cases phase <;> exact ⟨rfl, rfl⟩

/-- A call on engines that are alike comes to the same. -/
theorem perform (h : e.Alike e') (a : Call κ) : (e.perform a).1 = (e'.perform a).1 ∧
    Alike (e.perform a).2 (e'.perform a).2 ∧ e.outcome? a = e'.outcome? a := by
  cases a with
  | insert p cookie =>
    obtain ⟨hresult, halike⟩ := h.insert p cookie
    exact ⟨congrArg failure? hresult, halike, rfl⟩
  | compile =>
    obtain ⟨hresult, halike⟩ := h.compile
    exact ⟨congrArg failure? hresult, halike, rfl⟩
  | query t =>
    obtain ⟨hresult, halike⟩ := h.query t
    exact ⟨congrArg failure? hresult, halike, congrArg Except.toOption hresult⟩

/-- So do any calls. -/
theorem run (h : e.Alike e') (calls : List (Call κ)) : (e.run calls).1 = (e'.run calls).1 ∧
    Alike (e.run calls).2 (e'.run calls).2 ∧ e.outcomes calls = e'.outcomes calls := by
  induction calls generalizing e e' with
  | nil => exact ⟨rfl, h, rfl⟩
  | cons a calls ih =>
    obtain ⟨herr, hnext, houtcome⟩ := h.perform a
    obtain ⟨hlog, hend, houtcomes⟩ := ih hnext
    refine ⟨?_, hend, ?_⟩
    · show (a, (e.perform a).1) :: ((e.perform a).2.run calls).1 = (a, (e'.perform a).1) :: ((e'.perform a).2.run calls).1
      rw [herr, hlog]
    · rw [outcomes, outcomes, houtcome, houtcomes]

theorem insertEach (h : e.Alike e') (ps : List (Bytes × κ)) : (e.insertEach ps).1 = (e'.insertEach ps).1 ∧
    Alike (e.insertEach ps).2 (e'.insertEach ps).2 := by
  induction ps generalizing e e' with
  | nil => exact ⟨rfl, h⟩
  | cons x ps ih =>
    obtain ⟨hresult, hnext⟩ := h.insert x.1 x.2
    rw [Engine.insertEach, Engine.insertEach]
    rcases hi : e.insert x.1 x.2 with ⟨result, e₁⟩
    rcases hi' : e'.insert x.1 x.2 with ⟨result', e₁'⟩
    rw [hi, hi'] at hresult hnext
    obtain rfl : result = result' := hresult
    obtain ⟨haccepted, hend⟩ := ih hnext
    cases result with
    | error err => exact ⟨haccepted, hend⟩
    | ok id => exact ⟨congrArg ((id, x) :: ·) haccepted, hend⟩

end Alike

theorem insertEach_cons_of_ok {x : Bytes × κ} {id : Nat} (hi : e.insert x.1 x.2 = (.ok id, e')) (ps : List (Bytes × κ)) :
    e.insertEach (x :: ps) = ((id, x) :: (e'.insertEach ps).1, (e'.insertEach ps).2) := by
  rw [insertEach, hi]

/-- The refused patterns may be left out of a row of insertions. -/
theorem insertEach_accepted (e : Engine S κ) (ps : List (Bytes × κ)) :
    let kept := (e.insertEach ps).1.map Prod.snd
    kept.Sublist ps ∧ (e.insertEach kept).1 = (e.insertEach ps).1 ∧ Alike (e.insertEach kept).2 (e.insertEach ps).2 := by
  induction ps generalizing e with
  | nil => exact ⟨.slnil, rfl, rfl⟩
  | cons x ps ih =>
    rcases insert_cases e x.1 x.2 with ⟨err, hi⟩ | ⟨-, id, r, table, -, hi⟩
    · -- the refused pattern leaves an engine that is alike, which takes the later patterns as this one does
      have hrefused : e.insertEach (x :: ps) = { e with lastError := some err }.insertEach ps := by
        rw [insertEach, hi]
        rfl
      have halike : Alike e { e with lastError := some err } := rfl
      obtain ⟨haccepted, hend⟩ := halike.insertEach ps
      obtain ⟨hsub, hkept, hrest⟩ := ih e
      rw [hrefused, ← haccepted]
      exact ⟨hsub.cons x, hkept, hrest.trans hend⟩
    · obtain ⟨e₁, hi⟩ : ∃ e₁, e.insert x.1 x.2 = (.ok id, e₁) := ⟨_, hi⟩
      obtain ⟨hsub, hkept, hrest⟩ := ih e₁
      rw [insertEach_cons_of_ok hi]
      intro kept
      have hcons : kept = x :: (e₁.insertEach ps).1.map Prod.snd := rfl
      rw [hcons, insertEach_cons_of_ok hi]
      exact ⟨hsub.cons_cons x, congrArg ((id, x) :: ·) hkept, hrest⟩

/-- **Insertion is atomic.** A pattern is refused if and only if it is empty or has a needle that is too long, for the first
of these reasons, and then registry and table are what they were. So of any row of insertions into an engine the refused ones
may be left out: the engine has the same patterns, fragments and handles, and every later call on it, be it to insert, to
compile or to query, comes to the same and leads to the same index. -/
theorem insert_atomic (r : Registry κ) (table : FragmentTable) (p : Bytes) (cookie : κ) (e : Engine S κ)
    (ps : List (Bytes × κ)) :
    let limit := r.config.literalLimit
    let left := (Registry.insertHere p cookie).runOn (r, table)
    let kept := (e.insertEach ps).1.map Prod.snd
    let clean := (e.insertEach kept).2
    let full := (e.insertEach ps).2
    (∀ err, left.1 = .error err ↔ p = [] ∧ err = .invalidPattern "empty pattern" ∨
      ∃ before n after, (fragments p).flatMap needles = before ++ n :: after ∧ (∀ n' ∈ before, n'.length ≤ limit) ∧
        limit < n.length ∧ err = .invalidLiteral s!"literal of length {n.length} exceeds maximum {limit}") ∧
      ((∃ err, left.1 = .error err) ↔ p = [] ∨ ∃ f ∈ fragments p, ∃ n ∈ needles f, limit < n.length) ∧
      (∀ err, left.1 = .error err → left.2 = (r, table)) ∧
      e.insertHere p cookie = e.insert p cookie ∧
      kept.Sublist ps ∧ (e.insertEach kept).1 = (e.insertEach ps).1 ∧
      clean = { full with lastError := clean.lastError } ∧
      ∀ calls, (clean.run calls).1 = (full.run calls).1 ∧ clean.outcomes calls = full.outcomes calls ∧
        (clean.run calls).2 = { (full.run calls).2 with lastError := (clean.run calls).2.lastError } := by
  intro limit left kept clean full
  have hleft : left = match r.insert table p cookie with
      | .error err => (.error err, r, table)
      | .ok (id, r', table') => (.ok id, r', table') := Registry.insertHere_runOn r table p cookie
  have hfail : ∀ err, left.1 = .error err ↔ Registry.refusal? r.config p = some err := by
    intro err
    rw [← Registry.insert_eq_error_iff r table p cookie, hleft]
    cases r.insert table p cookie <;> simp
  obtain ⟨hsub, hkept, halike⟩ := insertEach_accepted e ps
  refine ⟨fun err => (hfail err).trans Registry.refusal?_eq_some_iff, ?_, ?_, insertHere_eq e p cookie, hsub, hkept, halike,
    fun calls => ?_⟩
  · simp only [hfail]
    exact Registry.exists_refusal?_iff
  · intro err herr
    have hi := (Registry.insert_eq_error_iff r table p cookie).2 ((hfail err).1 herr)
    rw [hleft, hi]
  · obtain ⟨hlog, hend, houtcomes⟩ := halike.run calls
    exact ⟨hlog, houtcomes, hend⟩

end Engine

end GlobSieve
