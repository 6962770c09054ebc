import GlobSieve.Proofs.Query.InPlace
import GlobSieve.Query.Checked

/-!
# No place is missing

In an index that was built every fragment that an id leads to has its place in the table, and while the meta-words are looked at
nothing is added to the fragments found. So the filter by places gives a result, and it is that of the filter
(`resolveIn?_eq_some`).
-/

namespace GlobSieve

variable {S : Scanner} {x : CompiledIndex S} {ctx : QueryContext}

/-- Steps that all give a result are the steps. -/
theorem foldlM_eq_some {σ α : Type} {step? : σ → α → Option σ} {step : σ → α → σ} {l : List α}
    (h : ∀ s, ∀ a ∈ l, step? s a = some (step s a)) (s : σ) : l.foldlM step? s = some (l.foldl step s) := by
  induction l generalizing s with
  | nil => rfl
  | cons a l ih =>
    rw [List.foldlM_cons, h s a List.mem_cons_self, List.foldl_cons]
    exact ih (fun s b hb => h s b (List.mem_cons_of_mem a hb)) _

theorem QueryContext.hit?_eq_some {needed : Array Nat} {f : Nat} (h : f < needed.size) (ctx : QueryContext) :
    ctx.hit? needed f = some (ctx.hit needed f) := by
  simp only [hit?, hit, Array.getElem?_eq_getElem h, Option.map_some, Option.some.injEq]
  simp only [eq_comm]

namespace CompiledIndex

open QueryContext

theorem see?_eq_some {id : Nat} (h : ∀ f ∈ x.fragmentsOf id, f < x.literalsNeeded.size) (ctx : QueryContext) :
    x.see? ctx id = some (x.see ctx id) := by
  rw [see?, see]
  split
  · rfl
  · exact foldlM_eq_some (fun ctx f hf => hit?_eq_some (h f hf) ctx) _

theorem matched_foldl {α : Type} {step : QueryContext → α → QueryContext}
    (h : ∀ ctx a, (step ctx a).matched = ctx.matched) (as : List α) (ctx : QueryContext) :
    (as.foldl step ctx).matched = ctx.matched := by
  induction as generalizing ctx with
  | nil => rfl
  | cons a as ih => rw [List.foldl_cons, ih, h]

theorem matched_letPass (ctx : QueryContext) (id : Nat) : (ctx.letPass id).matched = ctx.matched := by
  unfold letPass
  split <;> rfl

/-- A meta-word that is looked at adds no fragment. -/
theorem matched_visit (x : CompiledIndex S) (ctx : QueryContext) (m : Nat) : (x.visit ctx m).matched = ctx.matched := by
  unfold visit
  split
  · rfl
  dsimp only
  split
  · rfl
  split
  · exact matched_foldl matched_letPass _ _
  · rfl

/-- The walk by index is the walk over the fragments found. -/
theorem foldlM_follow? (x : CompiledIndex S) {ctx : QueryContext} (done : List Nat) {fs : List Nat}
    (h : ctx.matched = done ++ fs) :
    (List.range' done.length fs.length).foldlM x.follow? ctx =
      some (fs.foldl (fun ctx f => (x.metaWords.containing f).foldl x.visit ctx) ctx) := by
  induction fs generalizing done ctx with
  | nil => rfl
  | cons f fs ih =>
    have hplace : ctx.matched[done.length]? = some f := by rw [h]; simp
    have hnext : ((x.metaWords.containing f).foldl x.visit ctx).matched = (done ++ [f]) ++ fs := by
      rw [matched_foldl (matched_visit x), h, List.append_assoc, List.singleton_append]
    have hrest := ih (done ++ [f]) hnext
    rw [List.length_append, List.length_singleton] at hrest
    rw [List.length_cons, List.range'_succ, List.foldlM_cons, follow?, hplace]
    exact hrest

variable {κ : Type} {r : Registry κ} {table : FragmentTable}

/-- An id leads to fragments that the index knows. -/
theorem lt_size_of_mem_fragmentsOf (hx : build S r table = .ok x) {f id : Nat} (h : f ∈ x.fragmentsOf id) :
    f < x.literalsNeeded.size := by
  obtain ⟨sets, -, -, -, -, he, -⟩ := of_build_eq_ok hx
  rw [he] at h ⊢
  obtain ⟨s, hs, -⟩ := mem_fragmentsOf_ofSets.1 h
  simpa [ofSets] using (List.getElem?_eq_some_iff.1 hs).1

/-- Every place that is looked up exists. -/
theorem resolveIn?_eq_some (hx : build S r table = .ok x) (ids : List Nat) (ctx : QueryContext) :
    x.resolveIn? ids ctx = some (x.resolveIn ids ctx) := by
  have hsee : ids.foldlM x.see? ctx = some (ids.foldl x.see ctx) :=
    foldlM_eq_some (fun ctx id _ => see?_eq_some (fun f hf => lt_size_of_mem_fragmentsOf hx hf) ctx) ctx
  simp only [resolveIn?, hsee, Option.bind_eq_bind, Option.bind_some, List.range_eq_range']
  exact foldlM_follow? x [] rfl

end CompiledIndex

end GlobSieve
