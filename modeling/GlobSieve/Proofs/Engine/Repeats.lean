import GlobSieve.Engine.Audit
import GlobSieve.Proofs.Engine.Reachable

/-!
# Repeated texts

A pattern whose text came before is reported once, against the latest of the earlier patterns with this text
(`repeats_latest`), whatever stands between them. So the earliest one is named to the second copy of a text, and not to a
later copy (`not_forall_repeats_earliest`).

When the check comes to a text, its directory has the texts before with the last place of each (`lookup_directory`), and what
is reported is what it says (`filterMap_repeatsFrom`).
-/

namespace GlobSieve

variable {i j : Nat}

/-- The handle of the earlier pattern, if it is told that the pattern `i` repeats its text. -/
def EngineConcern.repeatOf? (i : Nat) : EngineConcern → Option Nat
  | repeated p previous => if p = i then some previous else none
  | unreferenced _ => none
  | idleLiteral _ => none

/-! ## The directory -/

/-- The element is at this place of the list and at no later one. -/
def LastAt (ts : List Bytes) (t : Bytes) (j : Nat) : Prop := ts[j]? = some t ∧ ∀ k, j < k → ts[k]? ≠ some t

theorem lastAt_concat_self (ts : List Bytes) (t : Bytes) : LastAt (ts ++ [t]) t j ↔ j = ts.length := by
  constructor
  · intro ⟨hj, hlast⟩
    have hlt := (List.getElem?_eq_some_iff.1 hj).1
    rw [List.length_append, List.length_singleton] at hlt
    by_contra hne
    exact hlast ts.length (by omega) List.getElem?_concat_length
  · rintro rfl
    refine ⟨List.getElem?_concat_length, ?_⟩
    intro k hk hget
    have hlt := (List.getElem?_eq_some_iff.1 hget).1
    rw [List.length_append, List.length_singleton] at hlt
    omega

theorem lastAt_concat_of_ne {t u : Bytes} (ts : List Bytes) (h : t ≠ u) : LastAt (ts ++ [u]) t j ↔ LastAt ts t j := by
  have hget : ∀ k : Nat, (ts ++ [u])[k]? = some t ↔ ts[k]? = some t := by
    intro k
    rcases Nat.lt_trichotomy k ts.length with hk | rfl | hk
    · rw [List.getElem?_append_left hk]
    · simp [Ne.symm h]
    · rw [List.getElem?_eq_none (by rw [List.length_append, List.length_singleton]; omega), List.getElem?_eq_none (by omega)]
  simp only [LastAt, hget, ne_eq]

/-- The last place among the first `i` elements. -/
theorem lastAt_take {ts : List Bytes} {t : Bytes} : LastAt (ts.take i) t j ↔
    j < i ∧ ts[j]? = some t ∧ ∀ k, j < k → k < i → ts[k]? ≠ some t := by
  constructor
  · intro ⟨hj, hlast⟩
    have hlt : j < i := by
      have := (List.getElem?_eq_some_iff.1 hj).1
      rw [List.length_take] at this
      omega
    refine ⟨hlt, by rwa [List.getElem?_take_of_lt hlt] at hj, ?_⟩
    intro k hk hki
    rw [← List.getElem?_take_of_lt hki]
    exact hlast k hk
  · intro ⟨hlt, hj, hlast⟩
    refine ⟨by rwa [List.getElem?_take_of_lt hlt], ?_⟩
    intro k hk hget
    by_cases hki : k < i
    · rw [List.getElem?_take_of_lt hki] at hget
      exact hlast k hk hki hget
    · rw [List.getElem?_eq_none (by rw [List.length_take]; omega)] at hget
      cases hget

/-- A directory of the places of a list names the last place of each element. -/
theorem lookup_directory (ts : List Bytes) (t : Bytes) : ts.zipIdx.reverse.lookup t = some j ↔ LastAt ts t j := by
  induction ts using List.reverseRecOn with
  | nil => simp [LastAt]
  | append_singleton ts u ih =>
    rw [List.zipIdx_append, List.reverse_append, List.zipIdx_singleton, List.reverse_singleton, List.singleton_append,
      List.lookup_cons]
    by_cases h : t = u
    · subst h
      rw [lastAt_concat_self]
      simp [eq_comm]
    · rw [lastAt_concat_of_ne ts h, ← ih, beq_false_of_ne h]

/-- An element of the list is in its directory. -/
theorem isSome_lookup_directory {ts : List Bytes} {t : Bytes} (h : t ∈ ts) : (ts.zipIdx.reverse.lookup t).isSome = true := by
  obtain ⟨j, hj⟩ := List.mem_iff_getElem?.1 h
  rw [← Option.ne_none_iff_isSome]
  intro hnone
  have hne := List.lookup_eq_none_iff.1 hnone (t, j) (List.mem_reverse.2 (List.mem_zipIdx_iff_getElem?.2 hj))
  simp at hne

/-! ## What is reported -/

theorem filterMap_repeatsFrom_cons (directory : List (Bytes × Nat)) (n : Nat) (t : Bytes) (ts : List Bytes) :
    (repeatsFrom directory n (t :: ts)).filterMap (·.repeatOf? i) = (if n = i then (directory.lookup t).toList else []) ++
      (repeatsFrom ((t, n) :: directory) (n + 1) ts).filterMap (·.repeatOf? i) := by
  rw [repeatsFrom]
  cases directory.lookup t with
  | none => simp
  | some previous => by_cases h : n = i <;> simp [EngineConcern.repeatOf?, h]

/-- Of a pattern it is reported what the directory of the texts before says of its text. -/
theorem filterMap_repeatsFrom (done ts : List Bytes) :
    (repeatsFrom done.zipIdx.reverse done.length ts).filterMap (·.repeatOf? i) =
      if i < done.length then [] else
        ((done ++ ts)[i]?.bind (((done ++ ts).take i).zipIdx.reverse.lookup ·)).toList := by
  induction ts generalizing done with
  | nil =>
    split
    · rfl
    · next hi => simp [repeatsFrom, List.getElem?_eq_none (Nat.le_of_not_lt hi)]
  | cons t ts ih =>
    have hlater := ih (done ++ [t])
    have hdir : (done ++ [t]).zipIdx.reverse = (t, done.length) :: done.zipIdx.reverse := by simp [List.zipIdx_append]
    have hlen : (done ++ [t]).length = done.length + 1 := List.length_append
    rw [hdir, hlen, List.append_assoc, List.singleton_append] at hlater
    rw [filterMap_repeatsFrom_cons, hlater]
    rcases Nat.lt_trichotomy done.length i with hi | rfl | hi
    · rw [if_neg (by omega), if_neg (by omega), if_neg (by omega), List.nil_append]
    · -- the pattern itself: the texts before it are those done
      rw [if_pos rfl, if_pos (by omega), if_neg (Nat.lt_irrefl _), List.append_nil, List.take_left]
      simp
    · rw [if_neg (by omega), if_pos (by omega), if_pos hi, List.nil_append]

namespace Engine

variable {S : Scanner} {κ : Type}

/-- No other warning tells of a repeat. -/
theorem filterMap_warnings (e : Engine S κ) (i : Nat) : e.audit.warnings.filterMap (·.repeatOf? i) =
    (e.texts[i]?.bind ((e.texts.take i).zipIdx.reverse.lookup ·)).toList := by
  have hrepeats := filterMap_repeatsFrom (i := i) [] e.texts
  rw [List.length_nil, if_neg (Nat.not_lt_zero i), List.nil_append] at hrepeats
  have hunreferenced : ∀ n, (if n = 0 then [] else [EngineConcern.unreferenced n]).filterMap (·.repeatOf? i) = [] := by
    intro n
    split <;> rfl
  have hidle : (e.phase.index?.elim [] (·.idleLiterals)).filterMap (·.repeatOf? i) = [] := by
    cases e.phase.index? with
    | none => rfl
    | some x => simp [CompiledIndex.idleLiterals, EngineConcern.repeatOf?]
  show (repeatsFrom [] 0 e.texts ++ _ ++ e.phase.index?.elim [] (·.idleLiterals)).filterMap _ = _
  rw [List.filterMap_append, List.filterMap_append, hunreferenced, hidle, List.append_nil, List.append_nil]
  exact hrepeats

/-- **A repeated text is reported once**, against the latest of the earlier patterns with this text. Nothing is reported of a
pattern whose text did not come before. -/
theorem repeats_latest (e : Engine S κ) (i : Nat) :
    let named := e.audit.warnings.filterMap (·.repeatOf? i)
    (∀ j, named = [j] ↔ ∃ t, e.texts[i]? = some t ∧ j < i ∧ e.texts[j]? = some t ∧
        ∀ k, j < k → k < i → e.texts[k]? ≠ some t) ∧
      ((∃ j, named = [j]) ↔ ∃ t, e.texts[i]? = some t ∧ t ∈ e.texts.take i) ∧
      (named ≠ [] → ∃ j, named = [j]) := by
  intro named
  have hnamed : named = _ := filterMap_warnings e i
  cases hi : e.texts[i]? with
  | none =>
    rw [hi] at hnamed
    simp [hnamed]
  | some t =>
    rw [hi] at hnamed
    change named = ((e.texts.take i).zipIdx.reverse.lookup t).toList at hnamed
    have hone : ∀ j, named = [j] ↔ LastAt (e.texts.take i) t j := by
      intro j
      rw [← lookup_directory, hnamed, Option.toList_eq_singleton_iff]
    refine ⟨?_, ?_, ?_⟩
    · intro j
      rw [hone, lastAt_take]
      simp
    · constructor
      · intro ⟨j, hj⟩
        exact ⟨t, rfl, List.mem_of_getElem? ((hone j).1 hj).1⟩
      · intro ⟨u, hu, hmem⟩
        obtain rfl := Option.some.inj hu
        obtain ⟨j, hj⟩ := Option.isSome_iff_exists.1 (isSome_lookup_directory hmem)
        exact ⟨j, (hone j).2 ((lookup_directory _ t).1 hj)⟩
    · intro hne
      cases hl : (e.texts.take i).zipIdx.reverse.lookup t with
      | none => exact absurd (by rw [hnamed, hl]; rfl) hne
      | some j => exact ⟨j, by rw [hnamed, hl]; rfl⟩

/-- The earliest pattern with a text is not always the one that is named: of three patterns alike the last repeats the second. -/
theorem not_forall_repeats_earliest :
    ¬∀ (e : Engine .automaton Nat) (i j : Nat), .repeated i j ∈ e.audit.warnings →
      ∀ k < j, e.texts[k]? ≠ e.texts[i]? := by
  intro h
  let e := ((Engine.empty .automaton Nat .standard).insertEach [([97], 0), ([97], 1), ([97], 2)]).2
  have hm : .repeated 2 1 ∈ e.audit.warnings := by decide +kernel
  have hsame : e.texts[0]? = e.texts[2]? := by decide +kernel
  exact h e 2 1 hm 0 (by decide) hsame

end Engine

end GlobSieve
