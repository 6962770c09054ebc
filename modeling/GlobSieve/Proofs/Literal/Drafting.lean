import GlobSieve.Literal.InPlace
import GlobSieve.Proofs.Literal.Accepted

/-!
# Adding in place

A draft follows a builder if its states are those of the trie, none of which is linked, and its directory answers as the trie does
(`Draft.Follows`). To add a literal in place is then to add it to the builder (`Follows.add_cases`): the draft follows the
builder that has it, and it is the same draft if the literal is refused.
-/

namespace GlobSieve.Literal

/-- The state, not linked, with the literal that ends there. -/
def TrieState.draft (n : TrieState) : DraftState := ⟨n.edges, 0, n.depth, n.own.toList⟩

section

variable {α β : Type} {d d' : Draft}

theorem Drafting.runOn_bind_of_ok {steps : Drafting α} {next : α → Drafting β} {a : α} (h : steps.runOn d = (.ok a, d')) :
    (steps >>= next : Drafting β).runOn d = (next a).runOn d' := by
  simp only [runOn, ExceptT.run_bind, StateT.run_bind] at h ⊢
  rw [h]
  rfl

end

namespace Draft

/-- The draft has what the builder has. -/
structure Follows (d : Draft) (b : Builder) : Prop where
  mode : d.mode = b.mode
  limit : d.limit = b.limit
  states : d.states = b.trie.states.map TrieState.draft
  count : d.literalCount = b.count
  lookup : ∀ v, d.directory.lookup v = b.trie.find? v

variable {d : Draft} {b : Builder} {t : Trie} {ws ls : List Bytes} {s : Nat} {u : Bytes}

theorem state_of_states (hd : d.states = t.states.map TrieState.draft) (s : Nat) : d.state s = (t.state s).draft := by
  simp only [state, Trie.state, hd, Array.getD_eq_getD_getElem?, Array.getElem?_map]
  cases t.states[s]? <;> rfl

theorem Follows.edges_eq (h : d.Follows b) (s : Nat) : (d.state s).edges = (b.trie.state s).edges := by
  rw [state_of_states h.states]
  rfl

/-! ## States -/

/-- The arrays agree after a child was added. -/
theorem modify_push_draft (hs : s < t.size) (c : UInt8) :
    ((t.states.map TrieState.draft).push (.atDepth ((t.state s).depth + 1))).modify s
        (fun n => { n with edges := (c, t.size) :: n.edges }) = (t.addChild s c).states.map TrieState.draft := by
  apply Array.ext_getElem?
  intro i
  rw [Trie.size] at hs
  simp only [Trie.addChild, Trie.state, Trie.size, Array.getD_eq_getD_getElem?, Array.getElem?_modify, Array.getElem?_map,
    Array.getElem?_push, Array.getElem?_setIfInBounds, Array.size_map, Array.size_setIfInBounds]
  by_cases hi : s = i
  · subst hi
    simp [hs, Nat.ne_of_lt hs, TrieState.draft]
  · by_cases he : i = t.states.size
    · simp [he, Nat.ne_of_lt hs, TrieState.draft, DraftState.atDepth]
    · simp [hi, he]

/-- A child in the draft is a child in the trie. -/
theorem extend_eq (hs : s < t.size) (hd : d.states = t.states.map TrieState.draft) (c : UInt8) :
    d.extend s c = match t.child s c with
      | some next => (next, d)
      | none => (t.size, { d with states := (t.addChild s c).states.map TrieState.draft }) := by
  have hstate := state_of_states hd s
  have hsize : d.states.size = t.size := by rw [hd, Array.size_map, Trie.size]
  have hchild : (d.state s).edges.lookup c = t.child s c := by rw [hstate]; rfl
  have hdepth : (d.state s).depth = (t.state s).depth := by rw [hstate]; rfl
  rw [extend, hchild]
  cases t.child s c with
  | some next => rfl
  | none =>
    simp only
    rw [hsize, hdepth, hd, modify_push_draft hs]

/-- A literal that ends at a state of the draft is the one that the state of the trie has. -/
theorem report_eq (hown : (t.state s).own = none) (id : Nat) (hd : d.states = t.states.map TrieState.draft) :
    d.report s id = { d with states := (t.setOwn s id).states.map TrieState.draft } := by
  have hstates : d.states.modify s (fun n => { n with outputs := n.outputs ++ [id] }) =
      (t.setOwn s id).states.map TrieState.draft := by
    apply Array.ext_getElem?
    intro i
    simp only [hd, Trie.setOwn, Trie.state, Array.getD_eq_getD_getElem?, Array.getElem?_modify, Array.getElem?_map,
      Array.getElem?_setIfInBounds]
    by_cases hi : s = i
    · subst hi
      rw [Trie.state, Array.getD_eq_getD_getElem?] at hown
      by_cases hs : s < t.states.size
      · rw [Array.getElem?_eq_getElem hs] at hown ⊢
        rw [Option.getD_some] at hown
        simp [hs, TrieState.draft, hown]
      · simp [hs]
    · simp [hi]
  rw [report, hstates]

/-- Going along a string makes the states that it lacks. -/
theorem foldlM_extend (v : Bytes) : ∀ {t : Trie} {ws : List Bytes} {s : Nat} {u : Bytes} {d : Draft}, t.Spells ws →
    ws[s]? = some u → d.states = t.states.map TrieState.draft →
      (v.foldlM (fun s c => modifyGet fun d => d.extend s c) s : Drafting Nat).runOn d =
        (.ok (t.extend s v).2, { d with states := (t.extend s v).1.states.map TrieState.draft }) := by
  induction v with
  | nil =>
    intro t ws s u d h hs hd
    rw [Trie.extend, ← hd]
    rfl
  | cons c v ih =>
    intro t ws s u d h hs hd
    have hstep : (modifyGet fun d : Draft => d.extend s c : Drafting Nat).runOn d = (.ok (d.extend s c).1, (d.extend s c).2) := rfl
    have hext := extend_eq (h.lt_size hs) hd c
    rw [List.foldlM_cons, Drafting.runOn_bind_of_ok hstep, Trie.extend]
    cases hc : t.child s c with
    | some next =>
      rw [hc] at hext
      rw [hext]
      exact ih h ((h.child_iff hs c next).1 hc) hd
    | none =>
      rw [hc] at hext
      rw [hext]
      have hnew : (ws ++ [u ++ [c]])[t.size]? = some (u ++ [c]) := by
        rw [h.size_eq]
        exact List.getElem?_concat_length
      exact ih (h.addChild hs hc) hnew rfl

/-! ## A literal -/

/-- Where a string that is not known would end, no string ends. -/
theorem own_extend_eq_none (h : t.Spells ws) (hu : t.find? u = none) :
    ((t.extend 0 u).1.state (t.extend 0 u).2).own = none := by
  obtain ⟨new, -, hlast, -, hown⟩ := h.extend (v := u) h.root
  rw [List.nil_append] at hlast
  rw [hown]
  by_cases hlt : (t.extend 0 u).2 < ws.length
  · rw [List.getElem?_append_left hlt] at hlast
    rw [h.own_eq_find? hlast, hu]
  · rw [Trie.state_of_size_le (by rw [h.size_eq]; exact Nat.le_of_not_lt hlt)]
    rfl

/-- The draft that has one more literal. -/
theorem Follows.register (h : d.Follows b) (hws : b.trie.Spells ws) (hnew : b.trie.find? u = none) :
    ((({ d with states := (b.trie.extend 0 u).1.states.map TrieState.draft } : Draft).report (b.trie.extend 0 u).2 b.count).register
      u b.count).Follows { b with trie := b.trie.insert u b.count, count := b.count + 1 } := by
  obtain ⟨-, -, -, hfind⟩ := hws.insert u b.count
  rw [report_eq (own_extend_eq_none hws hnew) b.count rfl]
  refine ⟨h.mode, h.limit, rfl, congrArg Nat.succ h.count, ?_⟩
  intro v
  rw [hfind, Draft.register, List.lookup_cons]
  by_cases hv : v = u
  · rw [if_pos hv, beq_iff_eq.2 hv]
  · rw [if_neg hv, beq_false_of_ne hv]
    exact h.lookup v

/-- To add a literal in place is to add it to the builder. What is refused changes nothing. -/
theorem Follows.add_cases (h : d.Follows b) (hb : b.Holds ls) (l : Bytes) :
    (∃ e, b.add l = .error e ∧ (addHere l).runOn d = (.error e, d)) ∨
    ∃ id b' d', b.add l = .ok (id, b') ∧ (addHere l).runOn d = (.ok id, d') ∧ d'.Follows b' := by
  obtain ⟨ws, hws, -⟩ := hb.spells
  have hget : (get : Drafting Draft).runOn d = (.ok d, d) := rfl
  have hsize : d.states.size = b.trie.size := by rw [h.states, Array.size_map, Trie.size]
  rw [addHere, Drafting.runOn_bind_of_ok hget, Builder.add]
  dsimp only
  rw [h.limit, h.mode, h.lookup, hsize, h.count, CaseMode.length_foldBytes]
  by_cases hnil : l.isEmpty
  · simp only [if_pos hnil]
    exact .inl ⟨_, rfl, rfl⟩
  by_cases hlong : b.limit < l.length
  · simp only [if_neg hnil, if_pos hlong]
    exact .inl ⟨_, rfl, rfl⟩
  simp only [if_neg hnil, if_neg hlong]
  cases hf : b.trie.find? (b.mode.foldBytes l) with
  | some id => exact .inl ⟨_, rfl, rfl⟩
  | none =>
    by_cases hfull : Builder.maxStates < b.trie.size + l.length
    · simp only [if_pos hfull]
      exact .inl ⟨_, rfl, rfl⟩
    · simp only [if_neg hfull]
      refine .inr ⟨_, _, _, rfl, ?_, h.register hws hf⟩
      rw [Drafting.runOn_bind_of_ok (foldlM_extend (b.mode.foldBytes l) hws hws.root h.states)]
      rfl

end Draft

end GlobSieve.Literal
