import GlobSieve.Proofs.Literal.Capacity
import GlobSieve.Proofs.Literal.InPlace

/-!
# What a draft answers

Literals are offered to a draft one after the other (`Draft.offerEach`). The ids of those that it accepts are dense, and what it
answers to one more is told by the literals that it has accepted and by the number of its states (`Follows.answer`). A refusal
leaves it as it was, so what was refused may be left out (`offerEach_accepted`). It never gets more states or ids than fit into
31 bits (`offerEach_fits`).

To build an automaton from a list of literals is to offer all of them, unless one is refused for another reason than that it is
known; the first such reason is then the result (`addAll_eq`).
-/

namespace GlobSieve.Literal.Draft

variable {m : CaseMode} {limit id : Nat} {d : Draft} {bd bd' : Builder} {ls : List Bytes} {l v : Bytes}

/-- Offer literals in turn. Each with the answer to it, and the draft that they leave. -/
def offerEach (d : Draft) : List Bytes → List (Bytes × Except LiteralError Nat) × Draft
  | [] => ([], d)
  | l :: ls =>
    let (answer, d') := (addHere l).runOn d
    let (answers, d'') := d'.offerEach ls
    ((l, answer) :: answers, d'')

/-- The literals that were accepted, with their ids. -/
def accepted (answers : List (Bytes × Except LiteralError Nat)) : List (Bytes × Nat) :=
  answers.filterMap fun (l, answer) => answer.toOption.map (l, ·)

/-- Why a literal was refused for the first time, if not because it was known. -/
def firstFailure? (answers : List (Bytes × Except LiteralError Nat)) : Option LiteralError :=
  answers.findSome? fun (_, answer) =>
    match answer with
    | .ok _ | .error (.duplicate _) => none
    | .error e => some e

/-! ## A row of offers -/

theorem Follows.empty (m : CaseMode) (limit : Nat) : (Draft.empty m limit).Follows (.empty m limit) where
  mode := rfl
  limit := rfl
  states := by simp [Draft.empty, Builder.empty, Trie.empty, TrieState.draft, TrieState.root, DraftState.atDepth]
  count := rfl
  lookup v := ((Builder.Holds.empty m limit).find?_eq_none_iff.2 List.not_mem_nil).symm

/-- The draft accepts what the builder accepts, and goes on following it. -/
theorem Follows.offers : ∀ {lits : List Bytes} {d : Draft} {bd : Builder} {ls : List Bytes}, d.Follows bd → bd.Holds ls →
    accepted (d.offerEach lits).1 = (bd.offerEach lits).1 ∧ (d.offerEach lits).2.Follows (bd.offerEach lits).2 ∧
      (bd.offerEach lits).2.limit = bd.limit
  | [], d, bd, ls, h, _ => ⟨rfl, h, rfl⟩
  | l :: lits, d, bd, ls, h, hb => by
    rw [Draft.offerEach, Builder.offerEach]
    rcases h.add_cases hb l with ⟨e, ha, hd⟩ | ⟨id, bd', d', ha, hd, h'⟩
    · rw [ha, hd]
      exact offers h hb
    · obtain ⟨-, -, -, hb'⟩ := hb.of_add_ok ha
      obtain ⟨h1, h2, h3⟩ := @offers lits _ _ _ h' hb'
      have hlimit : bd'.limit = bd.limit := by
        obtain ⟨-, -, -, -, -, rfl⟩ := Builder.of_add_eq_ok ha
        rfl
      rw [ha, hd]
      exact ⟨congrArg ((l, id) :: ·) h1, h2, h3.trans hlimit⟩

/-- The accepted literals alone are accepted again, and they leave the same draft. -/
theorem offerEach_accepted : ∀ {lits : List Bytes} {d : Draft} {bd : Builder} {ls : List Bytes}, d.Follows bd → bd.Holds ls →
    (d.offerEach ((accepted (d.offerEach lits).1).map Prod.fst)).2 = (d.offerEach lits).2
  | [], _, _, _, _, _ => rfl
  | l :: lits, d, bd, ls, h, hb => by
    rw [Draft.offerEach]
    rcases h.add_cases hb l with ⟨e, ha, hd⟩ | ⟨id, bd', d', ha, hd, h'⟩
    · rw [hd]
      exact offerEach_accepted h hb
    · obtain ⟨-, -, -, hb'⟩ := hb.of_add_ok ha
      rw [hd]
      show (d.offerEach (l :: (accepted (d'.offerEach lits).1).map Prod.fst)).2 = _
      rw [Draft.offerEach, hd]
      exact offerEach_accepted h' hb'

/-- To add a list of literals is to offer all of them, up to the first failure. -/
theorem addAll_eq : ∀ (lits : List Bytes) (d : Draft), match firstFailure? (d.offerEach lits).1 with
    | some e => (d.addAll lits).1 = .error e
    | none => d.addAll lits = (.ok (), (d.offerEach lits).2)
  | [], d => rfl
  | l :: lits, d => by
    rw [offerEach, addAll]
    cases hadd : (addHere l).runOn d with
    | mk answer d' =>
      have ih := addAll_eq lits d'
      cases answer with
      | ok id => exact ih
      | error e =>
        cases e with
        | duplicate id => exact ih
        | zeroLength => rfl
        | tooLong length limit => rfl
        | resourceLimit detail => rfl

/-- The draft after any offers follows a builder that has what was accepted, and the ids are dense. -/
theorem exists_follows (m : CaseMode) (limit : Nat) (lits : List Bytes) :
    let run := (Draft.empty m limit).offerEach lits
    ∃ bd : Builder, run.2.Follows bd ∧ bd.mode = m ∧ bd.limit = limit ∧
      bd.Holds ((accepted run.1).map fun x => m.foldBytes x.1) ∧
      accepted run.1 = ((accepted run.1).map Prod.fst).zipIdx := by
  intro run
  obtain ⟨haccepted, hfollows, hlimit⟩ := @Follows.offers lits _ _ _ (Follows.empty m limit) (Builder.Holds.empty m limit)
  obtain ⟨hmode, hholds, hids⟩ := (Builder.Holds.empty m limit).offerEach lits
  rw [List.nil_append] at hholds
  refine ⟨_, hfollows, hmode, hlimit, ?_, ?_⟩
  · rw [haccepted]
    exact hholds
  · rw [haccepted]
    exact hids

/-! ## Room -/

/-- Going along a string makes a state for each byte at most. -/
theorem size_extend_le (v : Bytes) : ∀ (t : Trie) (s : Nat), (t.extend s v).1.size ≤ t.size + v.length := by
  induction v with
  | nil =>
    intro t s
    exact Nat.le_refl _
  | cons c v ih =>
    intro t s
    rw [Trie.extend, List.length_cons]
    cases t.child s c with
    | some next =>
      have := ih t next
      exact Nat.le_succ_of_le this
    | none =>
      have := ih (t.addChild s c) t.size
      rw [Trie.size_addChild] at this
      simp only
      omega

/-- A literal is accepted only if there is room for it. -/
theorem size_le_of_add (ha : bd.add l = .ok (id, bd')) : bd'.trie.size ≤ Builder.maxStates := by
  obtain ⟨-, -, -, hroom, -, rfl⟩ := Builder.of_add_eq_ok ha
  have hsize := size_extend_le (bd.mode.foldBytes l) bd.trie 0
  rw [CaseMode.length_foldBytes] at hsize
  have hinsert : (bd.trie.insert (bd.mode.foldBytes l) bd.count).size = (bd.trie.extend 0 (bd.mode.foldBytes l)).1.size := by
    show ((bd.trie.extend 0 (bd.mode.foldBytes l)).1.setOwn _ _).size = _
    simp [Trie.setOwn, Trie.size]
  rw [hinsert]
  exact Nat.le_trans hsize hroom

/-- After any offers there are no more states than there may be. -/
theorem Follows.size_le : ∀ {lits : List Bytes} {d : Draft} {bd : Builder} {ls : List Bytes}, d.Follows bd → bd.Holds ls →
    d.states.size ≤ Builder.maxStates → (d.offerEach lits).2.states.size ≤ Builder.maxStates
  | [], _, _, _, _, _, hsize => hsize
  | l :: lits, d, bd, ls, h, hb, hsize => by
    rw [Draft.offerEach]
    rcases h.add_cases hb l with ⟨e, -, hd⟩ | ⟨id, bd', d', ha, hd, h'⟩
    · rw [hd]
      exact size_le h hb hsize
    · obtain ⟨-, -, -, hb'⟩ := hb.of_add_ok ha
      rw [hd]
      refine size_le h' hb' ?_
      rw [h'.states, Array.size_map]
      exact size_le_of_add ha

/-- Each literal has a state of its own beside the root. -/
theorem Follows.literalCount_lt (h : d.Follows bd) (hb : bd.Holds ls) : d.literalCount < d.states.size := by
  obtain ⟨ws, hws, hmem⟩ := hb.spells
  have hsub : [] :: ls ⊆ ws := by
    intro v hv
    rw [hmem]
    rcases List.mem_cons.1 hv with rfl | hv
    · exact .inl rfl
    · exact .inr ⟨v, hv, List.prefix_refl v⟩
  have hnd : ([] :: ls).Nodup := List.nodup_cons.2 ⟨fun hm => hb.ne_nil [] hm rfl, hb.nodup⟩
  have hle := (List.subperm_of_subset hnd hsub).length_le
  rw [h.count, hb.count_eq, h.states, Array.size_map, ← Trie.size, hws.size_eq]
  exact hle

/-- The numbers of the states and the ids of the literals stay below the greatest number of states. -/
theorem offerEach_fits (m : CaseMode) (limit : Nat) (lits : List Bytes) :
    let d := ((Draft.empty m limit).offerEach lits).2
    d.literalCount < d.states.size ∧ d.states.size ≤ Builder.maxStates := by
  intro d
  obtain ⟨bd, h, -, -, hb, -⟩ := exists_follows m limit lits
  have hroot : (Draft.empty m limit).states.size ≤ Builder.maxStates := Nat.succ_le_of_lt (by decide : 0 < Builder.maxStates)
  exact ⟨h.literalCount_lt hb, (Follows.empty m limit).size_le (Builder.Holds.empty m limit) hroot⟩

/-! ## One more literal -/

/-- The answer is that of the builder. -/
theorem Follows.answer_eq (h : d.Follows bd) (hb : bd.Holds ls) (l : Bytes) :
    ((addHere l).runOn d).1 = (bd.add l).map Prod.fst := by
  rcases h.add_cases hb l with ⟨e, ha, hd⟩ | ⟨id, bd', d', ha, hd, -⟩
  · rw [ha, hd]
    rfl
  · rw [ha, hd]
    rfl

/-- A refusal changes nothing. -/
theorem Follows.refused (h : d.Follows bd) (hb : bd.Holds ls) {e : LiteralError} (he : ((addHere l).runOn d).1 = .error e) :
    ((addHere l).runOn d).2 = d := by
  rcases h.add_cases hb l with ⟨e', -, hd⟩ | ⟨id, bd', d', -, hd, -⟩
  · rw [hd]
  · rw [hd] at he
    cases he

/-- What is answered to a literal, by the cases that are tried in turn. -/
theorem Follows.answer (h : d.Follows bd) (hb : bd.Holds ls) (l : Bytes) :
    let answer := ((addHere l).runOn d).1
    (l = [] ∧ answer = .error .zeroLength) ∨
    (l ≠ [] ∧ d.limit < l.length ∧ answer = .error (.tooLong l.length d.limit)) ∨
    (l ≠ [] ∧ l.length ≤ d.limit ∧ ∃ id, ls[id]? = some (d.mode.foldBytes l) ∧ answer = .error (.duplicate id)) ∨
    (l ≠ [] ∧ l.length ≤ d.limit ∧ d.mode.foldBytes l ∉ ls ∧ Builder.maxStates < d.states.size + l.length ∧
      answer = .error Builder.noRoom) ∨
    (l ≠ [] ∧ l.length ≤ d.limit ∧ d.mode.foldBytes l ∉ ls ∧ d.states.size + l.length ≤ Builder.maxStates ∧
      answer = .ok ls.length) := by
  have hsize : d.states.size = bd.trie.size := by rw [h.states, Array.size_map, Trie.size]
  dsimp only
  rw [h.answer_eq hb, h.mode, h.limit, hsize]
  by_cases hnil : l = []
  · subst hnil
    exact .inl ⟨rfl, rfl⟩
  refine .inr ?_
  by_cases hlong : bd.limit < l.length
  · refine .inl ⟨hnil, hlong, ?_⟩
    rw [Builder.add, if_neg (by simpa using hnil), if_pos hlong]
    rfl
  refine .inr ?_
  have hfits := Nat.le_of_not_lt hlong
  rw [Builder.add_of_fits hnil hfits]
  cases hf : bd.trie.find? (bd.mode.foldBytes l) with
  | some id => exact .inl ⟨hnil, hfits, id, (hb.find?_iff _ _).1 hf, rfl⟩
  | none =>
    have hnew := hb.find?_eq_none_iff.1 hf
    refine .inr ?_
    by_cases hfull : Builder.maxStates < bd.trie.size + l.length
    · exact .inl ⟨hnil, hfits, hnew, hfull, by simp only [if_pos hfull]; rfl⟩
    · refine .inr ⟨hnil, hfits, hnew, Nat.le_of_not_lt hfull, ?_⟩
      simp only [if_neg hfull, ← hb.count_eq]
      rfl

/-- What each answer says. -/
theorem Follows.answer_iff (h : d.Follows bd) (hb : bd.Holds ls) (l : Bytes) :
    let answer := ((addHere l).runOn d).1
    (answer = .error .zeroLength ↔ l = []) ∧
      (∀ n max, answer = .error (.tooLong n max) ↔ l ≠ [] ∧ d.limit < l.length ∧ n = l.length ∧ max = d.limit) ∧
      (∀ id, answer = .error (.duplicate id) ↔ l ≠ [] ∧ l.length ≤ d.limit ∧ ls[id]? = some (d.mode.foldBytes l)) ∧
      (∀ detail, answer = .error (.resourceLimit detail) ↔ l ≠ [] ∧ l.length ≤ d.limit ∧ d.mode.foldBytes l ∉ ls ∧
        Builder.maxStates < d.states.size + l.length ∧ detail = s!"automaton would exceed {Builder.maxStates} states") ∧
      ∀ id, answer = .ok id ↔ l ≠ [] ∧ l.length ≤ d.limit ∧ d.mode.foldBytes l ∉ ls ∧
        d.states.size + l.length ≤ Builder.maxStates ∧ id = ls.length := by
  have hcases := h.answer hb l
  dsimp only at hcases ⊢
  generalize ((addHere l).runOn d).1 = answer at hcases ⊢
  rcases hcases with ⟨hnil, ha⟩ | ⟨hne, hlong, ha⟩ | ⟨hne, hfits, id, hid, ha⟩ | ⟨hne, hfits, hnew, hfull, ha⟩ |
    ⟨hne, hfits, hnew, hroom, ha⟩
  · simp [ha, hnil]
  · simp [ha, hne, hlong, Nat.not_le.2 hlong, eq_comm]
  · have hmem := List.mem_of_getElem? hid
    have hids : ∀ id', ls[id']? = some (d.mode.foldBytes l) ↔ id = id' := by
      intro id'
      rw [← hid]
      exact ⟨fun e => (List.getElem?_inj (List.getElem?_eq_some_iff.1 hid).1 hb.nodup).1 e.symm, fun e => by rw [e]⟩
    simp [ha, hne, hfits, Nat.not_lt.2 hfits, hids, hmem]
  · have hno : ∀ id, ls[id]? ≠ some (d.mode.foldBytes l) := fun id e => hnew (List.mem_of_getElem? e)
    simp [ha, hne, hfits, Nat.not_lt.2 hfits, hno, hnew, hfull, Nat.not_le.2 hfull, Builder.noRoom, eq_comm]
  · have hno : ∀ id, ls[id]? ≠ some (d.mode.foldBytes l) := fun id e => hnew (List.mem_of_getElem? e)
    simp [ha, hne, hfits, Nat.not_lt.2 hfits, hno, hnew, hroom, Nat.not_lt.2 hroom, eq_comm]

/-- The automaton of a list of literals, or why there is none. -/
theorem buildInPlace?_eq (order : EdgeOrder) (m : CaseMode) (lits : List Bytes) :
    let whole := (Draft.empty m Automaton.defaultLimit).offerEach lits
    match firstFailure? whole.1 with
    | some e => Automaton.buildInPlace? order m lits = some (.error e)
    | none => ∃ a, whole.2.build? order = some a ∧ Automaton.buildInPlace? order m lits = some (.ok a) := by
  intro whole
  obtain ⟨bd, h, -, -, hb, -⟩ := exists_follows m Automaton.defaultLimit lits
  have hall := addAll_eq lits (Draft.empty m Automaton.defaultLimit)
  rw [Automaton.buildInPlace?]
  cases hf : firstFailure? whole.1 with
  | some e =>
    rw [hf] at hall
    cases hr : (Draft.empty m Automaton.defaultLimit).addAll lits with
    | mk result d' =>
      rw [hr] at hall
      obtain rfl : result = .error e := hall
      rfl
  | none =>
    rw [hf] at hall
    rw [hall]
    exact ⟨_, h.built hb order, congrArg (Option.map Except.ok) (h.built hb order)⟩

/-- The literal with an id, by its folding. -/
theorem getElem?_folded {known : List (Bytes × Nat)} (hids : known = (known.map Prod.fst).zipIdx) :
    (known.map fun x => m.foldBytes x.1)[id]? = some v ↔ ∃ l, (l, id) ∈ known ∧ m.foldBytes l = v := by
  have hmem : ∀ l, (l, id) ∈ known ↔ (known.map Prod.fst)[id]? = some l := by
    intro l
    conv => lhs; rw [hids]
    exact List.mem_zipIdx_iff_getElem?
  simp only [hmem, List.getElem?_map, Option.map_eq_some_iff]
  simp

/-- **Literals are accepted or refused as a whole.** After any offers the answer to one more literal is told by those that were
accepted, whose ids are dense, and by the number of states. A refusal leaves the draft as it was; so the accepted literals alone
leave the same draft, and from it the same automaton is built. The automaton of a list of literals is the one of the draft to
which all of them were offered, unless one of them fails. -/
theorem offers_atomic (m : CaseMode) (limit : Nat) (lits : List Bytes) (l : Bytes) :
    let run := (Draft.empty m limit).offerEach lits
    let known := accepted run.1
    let d := run.2
    let answer := ((addHere l).runOn d).1
    ((answer = .error .zeroLength ↔ l = []) ∧
      (∀ n max, answer = .error (.tooLong n max) ↔ l ≠ [] ∧ limit < l.length ∧ n = l.length ∧ max = limit) ∧
      (∀ id, answer = .error (.duplicate id) ↔
        l ≠ [] ∧ l.length ≤ limit ∧ ∃ l', (l', id) ∈ known ∧ m.foldBytes l' = m.foldBytes l) ∧
      (∀ detail, answer = .error (.resourceLimit detail) ↔
        l ≠ [] ∧ l.length ≤ limit ∧ (∀ x ∈ known, m.foldBytes x.1 ≠ m.foldBytes l) ∧
          Builder.maxStates < d.states.size + l.length ∧ detail = s!"automaton would exceed {Builder.maxStates} states") ∧
      ∀ id, answer = .ok id ↔
        l ≠ [] ∧ l.length ≤ limit ∧ (∀ x ∈ known, m.foldBytes x.1 ≠ m.foldBytes l) ∧
          d.states.size + l.length ≤ Builder.maxStates ∧ id = known.length) ∧
    (d.literalCount = known.length ∧ known = (known.map Prod.fst).zipIdx) ∧
    ((∀ e, answer = .error e → ((addHere l).runOn d).2 = d) ∧
      ((Draft.empty m limit).offerEach (known.map Prod.fst)).2 = d ∧
      ∀ order, ∃ a, d.build? order = some a ∧
        ((Draft.empty m limit).offerEach (known.map Prod.fst)).2.build? order = some a) ∧
    ∀ order,
      let whole := (Draft.empty m Automaton.defaultLimit).offerEach lits
      match firstFailure? whole.1 with
      | some e => Automaton.buildInPlace? order m lits = some (.error e)
      | none => ∃ a, whole.2.build? order = some a ∧ Automaton.buildInPlace? order m lits = some (.ok a) := by
  intro run known d answer
  obtain ⟨bd, h, hmode, hlimit, hb, hids⟩ := exists_follows m limit lits
  have hanswer := h.answer_iff hb l
  rw [h.mode.trans hmode, h.limit.trans hlimit, List.length_map] at hanswer
  simp only [getElem?_folded hids, List.mem_map, not_exists, not_and] at hanswer
  have hsame : ((Draft.empty m limit).offerEach (known.map Prod.fst)).2 = d :=
    offerEach_accepted (Follows.empty m limit) (Builder.Holds.empty m limit)
  refine ⟨hanswer, ⟨?_, hids⟩, ⟨?_, hsame, ?_⟩, ?_⟩
  · rw [h.count, hb.count_eq, List.length_map]
  · intro e he
    exact h.refused hb he
  · intro order
    exact ⟨_, h.built hb order, by rw [hsame]; exact h.built hb order⟩
  · intro order
    exact buildInPlace?_eq order m lits

example : accepted ((Draft.empty .insensitive 9).offerEach [[72, 101], [], [104, 69], [115, 104, 101]]).1 =
    [([72, 101], 0), ([115, 104, 101], 1)] := by decide

end GlobSieve.Literal.Draft
