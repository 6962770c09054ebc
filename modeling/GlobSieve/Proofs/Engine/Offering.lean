import Mathlib.Data.List.Forall2
import GlobSieve.Engine.Index
import GlobSieve.Proofs.Literal.Scan
import GlobSieve.Proofs.Pattern.Grouping
import GlobSieve.Scanner.Automaton

/-!
# Answers to the needles of a table

An index is made by offering the needles of all fragments to a scanner (`Scanner.answers` are the ids it answers). What
the index has of a fragment is the set of the ids answered to its needles (`Answered`), and nothing more is known of a
scanner in general (`CompiledIndex.of_build_eq_ok`). Of the automaton it is known that each id belongs to the needle it
was answered to, folded: a scan lists the id when the needle is in the text (`mem_scan_of_answers`).
-/

namespace GlobSieve

/-- The needles of all fragments, in the order in which they are offered. -/
def FragmentTable.needles (t : FragmentTable) : List Bytes := t.toList.flatMap (·.needles)

/-- The needles of a table with the ids that a scanner answers to them. -/
def Scanner.answers (S : Scanner) (c : Config) (table : FragmentTable) : List (Bytes × Nat) :=
  match CompiledIndex.offerAll (S.start c) table.needles with
  | .ok (ids, _) => table.needles.zip ids
  | .error _ => []

/-- A scan lists the id of every needle that the text contains, up to the mode. -/
def CompiledIndex.Sees {S : Scanner} (x : CompiledIndex S) (c : Config) (table : FragmentTable) (t : Bytes) : Prop :=
  ∀ n id, (n, id) ∈ S.answers c table → c.mode.foldBytes n <:+: c.mode.foldBytes t → id ∈ S.scan x.scanner t

/-- A set of ids is the ids answered to the needles of a fragment. -/
structure Answered (answers : List (Bytes × Nat)) (f : Fragment) (s : List Nat) : Prop where
  nodup : s.Nodup
  of_mem : ∀ id ∈ s, ∃ n ∈ f.needles, (n, id) ∈ answers
  of_needle : ∀ n ∈ f.needles, ∃ id ∈ s, (n, id) ∈ answers

theorem Answered.mono {as bs : List (Bytes × Nat)} {f : Fragment} {s : List Nat} (h : Answered as f s)
    (hsub : as ⊆ bs) : Answered bs f s where
  nodup := h.nodup
  of_mem id hid := by
    obtain ⟨n, hn, ha⟩ := h.of_mem id hid
    exact ⟨n, hn, hsub ha⟩
  of_needle n hn := by
    obtain ⟨id, hid, ha⟩ := h.of_needle n hn
    exact ⟨id, hid, hsub ha⟩

theorem exists_mem_zip {α β : Type} {as : List α} {bs : List β} (hlen : bs.length = as.length) {a : α} (ha : a ∈ as) :
    ∃ b ∈ bs, (a, b) ∈ as.zip bs := by
  obtain ⟨i, hi⟩ := List.mem_iff_getElem?.1 ha
  have hlt : i < bs.length := hlen ▸ (List.getElem?_eq_some_iff.1 hi).1
  have hb : bs[i]? = some bs[i] := List.getElem?_eq_getElem hlt
  exact ⟨bs[i], List.getElem_mem hlt, List.mem_of_getElem? (List.getElem?_zip_eq_some.2 ⟨hi, hb⟩)⟩

/-- The set of the ids answered to all needles of a fragment in turn. -/
theorem Answered.of_zip {f : Fragment} {ids : List Nat} (hlen : ids.length = f.needles.length) :
    Answered (f.needles.zip ids) f (handleSet ids) where
  nodup := (pairwise_handleSet ids).imp Nat.ne_of_lt
  of_mem id hid := by
    obtain ⟨i, hi⟩ := List.mem_iff_getElem?.1 (mem_handleSet.1 hid)
    have hlt : i < f.needles.length := hlen ▸ (List.getElem?_eq_some_iff.1 hi).1
    refine ⟨f.needles[i], List.getElem_mem hlt, List.mem_of_getElem? (i := i) ?_⟩
    rw [List.getElem?_zip_eq_some]
    exact ⟨List.getElem?_eq_getElem hlt, hi⟩
  of_needle n hn := by
    obtain ⟨id, hid, hz⟩ := exists_mem_zip hlen hn
    exact ⟨id, mem_handleSet.2 hid, hz⟩

namespace CompiledIndex

variable {S : Scanner} {κ : Type} {b b' b'' : S.Builder} {ns ns' : List Bytes} {ids ids' : List Nat}

/-- A needle that is answered goes in front of the others. -/
theorem offerAll_cons {n : Bytes} {id : Nat} (ha : S.add b n = (.ok id, b') ∨ S.add b n = (.error (.duplicate id), b'))
    (ns : List Bytes) : offerAll b (n :: ns) = (offerAll b' ns).map fun r => (id :: r.1, r.2) := by
  rcases ha with ha | ha <;> rw [offerAll, ha]

/-- A needle that is refused ends the offers. -/
theorem offerAll_cons_of_refused {n : Bytes} {err : LiteralError} (ha : S.add b n = (.error err, b'))
    (hne : ∀ id, err ≠ .duplicate id) (ns : List Bytes) : offerAll b (n :: ns) = .error err := by
  rw [offerAll, ha]
  cases err with
  | duplicate id => exact absurd rfl (hne id)
  | zeroLength => rfl
  | tooLong length limit => rfl
  | resourceLimit detail => rfl

theorem offerAll_cons_cases (b : S.Builder) (n : Bytes) :
    (∃ id b', (S.add b n = (.ok id, b') ∨ S.add b n = (.error (.duplicate id), b')) ∧
      ∀ ns, offerAll b (n :: ns) = (offerAll b' ns).map fun r => (id :: r.1, r.2)) ∨
    ∃ err, (∀ id, err ≠ .duplicate id) ∧ ∀ ns, offerAll b (n :: ns) = .error err := by
  rcases ha : S.add b n with ⟨(err | id), b'⟩
  · by_cases hdup : ∃ id, err = .duplicate id
    · obtain ⟨id, rfl⟩ := hdup
      exact .inl ⟨id, b', .inr rfl, offerAll_cons (.inr ha)⟩
    · have hne : ∀ id, err ≠ .duplicate id := fun id he => hdup ⟨id, he⟩
      exact .inr ⟨err, hne, offerAll_cons_of_refused ha hne⟩
  · exact .inl ⟨id, b', .inl rfl, offerAll_cons (.inl ha)⟩

/-- What is answered to the first of several literals. -/
theorem of_offerAll_cons {n : Bytes} (h : offerAll b (n :: ns) = .ok (ids, b'')) :
    ∃ id b' ids', (S.add b n = (.ok id, b') ∨ S.add b n = (.error (.duplicate id), b')) ∧
      offerAll b' ns = .ok (ids', b'') ∧ ids = id :: ids' := by
  rcases offerAll_cons_cases b n with ⟨id, b', ha, hcons⟩ | ⟨err, -, hcons⟩
  · rw [hcons] at h
    cases hr : offerAll b' ns with
    | error e =>
      rw [hr] at h
      cases h
    | ok r =>
      rw [hr] at h
      cases h
      exact ⟨id, b', r.1, ha, hr, rfl⟩
  · rw [hcons] at h
    cases h

theorem length_of_offerAll (h : offerAll b ns = .ok (ids, b')) : ids.length = ns.length := by
  induction ns generalizing b ids with
  | nil => cases h; rfl
  | cons n ns ih =>
    obtain ⟨id, b₁, ids', -, hr, rfl⟩ := of_offerAll_cons h
    rw [List.length_cons, ih hr, List.length_cons]

/-- Offers in a row go on where the first of them end. -/
theorem offerAll_append (b : S.Builder) (ns ns' : List Bytes) : offerAll b (ns ++ ns') =
    (offerAll b ns).bind fun r => (offerAll r.2 ns').map fun r' => (r.1 ++ r'.1, r'.2) := by
  induction ns generalizing b with
  | nil =>
    show offerAll b ns' = (offerAll b ns').map _
    cases offerAll b ns' <;> rfl
  | cons n ns ih =>
    rcases offerAll_cons_cases b n with ⟨id, b', -, hcons⟩ | ⟨err, -, hcons⟩
    · rw [List.cons_append, hcons, hcons, ih]
      cases offerAll b' ns with
      | error err => rfl
      | ok r =>
        show ((offerAll r.2 ns').map _).map _ = (offerAll r.2 ns').map _
        cases offerAll r.2 ns' <;> rfl
    · rw [List.cons_append, hcons, hcons]
      rfl

theorem of_offerFragments_cons {f : Fragment} {fs : List Fragment} {sets : List (List Nat)}
    (h : offerFragments b (f :: fs) = .ok (sets, b'')) : ∃ ids b' sets', offerAll b f.needles = .ok (ids, b') ∧
      offerFragments b' fs = .ok (sets', b'') ∧ sets = handleSet ids :: sets' := by
  rw [offerFragments] at h
  split at h
  · cases h
  · next ids b' ha =>
    cases hr : offerFragments b' fs with
    | error e => rw [hr] at h; cases h
    | ok r => rw [hr] at h; cases h; exact ⟨ids, b', r.1, ha, hr, rfl⟩

/-- Each fragment gets the set of the ids answered to its needles. -/
theorem answered_of_offerFragments {fs : List Fragment} {sets : List (List Nat)}
    (h : offerFragments b fs = .ok (sets, b')) : ∃ ids, offerAll b (fs.flatMap (·.needles)) = .ok (ids, b') ∧
      List.Forall₂ (Answered ((fs.flatMap (·.needles)).zip ids)) fs sets := by
  induction fs generalizing b sets with
  | nil => cases h; exact ⟨[], rfl, .nil⟩
  | cons f fs ih =>
    obtain ⟨ids, b₁, sets', ha, hr, rfl⟩ := of_offerFragments_cons h
    obtain ⟨ids', hall, hfs⟩ := ih hr
    have hlen := length_of_offerAll ha
    have hzip : (f.needles ++ fs.flatMap (·.needles)).zip (ids ++ ids') =
        f.needles.zip ids ++ (fs.flatMap (·.needles)).zip ids' := List.zip_append hlen.symm
    rw [List.flatMap_cons]
    refine ⟨ids ++ ids', ?_, ?_⟩
    · rw [offerAll_append, ha]
      show (offerAll b₁ _).map _ = _
      rw [hall]
      rfl
    · rw [hzip]
      exact .cons ((Answered.of_zip hlen).mono (List.subset_append_left _ _))
        (hfs.imp fun _ _ h => h.mono (List.subset_append_right _ _))

/-- An index is made of the sets of ids, one for each fragment. -/
theorem exists_sets_of_build {r : Registry κ} {table : FragmentTable} {x : CompiledIndex S} (h : build S r table = .ok x) :
    ∃ sets b, offerFragments (S.start r.config) table.toList = .ok (sets, b) ∧ S.finish b = .ok x.scanner ∧
      x = ofSets (.build r table) x.scanner sets := by
  unfold build at h
  split at h
  · cases h
  · next sets b hoff =>
    cases hfin : S.finish b with
    | error e => rw [hfin] at h; cases h
    | ok scanner =>
      rw [hfin] at h
      cases h
      exact ⟨sets, b, hoff, hfin, rfl⟩

/-- What an index is made of. -/
theorem of_build_eq_ok {r : Registry κ} {table : FragmentTable} {x : CompiledIndex S} (h : build S r table = .ok x) :
    ∃ sets ids b, offerAll (S.start r.config) table.needles = .ok (ids, b) ∧ S.finish b = .ok x.scanner ∧
      x = ofSets (.build r table) x.scanner sets ∧ List.Forall₂ (Answered (S.answers r.config table)) table.toList sets := by
  obtain ⟨sets, b, hoff, hfin, he⟩ := exists_sets_of_build h
  obtain ⟨ids, hall, hfs⟩ := answered_of_offerFragments hoff
  refine ⟨sets, ids, b, hall, hfin, he, ?_⟩
  unfold Scanner.answers
  rw [show offerAll (S.start r.config) table.needles = .ok (ids, b) from hall]
  exact hfs

end CompiledIndex

/-! ## The automaton -/

/-- The needles of a table, folded, each once, in the order of their first places. -/
def FragmentTable.literals (m : CaseMode) (t : FragmentTable) : List Bytes := (t.needles.map m.foldBytes).eraseDups

theorem FragmentTable.nodup_literals (t : FragmentTable) (m : CaseMode) : (t.literals m).Nodup := nodup_eraseDups _

/-- The place of a literal stays while others are added. -/
theorem idxOf_eraseDups_append {vs : List Bytes} {v : Bytes} (h : v ∈ vs) (ws : List Bytes) :
    (vs ++ ws).eraseDups.idxOf v = vs.eraseDups.idxOf v := by
  rw [List.eraseDups_append, List.idxOf_append, if_pos (List.mem_eraseDups.2 h)]

section Automaton

open Literal

variable {b b' : Literal.Builder} {vs : List Bytes} {n : Bytes} {id : Nat}

/-- Any answer of the automaton is the place of the literal, folded, among those so far; a new one goes to the end. -/
theorem holds_of_answer (h : b.Holds vs.eraseDups)
    (ha : Scanner.offer b n = (.ok id, b') ∨ Scanner.offer b n = (.error (.duplicate id), b')) :
    b'.mode = b.mode ∧ b'.Holds (vs ++ [b.mode.foldBytes n]).eraseDups ∧
      id = (vs ++ [b.mode.foldBytes n]).eraseDups.idxOf (b.mode.foldBytes n) := by
  unfold Scanner.offer at ha
  rw [eraseDups_concat]
  cases hadd : b.add n with
  | ok r =>
    simp only [hadd, Prod.mk.injEq, Except.ok.injEq, reduceCtorEq, false_and, or_false] at ha
    obtain ⟨rfl, rfl⟩ := ha
    obtain ⟨hid, hnew, hmode, h'⟩ := h.of_add_ok hadd
    rw [if_neg (mt List.mem_eraseDups.2 hnew)]
    refine ⟨hmode, h', ?_⟩
    rw [List.idxOf_append, if_neg hnew, hid]
    simp
  | error e =>
    simp only [hadd, Prod.mk.injEq, Except.error.injEq, reduceCtorEq, false_and, false_or] at ha
    obtain ⟨rfl, rfl⟩ := ha
    have hget := h.of_add_duplicate hadd
    have hmem := List.mem_of_getElem? hget
    rw [if_pos (List.mem_eraseDups.1 hmem)]
    exact ⟨rfl, h, ((idxOf_eq_iff h.nodup hmem).2 hget).symm⟩

/-- All answers of the automaton are the places of the literals, folded, among all that were offered. -/
theorem holds_of_offerAll {ns : List Bytes} {ids : List Nat} (h : b.Holds vs.eraseDups)
    (ho : CompiledIndex.offerAll (S := .automaton) b ns = .ok (ids, b')) :
    b'.mode = b.mode ∧ b'.Holds (vs ++ ns.map b.mode.foldBytes).eraseDups ∧
      ids = ns.map fun n => (vs ++ ns.map b.mode.foldBytes).eraseDups.idxOf (b.mode.foldBytes n) := by
  induction ns generalizing b vs ids with
  | nil =>
    cases ho
    exact ⟨rfl, by rwa [List.map_nil, List.append_nil], rfl⟩
  | cons n ns ih =>
    obtain ⟨id, b₁, ids', ha, hr, rfl⟩ := CompiledIndex.of_offerAll_cons ho
    obtain ⟨hmode, h₁, hid⟩ := holds_of_answer h ha
    obtain ⟨hmode', h', hids⟩ := ih h₁ hr
    have hassoc : vs ++ (n :: ns).map b.mode.foldBytes = vs ++ [b.mode.foldBytes n] ++ ns.map b.mode.foldBytes := by simp
    rw [hmode] at hmode' h' hids
    rw [hassoc]
    refine ⟨hmode', h', ?_⟩
    rw [List.map_cons, idxOf_eraseDups_append (List.mem_append_right _ List.mem_cons_self), ← hid, ← hids]

/-- The automaton of an index has the needles of the table, folded, and the id that was answered to a needle is its place
among them. -/
theorem holds_of_build {κ : Type} {r : Registry κ} {table : FragmentTable} {x : CompiledIndex .automaton}
    (hx : CompiledIndex.build .automaton r table = .ok x) : ∃ b : Builder,
      x.scanner = Automaton.ofBuilder b ∧ b.mode = r.config.mode ∧ b.Holds (table.literals r.config.mode) ∧
        Scanner.automaton.answers r.config table =
          table.needles.map fun n => (n, (table.literals r.config.mode).idxOf (r.config.mode.foldBytes n)) := by
  obtain ⟨sets, ids, b, hoff, hfin, -, -⟩ := CompiledIndex.of_build_eq_ok hx
  have hnew : (Builder.empty r.config.mode r.config.literalLimit).Holds ([] : List Bytes).eraseDups := Builder.Holds.empty _ _
  obtain ⟨hmode, hb, hids⟩ := holds_of_offerAll hnew hoff
  rw [List.nil_append] at hb hids
  refine ⟨b, (Except.ok.inj hfin).symm, hmode, hb, ?_⟩
  simp only [Scanner.answers, hoff, hids]
  exact List.map_prod_left_eq_zip.symm

theorem exists_holds_of_build {κ : Type} {r : Registry κ} {table : FragmentTable} {x : CompiledIndex .automaton}
    (hx : CompiledIndex.build .automaton r table = .ok x) : ∃ (b : Builder) (ls : List Bytes),
      x.scanner = Automaton.ofBuilder b ∧ b.mode = r.config.mode ∧ b.Holds ls ∧
        (∀ v, v ∈ ls ↔ v ∈ table.needles.map r.config.mode.foldBytes) ∧
        ∀ n id, (n, id) ∈ Scanner.automaton.answers r.config table → ls[id]? = some (r.config.mode.foldBytes n) := by
  obtain ⟨b, hscan, hmode, hb, hans⟩ := holds_of_build hx
  refine ⟨b, _, hscan, hmode, hb, fun v => List.mem_eraseDups, fun n id ha => ?_⟩
  rw [hans] at ha
  obtain ⟨n', hn, he⟩ := List.mem_map.1 ha
  cases he
  exact List.getElem?_idxOf (List.mem_eraseDups.2 (List.mem_map_of_mem hn))

/-- The automaton of an index lists the id of a needle in the texts that contain it. -/
theorem mem_scan_iff_of_answers {κ : Type} {r : Registry κ} {table : FragmentTable} {x : CompiledIndex .automaton}
    (hx : CompiledIndex.build .automaton r table = .ok x) (ha : (n, id) ∈ Scanner.automaton.answers r.config table)
    (t : Bytes) : id ∈ Scanner.automaton.scan x.scanner t ↔
      r.config.mode.foldBytes n <:+: r.config.mode.foldBytes t := by
  obtain ⟨b, ls, hscan, hmode, hb, -, hans⟩ := exists_holds_of_build hx
  have hid := hans n id ha
  rw [hscan]
  refine (Automaton.mem_scan_iff hb).trans ?_
  rw [hmode]
  constructor
  · rintro ⟨l, hl, hlt⟩
    rw [hid] at hl
    cases hl
    exact hlt
  · exact fun hlt => ⟨_, hid, hlt⟩

theorem sees_automaton {κ : Type} {r : Registry κ} {table : FragmentTable} {x : CompiledIndex .automaton}
    (hx : CompiledIndex.build .automaton r table = .ok x) (t : Bytes) : x.Sees r.config table t :=
  fun _ _ ha => (mem_scan_iff_of_answers hx ha t).2

end Automaton

end GlobSieve
