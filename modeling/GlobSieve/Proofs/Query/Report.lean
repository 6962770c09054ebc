import Mathlib.Data.List.Perm.Basic
import Mathlib.Data.List.Sort
import GlobSieve.Proofs.Engine.Offering
import GlobSieve.Proofs.Fragment.Presence
import GlobSieve.Proofs.Pattern.Interning
import GlobSieve.Proofs.Query.Discovery
import GlobSieve.Query.Outcome

/-!
# What a query reports

Let an index be built from a sound registry over any scanner. A fragment is found only if an id of each of its needles was
seen (`of_mem_found`), and it is found if all ids of its needles were (`mem_found_of_seen`). The candidates are the
patterns with fragments, all of them found (`mem_candidates_iff`).

A query tries the candidates and the patterns of wildcards, each once, so whatever the scanner lists, what is reported
matches and comes once (`reported_subset`, `nodup_reported`). If the scan lists all needles in the text (`Sees`), no
pattern that matches is left out (`reported_perm`).
-/

namespace GlobSieve

variable {κ : Type}

theorem exists_of_forall₂ {α β : Type} {R : α → β → Prop} : ∀ {l : List α} {l' : List β}, List.Forall₂ R l l' →
    ∀ {i : Nat} {a : α}, l[i]? = some a → ∃ b, l'[i]? = some b ∧ R a b
  | _, _, .nil, _, _, e => by cases e
  | _, _, .cons h _, 0, _, e => by cases e; exact ⟨_, rfl, h⟩
  | _, _, .cons _ h, _ + 1, _, e => exists_of_forall₂ h e

theorem nodup_of_answered {answers : List (Bytes × Nat)} {fs : List Fragment} {sets : List (List Nat)}
    (h : List.Forall₂ (Answered answers) fs sets) : ∀ s ∈ sets, s.Nodup := by
  intro s hs
  obtain ⟨i, hi⟩ := List.mem_iff_getElem?.1 hs
  obtain ⟨f, -, ha⟩ := exists_of_forall₂ h.flip hi
  exact ha.nodup

namespace CompiledIndex

variable {S : Scanner} {r : Registry κ} {table : FragmentTable} {x : CompiledIndex S} {ids : List Nat} {t : Bytes}
variable {f id : Nat} {fr : Fragment} {p : StoredPattern κ}

/-! ## Fragments -/

section Found

variable (hx : build S r table = .ok x)
include hx

theorem metaWords_of_build : x.metaWords = .build r table := by
  obtain ⟨sets, -, -, -, -, he, -⟩ := of_build_eq_ok hx
  rw [he]
  rfl

theorem nodup_found_of_build (ids : List Nat) : (x.found ids).Nodup := by
  obtain ⟨sets, -, -, -, -, he, -⟩ := of_build_eq_ok hx
  rw [he]
  exact nodup_found ids

/-- The fragments found are those of the table of which no id is missing. -/
theorem mem_found_iff_of_build :
    f ∈ x.found ids ↔ f < table.size ∧ ∀ id, f ∈ x.fragmentsOf id → id ∈ ids := by
  obtain ⟨sets, -, -, -, -, he, hall⟩ := of_build_eq_ok hx
  have hlen : table.size = sets.length := (Array.length_toList).symm.trans hall.length_eq
  rw [he, mem_found (nodup_of_answered hall), hlen]
  simp only [mem_fragmentsOf_ofSets]
  constructor
  · rintro ⟨s, hs, hseen⟩
    refine ⟨(List.getElem?_eq_some_iff.1 hs).1, fun id hid => ?_⟩
    obtain ⟨s', hs', hm⟩ := hid
    obtain rfl := Option.some.inj (hs.symm.trans hs')
    exact hseen id hm
  · rintro ⟨hlt, hseen⟩
    have hs := List.getElem?_eq_getElem hlt
    exact ⟨sets[f], hs, fun id hid => hseen id ⟨sets[f], hs, hid⟩⟩

/-- Of a fragment that is found an id of each needle was seen. -/
theorem of_mem_found (h : f ∈ x.found ids) : ∃ fr, table.get? f = some fr ∧
    ∀ n ∈ fr.needles, ∃ id ∈ ids, (n, id) ∈ S.answers r.config table := by
  obtain ⟨sets, -, -, -, -, he, hall⟩ := of_build_eq_ok hx
  rw [he, mem_found (nodup_of_answered hall)] at h
  obtain ⟨s, hs, hseen⟩ := h
  obtain ⟨fr, hfr, ha⟩ := exists_of_forall₂ hall.flip hs
  rw [FragmentTable.getElem?_toList] at hfr
  refine ⟨fr, hfr, fun n hn => ?_⟩
  obtain ⟨id, hid, hans⟩ := ha.of_needle n hn
  exact ⟨id, hseen id hid, hans⟩

/-- A fragment is found if all ids of its needles were seen. -/
theorem mem_found_of_seen (hf : table.get? f = some fr)
    (hseen : ∀ n ∈ fr.needles, ∀ id, (n, id) ∈ S.answers r.config table → id ∈ ids) : f ∈ x.found ids := by
  obtain ⟨sets, -, -, -, -, he, hall⟩ := of_build_eq_ok hx
  rw [← FragmentTable.getElem?_toList] at hf
  obtain ⟨s, hs, ha⟩ := exists_of_forall₂ hall hf
  rw [he, mem_found (nodup_of_answered hall)]
  refine ⟨s, hs, fun id hid => ?_⟩
  obtain ⟨n, hn, hans⟩ := ha.of_mem id hid
  exact hseen n hn id hans

end Found

/-! ## Patterns -/

section Patterns

variable (hr : r.Sound table) (hx : build S r table = .ok x)
include hr hx

/-- The candidates are the patterns that have fragments, all of which were found. -/
theorem mem_candidates_iff : id ∈ (x.resolve ids).candidates ↔ ∃ p, r.get? id = some p ∧ fragments p.text ≠ [] ∧
    ∀ y ∈ fragments p.text, ∃ f ∈ x.found ids, ∃ fr, table.get? f = some fr ∧ fr.text = y := by
  rw [mem_candidates (metaWords_of_build hx)]
  constructor
  · rintro ⟨hs, hreq, -, hfound⟩
    obtain ⟨p, hp, hpr⟩ := Registry.getElem?_requirements.1 hreq
    have hfaith := hr.of_get? hp
    refine ⟨p, hp, fun e => ?_, fun y hy => ?_⟩
    · rw [hfaith.wildcardOnly_iff.2 e] at hpr
      cases hpr
    · obtain ⟨f, fr, hf, rfl⟩ := hfaith.exists_of_mem_fragments hy
      exact ⟨f, hfound f ((hfaith.mem_iff hr.interned hpr).2 ⟨fr, hf, hy⟩), fr, hf, rfl⟩
  · rintro ⟨p, hp, hne, hfound⟩
    have hfaith := hr.of_get? hp
    cases hpr : p.requirement with
    | wildcardOnly => exact absurd (hfaith.wildcardOnly_iff.1 hpr) hne
    | fragments hs =>
      have hall : ∀ f ∈ hs, f ∈ x.found ids := by
        intro f hf
        obtain ⟨fr, hfr, hm⟩ := (hfaith.mem_iff hr.interned hpr).1 hf
        obtain ⟨g, hg, gr, hgr, he⟩ := hfound _ hm
        rwa [hr.interned.eq_of_text hfr hgr he.symm]
      obtain ⟨f, hf⟩ := List.exists_mem_of_ne_nil hs (hfaith.ne_nil_of_requirement hpr)
      obtain ⟨fr, hfr, -⟩ := (hfaith.mem_iff hr.interned hpr).1 hf
      refine ⟨hs, Registry.getElem?_requirements.2 ⟨p, hp, hpr⟩, ⟨f, hf, ?_⟩, hall⟩
      exact (Array.getElem?_eq_some_iff.1 hfr).1

/-- The same by the texts of the patterns. -/
theorem mem_candidates_iff_texts : id ∈ (x.resolve ids).candidates ↔ ∃ y, r.texts[id]? = some y ∧ wildcardOnly y = false ∧
    ∀ z ∈ fragments y, ∃ f ∈ x.found ids, ∃ fr, table.get? f = some fr ∧ fr.text = z := by
  rw [mem_candidates_iff hr hx]
  constructor
  · rintro ⟨p, hp, hne, hall⟩
    refine ⟨p.text, Registry.getElem?_texts.2 ⟨p, hp, rfl⟩, ?_, hall⟩
    exact Bool.eq_false_iff.2 fun hw => hne ((hr.of_get? hp).wildcardOnly_text_iff.1 hw)
  · rintro ⟨y, hy, hw, hall⟩
    obtain ⟨p, hp, rfl⟩ := Registry.getElem?_texts.1 hy
    exact ⟨p, hp, fun he => Bool.eq_false_iff.1 hw ((hr.of_get? hp).wildcardOnly_text_iff.2 he), hall⟩

theorem mem_wildcardOnly_iff :
    id ∈ x.metaWords.wildcardOnly ↔ ∃ p, r.get? id = some p ∧ fragments p.text = [] := by
  rw [metaWords_of_build hx, MetaWordIndex.build, MetaWordIndex.mem_wildcardOnly_group, Registry.getElem?_requirements]
  constructor
  · rintro ⟨p, hp, hpr⟩
    exact ⟨p, hp, (hr.of_get? hp).wildcardOnly_iff.1 hpr⟩
  · rintro ⟨p, hp, he⟩
    exact ⟨p, hp, (hr.of_get? hp).wildcardOnly_iff.2 he⟩

/-- What a query tries, each pattern once. -/
theorem nodup_tried (ids : List Nat) : ((x.resolve ids).candidates ++ x.metaWords.wildcardOnly).Nodup := by
  refine List.nodup_append.2 ⟨nodup_candidates (metaWords_of_build hx) ids, ?_, fun i hi j hj => ?_⟩
  · rw [metaWords_of_build hx]
    exact MetaWordIndex.nodup_wildcardOnly_group
  · rintro rfl
    obtain ⟨p, hp, hne, -⟩ := (mem_candidates_iff hr hx).1 hi
    obtain ⟨q, hq, he⟩ := (mem_wildcardOnly_iff hr hx).1 hj
    rw [hp] at hq
    cases hq
    exact hne he

/-- All that a query tries is there. -/
theorem isSome_of_tried (h : id ∈ (x.resolve ids).candidates ++ x.metaWords.wildcardOnly) : (r.get? id).isSome := by
  rcases List.mem_append.1 h with h | h
  · obtain ⟨p, hp, -⟩ := (mem_candidates_iff hr hx).1 h
    rw [hp]
    rfl
  · obtain ⟨p, hp, -⟩ := (mem_wildcardOnly_iff hr hx).1 h
    rw [hp]
    rfl

end Patterns

end CompiledIndex

/-! ## Reports -/

/-- The hits of a query: handle, text and cookie of each. -/
def Outcome.reported (o : Outcome κ) : List (Nat × Bytes × κ) := o.hits.map fun (id, p) => (id, p.text, p.cookie)

theorem Outcome.map_fst_reported (o : Outcome κ) : o.reported.map Prod.fst = o.hits.map Prod.fst := by
  rw [reported, List.map_map]
  rfl

theorem Outcome.map_snd_reported (o : Outcome κ) : o.reported.map Prod.snd = o.entries := by
  rw [reported, List.map_map]
  rfl

section Reports

variable {S : Scanner} {r : Registry κ} {table : FragmentTable} {x : CompiledIndex S} {t y : Bytes} {id : Nat} {k : κ}

theorem mem_reported : (id, y, k) ∈ (x.run r t).reported ↔ ∃ p, r.get? id = some p ∧ p.text = y ∧ p.cookie = k ∧
    id ∈ (x.resolve (S.scan x.scanner t)).candidates ++ x.metaWords.wildcardOnly ∧ p.glob.accepts t = true := by
  simp only [Outcome.reported, CompiledIndex.run, List.mem_map, List.mem_filter, List.mem_filterMap,
    Option.map_eq_some_iff, Prod.exists, Prod.mk.injEq]
  constructor
  · rintro ⟨i, p, ⟨⟨j, hj, q, hq, rfl, rfl⟩, ha⟩, rfl, rfl, rfl⟩
    exact ⟨q, hq, rfl, rfl, hj, ha⟩
  · rintro ⟨p, hp, rfl, rfl, hid, ha⟩
    exact ⟨id, p, ⟨⟨id, hid, p, hp, rfl, rfl⟩, ha⟩, rfl, rfl, rfl⟩

theorem hits_stats_run (x : CompiledIndex S) (r : Registry κ) (t : Bytes) :
    (x.run r t).stats.hits = (x.run r t).count := rfl

theorem map_fst_filterMap_get? {l : List Nat} (h : ∀ id ∈ l, (r.get? id).isSome) :
    (l.filterMap fun id => (r.get? id).map (id, ·)).map Prod.fst = l := by
  induction l with
  | nil => rfl
  | cons id l ih =>
    obtain ⟨p, hp⟩ := Option.isSome_iff_exists.1 (h id List.mem_cons_self)
    simp only [List.filterMap_cons, hp, Option.map_some, List.map_cons]
    rw [ih]
    intro i hi
    exact h i (List.mem_cons_of_mem _ hi)

variable (hr : r.Sound table)
include hr

/-- What is reported is stored and matches. -/
theorem reported_subset : (x.run r t).reported ⊆ r.stored.filter fun (_, y, _) => (Glob.parse r.config.mode y).accepts t := by
  rintro ⟨id, y, k⟩ hm
  obtain ⟨p, hp, rfl, rfl, -, ha⟩ := mem_reported.1 hm
  rw [(hr.of_get? hp).glob_eq] at ha
  exact List.mem_filter.2 ⟨Registry.mem_stored.2 ⟨p, hp, rfl, rfl⟩, ha⟩

variable (hx : CompiledIndex.build S r table = .ok x)
include hx

theorem map_fst_tried (ids : List Nat) :
    (((x.resolve ids).candidates ++ x.metaWords.wildcardOnly).filterMap fun id => (r.get? id).map (id, ·)).map Prod.fst =
      (x.resolve ids).candidates ++ x.metaWords.wildcardOnly :=
  map_fst_filterMap_get? fun _ => CompiledIndex.isSome_of_tried hr hx

/-- No pattern is reported twice. -/
theorem nodup_reported (t : Bytes) : ((x.run r t).reported.map Prod.fst).Nodup := by
  have hnd := CompiledIndex.nodup_tried hr hx (S.scan x.scanner t)
  rw [← map_fst_tried hr hx] at hnd
  rw [Outcome.map_fst_reported]
  exact hnd.sublist (List.filter_sublist.map Prod.fst)

theorem length_wildcardOnly : x.metaWords.wildcardOnly.length = r.texts.countP wildcardOnly := by
  have he : x.metaWords.wildcardOnly = placesOf (· == Requirement.wildcardOnly) (r.toList.map (·.requirement)) := by
    rw [CompiledIndex.metaWords_of_build hx]
    rfl
  rw [he, length_placesOf, Registry.texts, List.countP_map, List.countP_map]
  refine List.countP_congr fun p hp => ?_
  have hfaith := hr.faithful p hp
  simp only [Function.comp_apply, beq_iff_eq]
  rw [hfaith.wildcardOnly_iff, hfaith.wildcardOnly_text_iff]

/-- What passes the filter is matched, and the patterns of wildcards are. -/
theorem globCalls_run (t : Bytes) : (x.run r t).stats.globCalls =
    (x.run r t).context.candidates.length + r.texts.countP wildcardOnly := by
  have hlen := congrArg List.length (map_fst_tried hr hx (S.scan x.scanner t))
  rw [List.length_map, List.length_append, length_wildcardOnly hr hx] at hlen
  exact hlen

variable (hsees : x.Sees r.config table t)
include hsees

/-- A pattern that matches is tried, if the scan lists all needles in the text. -/
theorem mem_tried_of_sees {p : StoredPattern κ} (hp : r.get? id = some p) (ha : p.glob.accepts t = true) :
    id ∈ (x.resolve (S.scan x.scanner t)).candidates ++ x.metaWords.wildcardOnly := by
  refine List.mem_append.2 ?_
  by_cases he : fragments p.text = []
  · exact .inr ((CompiledIndex.mem_wildcardOnly_iff hr hx).2 ⟨p, hp, he⟩)
  refine .inl ((CompiledIndex.mem_candidates_iff hr hx).2 ⟨p, hp, he, fun y hy => ?_⟩)
  have hfaith := hr.of_get? hp
  obtain ⟨f, fr, hf, rfl⟩ := hfaith.exists_of_mem_fragments hy
  refine ⟨f, CompiledIndex.mem_found_of_seen hx hf fun n hn id hans => ?_, fr, hf, rfl⟩
  rw [hr.interned.needles_eq fr (FragmentTable.mem_toList_of_get? hf)] at hn
  rw [hfaith.glob_eq] at ha
  -- the text matches, so it has the needle, and the scan lists what was answered to it
  exact hsees n id hans (needle_infix_of_accepts ha hy hn)

/-- What is reported are the patterns that match, if the scan lists all needles in the text. -/
theorem reported_perm :
    (x.run r t).reported.Perm (r.stored.filter fun (_, y, _) => (Glob.parse r.config.mode y).accepts t) := by
  have hnd : (x.run r t).reported.Nodup := List.Nodup.of_map Prod.fst (nodup_reported hr hx t)
  have hnd' : r.stored.Nodup := List.Nodup.of_map Prod.fst (r.pairwise_stored.imp Nat.ne_of_lt)
  refine (List.perm_ext_iff_of_nodup hnd (hnd'.filter _)).2 fun ⟨id, y, k⟩ => ⟨fun h => reported_subset hr h, fun h => ?_⟩
  obtain ⟨hst, ha⟩ := List.mem_filter.1 h
  obtain ⟨p, hp, rfl, rfl⟩ := Registry.mem_stored.1 hst
  have ha' : p.glob.accepts t = true := by
    rw [(hr.of_get? hp).glob_eq]
    exact ha
  exact mem_reported.2 ⟨p, hp, rfl, rfl, mem_tried_of_sees hr hx hsees hp ha', ha'⟩

end Reports

/-! ## Reading a report -/

theorem mergeSort_eq_of_perm {l l' : List Nat} (h : l.Perm l') (hl : l'.Pairwise (· < ·)) : l.mergeSort = l' := by
  have hle : l.mergeSort.Pairwise (· ≤ ·) := List.pairwise_mergeSort' (· ≤ ·) l
  exact ((List.mergeSort_perm l _).trans h).eq_of_pairwise (fun _ _ _ _ => Nat.le_antisymm) hle (hl.imp Nat.le_of_lt)

namespace Outcome

variable {o : Outcome κ} {ms : List (Nat × Bytes × κ)}

theorem count_of_perm (hcount : o.count = o.hits.length) (h : o.reported.Perm ms) : o.count = ms.length := by
  rw [hcount, ← h.length_eq, reported, List.length_map]

/-- The handles are those of the report, in order. -/
theorem ids_of_perm (h : o.reported.Perm ms) (hms : (ms.map Prod.fst).Pairwise (· < ·)) : o.ids = ms.map Prod.fst := by
  refine mergeSort_eq_of_perm ?_ hms
  rw [← map_fst_reported]
  exact h.map _

theorem entries_of_perm (h : o.reported.Perm ms) : o.entries.Perm (ms.map Prod.snd) := by
  rw [← map_snd_reported]
  exact h.map _

/-- Texts are listed in the order of their bytes, each once. -/
theorem pairwise_texts (o : Outcome κ) : o.texts.Pairwise (· < ·) := by
  have hle : o.texts.Pairwise (· ≤ ·) := List.pairwise_mergeSort' (· ≤ ·) _
  have hnd : o.texts.Nodup := (List.mergeSort_perm _ _).nodup_iff.2 (nodup_eraseDups _)
  exact (hle.and hnd).imp fun ⟨h, h'⟩ => (List.le_iff_lt_or_eq.1 h).resolve_right h'

theorem mem_texts_of_perm (h : o.reported.Perm ms) {y : Bytes} : y ∈ o.texts ↔ ∃ id k, (id, y, k) ∈ ms := by
  rw [texts, (List.mergeSort_perm _ _).mem_iff, List.mem_eraseDups, List.mem_map]
  simp only [← h.mem_iff, reported, List.mem_map, Prod.exists, Prod.mk.injEq]
  constructor
  · rintro ⟨id, p, hp, rfl⟩
    exact ⟨id, p.cookie, id, p, hp, rfl, rfl, rfl⟩
  · rintro ⟨id, k, i, p, hp, rfl, rfl, rfl⟩
    exact ⟨i, p, hp, rfl⟩

end Outcome

end GlobSieve
