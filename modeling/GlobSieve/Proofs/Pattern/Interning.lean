import Mathlib.Data.List.Infix
import GlobSieve.Pattern.Registry

/-!
# Interning

Interning stores every text once (`FragmentTable.Distinct`), so a text has one handle (`Distinct.find?_eq_some_iff`), which it
keeps as the table grows. A registry that was filled by insertion requires of a text what its patterns say: the handles that a
pattern requires are those of its fragments (`StoredPattern.Grounded`).

If all fragments were interned with their own needles (`FragmentTable.Sound`) and each pattern is kept with its own glob, the
registry is sound (`Registry.Sound`). Inserting a pattern keeps this (`Registry.Sound.insert`), since a handle never loses its
fragment.
-/

namespace GlobSieve

/-- What is in a list is at the same place in a longer one. -/
theorem getElem?_of_isPrefix {α : Type} {l l' : List α} {i : Nat} {a : α} (hp : l <+: l') (h : l[i]? = some a) :
    l'[i]? = some a := by
  obtain ⟨new, rfl⟩ := hp
  rw [List.getElem?_append_left (List.getElem?_eq_some_iff.1 h).1]
  exact h

namespace FragmentTable

variable {t t' : FragmentTable} {f g : Fragment} {i j id : Nat} {x y : Bytes}

/-- Every text is stored once. -/
def Distinct (t : FragmentTable) : Prop := (t.toList.map (·.text)).Nodup

/-- Every text is stored once, with its needles. -/
structure Sound (t : FragmentTable) : Prop where
  nodup : (t.toList.map (·.text)).Nodup
  needles_eq : ∀ f ∈ t.toList, f.needles = needles f.text

/-- The text of a handle. -/
def text? (t : FragmentTable) (id : Nat) : Option Bytes := (t.get? id).map (·.text)

theorem text?_eq_some_iff : t.text? id = some x ↔ ∃ f, t.get? id = some f ∧ f.text = x := Option.map_eq_some_iff

theorem text?_of_get? (h : t.get? id = some f) : t.text? id = some f.text := text?_eq_some_iff.2 ⟨f, h, rfl⟩

theorem getElem?_map_text (t : FragmentTable) (id : Nat) : (t.toList.map (·.text))[id]? = t.text? id := by
  rw [List.getElem?_map, getElem?_toList, text?]

theorem mem_toList_of_get? (h : t.get? id = some f) : f ∈ t.toList :=
  List.mem_of_getElem? ((getElem?_toList t id).trans h)

theorem lt_size_of_text? (h : t.text? id = some x) : id < t.size := by
  obtain ⟨f, hf, -⟩ := text?_eq_some_iff.1 h
  exact (Array.getElem?_eq_some_iff.1 hf).1

/-- A handle keeps its fragment. -/
theorem get?_of_prefix (hp : t.toList <+: t'.toList) (h : t.get? id = some f) : t'.get? id = some f := by
  rw [← getElem?_toList] at h ⊢
  exact getElem?_of_isPrefix hp h

theorem text?_of_prefix (hp : t.toList <+: t'.toList) (h : t.text? id = some x) : t'.text? id = some x := by
  obtain ⟨f, hf, rfl⟩ := text?_eq_some_iff.1 h
  have hf' := get?_of_prefix hp hf
  exact text?_of_get? hf'

theorem text_ne_of_find?_eq_none {text : Bytes} (h : t.find? text = none) : ∀ f ∈ t.toList, f.text ≠ text := by
  intro f hf e
  have := List.findIdx?_eq_none_iff.1 h f hf
  simp [e] at this

/-- Interning gives a handle of the text. -/
theorem text?_internWith (t : FragmentTable) (text : Bytes) (ns : List Bytes) :
    (t.internWith text ns).2.text? (t.internWith text ns).1 = some text := by
  cases hf : t.find? text with
  | some id =>
    rw [internWith_of_find? hf]
    exact text?_eq_some_iff.2 (text_of_find? hf)
  | none =>
    rw [internWith_of_find?_none hf]
    simp [text?, get?, size]

theorem toList_prefix_internAll (t : FragmentTable) (texts : List Bytes) : t.toList <+: (t.internAll texts).2.toList := by
  induction texts generalizing t with
  | nil => exact List.prefix_rfl
  | cons text texts ih => exact (toList_prefix_internWith t text _).trans (ih _)

/-- Interning several texts gives a handle of each. -/
theorem map_text?_internAll (t : FragmentTable) (texts : List Bytes) :
    (t.internAll texts).1.map (t.internAll texts).2.text? = texts.map some := by
  induction texts generalizing t with
  | nil => rfl
  | cons text texts ih =>
    -- the handle of the first text keeps its fragment while the others are interned
    have hfirst := text?_of_prefix (toList_prefix_internAll (t.intern text).2 texts) (text?_internWith t text _)
    show ((t.intern text).1 :: ((t.intern text).2.internAll texts).1).map ((t.intern text).2.internAll texts).2.text? = _
    rw [List.map_cons, List.map_cons, ih]
    exact congrArg (· :: _) hfirst

theorem length_internAll (t : FragmentTable) (texts : List Bytes) : (t.internAll texts).1.length = texts.length := by
  simpa using congrArg List.length (map_text?_internAll t texts)

namespace Distinct

theorem empty : FragmentTable.empty.Distinct := List.nodup_nil

/-- A text has one handle. -/
theorem eq_of_text? (h : t.Distinct) (hi : t.text? i = some x) (hj : t.text? j = some x) : i = j := by
  rw [← getElem?_map_text] at hi hj
  exact (List.getElem?_inj (List.getElem?_eq_some_iff.1 hi).1 h).1 (hi.trans hj.symm)

/-- What is found for a text is its handle. -/
theorem find?_eq_some_iff (h : t.Distinct) : t.find? x = some id ↔ t.text? id = some x := by
  refine ⟨fun hf => text?_eq_some_iff.2 (text_of_find? hf), fun ht => ?_⟩
  cases hf : t.find? x with
  | some j => rw [h.eq_of_text? (text?_eq_some_iff.2 (text_of_find? hf)) ht]
  | none =>
    obtain ⟨f, hget, he⟩ := text?_eq_some_iff.1 ht
    exact absurd he (text_ne_of_find?_eq_none hf f (mem_toList_of_get? hget))

theorem internWith (h : t.Distinct) (text : Bytes) (ns : List Bytes) : (t.internWith text ns).2.Distinct := by
  cases hf : t.find? text with
  | some id => rwa [internWith_of_find? hf]
  | none =>
    rw [internWith_of_find?_none hf, Distinct]
    simp only [toList, Array.toList_push, List.map_append, List.map_cons, List.map_nil]
    refine List.nodup_append.2 ⟨h, by simp, fun x hx y hy => ?_⟩
    obtain ⟨f, hf', rfl⟩ := List.mem_map.1 hx
    rw [List.mem_singleton.1 hy]
    exact text_ne_of_find?_eq_none hf f hf'

theorem internAll (h : t.Distinct) (texts : List Bytes) : (t.internAll texts).2.Distinct := by
  induction texts generalizing t with
  | nil => exact h
  | cons text texts ih => exact ih (h.internWith text _)

end Distinct

namespace Sound

theorem empty : FragmentTable.empty.Sound := ⟨List.nodup_nil, fun f hf => by cases hf⟩

theorem eq_of_text (h : t.Sound) (hi : t.get? i = some f) (hj : t.get? j = some g) (e : f.text = g.text) : i = j :=
  Distinct.eq_of_text? h.nodup (text?_of_get? hi) (e ▸ text?_of_get? hj)

/-- A handle has its text with its needles. -/
theorem get?_eq (h : t.Sound) (id : Nat) : t.get? id = (t.text? id).map fun x => ⟨x, needles x⟩ := by
  cases hf : t.get? id with
  | none => rw [text?, hf]; rfl
  | some f =>
    rw [text?_of_get? hf, Option.map_some, ← h.needles_eq f (mem_toList_of_get? hf)]

theorem intern (h : t.Sound) (text : Bytes) : (t.intern text).2.Sound := by
  refine ⟨Distinct.internWith h.nodup text _, fun f hm => ?_⟩
  unfold FragmentTable.intern at hm
  cases hf : t.find? text with
  | some id =>
    rw [internWith_of_find? hf] at hm
    exact h.needles_eq f hm
  | none =>
    rw [internWith_of_find?_none hf] at hm
    simp only [toList, Array.toList_push, List.mem_append, List.mem_singleton] at hm
    rcases hm with hm | rfl
    · exact h.needles_eq f hm
    · rfl

/-- Interning several texts gives the handle of each, with its needles. -/
theorem internAll (h : t.Sound) (texts : List Bytes) :
    (t.internAll texts).2.Sound ∧ t.toList <+: (t.internAll texts).2.toList ∧
      (t.internAll texts).1.map (t.internAll texts).2.get? = texts.map fun x => some ⟨x, needles x⟩ := by
  have hsound : (t.internAll texts).2.Sound := by
    induction texts generalizing t with
    | nil => exact h
    | cons text texts ih => exact ih (h.intern text)
  refine ⟨hsound, toList_prefix_internAll t texts, ?_⟩
  have htexts := congrArg (List.map (Option.map fun x => (⟨x, needles x⟩ : Fragment))) (map_text?_internAll t texts)
  rw [List.map_map, List.map_map] at htexts
  rw [funext hsound.get?_eq]
  exact htexts

end Sound

end FragmentTable

/-! ## Patterns -/

variable {κ : Type}

/-- A pattern that requires a set of handles has a fragment, so the set has a member. -/
theorem Registry.ne_nil_of_requirementOf {p : Bytes} {ids hs : List Nat} (hp : p ≠ [])
    (hlen : ids.length = (fragments p).length) (he : requirementOf p ids = .fragments hs) : hs ≠ [] := by
  unfold requirementOf at he
  split at he
  · cases he
  next hw =>
  cases he
  have hne : fragments p ≠ [] := by
    intro hnil
    have hempty : p.isEmpty = false := by simpa using hp
    simp [wildcardOnly, hnil, hempty] at hw
  obtain ⟨id, hid⟩ := List.exists_mem_of_length_pos (hlen ▸ List.length_pos_iff.2 hne)
  exact List.ne_nil_of_mem (mem_handleSet.2 hid)

/-- What a stored pattern requires are the handles of its fragments, if there are any. -/
structure StoredPattern.Grounded (table : FragmentTable) (p : StoredPattern κ) : Prop where
  ne_nil : p.text ≠ []
  requirement_eq : ∃ ids, p.requirement = Registry.requirementOf p.text ids ∧
    ids.map table.text? = (fragments p.text).map some

/-- A stored pattern has the glob of its text, and requires the fragments of its text, if there are any. -/
structure StoredPattern.Faithful (m : CaseMode) (table : FragmentTable) (p : StoredPattern κ) : Prop where
  ne_nil : p.text ≠ []
  glob_eq : p.glob = Glob.parse m p.text
  requirement_eq : ∃ ids, p.requirement = Registry.requirementOf p.text ids ∧
    ids.map table.get? = (fragments p.text).map fun x => some ⟨x, needles x⟩

/-- Every text has one handle, and the patterns require handles of their fragments. -/
structure Registry.Grounded (r : Registry κ) (table : FragmentTable) : Prop where
  distinct : table.Distinct
  grounded : ∀ p ∈ r.toList, p.Grounded table

/-- The table was filled by interning, and all patterns are faithful. -/
structure Registry.Sound (r : Registry κ) (table : FragmentTable) : Prop where
  interned : table.Sound
  faithful : ∀ p ∈ r.toList, p.Faithful r.config.mode table

namespace StoredPattern

variable {m : CaseMode} {table table' : FragmentTable} {p : StoredPattern κ} {hs : List Nat} {id : Nat} {x : Bytes}

namespace Grounded

theorem mono (h : p.Grounded table) (hp : table.toList <+: table'.toList) : p.Grounded table' := by
  obtain ⟨ids, he, hmap⟩ := h.requirement_eq
  refine ⟨h.ne_nil, ids, he, ?_⟩
  rw [← hmap]
  refine List.map_congr_left fun id hid => ?_
  have hm : table.text? id ∈ (fragments p.text).map some := hmap ▸ List.mem_map_of_mem hid
  obtain ⟨x, -, hx⟩ := List.mem_map.1 hm
  rw [← hx]
  exact FragmentTable.text?_of_prefix hp hx.symm

theorem wildcardOnly_text_iff (h : p.Grounded table) : wildcardOnly p.text = true ↔ fragments p.text = [] := by
  have hne : p.text.isEmpty = false := by
    cases ht : p.text with
    | nil => exact absurd ht h.ne_nil
    | cons => rfl
  rw [wildcardOnly, hne]
  cases fragments p.text <;> simp

theorem wildcardOnly_iff (h : p.Grounded table) : p.requirement = .wildcardOnly ↔ fragments p.text = [] := by
  obtain ⟨ids, he, -⟩ := h.requirement_eq
  rw [he, Registry.requirementOf, ← h.wildcardOnly_text_iff]
  split <;> simp [*]

/-- A set of handles that is required is made of handles of the fragments. -/
theorem exists_ids (h : p.Grounded table) (he : p.requirement = .fragments hs) :
    ∃ ids, hs = handleSet ids ∧ ids.map table.text? = (fragments p.text).map some := by
  obtain ⟨ids, he', hmap⟩ := h.requirement_eq
  rw [he', Registry.requirementOf] at he
  split at he
  · cases he
  · cases he
    exact ⟨ids, rfl, hmap⟩

/-- The handles required are those of the fragments. -/
theorem mem_iff (h : p.Grounded table) (ht : table.Distinct) (he : p.requirement = .fragments hs) :
    id ∈ hs ↔ ∃ x ∈ fragments p.text, table.text? id = some x := by
  obtain ⟨ids, rfl, hmap⟩ := h.exists_ids he
  rw [mem_handleSet]
  constructor
  · intro hid
    have hm : table.text? id ∈ (fragments p.text).map some := hmap ▸ List.mem_map_of_mem hid
    obtain ⟨x, hx, e⟩ := List.mem_map.1 hm
    exact ⟨x, hx, e.symm⟩
  · rintro ⟨x, hx, hid⟩
    have hm : some x ∈ ids.map table.text? := hmap ▸ List.mem_map_of_mem hx
    obtain ⟨j, hj, e⟩ := List.mem_map.1 hm
    rwa [ht.eq_of_text? hid e]

/-- Every fragment of the pattern is in the table. -/
theorem exists_of_mem_fragments (h : p.Grounded table) (hx : x ∈ fragments p.text) : ∃ id, table.text? id = some x := by
  obtain ⟨ids, -, hmap⟩ := h.requirement_eq
  have hm : some x ∈ ids.map table.text? := hmap ▸ List.mem_map_of_mem hx
  obtain ⟨id, -, hid⟩ := List.mem_map.1 hm
  exact ⟨id, hid⟩

/-- A set of required handles is not empty. -/
theorem ne_nil_of_requirement (h : p.Grounded table) (he : p.requirement = .fragments hs) : hs ≠ [] := by
  obtain ⟨ids, he', hmap⟩ := h.requirement_eq
  have hlen : ids.length = (fragments p.text).length := by simpa using congrArg List.length hmap
  exact Registry.ne_nil_of_requirementOf h.ne_nil hlen (he'.symm.trans he)

theorem pairwise_requirement (h : p.Grounded table) (he : p.requirement = .fragments hs) : hs.Pairwise (· < ·) := by
  obtain ⟨ids, rfl, -⟩ := h.exists_ids he
  exact pairwise_handleSet ids

theorem lt_size (h : p.Grounded table) (ht : table.Distinct) (he : p.requirement = .fragments hs) (hid : id ∈ hs) :
    id < table.size := by
  obtain ⟨x, -, hx⟩ := (h.mem_iff ht he).1 hid
  exact FragmentTable.lt_size_of_text? hx

/-- The fragments of a pattern are the texts of what it requires. -/
theorem mem_fragments_iff (h : p.Grounded table) (ht : table.Distinct) (he : p.requirement = .fragments hs) :
    x ∈ fragments p.text ↔ ∃ id ∈ hs, table.text? id = some x := by
  constructor
  · intro hx
    obtain ⟨id, hid⟩ := h.exists_of_mem_fragments hx
    exact ⟨id, (h.mem_iff ht he).2 ⟨x, hx, hid⟩, hid⟩
  · rintro ⟨id, hid, hx⟩
    obtain ⟨y, hy, hy'⟩ := (h.mem_iff ht he).1 hid
    rwa [Option.some.inj (hx.symm.trans hy')]

end Grounded

namespace Faithful

theorem grounded (h : p.Faithful m table) : p.Grounded table := by
  obtain ⟨ids, he, hmap⟩ := h.requirement_eq
  refine ⟨h.ne_nil, ids, he, ?_⟩
  have htexts := congrArg (List.map (Option.map Fragment.text)) hmap
  rwa [List.map_map, List.map_map] at htexts

theorem mono (h : p.Faithful m table) (hp : table.toList <+: table'.toList) : p.Faithful m table' := by
  obtain ⟨ids, he, hmap⟩ := h.requirement_eq
  refine ⟨h.ne_nil, h.glob_eq, ids, he, ?_⟩
  rw [← hmap]
  refine List.map_congr_left fun id hid => ?_
  have hm : table.get? id ∈ (fragments p.text).map fun x => some ⟨x, needles x⟩ := hmap ▸ List.mem_map_of_mem hid
  obtain ⟨x, -, hx⟩ := List.mem_map.1 hm
  rw [← hx]
  exact FragmentTable.get?_of_prefix hp hx.symm

theorem wildcardOnly_text_iff (h : p.Faithful m table) : wildcardOnly p.text = true ↔ fragments p.text = [] :=
  h.grounded.wildcardOnly_text_iff

theorem wildcardOnly_iff (h : p.Faithful m table) : p.requirement = .wildcardOnly ↔ fragments p.text = [] :=
  h.grounded.wildcardOnly_iff

theorem mem_iff (h : p.Faithful m table) (ht : table.Sound) (he : p.requirement = .fragments hs) :
    id ∈ hs ↔ ∃ f, table.get? id = some f ∧ f.text ∈ fragments p.text := by
  rw [h.grounded.mem_iff ht.nodup he]
  constructor
  · rintro ⟨x, hx, hid⟩
    obtain ⟨f, hf, rfl⟩ := FragmentTable.text?_eq_some_iff.1 hid
    exact ⟨f, hf, hx⟩
  · rintro ⟨f, hf, hx⟩
    exact ⟨f.text, hx, FragmentTable.text?_of_get? hf⟩

theorem exists_of_mem_fragments (h : p.Faithful m table) (hx : x ∈ fragments p.text) :
    ∃ id f, table.get? id = some f ∧ f.text = x := by
  obtain ⟨id, hid⟩ := h.grounded.exists_of_mem_fragments hx
  exact ⟨id, FragmentTable.text?_eq_some_iff.1 hid⟩

theorem ne_nil_of_requirement (h : p.Faithful m table) (he : p.requirement = .fragments hs) : hs ≠ [] :=
  h.grounded.ne_nil_of_requirement he

end Faithful

end StoredPattern

namespace Registry

variable {r r' : Registry κ} {table table' : FragmentTable} {p : Bytes} {cookie : κ} {id : Nat}

/-- What an insertion stores. -/
theorem of_insert_eq_ok (h : r.insert table p cookie = .ok (id, r', table')) :
    refusal? r.config p = none ∧ id = r.size ∧ table' = (table.internAll (fragments p)).2 ∧
      r' = { r with patterns := r.patterns.push ⟨p, cookie, Glob.parse r.config.mode p,
        requirementOf p (table.internAll (fragments p)).1⟩ } := by
  unfold insert at h
  split at h
  · cases h
  · next hr => cases h; exact ⟨hr, rfl, rfl, rfl⟩

/-- A pattern is accepted if it has a byte and none of its needles is too long. -/
theorem refusal?_eq_none_iff {c : Config} :
    refusal? c p = none ↔ p ≠ [] ∧ ∀ f ∈ fragments p, ∀ n ∈ needles f, n.length ≤ c.literalLimit := by
  unfold refusal? overlong?
  cases p with
  | nil => simp
  | cons b r => simp

theorem ne_nil_of_refusal?_eq_none {c : Config} (h : refusal? c p = none) : p ≠ [] := (refusal?_eq_none_iff.1 h).1

theorem getElem?_requirements {q : Requirement} :
    (r.toList.map (·.requirement))[id]? = some q ↔ ∃ p, r.get? id = some p ∧ p.requirement = q := by
  rw [List.getElem?_map, Option.map_eq_some_iff]
  simp only [toList, Array.getElem?_toList, get?]

/-- The stored patterns: handle, text and cookie of each. -/
def stored (r : Registry κ) : List (Nat × Bytes × κ) :=
  r.toList.zipIdx.map fun (p, id) => (id, p.text, p.cookie)

theorem mem_stored {y : Bytes} {k : κ} :
    (id, y, k) ∈ r.stored ↔ ∃ p, r.get? id = some p ∧ p.text = y ∧ p.cookie = k := by
  simp only [stored, List.mem_map, Prod.exists, List.mem_zipIdx_iff_getElem?, Prod.mk.injEq, toList, get?,
    Array.getElem?_toList]
  constructor
  · rintro ⟨p, i, hp, rfl, rfl, rfl⟩
    exact ⟨p, hp, rfl, rfl⟩
  · rintro ⟨p, hp, rfl, rfl⟩
    exact ⟨p, id, hp, rfl, rfl, rfl⟩

theorem pairwise_stored (r : Registry κ) : (r.stored.map Prod.fst).Pairwise (· < ·) := by
  have he : r.stored.map Prod.fst = r.toList.zipIdx.map Prod.snd := by
    rw [stored, List.map_map]
    rfl
  rw [he, List.zipIdx_map_snd]
  exact List.pairwise_lt_range'

theorem map_text_stored (r : Registry κ) : r.stored.map (·.2.1) = r.texts := by
  have hfst : r.toList.zipIdx.map Prod.fst = r.toList := List.zipIdx_map_fst 0 r.toList
  rw [texts, ← hfst, List.map_map, stored, List.map_map]
  rfl

/-- What an insertion stores goes to the end. -/
theorem stored_of_insert_eq_ok (h : r.insert table p cookie = .ok (id, r', table')) :
    r'.stored = r.stored ++ [(id, p, cookie)] := by
  obtain ⟨-, rfl, -, rfl⟩ := of_insert_eq_ok h
  rw [stored, toList, Array.toList_push, List.zipIdx_append, List.map_append]
  simp [stored, toList, size]

theorem getElem?_texts {y : Bytes} : r.texts[id]? = some y ↔ ∃ p, r.get? id = some p ∧ p.text = y := by
  rw [texts, List.getElem?_map, Option.map_eq_some_iff]
  simp only [toList, Array.getElem?_toList, get?]

namespace Grounded

theorem of_get? {p : StoredPattern κ} (h : r.Grounded table) (hp : r.get? id = some p) : p.Grounded table :=
  h.grounded p (List.mem_of_getElem? ((Array.getElem?_toList ..).trans hp))

theorem empty (c : Config) : (Registry.empty c : Registry κ).Grounded .empty := ⟨.empty, fun p hp => by cases hp⟩

/-- Patterns require the same handles in a table that has grown. -/
theorem mono (h : r.Grounded table) (ht : table'.Distinct) (hp : table.toList <+: table'.toList) : r.Grounded table' :=
  ⟨ht, fun p hm => (h.grounded p hm).mono hp⟩

/-- An insertion keeps what patterns require. -/
theorem insert (h : r.Grounded table) (hi : r.insert table p cookie = .ok (id, r', table')) : r'.Grounded table' := by
  obtain ⟨hr, -, rfl, rfl⟩ := of_insert_eq_ok hi
  have hpre := table.toList_prefix_internAll (fragments p)
  refine ⟨h.distinct.internAll _, fun q hq => ?_⟩
  simp only [toList, Array.toList_push, List.mem_append, List.mem_singleton] at hq
  rcases hq with hq | rfl
  · exact (h.grounded q hq).mono hpre
  · exact ⟨ne_nil_of_refusal?_eq_none hr, _, rfl, table.map_text?_internAll _⟩

end Grounded

namespace Sound

theorem grounded (h : r.Sound table) : r.Grounded table := ⟨h.interned.nodup, fun p hp => (h.faithful p hp).grounded⟩

theorem of_get? {p : StoredPattern κ} (h : r.Sound table) (hp : r.get? id = some p) :
    p.Faithful r.config.mode table :=
  h.faithful p (List.mem_of_getElem? ((Array.getElem?_toList ..).trans hp))

theorem empty (c : Config) : (Registry.empty c : Registry κ).Sound .empty := ⟨.empty, fun p hp => by cases hp⟩

theorem insert (h : r.Sound table) (hi : r.insert table p cookie = .ok (id, r', table')) :
    r'.Sound table' ∧ r'.config = r.config := by
  obtain ⟨hr, -, rfl, rfl⟩ := of_insert_eq_ok hi
  obtain ⟨h1, hpre, hmap⟩ := h.interned.internAll (fragments p)
  refine ⟨⟨h1, fun q hq => ?_⟩, rfl⟩
  simp only [toList, Array.toList_push, List.mem_append, List.mem_singleton] at hq
  rcases hq with hq | rfl
  · exact (h.faithful q hq).mono hpre
  · exact ⟨ne_nil_of_refusal?_eq_none hr, rfl, _, rfl, hmap⟩

end Sound

end Registry

end GlobSieve
