import GlobSieve.Pattern.Store
import GlobSieve.Proofs.Fragment.Pool
import GlobSieve.Proofs.Fragment.Wildcards

/-!
# What a store keeps

Whatever is put into a store and in which order, the directory of the pool stays in step and the patterns require handles of
their fragments (`Store.Sound.put`), and no handle loses its pattern or its fragment (`Store.Grows`). The cases of a deposit are
told once (`Store.put_cases`), and which of them get a handle is told by what is put in alone (`Store.exists_put_iff`).

Needles that come from elsewhere are taken as they are. If there were none, all fragments have their own (`sound_putAll`).
-/

namespace GlobSieve

open Glob

variable {κ : Type}

theorem exists_getElem?_iff {α : Type} {as : Array α} {i : Nat} : (∃ a, as[i]? = some a) ↔ i < as.size := by
  constructor
  · rintro ⟨a, ha⟩
    exact (Array.getElem?_eq_some_iff.1 ha).1
  · intro hi
    exact ⟨_, Array.getElem?_eq_getElem hi⟩

theorem Registry.get?_of_prefix {r r' : Registry κ} {id : Nat} {p : StoredPattern κ} (hp : r.toList <+: r'.toList)
    (h : r.get? id = some p) : r'.get? id = some p := by
  rw [get?, ← Array.getElem?_toList] at h ⊢
  exact getElem?_of_isPrefix hp h

theorem Registry.toList_prefix_insert {r r' : Registry κ} {table table' : FragmentTable} {p : Bytes} {cookie : κ} {id : Nat}
    (h : r.insert table p cookie = .ok (id, r', table')) :
    r.toList <+: r'.toList ∧ table.toList <+: table'.toList := by
  obtain ⟨-, -, rfl, rfl⟩ := of_insert_eq_ok h
  refine ⟨?_, table.toList_prefix_internAll _⟩
  rw [toList, toList, Array.toList_push]
  exact List.prefix_append _ _

/-- A pattern is inserted into a pool as into its table. -/
theorem Registry.insertInto_eq {pool : FragmentPool} (h : pool.InStep) (r : Registry κ) (p : Bytes) (cookie : κ) :
    (∃ err, r.insertInto pool p cookie = .error err ∧ r.insert pool.table p cookie = .error err) ∨
      ∃ id r' pool', r.insertInto pool p cookie = .ok (id, r', pool') ∧
        r.insert pool.table p cookie = .ok (id, r', pool'.table) ∧ pool'.InStep := by
  unfold insertInto Registry.insert
  cases refusal? r.config p with
  | some err => exact .inl ⟨err, rfl, rfl⟩
  | none =>
    obtain ⟨pool', he, ht, h'⟩ := h.internEach (fragments p)
    let stored : StoredPattern κ :=
      ⟨p, cookie, Glob.parse r.config.mode p, requirementOf p (pool.table.internAll (fragments p)).1⟩
    refine .inr ⟨r.size, { r with patterns := r.patterns.push stored }, pool', ?_, ?_, h'⟩
    · simp only [he, stored]
    · rw [ht]

/-- What was put into a store is there, under this handle. -/
def Deposit.StoredAt (d : Deposit κ) (id : Nat) (s : Store κ) : Prop :=
  match d with
  | .pattern p cookie => ∃ q, s.registry.get? id = some q ∧ q.text = p ∧ q.cookie = cookie
  | .fragment text | .fragmentWith text _ => ∃ f, s.pool.get? id = some f ∧ f.text = text

/-- A store with these settings takes the deposit: a pattern that has a byte and no needle that is too long, or any fragment. -/
def Deposit.Admitted (c : Config) : Deposit κ → Prop
  | .pattern p _ => p ≠ [] ∧ ∀ f ∈ fragments p, ∀ n ∈ needles f, n.length ≤ c.literalLimit
  | .fragment _ | .fragmentWith _ _ => True

namespace Store

variable {s s' s'' : Store κ} {d : Deposit κ} {ds : List (Deposit κ)} {id : Nat}

/-- The directory is in step with the table, and the patterns require handles of their fragments. -/
structure Sound (s : Store κ) : Prop where
  inStep : s.pool.InStep
  grounded : s.registry.Grounded s.pool.table

/-- Patterns and fragments keep their handles. -/
structure Grows (s s' : Store κ) : Prop where
  patterns : s.registry.toList <+: s'.registry.toList
  fragments : s.pool.table.toList <+: s'.pool.table.toList

theorem Grows.refl (s : Store κ) : s.Grows s := ⟨List.prefix_rfl, List.prefix_rfl⟩

theorem Grows.trans (h : s.Grows s') (h' : s'.Grows s'') : s.Grows s'' :=
  ⟨h.patterns.trans h'.patterns, h.fragments.trans h'.fragments⟩

/-- A deposit is refused and changes nothing, or inserts a pattern, or interns a text. -/
theorem put_cases (h : s.pool.InStep) (d : Deposit κ) :
    (∃ err, s.put d = (.error err, s)) ∨
    (∃ p cookie id s', d = .pattern p cookie ∧ s.put d = (.ok id, s') ∧ s'.pool.InStep ∧
      s.registry.insert s.pool.table p cookie = .ok (id, s'.registry, s'.pool.table)) ∨
    ∃ text ns pool', (d = .fragment text ∧ ns = needles text ∨ d = .fragmentWith text ns) ∧
      s.put d = (.ok (s.pool.table.internWith text ns).1, { s with pool := pool' }) ∧ pool'.InStep ∧
      pool'.table = (s.pool.table.internWith text ns).2 := by
  cases d with
  | pattern p cookie =>
    rcases Registry.insertInto_eq h s.registry p cookie with ⟨err, he, -⟩ | ⟨id, r', pool', he, hi, h'⟩
    · exact .inl ⟨err, by simp only [put, he]⟩
    · exact .inr (.inl ⟨p, cookie, id, ⟨r', pool'⟩, rfl, by simp only [put, he], h', hi⟩)
  | fragment text =>
    obtain ⟨pool', he, ht, h'⟩ := h.intern text
    exact .inr (.inr ⟨text, _, pool', .inl ⟨rfl, rfl⟩, by simp only [put, he]; rfl, h', ht⟩)
  | fragmentWith text ns =>
    obtain ⟨pool', he, ht, h'⟩ := h.internWith text ns
    exact .inr (.inr ⟨text, ns, pool', .inr rfl, by simp only [put, he], h', ht⟩)

/-- What is admitted gets a handle, and nothing else does. -/
theorem exists_put_iff (s : Store κ) (d : Deposit κ) : (∃ id, (s.put d).1 = .ok id) ↔ d.Admitted s.registry.config := by
  cases d with
  | pattern p cookie =>
    rw [Deposit.Admitted, ← Registry.refusal?_eq_none_iff, put, Registry.insertInto]
    cases Registry.refusal? s.registry.config p with
    | some err => simp
    | none => simp
  | fragment text => exact iff_of_true ⟨_, rfl⟩ trivial
  | fragmentWith text ns => exact iff_of_true ⟨_, rfl⟩ trivial

theorem config_put (s : Store κ) (d : Deposit κ) : (s.put d).2.registry.config = s.registry.config := by
  cases d with
  | pattern p cookie =>
    rw [put, Registry.insertInto]
    cases Registry.refusal? s.registry.config p <;> rfl
  | fragment text => rfl
  | fragmentWith text ns => rfl

theorem config_putAll (s : Store κ) (ds : List (Deposit κ)) : (s.putAll ds).registry.config = s.registry.config := by
  induction ds generalizing s with
  | nil => rfl
  | cons d ds ih => exact (ih _).trans (config_put s d)

theorem Grows.put (h : s.pool.InStep) (d : Deposit κ) : s.Grows (s.put d).2 := by
  rcases put_cases h d with ⟨err, he⟩ | ⟨p, cookie, id, s', -, he, -, hi⟩ | ⟨text, ns, pool', -, he, -, ht⟩
  · rw [he]
    exact Grows.refl s
  · rw [he]
    obtain ⟨hr, ht⟩ := Registry.toList_prefix_insert hi
    exact ⟨hr, ht⟩
  · rw [he]
    refine ⟨List.prefix_rfl, ?_⟩
    rw [ht]
    exact FragmentTable.toList_prefix_internWith _ _ _

namespace Sound

theorem empty (c : Config) : (Store.empty c : Store κ).Sound := ⟨.empty, .empty c⟩

theorem put (h : s.Sound) (d : Deposit κ) : (s.put d).2.Sound := by
  rcases put_cases h.inStep d with ⟨err, he⟩ | ⟨p, cookie, id, s', -, he, h', hi⟩ | ⟨text, ns, pool', -, he, h', ht⟩
  · rwa [he]
  · rw [he]
    exact ⟨h', h.grounded.insert hi⟩
  · rw [he]
    refine ⟨h', ?_⟩
    rw [ht]
    exact h.grounded.mono (h.grounded.distinct.internWith _ _) (FragmentTable.toList_prefix_internWith _ _ _)

theorem putAll (h : s.Sound) (ds : List (Deposit κ)) : (s.putAll ds).Sound ∧ s.Grows (s.putAll ds) := by
  induction ds generalizing s with
  | nil => exact ⟨h, Grows.refl s⟩
  | cons d ds ih =>
    obtain ⟨hs, hg⟩ := ih (h.put d)
    exact ⟨hs, (Grows.put h.inStep d).trans hg⟩

theorem find?_eq_some_iff (h : s.Sound) (text : Bytes) (id : Nat) :
    s.pool.find? text = some id ↔ ∃ f, s.pool.get? id = some f ∧ f.text = text := by
  rw [h.inStep text, h.grounded.distinct.find?_eq_some_iff]
  exact FragmentTable.text?_eq_some_iff

end Sound

/-- What is put into a store is found under the handle that was answered. -/
theorem storedAt_put (h : s.Sound) (ha : (s.put d).1 = .ok id) : d.StoredAt id (s.put d).2 := by
  rcases put_cases h.inStep d with ⟨err, he⟩ | ⟨p, cookie, id', s', rfl, he, -, hi⟩ | ⟨text, ns, pool', hd, he, -, ht⟩
  · rw [he] at ha
    cases ha
  · rw [he] at ha ⊢
    cases ha
    apply Registry.mem_stored.1
    rw [Registry.stored_of_insert_eq_ok hi]
    exact List.mem_append_right _ List.mem_cons_self
  · rw [he] at ha ⊢
    cases ha
    have htext := s.pool.table.text?_internWith text ns
    rw [← ht] at htext
    rcases hd with ⟨rfl, -⟩ | rfl
    · exact FragmentTable.text?_eq_some_iff.1 htext
    · exact FragmentTable.text?_eq_some_iff.1 htext

/-- It stays there. -/
theorem storedAt_of_grows (hg : s.Grows s') (h : d.StoredAt id s) : d.StoredAt id s' := by
  cases d with
  | pattern p cookie =>
    obtain ⟨q, hq, hp, hc⟩ := h
    exact ⟨q, Registry.get?_of_prefix hg.patterns hq, hp, hc⟩
  | fragment text =>
    obtain ⟨f, hf, he⟩ := h
    exact ⟨f, FragmentTable.get?_of_prefix hg.fragments hf, he⟩
  | fragmentWith text ns =>
    obtain ⟨f, hf, he⟩ := h
    exact ⟨f, FragmentTable.get?_of_prefix hg.fragments hf, he⟩

/-- If no needles come from elsewhere, all fragments have their own. -/
theorem sound_putAll (h : s.Sound) (ht : s.pool.table.Sound) (hds : ∀ text ns, .fragmentWith text ns ∉ ds) :
    (s.putAll ds).pool.table.Sound := by
  induction ds generalizing s with
  | nil => exact ht
  | cons d ds ih =>
    suffices hd : (s.put d).2.pool.table.Sound from ih (h.put d) hd fun text ns hm => hds text ns (List.mem_cons_of_mem _ hm)
    rcases put_cases h.inStep d with ⟨err, he⟩ | ⟨p, cookie, id, s', -, he, -, hi⟩ | ⟨text, ns, pool', hd, he, -, htab⟩
    · rwa [he]
    · rw [he]
      obtain ⟨-, -, htab, -⟩ := Registry.of_insert_eq_ok hi
      rw [htab]
      exact (ht.internAll _).1
    · rcases hd with ⟨-, rfl⟩ | rfl
      · rw [he, htab]
        exact ht.intern text
      · exact absurd List.mem_cons_self (hds text ns)

/-- **Interning and registering in any order.** Handles of fragments and of patterns are dense and keep what they stand for; the
handle found for a text is the one that has it, so two texts share a handle if they are equal. Every fragment gets a handle, and
so does every pattern that is not refused, which stands for it from then on. A pattern requires nothing if it is a row of wildcards, and else handles of its fragments, strictly
ascending. If no needles came from elsewhere, all fragments have their own. -/
theorem putAll_exact (c : Config) (before after : List (Deposit κ)) :
    let s : Store κ := (empty c).putAll before
    let s' := s.putAll after
    ((∀ id, (∃ f, s.pool.get? id = some f) ↔ id < s.pool.size) ∧
      (∀ id f, s.pool.get? id = some f → s'.pool.get? id = some f) ∧ s.pool.size ≤ s'.pool.size) ∧
    ((∀ id, (∃ p, s.registry.get? id = some p) ↔ id < s.registry.size) ∧
      (∀ id p, s.registry.get? id = some p → s'.registry.get? id = some p) ∧ s.registry.size ≤ s'.registry.size) ∧
    (∀ text id, s.pool.find? text = some id ↔ ∃ f, s.pool.get? id = some f ∧ f.text = text) ∧
    (∀ x y i j, s.pool.find? x = some i → s.pool.find? y = some j → (i = j ↔ x = y)) ∧
    (∀ d, (∃ id, (s.put d).1 = .ok id) ↔ d.Admitted c) ∧
    (∀ d id, (s.put d).1 = .ok id → d.StoredAt id ((s.put d).2.putAll after)) ∧
    (∀ id p, s.registry.get? id = some p →
      (p.requirement = .wildcardOnly ↔ ∀ b ∈ p.text, b = Sign.star ∨ b = Sign.query) ∧
      (p.requirement ≠ .wildcardOnly → ∃ hs, p.requirement = .fragments hs ∧ hs ≠ [] ∧ hs.Pairwise (· < ·) ∧
        (∀ i ∈ hs, i < s.pool.size) ∧
        ∀ text, text ∈ fragments p.text ↔ ∃ i ∈ hs, ∃ f, s.pool.get? i = some f ∧ f.text = text)) ∧
    ((∀ text ns, .fragmentWith text ns ∉ before) → ∀ id f, s.pool.get? id = some f → f.needles = needles f.text) := by
  intro s s'
  obtain ⟨hs, -⟩ := (Sound.empty c).putAll before
  obtain ⟨-, hg⟩ := hs.putAll after
  have hfound := hs.find?_eq_some_iff
  refine ⟨⟨fun id => ?_, fun id f hf => ?_, ?_⟩, ⟨fun id => ?_, fun id p hp => ?_, ?_⟩, hfound, fun x y i j hx hy => ?_,
    fun d => ?_, fun d id ha => ?_, fun id p hp => ⟨?_, fun hne => ?_⟩, fun hds id f hf => ?_⟩
  · exact exists_getElem?_iff
  · exact FragmentTable.get?_of_prefix hg.fragments hf
  · exact hg.fragments.length_le
  · exact exists_getElem?_iff
  · exact Registry.get?_of_prefix hg.patterns hp
  · exact hg.patterns.length_le
  · constructor
    · rintro rfl
      obtain ⟨f, hf, rfl⟩ := (hfound x i).1 hx
      obtain ⟨g, hg', rfl⟩ := (hfound y i).1 hy
      rw [Option.some.inj (hf.symm.trans hg')]
    · rintro rfl
      exact Option.some.inj (hx.symm.trans hy)
  · have hconfig : s.registry.config = c := config_putAll (empty c) before
    rw [exists_put_iff, hconfig]
  · exact storedAt_of_grows ((hs.put d).putAll after).2 (storedAt_put hs ha)
  · rw [(hs.grounded.of_get? hp).wildcardOnly_iff, fragments_eq_nil_iff]
    simp only [isWildcardByte, Bool.or_eq_true, beq_iff_eq]
  · have hground := hs.grounded.of_get? hp
    cases he : p.requirement with
    | wildcardOnly => exact absurd he hne
    | fragments ids =>
      refine ⟨ids, rfl, hground.ne_nil_of_requirement he, hground.pairwise_requirement he,
        fun i hi => hground.lt_size hs.grounded.distinct he hi, fun text => ?_⟩
      rw [hground.mem_fragments_iff hs.grounded.distinct he]
      simp only [FragmentTable.text?_eq_some_iff]
      rfl
  · have ht := sound_putAll (Sound.empty c) .empty hds
    exact ht.needles_eq f (FragmentTable.mem_toList_of_get? hf)

end Store

end GlobSieve
