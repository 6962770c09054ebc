import Mathlib.Data.List.Infix
import Mathlib.Data.List.Nodup
import GlobSieve.CaseMode

/-!
# Strings in order of length

The strings `ws`, which come with their prefixes, are visited from a queue. A string that comes out is followed into the queue by
those that are one byte longer, and at any time the strings that are still to join the queue are those that have a proper prefix
in it (`Below`). The queue is in order of length, spans two lengths at most and has no two strings one of which begins the other
(`Queue`). So when a string comes out, nothing as short as it is still to join (`Queue.not_below`). A visit keeps all this
(`Queue.visit`), and fewer strings remain after it (`remaining_visit`).
-/

namespace GlobSieve.Literal

variable {ws qs us : List Bytes} {u x : Bytes}

/-- A string of the queue begins this one, which is longer. -/
def Below (qs : List Bytes) (x : Bytes) : Prop := ∃ q ∈ qs, q <+: x ∧ q ≠ x

/-- Whether the string is in the queue or is still to join it. -/
def waiting (qs : List Bytes) (x : Bytes) : Bool := qs.any (·.isPrefixOf x)

theorem waiting_iff : waiting qs x = true ↔ ∃ q ∈ qs, q <+: x := by
  simp only [waiting, List.any_eq_true, List.isPrefixOf_iff_prefix]

/-- How many of the strings wait. -/
def remaining (ws qs : List Bytes) : Nat := ws.countP (waiting qs)

/-- A queue of strings that are visited in order of length. -/
structure Queue (ws qs : List Bytes) : Prop where
  mem : ∀ q ∈ qs, q ∈ ws
  nodup : qs.Nodup
  lengths : qs.Pairwise fun p q => p.length ≤ q.length ∧ q.length ≤ p.length + 1
  apart : ∀ q ∈ qs, ¬Below qs q

/-- The queue that has the empty string alone. -/
theorem Queue.start (h0 : [] ∈ ws) : Queue ws [[]] where
  mem q hq := by rwa [List.mem_singleton.1 hq]
  nodup := List.nodup_singleton _
  lengths := List.pairwise_singleton _ _
  apart q hq := by
    intro ⟨p, hp, _, hne⟩
    exact hne ((List.mem_singleton.1 hp).trans (List.mem_singleton.1 hq).symm)

/-- The strings one byte longer. -/
structure Children (ws : List Bytes) (u : Bytes) (us : List Bytes) : Prop where
  nodup : us.Nodup
  mem_iff : ∀ x, x ∈ us ↔ x ∈ ws ∧ ∃ b, x = u ++ [b]

theorem Children.length_eq (h : Children ws u us) (hx : x ∈ us) : x.length = u.length + 1 := by
  obtain ⟨-, b, rfl⟩ := (h.mem_iff x).1 hx
  exact List.length_append

theorem Children.begins (h : Children ws u us) (hx : x ∈ us) : u <+: x := by
  obtain ⟨-, b, rfl⟩ := (h.mem_iff x).1 hx
  exact List.prefix_append u [b]

/-- The first string of a queue is as short as any, and what is still to join is longer. -/
theorem Queue.not_below (h : Queue ws (u :: qs)) (hx : x.length ≤ u.length) : ¬Below (u :: qs) x := by
  intro ⟨q, hq, hpre, hne⟩
  have hle : u.length ≤ q.length := by
    rcases List.mem_cons.1 hq with rfl | hq
    · exact Nat.le_refl _
    · exact ((List.pairwise_cons.1 h.lengths).1 q hq).1
  have hlt : q.length < x.length := Nat.lt_of_le_of_ne hpre.length_le fun e => hne (hpre.eq_of_length e)
  omega

theorem Children.below (h : Children ws u us) (hx : x ∈ us) : Below (u :: qs) x := by
  refine ⟨u, List.mem_cons_self, h.begins hx, ?_⟩
  intro e
  have hlen := h.length_eq hx
  rw [← e] at hlen
  omega

/-- Of two conditions the one that excludes an element more is met less often. -/
theorem countP_lt {α : Type} {p q : α → Bool} {l : List α} {a : α} (ha : a ∈ l) (hp : p a = true) (hq : ¬q a = true)
    (h : ∀ x, q x = true → p x = true) : l.countP q < l.countP p := by
  have hsub : (l.filter q).Sublist (l.filter p) := List.monotone_filter_right l h
  rw [List.countP_eq_length_filter, List.countP_eq_length_filter]
  refine Nat.lt_of_le_of_ne hsub.length_le fun e => hq ?_
  have hmem : a ∈ l.filter q := by
    rw [hsub.eq_of_length e]
    exact List.mem_filter.2 ⟨ha, hp⟩
  exact (List.mem_filter.1 hmem).2

section Visit

variable (h : Queue ws (u :: qs)) (hc : Children ws u us) (hp : ∀ {u v : Bytes}, u ++ v ∈ ws → u ∈ ws)

include h hc

/-- No string one byte longer begins with another string of the queue. -/
theorem Queue.not_mem_of_below (hx : Below qs x) : x ∉ us := by
  intro hmem
  obtain ⟨q, hq, hpre, hne⟩ := hx
  obtain ⟨-, b, rfl⟩ := (hc.mem_iff x).1 hmem
  have hqu : q <+: u := by
    rcases List.prefix_concat_iff.1 hpre with e | hqu
    · exact absurd e hne
    · exact hqu
  by_cases e : q = u
  · exact (List.nodup_cons.1 h.nodup).1 (e ▸ hq)
  · exact h.apart u List.mem_cons_self ⟨q, List.mem_cons_of_mem u hq, hqu, e⟩

include hp

/-- A visit lets the strings join that are one byte longer, and no others. -/
theorem Queue.below_visit (hx : x ∈ ws) : Below (qs ++ us) x ↔ Below (u :: qs) x ∧ x ∉ us := by
  constructor
  · intro ⟨q, hq, hpre, hne⟩
    rcases List.mem_append.1 hq with hq | hq
    · exact ⟨⟨q, List.mem_cons_of_mem u hq, hpre, hne⟩, h.not_mem_of_below hc ⟨q, hq, hpre, hne⟩⟩
    · -- below a string one byte longer
      have hlen := hc.length_eq hq
      have hlt : q.length < x.length := Nat.lt_of_le_of_ne hpre.length_le fun e => hne (hpre.eq_of_length e)
      refine ⟨⟨u, List.mem_cons_self, (hc.begins hq).trans hpre, ?_⟩, ?_⟩
      · rintro rfl
        omega
      · intro hmem
        have hlen' := hc.length_eq hmem
        omega
  · intro ⟨⟨q, hq, hpre, hne⟩, hnot⟩
    rcases List.mem_cons.1 hq with rfl | hq
    · obtain ⟨v, rfl⟩ := hpre
      cases v with
      | nil => exact absurd (List.append_nil q).symm hne
      | cons b v =>
        rw [List.append_cons] at hx hnot ⊢
        have hmem : q ++ [b] ∈ us := (hc.mem_iff _).2 ⟨hp hx, b, rfl⟩
        refine ⟨q ++ [b], List.mem_append_right qs hmem, List.prefix_append _ v, ?_⟩
        intro e
        exact hnot (e ▸ hmem)
    · exact ⟨q, List.mem_append_left us hq, hpre, hne⟩

/-- The queue after a visit. -/
theorem Queue.visit : Queue ws (qs ++ us) where
  mem q hq := by
    rcases List.mem_append.1 hq with hq | hq
    · exact h.mem q (List.mem_cons_of_mem u hq)
    · exact ((hc.mem_iff q).1 hq).1
  nodup := by
    refine List.Nodup.append (List.nodup_cons.1 h.nodup).2 hc.nodup ?_
    intro x hx hx'
    exact h.apart x (List.mem_cons_of_mem u hx) (hc.below hx')
  lengths := by
    obtain ⟨hfirst, hrest⟩ := List.pairwise_cons.1 h.lengths
    refine List.pairwise_append.2 ⟨hrest, ?_, ?_⟩
    · apply List.pairwise_of_forall_mem_list
      intro p hp q hq
      have h1 := hc.length_eq hp
      have h2 := hc.length_eq hq
      omega
    · intro p hp q hq
      have h1 := hfirst p hp
      have h2 := hc.length_eq hq
      omega
  apart q hq hbelow := by
    rcases List.mem_append.1 hq with hq | hq
    · have hmem := List.mem_cons_of_mem u hq
      exact h.apart q hmem ((h.below_visit hc hp (h.mem q hmem)).1 hbelow).1
    · exact ((h.below_visit hc hp ((hc.mem_iff q).1 hq).1).1 hbelow).2 hq

omit hp in
/-- The string that came out does not wait any more, and no string comes anew. -/
theorem remaining_visit : remaining ws (qs ++ us) < remaining ws (u :: qs) := by
  have hgone : ¬waiting (qs ++ us) u = true := by
    rw [waiting_iff]
    intro ⟨q, hq, hpre⟩
    rcases List.mem_append.1 hq with hq | hq
    · by_cases e : q = u
      · exact (List.nodup_cons.1 h.nodup).1 (e ▸ hq)
      · exact h.apart u List.mem_cons_self ⟨q, List.mem_cons_of_mem u hq, hpre, e⟩
    · have h1 := hc.length_eq hq
      have h2 := hpre.length_le
      omega
  apply countP_lt (h.mem u List.mem_cons_self) (waiting_iff.2 ⟨u, List.mem_cons_self, List.prefix_refl u⟩) hgone
  intro x hx
  obtain ⟨q, hq, hpre⟩ := waiting_iff.1 hx
  rw [waiting_iff]
  rcases List.mem_append.1 hq with hq | hq
  · exact ⟨q, List.mem_cons_of_mem u hq, hpre⟩
  · exact ⟨u, List.mem_cons_self, (hc.begins hq).trans hpre⟩

end Visit

end GlobSieve.Literal
