import GlobSieve.Proofs.Glob.Reading

/-!
# Behind a bracket that is not closed

If no byte of the rest closes a bracket, then none closes one that opens later (`unbracketed_of_closeOffset`): the later one
would be closed by a `]` that no backslash escapes, and this byte would have closed the first one. Both readings find the same
bytes escaped, since neither `!` nor `^` nor `]`, which may stand unread at the beginning of a bracket, is a backslash.
-/

namespace GlobSieve.Glob

/-- No bracket of the pattern is closed. -/
def Unbracketed (p : Bytes) : Prop := ∀ body, Lexeme.bracket body ∉ lex p

variable {b c : UInt8} {p r : Bytes}

theorem unescapedClose_escape (c : UInt8) (r : Bytes) :
    unescapedClose (Sign.escape :: c :: r) = (unescapedClose r).map (· + 2) := by
  rw [unescapedClose, if_pos rfl]

theorem unescapedClose_of_ne_escape (h : b ≠ Sign.escape) (r : Bytes) :
    unescapedClose (b :: r) = if b = Sign.bracketClose then some 0 else (unescapedClose r).map (· + 1) := by
  cases r with
  | nil => rfl
  | cons c r => rw [unescapedClose, if_neg h]

/-- What follows a byte that is not a backslash closes no bracket either. -/
theorem unescapedClose_tail (h : b ≠ Sign.escape) (hn : unescapedClose (b :: r) = none) : unescapedClose r = none := by
  rw [unescapedClose_of_ne_escape h] at hn
  split at hn
  · cases hn
  · exact Option.map_eq_none_iff.1 hn

/-- The bytes that stand unread at the beginning of a bracket are no backslashes and open no bracket. -/
theorem ne_of_mem_take_exempt (h : b ∈ r.take (exempt r)) : b ≠ Sign.escape ∧ b ≠ Sign.bracketOpen := by
  have hsign : Sign.negates b = true ∨ b = Sign.bracketClose := by
    cases r with
    | nil => cases h
    | cons c r =>
      rw [exempt] at h
      split at h
      · next hneg =>
        split at h
        · next hclose =>
          obtain ⟨r', rfl⟩ := List.head?_eq_some_iff.1 hclose
          rcases List.mem_cons.1 h with rfl | h
          · exact .inl hneg
          · exact .inr (List.mem_singleton.1 h)
        · exact .inl (List.mem_singleton.1 h ▸ hneg)
      · split at h
        · next hclose => exact .inr ((List.mem_singleton.1 h).trans hclose)
        · cases h
  simp only [Sign.negates, Bool.or_eq_true, beq_iff_eq] at hsign
  rcases hsign with (rfl | rfl) | rfl <;> decide

/-- What begins behind bytes that are no backslashes closes no bracket either. -/
theorem unescapedClose_drop {k : Nat} (hne : ∀ b ∈ r.take k, b ≠ Sign.escape) (hn : unescapedClose r = none) :
    unescapedClose (r.drop k) = none := by
  induction k generalizing r with
  | zero => exact hn
  | succ k ih =>
    cases r with
    | nil => exact hn
    | cons b r =>
      rw [List.take_succ_cons, List.forall_mem_cons] at hne
      exact ih hne.2 (unescapedClose_tail hne.1 hn)

/-- Where no byte closes a bracket, it does not matter which bytes are exempt. -/
theorem closeOffset_of_unescapedClose (h : unescapedClose r = none) : closeOffset r = none := by
  rw [closeOffset, Option.map_eq_none_iff]
  exact unescapedClose_drop (fun _ hb => (ne_of_mem_take_exempt hb).1) h

/-! ## Lexemes -/

theorem unbracketed_nil : Unbracketed [] := by
  intro body h
  rw [lex_nil] at h
  cases h

/-- The first lexeme is no bracket, and there is none in the rest. -/
theorem unbracketed_cons_iff : Unbracketed (b :: r) ↔
    (∀ body, (Lexeme.first b r).1 ≠ .bracket body) ∧ Unbracketed (Lexeme.first b r).2 := by
  unfold Unbracketed
  rw [lex_cons]
  simp only [List.mem_cons, not_or, forall_and, ne_comm, ne_eq]

/-- A byte that neither escapes nor opens a bracket is read by itself. -/
theorem unbracketed_cons_of_ne (he : b ≠ Sign.escape) (ho : b ≠ Sign.bracketOpen) :
    Unbracketed (b :: r) ↔ Unbracketed r := by
  have hfirst : (Lexeme.first b r).2 = r ∧ ∀ body, (Lexeme.first b r).1 ≠ .bracket body := by
    simp only [Lexeme.first, he, ho, if_false]
    split
    · simp
    · split <;> simp
  rw [unbracketed_cons_iff, hfirst.1]
  exact and_iff_right hfirst.2

/-- A `[` is an ordinary byte where no bracket is closed. -/
theorem unbracketed_bracketOpen_iff :
    Unbracketed (Sign.bracketOpen :: r) ↔ closeOffset r = none ∧ Unbracketed r := by
  rw [unbracketed_cons_iff, first_bracketOpen]
  cases closeOffset r with
  | none => simp
  | some n => simp

theorem unbracketed_escape (c : UInt8) (r : Bytes) : Unbracketed (Sign.escape :: c :: r) ↔ Unbracketed r := by
  have hfirst : Lexeme.first Sign.escape (c :: r) = (.escaped c, r) := rfl
  rw [unbracketed_cons_iff, hfirst]
  simp

/-- A `[` closes nothing, where no bracket is closed. -/
theorem Unbracketed.closeOffset_eq_none (h : Unbracketed (b :: r)) (ho : b = Sign.bracketOpen) : closeOffset r = none := by
  subst ho
  exact (unbracketed_bracketOpen_iff.1 h).1

theorem Unbracketed.tail (h : Unbracketed (b :: r)) (he : b ≠ Sign.escape) : Unbracketed r := by
  by_cases ho : b = Sign.bracketOpen
  · subst ho
    exact (unbracketed_bracketOpen_iff.1 h).2
  · exact (unbracketed_cons_of_ne he ho).1 h

theorem Unbracketed.of_escape (h : Unbracketed (Sign.escape :: r)) : Unbracketed (r.drop 1) := by
  cases r with
  | nil => exact unbracketed_nil
  | cons c r => exact (unbracketed_escape c r).1 h

/-- Where no byte closes a bracket, none is closed. -/
theorem unbracketed_of_unescapedClose : ∀ {p : Bytes}, unescapedClose p = none → Unbracketed p
  | [], _ => unbracketed_nil
  | b :: r, h => by
    by_cases he : b = Sign.escape
    · subst he
      cases r with
      | nil => exact unbracketed_cons_iff.2 ⟨fun body hb => (by cases hb), unbracketed_nil⟩
      | cons c r =>
        rw [unescapedClose_escape, Option.map_eq_none_iff] at h
        exact (unbracketed_escape c r).2 (unbracketed_of_unescapedClose h)
    · have hr := unescapedClose_tail he h
      by_cases ho : b = Sign.bracketOpen
      · subst ho
        exact unbracketed_bracketOpen_iff.2 ⟨closeOffset_of_unescapedClose hr, unbracketed_of_unescapedClose hr⟩
      · exact (unbracketed_cons_of_ne he ho).2 (unbracketed_of_unescapedClose hr)

/-- Bytes that neither escape nor open a bracket may be put in front. -/
theorem unbracketed_of_drop {k : Nat} (hne : ∀ b ∈ r.take k, b ≠ Sign.escape ∧ b ≠ Sign.bracketOpen)
    (h : Unbracketed (r.drop k)) : Unbracketed r := by
  induction k generalizing r with
  | zero => exact h
  | succ k ih =>
    cases r with
    | nil => exact h
    | cons b r =>
      rw [List.take_succ_cons, List.forall_mem_cons] at hne
      exact (unbracketed_cons_of_ne hne.1.1 hne.1.2).2 (ih hne.2 h)

/-- **Behind a bracket that is not closed** no bracket is. -/
theorem unbracketed_of_closeOffset (h : closeOffset r = none) : Unbracketed r := by
  have hrest : unescapedClose (r.drop (exempt r)) = none := Option.map_eq_none_iff.1 h
  exact unbracketed_of_drop (fun _ hb => ne_of_mem_take_exempt hb) (unbracketed_of_unescapedClose hrest)

end GlobSieve.Glob
