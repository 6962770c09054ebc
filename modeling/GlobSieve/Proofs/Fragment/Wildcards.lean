import GlobSieve.Fragment.Decomposition

/-!
# Patterns of wildcards

A pattern has no fragment when all its bytes are wildcards (`fragments_eq_nil_iff`), so `wildcardOnly` says of a pattern
that it is a row of one or more `*` and `?` (`wildcardOnly_iff`).
-/

namespace GlobSieve

/-- There is no run when nothing is kept. -/
theorem runs_eq_nil_iff {α β : Type} {f : α → Option β} {l : List α} : runs f l = [] ↔ ∀ a ∈ l, f a = none := by
  induction l with
  | nil => simp
  | cons a l ih =>
    cases hf : f a with
    | none => simp [runs_cons_none hf, ih, hf]
    | some b => simp [runs, openRuns, consRun, hf]

open Glob

/-- Whether the byte is one of the wildcards, when it stands by itself. -/
def isWildcardByte (b : UInt8) : Bool := b == Sign.star || b == Sign.query

/-- A wildcard is read as itself. -/
theorem lex_cons_of_isWildcardByte {b : UInt8} (h : isWildcardByte b = true) (r : Bytes) :
    ∃ x : Lexeme, x.isWildcard = true ∧ lex (b :: r) = x :: lex r := by
  rw [lex_cons]
  simp only [isWildcardByte, Bool.or_eq_true, beq_iff_eq] at h
  rcases h with rfl | rfl
  · exact ⟨.star, rfl, rfl⟩
  · exact ⟨.query, rfl, rfl⟩

theorem isWildcardByte_of_mem_text {x : Lexeme} (h : x.isWildcard = true) {b : UInt8} (hb : b ∈ x.text) :
    isWildcardByte b = true := by
  cases x with
  | star => rw [List.mem_singleton.1 hb]; rfl
  | query => rw [List.mem_singleton.1 hb]; rfl
  | escaped c => cases h
  | dangling => cases h
  | bracket body => cases h
  | plain c => cases h

/-- A pattern reads as wildcards when its bytes are wildcards. -/
theorem isWildcard_lex_iff {p : Bytes} : (∀ x ∈ lex p, x.isWildcard = true) ↔ ∀ b ∈ p, isWildcardByte b = true := by
  constructor
  · intro h b hb
    rw [← flatMap_text_lex p] at hb
    obtain ⟨x, hx, hbx⟩ := List.mem_flatMap.1 hb
    exact isWildcardByte_of_mem_text (h x hx) hbx
  · intro h
    induction p with
    | nil => simp
    | cons b r ih =>
      obtain ⟨x, hx, hlex⟩ := lex_cons_of_isWildcardByte (h b List.mem_cons_self) r
      rw [hlex, List.forall_mem_cons]
      exact ⟨hx, ih fun c hc => h c (List.mem_cons_of_mem _ hc)⟩

theorem fragmentText?_eq_none_iff {x : Lexeme} : x.fragmentText? = none ↔ x.isWildcard = true := by
  cases h : x.isWildcard <;> simp [Lexeme.fragmentText?, h]

theorem fragments_eq_nil_iff {p : Bytes} : fragments p = [] ↔ ∀ b ∈ p, isWildcardByte b = true := by
  rw [fragments, List.map_eq_nil_iff, runs_eq_nil_iff]
  simp only [fragmentText?_eq_none_iff]
  exact isWildcard_lex_iff

theorem wildcardOnly_iff {p : Bytes} : wildcardOnly p = true ↔ p ≠ [] ∧ ∀ b ∈ p, isWildcardByte b = true := by
  rw [wildcardOnly, Bool.and_eq_true, List.isEmpty_iff, fragments_eq_nil_iff]
  cases p <;> simp

end GlobSieve
