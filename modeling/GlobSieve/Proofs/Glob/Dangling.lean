import Mathlib.Algebra.Ring.Parity
import Mathlib.Data.List.DropRight
import GlobSieve.Glob.Pattern
import GlobSieve.Proofs.Glob.Reading

/-!
# Backslashes at the end of a pattern

The last backslash of a pattern dangles just if the pattern ends in an odd number of them, whatever escapes and brackets come
before (`dangling_parse_iff`). For a lexeme that is followed by others ends in no backslash or in two
(`even_trailingEscapes_text`): a closed bracket ends in its `]`, whatever stands in it, and an escape is a pair. So taking it
away keeps the parity.
-/

namespace GlobSieve.Glob

/-- The number of backslashes that a pattern ends in. -/
def trailingEscapes (p : Bytes) : Nat := (p.rtakeWhile (· == Sign.escape)).length

variable {b : UInt8} {p r u v : Bytes}

theorem trailingEscapes_concat (p : Bytes) (b : UInt8) :
    trailingEscapes (p ++ [b]) = if b = Sign.escape then trailingEscapes p + 1 else 0 := by
  rw [trailingEscapes, List.rtakeWhile_concat]
  by_cases h : b = Sign.escape
  · simp [h, trailingEscapes]
  · simp [h]

/-- An even number of backslashes in front does not change the parity. -/
theorem odd_trailingEscapes_append (hu : Even (trailingEscapes u)) (v : Bytes) :
    Odd (trailingEscapes (u ++ v)) ↔ Odd (trailingEscapes v) := by
  induction v using List.reverseRecOn with
  | nil =>
    rw [List.append_nil]
    exact iff_of_false (Nat.not_odd_iff_even.2 hu) (by simp [trailingEscapes])
  | append_singleton v b ih =>
    rw [← List.append_assoc, trailingEscapes_concat, trailingEscapes_concat]
    split
    · rw [Nat.odd_add_one, Nat.odd_add_one, ih]
    · rfl

/-- A lexeme that does not dangle ends in no backslash, or in two. -/
theorem even_trailingEscapes_text (h : (Lexeme.first b r).1 ≠ .dangling) :
    Even (trailingEscapes (Lexeme.first b r).1.text) := by
  have hlast {q : Bytes} {c : UInt8} (hc : c ≠ Sign.escape) : Even (trailingEscapes (q ++ [c])) := by
    rw [trailingEscapes_concat, if_neg hc]
    exact Even.zero
  unfold Lexeme.first at h ⊢
  split
  · next he =>
    rw [if_pos he] at h
    cases r with
    | nil => exact absurd rfl h
    | cons c r =>
      by_cases hc : c = Sign.escape
      · subst hc
        exact (by decide : Even (trailingEscapes [Sign.escape, Sign.escape]))
      · exact hlast (q := [Sign.escape]) hc
  split
  · exact hlast (q := []) (by decide)
  split
  · exact hlast (q := []) (by decide)
  split
  · cases closeOffset r with
    | none => exact hlast (q := []) ‹_›
    | some n => exact hlast (q := Sign.bracketOpen :: r.take n) Sign.bracketClose_ne_escape
  · exact hlast (q := []) ‹_›

/-- A backslash dangles where nothing follows it. -/
theorem of_first_eq_dangling (h : (Lexeme.first b r).1 = .dangling) : b = Sign.escape ∧ r = [] := by
  unfold Lexeme.first at h
  split at h
  · next he =>
    cases r with
    | nil => exact ⟨he, rfl⟩
    | cons c r => cases h
  split at h
  · cases h
  split at h
  · cases h
  split at h
  · cases hc : closeOffset r with
    | none => rw [hc] at h; cases h
    | some n => rw [hc] at h; cases h
  · cases h

theorem dangling_mem_lex_iff : .dangling ∈ lex p ↔ Odd (trailingEscapes p) := by
  fun_induction lex p with
  | case1 => simp [trailingEscapes]
  | case2 b r ih =>
    by_cases hd : (Lexeme.first b r).1 = .dangling
    · obtain ⟨rfl, rfl⟩ := of_first_eq_dangling hd
      exact iff_of_true (by simp [hd]) (by decide)
    · rw [List.mem_cons, ih, ← Lexeme.text_first b r, odd_trailingEscapes_append (even_trailingEscapes_text hd)]
      exact or_iff_right (Ne.symm hd)

theorem dangling_parse_iff (m : CaseMode) (p : Bytes) : (parse m p).dangling = true ↔ Odd (trailingEscapes p) := by
  rw [parse, List.contains_iff_mem, dangling_mem_lex_iff]

end GlobSieve.Glob
