import Mathlib.Data.List.Infix
import GlobSieve.Glob.Lexeme

/-!
# A stretch of a pattern reads as it did in the pattern

The stretch of a pattern between two boundaries of lexemes, read as a pattern of its own, has the lexemes that it has in
the pattern (`lex_flatMap_text_of_infix`). So a fragment may be cut out and read again. What could go wrong is a bracket
that closes in one text and not in the other; but a bracket that closes within a text closes there whatever follows
(`closeOffset_append`).
-/

namespace GlobSieve.Glob

/-! ## Brackets -/

theorem Sign.bracketClose_ne_escape : Sign.bracketClose ≠ Sign.escape := by decide

theorem unescapedClose_append {r x : Bytes} {n : Nat} (hn : n < r.length) :
    unescapedClose (r ++ x) = some n ↔ unescapedClose r = some n := by
  fun_induction unescapedClose r generalizing n with
  | case1 => simp at hn
  | case2 =>
    obtain rfl : n = 0 := by simpa using hn
    cases x <;> simp [unescapedClose, Sign.bracketClose_ne_escape]
  | case3 b hb =>
    obtain rfl : n = 0 := by simpa using hn
    cases x with
    | nil => simp [unescapedClose, hb]
    | cons c x => by_cases he : b = Sign.escape <;> simp [unescapedClose, hb, he]
  | case4 c r ih =>
    simp only [List.cons_append, unescapedClose, if_true, Option.map_eq_some_iff]
    refine exists_congr fun k => ⟨fun h => ⟨?_, h.2⟩, fun h => ⟨?_, h.2⟩⟩
    · exact (ih (by simp at hn; omega)).1 h.1
    · exact (ih (by simp at hn; omega)).2 h.1
  | case5 => simp [unescapedClose, Sign.bracketClose_ne_escape]
  | case6 b c r h1 h2 ih =>
    simp only [List.cons_append, unescapedClose, if_neg h1, if_neg h2, Option.map_eq_some_iff]
    refine exists_congr fun k => ⟨fun h => ⟨?_, h.2⟩, fun h => ⟨?_, h.2⟩⟩
    · exact (ih (by simp at hn ⊢; omega)).1 h.1
    · exact (ih (by simp at hn ⊢; omega)).2 h.1

/-- One byte after the opening does not close a bracket. -/
theorem closeOffset_cons_ne_zero (b : UInt8) (r : Bytes) : closeOffset (b :: r) ≠ some 0 := by
  intro h
  obtain ⟨k, hk, e⟩ := Option.map_eq_some_iff.1 h
  have hex : exempt (b :: r) = 0 := by omega
  obtain rfl : k = 0 := by omega
  rw [hex] at hk
  obtain rfl : b = Sign.bracketClose := by simpa using getElem?_unescapedClose hk
  -- a bracket may begin with its closing byte, which is exempt then
  have hno : Sign.negates Sign.bracketClose = false := by decide
  simp [exempt, hno] at hex

/-- Whether a bracket closes within a text does not depend on what follows. -/
theorem closeOffset_append {r x : Bytes} {n : Nat} (hn : n < r.length) :
    closeOffset (r ++ x) = some n ↔ closeOffset r = some n := by
  match r, hn with
  | [b], hn =>
    obtain rfl : n = 0 := by simpa using hn
    exact iff_of_false (closeOffset_cons_ne_zero b x) (closeOffset_cons_ne_zero b [])
  | b :: c :: r, hn =>
    have hex : exempt (b :: c :: r ++ x) = exempt (b :: c :: r) := rfl
    have hle : exempt (b :: c :: r) ≤ (b :: c :: r).length := by
      unfold exempt
      repeat' split
      all_goals simp
    simp only [closeOffset, hex, List.drop_append_of_le_length hle, Option.map_eq_some_iff]
    refine exists_congr fun k => ⟨fun h => ⟨?_, h.2⟩, fun h => ⟨?_, h.2⟩⟩
    · exact (unescapedClose_append (by rw [List.length_drop]; omega)).1 h.1
    · exact (unescapedClose_append (by rw [List.length_drop]; omega)).2 h.1

/-! ## Lexemes -/

theorem lex_escape (c : UInt8) (r : Bytes) : lex (Sign.escape :: c :: r) = .escaped c :: lex r := lex_cons _ _

theorem lex_escape_nil : lex [Sign.escape] = [.dangling] := by
  rw [lex_cons]
  exact congrArg _ lex_nil

theorem lex_star (r : Bytes) : lex (Sign.star :: r) = .star :: lex r := lex_cons _ _

theorem lex_query (r : Bytes) : lex (Sign.query :: r) = .query :: lex r := lex_cons _ _

theorem first_bracketOpen (r : Bytes) : Lexeme.first Sign.bracketOpen r =
    match closeOffset r with
    | some n => (.bracket (r.take n), r.drop (n + 1))
    | none => (.plain Sign.bracketOpen, r) := rfl

theorem lex_bracket {r : Bytes} {n : Nat} (h : closeOffset r = some n) :
    lex (Sign.bracketOpen :: r) = .bracket (r.take n) :: lex (r.drop (n + 1)) := by
  rw [lex_cons, first_bracketOpen, h]

theorem lex_unclosed {r : Bytes} (h : closeOffset r = none) :
    lex (Sign.bracketOpen :: r) = .plain Sign.bracketOpen :: lex r := by
  rw [lex_cons, first_bracketOpen, h]

theorem lex_plain {b : UInt8} (r : Bytes) (h1 : b ≠ Sign.escape) (h2 : b ≠ Sign.star) (h3 : b ≠ Sign.query)
    (h4 : b ≠ Sign.bracketOpen) : lex (b :: r) = .plain b :: lex r := by
  have hfirst : Lexeme.first b r = (.plain b, r) := by simp only [Lexeme.first, h1, h2, h3, h4, if_false]
  rw [lex_cons, hfirst]

/-- The first lexeme is the same before any beginning of the rest. -/
theorem first_of_prefix {b : UInt8} {r q : Bytes} (hq : q <+: (Lexeme.first b r).2) :
    ∃ r', (Lexeme.first b r).1.text ++ q = b :: r' ∧ Lexeme.first b r' = ((Lexeme.first b r).1, q) := by
  unfold Lexeme.first at hq ⊢
  split
  · next h =>
    subst h
    cases r with
    | nil =>
      obtain rfl : q = [] := List.prefix_nil.1 hq
      exact ⟨[], rfl, rfl⟩
    | cons c r => exact ⟨c :: q, rfl, rfl⟩
  next h1 =>
  split
  · next h => exact ⟨q, by simp [Lexeme.text, h], rfl⟩
  next h2 =>
  split
  · next h => exact ⟨q, by simp [Lexeme.text, h], rfl⟩
  next h3 =>
  split
  · next h4 =>
    subst h4
    simp only [if_neg h1, if_neg h2, if_neg h3, if_true] at hq
    cases hc : closeOffset r with
    | none =>
      rw [hc] at hq
      refine ⟨q, rfl, ?_⟩
      -- the bracket does not close in what is left of the text either
      cases hc' : closeOffset q with
      | none => simp
      | some n =>
        obtain ⟨x, rfl⟩ := hq
        have hn := (List.getElem?_eq_some_iff.1 (getElem?_closeOffset hc')).1
        rw [(closeOffset_append hn).2 hc'] at hc
        cases hc
    | some n =>
      rw [hc] at hq
      obtain ⟨x, hx : q ++ x = r.drop (n + 1)⟩ := hq
      obtain ⟨hn, hb⟩ := List.getElem?_eq_some_iff.1 (getElem?_closeOffset hc)
      have hlen : (r.take n).length = n := List.length_take_of_le (by omega)
      have hr : r = (r.take n ++ Sign.bracketClose :: q) ++ x := by
        conv => lhs; rw [← List.take_append_drop n r, List.drop_eq_getElem_cons hn, hb, ← hx]
        simp
      have hc' : closeOffset (r.take n ++ Sign.bracketClose :: q) = some n := by
        rw [hr] at hc
        refine (closeOffset_append ?_).1 hc
        rw [List.length_append, hlen]
        simp
      refine ⟨r.take n ++ Sign.bracketClose :: q, by simp [Lexeme.text], ?_⟩
      simp [hc', List.take_append_of_le_length (Nat.le_of_eq hlen.symm), List.drop_append, hlen]
  · next h4 => exact ⟨q, rfl, rfl⟩

theorem lex_flatMap_text_of_prefix {p : Bytes} {xs : List Lexeme} (h : xs <+: lex p) :
    lex (xs.flatMap Lexeme.text) = xs := by
  fun_induction lex p generalizing xs with
  | case1 => rw [List.prefix_nil.1 h]; exact lex_nil
  | case2 b r ih =>
    rcases List.prefix_cons_iff.1 h with rfl | ⟨ys, rfl, hys⟩
    · exact lex_nil
    · have hq : ys.flatMap Lexeme.text <+: (Lexeme.first b r).2 := by
        obtain ⟨zs, hzs⟩ := hys
        rw [← flatMap_text_lex (Lexeme.first b r).2, ← hzs, List.flatMap_append]
        exact List.prefix_append _ _
      obtain ⟨r', hr', hfirst⟩ := first_of_prefix hq
      rw [List.flatMap_cons, hr', lex_cons, hfirst, ih hys]

theorem lex_flatMap_text_of_suffix {p : Bytes} {ys : List Lexeme} (h : ys <:+ lex p) :
    lex (ys.flatMap Lexeme.text) = ys := by
  fun_induction lex p with
  | case1 => rw [List.suffix_nil.1 h]; exact lex_nil
  | case2 b r ih =>
    rcases List.suffix_cons_iff.1 h with rfl | h
    · rw [← lex_cons, flatMap_text_lex]
    · exact ih h

/-- A stretch of a pattern reads as it did in the pattern. -/
theorem lex_flatMap_text_of_infix {p : Bytes} {xs : List Lexeme} (h : xs <:+: lex p) :
    lex (xs.flatMap Lexeme.text) = xs := by
  obtain ⟨as, bs, h⟩ := h
  have hs : xs ++ bs <:+ lex p := ⟨as, by rw [← List.append_assoc]; exact h⟩
  refine lex_flatMap_text_of_prefix (p := (xs ++ bs).flatMap Lexeme.text) ?_
  rw [lex_flatMap_text_of_suffix hs]
  exact List.prefix_append xs bs

end GlobSieve.Glob
