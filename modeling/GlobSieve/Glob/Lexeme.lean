import GlobSieve.Glob.Bracket

/-!
# Lexemes of a glob pattern

A pattern is read once into lexemes, and all that is derived from it (tokens, fragments, needles) is derived from
them. `lex` splits the bytes, `Lexeme.text` is the stretch of the pattern that a lexeme stands for, and the stretches
of the lexemes are the pattern again (`flatMap_text_lex`): reading loses nothing, whatever the bytes.
-/

namespace GlobSieve.Glob

/-- The smallest units of meaning of a pattern. -/
inductive Lexeme where
  /-- A backslash and the byte that it protects. -/
  | escaped (b : UInt8)
  /-- A backslash that ends the pattern. -/
  | dangling
  | star
  | query
  /-- A closed bracket, by the bytes between `[` and `]`. -/
  | bracket (body : Bytes)
  /-- Any other byte, and the `[` of a bracket that is not closed. -/
  | plain (b : UInt8)
  deriving DecidableEq, Repr

namespace Lexeme

/-- The stretch of the pattern that the lexeme was read from. -/
def text : Lexeme → Bytes
  | escaped b => [Sign.escape, b]
  | dangling => [Sign.escape]
  | star => [Sign.star]
  | query => [Sign.query]
  | bracket body => Sign.bracketOpen :: body ++ [Sign.bracketClose]
  | plain b => [b]

/-- The lexeme that starts with the byte `b` before `r`, and the rest. -/
def first (b : UInt8) (r : Bytes) : Lexeme × Bytes :=
  if b = Sign.escape then
    match r with
    | c :: r' => (escaped c, r')
    | [] => (dangling, [])
  else if b = Sign.star then (star, r)
  else if b = Sign.query then (query, r)
  else if b = Sign.bracketOpen then
    match closeOffset r with
    | some n => (bracket (r.take n), r.drop (n + 1))
    | none => (plain b, r)
  else (plain b, r)

theorem length_first_le (b : UInt8) (r : Bytes) : (first b r).2.length ≤ r.length := by
  unfold first
  repeat' split
  all_goals simp

end Lexeme

open Lexeme in
/-- The lexemes of a pattern, in order. -/
def lex : Bytes → List Lexeme
  | [] => []
  | b :: r => (first b r).1 :: lex (first b r).2
termination_by p => p.length
decreasing_by exact Nat.lt_succ_of_le (length_first_le b r)

namespace Lexeme

/-- Nothing of the pattern is lost in its first lexeme. -/
theorem text_first (b : UInt8) (r : Bytes) : (first b r).1.text ++ (first b r).2 = b :: r := by
  unfold first
  split
  · next h => subst h; cases r <;> rfl
  split
  · next h => subst h; rfl
  split
  · next h => subst h; rfl
  split
  · next h =>
    subst h
    cases hc : closeOffset r with
    | none => rfl
    | some n =>
      obtain ⟨hn, hb⟩ := List.getElem?_eq_some_iff.1 (getElem?_closeOffset hc)
      -- what was cut out is put back: the body, the closing byte, and what follows it
      have := List.take_append_drop n r
      rw [List.drop_eq_getElem_cons hn, hb] at this
      simp [text, this]
  · rfl

end Lexeme

@[simp] theorem lex_nil : lex [] = [] := by rw [lex]

theorem lex_cons (b : UInt8) (r : Bytes) : lex (b :: r) = (Lexeme.first b r).1 :: lex (Lexeme.first b r).2 := by
  rw [lex]

/-- The texts of the lexemes, put together, are the pattern. -/
theorem flatMap_text_lex (p : Bytes) : (lex p).flatMap Lexeme.text = p := by
  fun_induction lex p with
  | case1 => rfl
  | case2 b r ih => rw [List.flatMap_cons, ih, Lexeme.text_first]

end GlobSieve.Glob
