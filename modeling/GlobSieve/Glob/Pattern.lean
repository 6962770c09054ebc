import GlobSieve.Glob.Token

/-!
# Compiled globs and matching

`Glob.parse` makes a `Glob` of any byte string; no pattern is rejected. A pattern that ends in a dangling backslash
matches no text.

`Glob.accepts` decides whether a text matches. Between two stars the tokens are compared byte by byte (`advance`);
only the star met last is ever tried again, one byte further on (`seek`), because an earlier star cannot gain
anything once the tokens up to the next one have been placed as far left as possible. A match costs at most the
product of the two lengths.
-/

namespace GlobSieve

/-- A pattern made ready for matching. -/
structure Glob where
  mode : CaseMode
  tokens : List Glob.Token
  /-- The pattern ends in a backslash that protects nothing. -/
  dangling : Bool
  deriving DecidableEq, Repr

namespace Glob

/-- Read a pattern. -/
def parse (m : CaseMode) (p : Bytes) : Glob where
  mode := m
  tokens := mergeStars ((lex p).filterMap Lexeme.token?)
  dangling := (lex p).contains .dangling

/-- How a comparison of tokens with a text ends, byte by byte and up to the first star. -/
inductive Progress where
  /-- Tokens and text ended together. -/
  | done
  /-- A star was met: the tokens after it and the text that is left. -/
  | atStar (ts : List Token) (t : Bytes)
  | mismatch
  deriving DecidableEq, Repr

/-- Compare tokens with the start of a text until a star, a mismatch or the end of both. -/
def advance (m : CaseMode) : List Token → Bytes → Progress
  | [], [] => .done
  | [], _ :: _ => .mismatch
  | .star :: ts, t => .atStar ts t
  | _ :: _, [] => .mismatch
  | tok :: ts, b :: t => if tok.accepts m b then advance m ts t else .mismatch

theorem length_le_of_advance {m : CaseMode} {ts ts' : List Token} {t t' : Bytes}
    (h : advance m ts t = .atStar ts' t') : t'.length ≤ t.length ∧ ts'.length < ts.length := by
  fun_induction advance m ts t with
  | case1 => cases h
  | case2 => cases h
  | case3 => cases h; simp
  | case4 => cases h
  | case5 tok ts b t _ _ ih =>
    have := ih h
    simp only [List.length_cons]; omega
  | case6 => cases h

/-- Whether the tokens after a star match the text or one of its later parts. The first place that reaches the next
star is kept. -/
def seek (m : CaseMode) (ts : List Token) (t : Bytes) : Bool :=
  match _h : advance m ts t with
  | .done => true
  | .atStar ts' t' => seek m ts' t'
  | .mismatch =>
    match t with
    | [] => false
    | _ :: t' => seek m ts t'
termination_by ts.length + t.length
decreasing_by
  · have := length_le_of_advance _h; omega
  · simp

/-- Whether the tokens match the whole text. -/
def matchTokens (m : CaseMode) (ts : List Token) (t : Bytes) : Bool :=
  match advance m ts t with
  | .done => true
  | .atStar ts' t' => seek m ts' t'
  | .mismatch => false

/-- Whether the text matches. -/
def accepts (g : Glob) (t : Bytes) : Bool := !g.dangling && matchTokens g.mode g.tokens t

end Glob

/-- Match a text against a pattern that is not kept, with case counting. -/
def globMatch (p t : Bytes) : Bool := (Glob.parse .sensitive p).accepts t

end GlobSieve
