import GlobSieve.Glob.Pattern

/-!
# Matching in place

The match of `Glob.accepts`, made on arrays with one place in the tokens and one in the text (`Cursor`). A turn passes a
star, or compares a token with a byte; when they do not fit, it goes back to the star met last and lets it stand for one
byte more. Stars before that one are forgotten. At the end of the text nothing but stars may be left of the tokens.

Both places jump, so it is not plain from a turn that the turns come to an end, nor that the tokens can be cut where the
cursor stands. `Glob.acceptsInPlace?` therefore allows a limited number of turns, about the product of the two lengths, and
has no answer when they run out or when the cut is out of range.
-/

namespace GlobSieve.Glob

/-- Where a match in place stands. -/
structure Cursor where
  /-- The place of the next token. -/
  token : Nat
  /-- The place of the next byte. -/
  byte : Nat
  /-- The place of the star met last, and the end of the text that it stands for. -/
  retry : Option (Nat × Nat)
  deriving DecidableEq, Repr

/-- How a turn ends. -/
inductive Turn where
  | goOn (c : Cursor)
  | answer (b : Bool)
  /-- The tokens left over cannot be cut off, as the cursor is beyond the last one. -/
  | outOfRange
  deriving DecidableEq, Repr

namespace Cursor

/-- Before the first token and the first byte. -/
def start : Cursor := ⟨0, 0, none⟩

/-- Let the star met last stand for one byte more. Without a star there is no match. -/
def fallBack (c : Cursor) : Turn :=
  match c.retry with
  | some (star, stop) => .goOn ⟨star + 1, stop + 1, some (star, stop + 1)⟩
  | none => .answer false

/-- Pass a star, compare one token with one byte, or finish at the end of the text. -/
def turn (m : CaseMode) (ts : Array Token) (t : Array UInt8) (c : Cursor) : Turn :=
  if h : c.byte < t.size then
    match ts[c.token]? with
    | some .star => .goOn ⟨c.token + 1, c.byte, some (c.token, c.byte)⟩
    | some tok => if tok.accepts m t[c.byte] then .goOn ⟨c.token + 1, c.byte + 1, c.retry⟩ else c.fallBack
    | none => c.fallBack
  else if c.token ≤ ts.size then .answer ((ts.toList.drop c.token).all (· == .star))
  else .outOfRange

/-- The answer that at most `k` turns lead to. -/
def answer? (m : CaseMode) (ts : Array Token) (t : Array UInt8) : (k : Nat) → Cursor → Option Bool
  | 0, _ => none
  | k + 1, c =>
    match c.turn m ts t with
    | .goOn c' => answer? m ts t k c'
    | .answer b => some b
    | .outOfRange => none

end Cursor

/-- Whether the text matches, found in place. -/
def acceptsInPlace? (g : Glob) (t : Bytes) : Option Bool :=
  if g.dangling then some false
  else Cursor.start.answer? g.mode g.tokens.toArray t.toArray (g.tokens.length * (t.length + 1) + 1)

end GlobSieve.Glob
