import GlobSieve.Glob.Lexeme

/-!
# Tokens

What a lexeme asks of a text. A `Token` other than `star` takes one byte, and `Token.accepts` says which bytes it
takes. The body of a bracket is read into `ClassItem`s: an optional negation, then members, where a backslash takes
the byte after it and `x-y` is a range unless the `-` ends the body.

When case is ignored a class has a byte if it has the lower-case or the upper-case form of it, so a range may have
one form and not the other.
-/

namespace GlobSieve.Glob

/-- A member of a class. -/
inductive ClassItem where
  | single (b : UInt8)
  /-- The bytes from `lo` to `hi`; none if `hi` is the smaller. -/
  | range (lo hi : UInt8)
  deriving DecidableEq, Repr

/-- Whether the byte is one that the item lists. -/
def ClassItem.lists : ClassItem → UInt8 → Bool
  | .single c, b => c == b
  | .range lo hi, b => lo ≤ b && b ≤ hi

/-- What one place of a pattern asks of the text. -/
inductive Token where
  | literal (b : UInt8)
  | any
  /-- Any text, the empty one included. -/
  | star
  | oneOf (negated : Bool) (items : List ClassItem)
  deriving DecidableEq, Repr

/-- Whether a class has the byte, up to the mode. -/
def classHas (m : CaseMode) (items : List ClassItem) (b : UInt8) : Bool :=
  match m with
  | .sensitive => items.any (·.lists b)
  | .insensitive => items.any (·.lists (lowerByte b)) || items.any (·.lists (upperByte b))

/-- Whether the token takes the byte. A star takes a text and not a byte. -/
def Token.accepts (m : CaseMode) : Token → UInt8 → Bool
  | .literal c, b => m.sameByte c b
  | .any, _ => true
  | .star, _ => false
  | .oneOf negated items, b => classHas m items b != negated

/-! ## Reading a bracket -/

/-- The member byte that `b` before `r` stands for, and the rest. -/
def member (b : UInt8) : Bytes → UInt8 × Bytes
  | [] => (b, [])
  | c :: r => if b = Sign.escape then (c, r) else (b, c :: r)

theorem length_member_le (b : UInt8) (r : Bytes) : (member b r).2.length ≤ r.length := by
  unfold member
  repeat' split
  all_goals simp

/-- The item that starts with the byte `b` before `r`, and the rest. -/
def firstItem (b : UInt8) (r : Bytes) : ClassItem × Bytes :=
  match member b r with
  | (lo, d :: c :: r') =>
    if d = Sign.dash then (.range lo (member c r').1, (member c r').2) else (.single lo, d :: c :: r')
  | (lo, r') => (.single lo, r')

theorem length_firstItem_le (b : UInt8) (r : Bytes) : (firstItem b r).2.length ≤ r.length := by
  have h := length_member_le b r
  unfold firstItem
  split
  · next lo d c r' e =>
    rw [e] at h
    have h' := length_member_le c r'
    simp only [List.length_cons] at h
    split
    · show (member c r').2.length ≤ r.length; omega
    · simpa using h
  · next e => rw [e] at h; exact h

/-- The items of a class, in order. -/
def classItems : Bytes → List ClassItem
  | [] => []
  | b :: r => (firstItem b r).1 :: classItems (firstItem b r).2
termination_by body => body.length
decreasing_by exact Nat.lt_succ_of_le (length_firstItem_le b r)

/-- The token of a bracket with this body. -/
def bracketToken : Bytes → Token
  | [] => .oneOf false []
  | b :: r => if Sign.negates b then .oneOf true (classItems r) else .oneOf false (classItems (b :: r))

/-- What a lexeme asks for. A dangling backslash asks for nothing that could be met, and has no token. -/
def Lexeme.token? : Lexeme → Option Token
  | .escaped b => some (.literal b)
  | .dangling => none
  | .star => some .star
  | .query => some .any
  | .bracket body => some (bracketToken body)
  | .plain b => some (.literal b)

/-! ## Stars -/

/-- Put a token in front; a star before a star adds nothing. -/
def consToken : Token → List Token → List Token
  | .star, .star :: ts => .star :: ts
  | t, ts => t :: ts

/-- One star for every row of stars. -/
def mergeStars (ts : List Token) : List Token := ts.foldr consToken []

@[simp] theorem mergeStars_nil : mergeStars [] = [] := rfl

@[simp] theorem mergeStars_cons (t : Token) (ts : List Token) : mergeStars (t :: ts) = consToken t (mergeStars ts) := rfl

end GlobSieve.Glob
