import GlobSieve.Text.Quoted

/-!
# Why a literal is refused

The causes for which a scanner refuses a literal, their wording (`message`), and the form that shows constructor and
contents (`inspect`).
-/

namespace GlobSieve

/-- Why a literal cannot be added to a scanner, or the scanner cannot be finished. -/
inductive LiteralError where
  /-- The empty literal, which would be everywhere. -/
  | zeroLength
  | tooLong (length limit : Nat)
  /-- The literal is known already, under this id. -/
  | duplicate (id : Nat)
  | resourceLimit (detail : String)
  deriving DecidableEq, Repr

namespace LiteralError

def message : LiteralError → String
  | zeroLength => "Invalid literal: zero length"
  | tooLong length limit => s!"Invalid literal: length {length} exceeds maximum {limit}"
  | duplicate id => s!"Duplicate literal (id {id})"
  | resourceLimit detail => s!"Resource limit exceeded: {detail}"

def inspect : LiteralError → String
  | zeroLength => "ZeroLength"
  | tooLong length limit => s!"TooLong \x7b len: {length}, max: {limit} \x7d"
  | duplicate id => s!"Duplicate({id})"
  | resourceLimit detail => s!"ResourceLimitExceeded({Text.quoted detail.toList})"

end LiteralError

end GlobSieve
