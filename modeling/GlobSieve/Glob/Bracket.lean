import GlobSieve.CaseMode

/-!
# Where a bracket closes

The bytes that glob patterns give a meaning to (`Sign`), and the rule that closes a bracket. After the opening `[`
come, in this order, an optional `!` or `^` and an optional `]`, neither of which can close it; then the first `]`
that no backslash escapes is the closing one (`closeOffset`). A bracket without such a byte is not closed, and its
`[` is an ordinary byte.
-/

namespace GlobSieve.Glob

namespace Sign

/-- The byte `*`: any text. -/
abbrev star : UInt8 := 42
/-- The byte `?`: any one byte. -/
abbrev query : UInt8 := 63
/-- The byte `[`: opens a bracket. -/
abbrev bracketOpen : UInt8 := 91
/-- The byte `]`: closes a bracket. -/
abbrev bracketClose : UInt8 := 93
/-- The backslash: takes the next byte as it is. -/
abbrev escape : UInt8 := 92
/-- The byte `-`: joins the ends of a range. -/
abbrev dash : UInt8 := 45
/-- The byte `!`: negates a bracket. -/
abbrev bang : UInt8 := 33
/-- The byte `^`: negates a bracket too. -/
abbrev caret : UInt8 := 94

/-- The two bytes that negate a bracket when they come first in it. -/
def negates (b : UInt8) : Bool := b == bang || b == caret

end Sign

/-- The offset of the first `]` that no backslash escapes. -/
def unescapedClose : Bytes → Option Nat
  | [] => none
  | [b] => if b = Sign.bracketClose then some 0 else none
  | b :: c :: r =>
    if b = Sign.escape then (unescapedClose r).map (· + 2)
    else if b = Sign.bracketClose then some 0
    else (unescapedClose (c :: r)).map (· + 1)

/-- The number of leading bytes, after the opening `[`, that cannot close the bracket. -/
def exempt : Bytes → Nat
  | [] => 0
  | b :: r =>
    if Sign.negates b then (if r.head? = some Sign.bracketClose then 2 else 1)
    else if b = Sign.bracketClose then 1 else 0

/-- The offset of the closing `]` in the bytes that follow the opening `[`. -/
def closeOffset (r : Bytes) : Option Nat := (unescapedClose (r.drop (exempt r))).map (exempt r + ·)

/-- Every place of a `[` in the pattern, escaped or not, with the place of the `]` that would close it. -/
def bracketSpans (i : Nat) : Bytes → List (Nat × Option Nat)
  | [] => []
  | b :: r =>
    if b = Sign.bracketOpen then (i, (closeOffset r).map (i + 1 + ·)) :: bracketSpans (i + 1) r
    else bracketSpans (i + 1) r

/-- The byte found is a `]`. -/
theorem getElem?_unescapedClose {r : Bytes} {n : Nat} (h : unescapedClose r = some n) :
    r[n]? = some Sign.bracketClose := by
  fun_induction unescapedClose r generalizing n with
  | case1 => cases h
  | case2 => cases h; simp
  | case3 => cases h
  | case4 c r ih =>
    obtain ⟨k, hk, rfl⟩ := Option.map_eq_some_iff.1 h
    simpa using ih hk
  | case5 => cases h; simp
  | case6 b c r _ _ ih =>
    obtain ⟨k, hk, rfl⟩ := Option.map_eq_some_iff.1 h
    simpa using ih hk

/-- The closing byte of a bracket is a `]`. -/
theorem getElem?_closeOffset {r : Bytes} {n : Nat} (h : closeOffset r = some n) :
    r[n]? = some Sign.bracketClose := by
  obtain ⟨k, hk, rfl⟩ := Option.map_eq_some_iff.1 h
  simpa using getElem?_unescapedClose hk

end GlobSieve.Glob
