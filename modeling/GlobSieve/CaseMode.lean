/-!
# Bytes and letter case

Patterns and texts are byte strings. A `CaseMode` says whether the ASCII letters `A`–`Z` and `a`–`z` are told apart:

* `CaseMode.fold` sends a byte to the representative of its class, the lower-case letter when case is ignored;
* two bytes are equal up to a mode (`CaseMode.sameByte`) exactly when they fold to the same byte.

Bytes outside the two ASCII letter ranges are never changed, so folding keeps the length of a text.
-/

namespace GlobSieve

/-- A byte string; no encoding is assumed. -/
abbrev Bytes := List UInt8

/-- The lower-case form of an ASCII capital; any other byte is its own. -/
def lowerByte (b : UInt8) : UInt8 := if 65 ≤ b ∧ b ≤ 90 then b + 32 else b

/-- The upper-case form of a small ASCII letter; any other byte is its own. -/
def upperByte (b : UInt8) : UInt8 := if 97 ≤ b ∧ b ≤ 122 then b - 32 else b

/-- Whether the case of ASCII letters counts. -/
inductive CaseMode where
  | sensitive
  | insensitive
  deriving DecidableEq, Repr, Inhabited

namespace CaseMode

/-- The representative of a byte among those that the mode does not tell apart. -/
def fold : CaseMode → UInt8 → UInt8
  | sensitive, b => b
  | insensitive, b => lowerByte b

/-- Fold every byte of a text. -/
def foldBytes (m : CaseMode) (t : Bytes) : Bytes := t.map m.fold

/-- Equality of bytes up to the mode. -/
def sameByte (m : CaseMode) (a b : UInt8) : Bool := m.fold a == m.fold b

/-- The name of the mode in reports. -/
def label : CaseMode → String
  | sensitive => "CaseSensitive"
  | insensitive => "CaseInsensitive"

/-- A representative represents itself. -/
@[simp] theorem fold_fold (m : CaseMode) (b : UInt8) : m.fold (m.fold b) = m.fold b := by
  cases m with
  | sensitive => rfl
  | insensitive =>
    simp only [fold, lowerByte]
    split
    · next h =>
      -- a small letter is no capital
      rw [if_neg]
      intro h'
      simp only [UInt8.le_iff_toNat_le, UInt8.toNat_add, UInt8.reduceToNat] at h h'
      omega
    · rfl

theorem sameByte_iff {m : CaseMode} {a b : UInt8} : m.sameByte a b = true ↔ m.fold a = m.fold b := beq_iff_eq

@[simp] theorem foldBytes_nil (m : CaseMode) : m.foldBytes [] = [] := rfl

@[simp] theorem foldBytes_cons (m : CaseMode) (b : UInt8) (t : Bytes) :
    m.foldBytes (b :: t) = m.fold b :: m.foldBytes t := rfl

@[simp] theorem length_foldBytes (m : CaseMode) (t : Bytes) : (m.foldBytes t).length = t.length :=
  List.length_map _

theorem foldBytes_append (m : CaseMode) (s t : Bytes) : m.foldBytes (s ++ t) = m.foldBytes s ++ m.foldBytes t :=
  List.map_append

@[simp] theorem foldBytes_foldBytes (m : CaseMode) (t : Bytes) : m.foldBytes (m.foldBytes t) = m.foldBytes t := by
  simp [foldBytes]

@[simp] theorem foldBytes_sensitive (t : Bytes) : sensitive.foldBytes t = t := List.map_id t

end CaseMode

end GlobSieve
