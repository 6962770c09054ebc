import GlobSieve.CaseMode

/-!
# Reading bytes as text

`decodeLossy` reads bytes as UTF-8 and never fails: where the bytes are not well formed it puts the replacement
character `U+FFFD`, one for every longest stretch that begins like a character and cannot be completed. Reading goes
on with the byte that broke the stretch.
-/

namespace GlobSieve.Text

/-- What a byte announces at the start of a character. -/
structure Lead where
  /-- How many continuation bytes follow. -/
  more : Nat
  /-- The bits that the byte itself carries. -/
  bits : Nat
  /-- The least first continuation byte; larger than usual where a shorter form exists. -/
  low : UInt8
  /-- The greatest first continuation byte; smaller than usual before surrogates and past the last character. -/
  high : UInt8
  deriving DecidableEq, Repr

/-- What a first byte announces; `none` for a byte that starts no character. -/
def lead (b : UInt8) : Option Lead :=
  if b < 0x80 then some ⟨0, b.toNat, 0x80, 0xBF⟩
  else if b < 0xC2 then none
  else if b < 0xE0 then some ⟨1, b.toNat - 0xC0, 0x80, 0xBF⟩
  else if b = 0xE0 then some ⟨2, 0, 0xA0, 0xBF⟩
  else if b = 0xED then some ⟨2, 0xD, 0x80, 0x9F⟩
  else if b < 0xF0 then some ⟨2, b.toNat - 0xE0, 0x80, 0xBF⟩
  else if b = 0xF0 then some ⟨3, 0, 0x90, 0xBF⟩
  else if b < 0xF4 then some ⟨3, b.toNat - 0xF0, 0x80, 0xBF⟩
  else if b = 0xF4 then some ⟨3, 4, 0x80, 0x8F⟩
  else none

/-- Read the remaining `k` continuation bytes of a character. The code point, if they are there, and what is left:
from the byte that broke the character, if they are not. -/
def continuation : (k : Nat) → (low high : UInt8) → (bits : Nat) → Bytes → Option Nat × Bytes
  | 0, _, _, bits, t => (some bits, t)
  | _ + 1, _, _, _, [] => (none, [])
  | k + 1, low, high, bits, b :: t =>
    if low ≤ b ∧ b ≤ high then continuation k 0x80 0xBF (bits * 64 + b.toNat % 64) t else (none, b :: t)

theorem length_continuation_le (k : Nat) (low high : UInt8) (bits : Nat) (t : Bytes) :
    (continuation k low high bits t).2.length ≤ t.length := by
  fun_induction continuation k low high bits t with
  | case1 => exact Nat.le_refl _
  | case2 => exact Nat.le_refl _
  | case3 _ _ _ _ _ _ _ ih => exact Nat.le_succ_of_le ih
  | case4 => exact Nat.le_refl _

/-- The replacement character. -/
def replacement : Char := '\uFFFD'

/-- The character that `b` before `t` stands for, or the replacement character, and the rest. -/
def firstChar (b : UInt8) (t : Bytes) : Char × Bytes :=
  match lead b with
  | none => (replacement, t)
  | some l =>
    match continuation l.more l.low l.high l.bits t with
    | (some code, rest) => (Char.ofNat code, rest)
    | (none, rest) => (replacement, rest)

theorem length_firstChar_le (b : UInt8) (t : Bytes) : (firstChar b t).2.length ≤ t.length := by
  unfold firstChar
  cases lead b with
  | none => exact Nat.le_refl _
  | some l =>
    have h := length_continuation_le l.more l.low l.high l.bits t
    dsimp only
    split
    · next e => rw [e] at h; exact h
    · next e => rw [e] at h; exact h

/-- The characters of bytes read as text. -/
def decodeLossy : Bytes → List Char
  | [] => []
  | b :: t => (firstChar b t).1 :: decodeLossy (firstChar b t).2
termination_by t => t.length
decreasing_by exact Nat.lt_succ_of_le (length_firstChar_le b t)

end GlobSieve.Text
