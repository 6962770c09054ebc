import GlobSieve.CaseMode

/-!
# Archives of patterns

A list of byte strings is written as its length and then each string as its length and its bytes; lengths are
eight-byte words, least significant byte first. `decode` accepts exactly what `encode` writes and says of anything
else what is wrong with it (`Defect`).
-/

namespace GlobSieve.Archive

/-- Why bytes are no archive. -/
inductive Defect where
  /-- The bytes end inside a word or a string. -/
  | truncated
  /-- The bytes end after a whole string, before as many were read as promised. -/
  | missing
  /-- Bytes follow the last string. -/
  | trailing
  deriving DecidableEq, Repr

/-- The wording of a defect. -/
def Defect.message : Defect → String
  | truncated => "Serialization data ended unexpectedly"
  | missing => "Read fewer patterns than expected"
  | trailing => "Read more patterns than expected"

/-- The `k` low bytes of a number, least significant first. -/
def littleEndian : Nat → Nat → Bytes
  | 0, _ => []
  | k + 1, n => UInt8.ofNat (n % 256) :: littleEndian k (n / 256)

/-- The number whose bytes these are, least significant first. -/
def ofLittleEndian : Bytes → Nat
  | [] => 0
  | b :: r => b.toNat + 256 * ofLittleEndian r

/-- The number of bytes of a word. -/
def wordSize : Nat := 8

/-- The word of a number below `2 ^ 64`. -/
def word (n : Nat) : Bytes := littleEndian wordSize n

/-- One string with its length before it. -/
def record (s : Bytes) : Bytes := word s.length ++ s

/-- Write a list of strings. -/
def encode (ps : List Bytes) : Bytes := word ps.length ++ ps.flatMap record

/-- The word at the start of the bytes, and the rest. -/
def readWord (d : Bytes) : Option (Nat × Bytes) :=
  if d.length < wordSize then none else some (ofLittleEndian (d.take wordSize), d.drop wordSize)

/-- The string at the start of the bytes, and the rest. -/
def readRecord (d : Bytes) : Option (Bytes × Bytes) :=
  match readWord d with
  | none => none
  | some (n, r) => if r.length < n then none else some (r.take n, r.drop n)

/-- Read `n` strings, which must end where the bytes end. -/
def readRecords : Nat → Bytes → Except Defect (List Bytes)
  | 0, [] => .ok []
  | 0, _ :: _ => .error .trailing
  | _ + 1, [] => .error .missing
  | n + 1, b :: d =>
    match readRecord (b :: d) with
    | none => .error .truncated
    | some (s, r) => (readRecords n r).map (s :: ·)

/-- Read a list of strings. -/
def decode (d : Bytes) : Except Defect (List Bytes) :=
  match readWord d with
  | none => .error .truncated
  | some (n, r) => readRecords n r

end GlobSieve.Archive
