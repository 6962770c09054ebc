import Mathlib.Algebra.Group.Nat.Defs
import GlobSieve.Archive

/-!
# Words and strings of an archive

A number that fits into a word is read back from it, and so is a string from its record, with nothing taken of what
follows (`readWord_word`, `readRecord_record`); and only a word is read as a word, only a record as a string
(`eq_word_of_readWord`, `eq_record_of_readRecord`).
-/

namespace GlobSieve.Archive

@[simp] theorem length_littleEndian : ∀ (k n : Nat), (littleEndian k n).length = k
  | 0, _ => rfl
  | k + 1, n => congrArg (· + 1) (length_littleEndian k (n / 256))

/-- A number that fits is read back from its bytes. -/
theorem ofLittleEndian_littleEndian : ∀ {k n : Nat}, n < 256 ^ k → ofLittleEndian (littleEndian k n) = n
  | 0, n, h => by
    rw [Nat.pow_zero] at h
    simp only [littleEndian, ofLittleEndian]
    omega
  | k + 1, n, h => by
    have hd : n / 256 < 256 ^ k := by
      rw [Nat.pow_succ] at h
      omega
    rw [littleEndian, ofLittleEndian, ofLittleEndian_littleEndian hd, UInt8.toNat_ofNat']
    omega

/-- Bytes are read back from their number. -/
theorem littleEndian_ofLittleEndian : ∀ d : Bytes, littleEndian d.length (ofLittleEndian d) = d
  | [] => rfl
  | b :: r => by
    have hb := b.toNat_lt
    have hm : (b.toNat + 256 * ofLittleEndian r) % 256 = b.toNat := by omega
    have hd : (b.toNat + 256 * ofLittleEndian r) / 256 = ofLittleEndian r := by omega
    rw [List.length_cons, ofLittleEndian, littleEndian, hm, hd, littleEndian_ofLittleEndian r, UInt8.ofNat_toNat]

@[simp] theorem length_word (n : Nat) : (word n).length = wordSize := length_littleEndian _ _

/-- A word is read back, and nothing after it. -/
theorem readWord_word {n : Nat} (h : n < 2 ^ 64) (r : Bytes) : readWord (word n ++ r) = some (n, r) := by
  have hl : ¬ (word n ++ r).length < wordSize := by
    rw [List.length_append, length_word]
    omega
  rw [readWord, if_neg hl, List.take_left' (length_word n), List.drop_left' (length_word n), word,
    ofLittleEndian_littleEndian (by simpa [wordSize] using h)]

/-- Only a word is read as one. -/
theorem eq_word_of_readWord {d r : Bytes} {n : Nat} (h : readWord d = some (n, r)) : d = word n ++ r := by
  unfold readWord at h
  split at h
  · cases h
  · next hl =>
    cases h
    have ht : (d.take wordSize).length = wordSize := List.length_take_of_le (by omega)
    have := littleEndian_ofLittleEndian (d.take wordSize)
    rw [ht] at this
    rw [word, this, List.take_append_drop]

/-- A string is read back, and nothing after it. -/
theorem readRecord_record {s : Bytes} (h : s.length < 2 ^ 64) (r : Bytes) :
    readRecord (record s ++ r) = some (s, r) := by
  have hl : ¬ (s ++ r).length < s.length := by
    rw [List.length_append]
    omega
  rw [readRecord, record, List.append_assoc, readWord_word h]
  dsimp only
  rw [if_neg hl, List.take_left, List.drop_left]

/-- Only a string with its length before it is read as one. -/
theorem eq_record_of_readRecord {d s r : Bytes} (h : readRecord d = some (s, r)) : d = record s ++ r := by
  unfold readRecord at h
  split at h
  · cases h
  · next n r' hw =>
    split at h
    · cases h
    · next hl =>
      cases h
      have ht : (r'.take n).length = n := List.length_take_of_le (by omega)
      rw [record, ht, List.append_assoc, List.take_append_drop]
      exact eq_word_of_readWord hw

end GlobSieve.Archive
