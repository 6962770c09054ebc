import GlobSieve.Proofs.Archive.Words

/-!
# What is read is what was written

A list of strings is read back from its archive, if the number of strings and the length of each fit into a word
(`Fits`), and what is read from bytes is written as these bytes again (`decode_encode`, `encode_of_decode`). So writing and
reading are inverse to each other between the lists that fit and the bytes that are accepted (`encode_bijective`): no list
has two archives, and no byte of an archive is passed over.
-/

namespace GlobSieve.Archive

variable {d r s : Bytes} {n : Nat} {ps : List Bytes}

/-- The number of strings and the length of each fit into a word. -/
structure Fits (ps : List Bytes) : Prop where
  count : ps.length < 2 ^ 64
  lengths : ∀ s ∈ ps, s.length < 2 ^ 64

/-! ## Bounds -/

/-- Bytes are no more than a number of as many bytes. -/
theorem ofLittleEndian_lt : ∀ d : Bytes, ofLittleEndian d < 256 ^ d.length
  | [] => Nat.one_pos
  | b :: r => by
    have hb := b.toNat_lt
    have hr := ofLittleEndian_lt r
    rw [List.length_cons, Nat.pow_succ, ofLittleEndian]
    omega

theorem lt_of_readWord (h : readWord d = some (n, r)) : n < 2 ^ 64 := by
  unfold readWord at h
  split at h
  · cases h
  · next hl =>
    cases h
    have hlen : (d.take wordSize).length = wordSize := List.length_take_of_le (by omega)
    have hlt := ofLittleEndian_lt (d.take wordSize)
    rw [hlen] at hlt
    exact hlt

/-- A string that is read is as long as the word before it says. -/
theorem length_lt_of_readRecord (h : readRecord d = some (s, r)) : s.length < 2 ^ 64 := by
  unfold readRecord at h
  split at h
  · cases h
  · next n r' hw =>
    have hlt := lt_of_readWord hw
    split at h
    · cases h
    · cases h
      have hle := List.length_take_le n r'
      omega

/-! ## Rows of strings -/

/-- A string is read from a row, and the others from what follows. -/
theorem readRecords_record (hs : s.length < 2 ^ 64) (n : Nat) (r : Bytes) :
    readRecords (n + 1) (record s ++ r) = (readRecords n r).map (s :: ·) := by
  have hread := readRecord_record hs r
  cases hd : record s ++ r with
  | nil =>
    have hlen := congrArg List.length hd
    simp [record, wordSize] at hlen
  | cons b d => rw [readRecords, ← hd, hread]

theorem readRecords_flatMap_record (h : ∀ s ∈ ps, s.length < 2 ^ 64) :
    readRecords ps.length (ps.flatMap record) = .ok ps := by
  induction ps with
  | nil => rfl
  | cons s ps ih =>
    have hrest := ih fun s' hs' => h s' (List.mem_cons_of_mem _ hs')
    rw [List.length_cons, List.flatMap_cons, readRecords_record (h s List.mem_cons_self), hrest]
    rfl

/-- Only a row of as many strings is read. -/
theorem of_readRecords (h : readRecords n d = .ok ps) :
    ps.length = n ∧ ps.flatMap record = d ∧ ∀ s ∈ ps, s.length < 2 ^ 64 := by
  fun_induction readRecords n d generalizing ps with
  | case1 => cases h; simp
  | case2 => cases h
  | case3 => cases h
  | case4 n b d hread => cases h
  | case5 n b d s r hread ih =>
    cases hr : readRecords n r with
    | error defect => rw [hr] at h; cases h
    | ok ps' =>
      rw [hr] at h
      cases h
      obtain ⟨hlen, hrow, hfit⟩ := ih hr
      refine ⟨by rw [List.length_cons, hlen], ?_, ?_⟩
      · rw [List.flatMap_cons, hrow]
        exact (eq_record_of_readRecord hread).symm
      · intro s' hs'
        rcases List.mem_cons.1 hs' with rfl | hs'
        · exact length_lt_of_readRecord hread
        · exact hfit s' hs'

/-! ## Archives -/

/-- A list is read back from its archive. -/
theorem decode_encode (h : Fits ps) : decode (encode ps) = .ok ps := by
  rw [decode, encode, readWord_word h.count]
  exact readRecords_flatMap_record h.lengths

/-- What is read has the bytes as its archive. -/
theorem encode_of_decode (h : decode d = .ok ps) : encode ps = d ∧ Fits ps := by
  unfold decode at h
  split at h
  · cases h
  · next n r hw =>
    obtain ⟨hlen, hrow, hfit⟩ := of_readRecords h
    refine ⟨?_, hlen ▸ lt_of_readWord hw, hfit⟩
    rw [encode, hlen, hrow]
    exact (eq_word_of_readWord hw).symm

/-- **Writing is a bijection** from the lists that fit to the bytes that are accepted, and reading is its inverse. -/
theorem encode_bijective :
    (∀ ps, Fits ps → decode (encode ps) = .ok ps) ∧
      (∀ d ps, decode d = .ok ps → encode ps = d ∧ Fits ps) ∧
      ∀ d d' ps, decode d = .ok ps → decode d' = .ok ps → d = d' := by
  refine ⟨fun ps h => decode_encode h, fun d ps h => encode_of_decode h, fun d d' ps h h' => ?_⟩
  rw [← (encode_of_decode h).1, ← (encode_of_decode h').1]

example : encode [[97, 98], []] =
    [2, 0, 0, 0, 0, 0, 0, 0, 2, 0, 0, 0, 0, 0, 0, 0, 97, 98, 0, 0, 0, 0, 0, 0, 0, 0] := by decide

end GlobSieve.Archive
