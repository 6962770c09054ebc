import GlobSieve.Engine.Basic
import GlobSieve.Proofs.Archive.RoundTrip

/-!
# Damaged archives

An archive that lost bytes at its end is not read, and how it ends says why: if it ends with the number of strings or with one of
the strings, strings are missing, and anywhere else it breaks off. An archive with bytes after its end is not read either.

A string that breaks off is found out when it is read, be it in its length or in its bytes (`readRecord_of_prefix`). For a row of
strings the rest is induction: what is left either has its first string whole, or breaks off in it (`readRecords_of_prefix`).
-/

namespace GlobSieve.Archive

variable {d s x : Bytes} {ps : List Bytes} {k : Nat}

theorem readWord_eq_none (h : d.length < wordSize) : readWord d = none := by
  rw [readWord, if_pos h]

/-- A string that breaks off is not read. -/
theorem readRecord_of_prefix (hs : s.length < 2 ^ 64) (hp : d <+: record s) (hne : d ≠ record s) :
    readRecord d = none := by
  by_cases hw : d.length < wordSize
  · rw [readRecord, readWord_eq_none hw]
  · -- the length is there, and fewer bytes than it says
    have hword : word s.length <+: d := by
      refine List.prefix_of_prefix_length_le (List.prefix_append _ _) hp ?_
      rw [length_word]
      omega
    obtain ⟨r, rfl⟩ := hword
    have hlt : (word s.length ++ r).length < (record s).length :=
      Nat.lt_of_le_of_ne hp.length_le fun he => hne (hp.eq_of_length he)
    have hr : r.length < s.length := by
      simp only [record, List.length_append] at hlt
      omega
    rw [readRecord, readWord_word hs]
    exact if_pos hr

theorem record_ne_nil (s : Bytes) : record s ≠ [] := by
  intro h
  have hlen := congrArg List.length h
  simp [record, wordSize] at hlen

/-- The first `k` strings of a row, in their records. -/
theorem take_succ_flatMap_record (k : Nat) (s : Bytes) (ps : List Bytes) :
    ((s :: ps).take (k + 1)).flatMap record = record s ++ (ps.take k).flatMap record := by
  rw [List.take_succ_cons, List.flatMap_cons]

/-- A row of strings that lost bytes lacks strings, if it ends with one of them, and breaks off otherwise. -/
theorem readRecords_of_prefix (hs : ∀ s ∈ ps, s.length < 2 ^ 64) (hp : d <+: ps.flatMap record)
    (hne : d ≠ ps.flatMap record) :
    ((∃ k < ps.length, d = (ps.take k).flatMap record) ∧ readRecords ps.length d = .error .missing) ∨
      (¬∃ k < ps.length, d = (ps.take k).flatMap record) ∧ readRecords ps.length d = .error .truncated := by
  induction ps generalizing d with
  | nil => exact absurd (List.prefix_nil.1 hp) hne
  | cons s ps ih =>
    have hlen := hs s List.mem_cons_self
    rw [List.flatMap_cons] at hp hne
    by_cases hfirst : record s <+: d
    · -- the first string is whole, and what follows it lost the bytes
      obtain ⟨d', rfl⟩ := hfirst
      have hrest : ∀ s' ∈ ps, s'.length < 2 ^ 64 := fun s' hm => hs s' (List.mem_cons_of_mem _ hm)
      have hp' : d' <+: ps.flatMap record := (List.prefix_append_right_inj _).1 hp
      have hne' : d' ≠ ps.flatMap record := fun he => hne (by rw [he])
      rw [List.length_cons, readRecords_record hlen]
      rcases ih hrest hp' hne' with ⟨⟨k, hk, rfl⟩, hread⟩ | ⟨hno, hread⟩
      · refine .inl ⟨⟨k + 1, by omega, ?_⟩, by rw [hread]; rfl⟩
        rw [take_succ_flatMap_record]
      · refine .inr ⟨?_, by rw [hread]; rfl⟩
        rintro ⟨k, hk, he⟩
        cases k with
        | zero => exact record_ne_nil s (List.append_eq_nil_iff.1 he).1
        | succ k =>
          rw [take_succ_flatMap_record] at he
          exact hno ⟨k, by omega, List.append_cancel_left he⟩
    · cases d with
      | nil => exact .inl ⟨⟨0, Nat.succ_pos _, rfl⟩, rfl⟩
      | cons b d =>
        -- there is no end of a string before that of the first one
        refine .inr ⟨?_, ?_⟩
        · rintro ⟨k, -, he⟩
          cases k with
          | zero => cases he
          | succ k =>
            rw [take_succ_flatMap_record] at he
            exact hfirst ⟨_, he.symm⟩
        · have hbefore : b :: d <+: record s :=
            (List.prefix_or_prefix_of_prefix hp (List.prefix_append _ _)).resolve_right hfirst
          have hread := readRecord_of_prefix hlen hbefore fun he => hfirst (he ▸ List.prefix_rfl)
          rw [List.length_cons, readRecords, hread]

/-- Bytes after the last string are too many. -/
theorem readRecords_append (hs : ∀ s ∈ ps, s.length < 2 ^ 64) (hx : x ≠ []) :
    readRecords ps.length (ps.flatMap record ++ x) = .error .trailing := by
  induction ps with
  | nil =>
    cases x with
    | nil => exact absurd rfl hx
    | cons b x => rfl
  | cons s ps ih =>
    have hrest := ih fun s' hm => hs s' (List.mem_cons_of_mem _ hm)
    rw [List.length_cons, List.flatMap_cons, List.append_assoc, readRecords_record (hs s List.mem_cons_self), hrest]
    rfl

/-- How an archive is found to be damaged that lost bytes at its end. -/
theorem decode_of_prefix (h : Fits ps) (hp : d <+: encode ps) (hne : d ≠ encode ps) :
    ((∃ k < ps.length, d = word ps.length ++ (ps.take k).flatMap record) ∧ decode d = .error .missing) ∨
      (¬∃ k < ps.length, d = word ps.length ++ (ps.take k).flatMap record) ∧ decode d = .error .truncated := by
  by_cases hw : word ps.length <+: d
  · obtain ⟨r, rfl⟩ := hw
    have hp' : r <+: ps.flatMap record := (List.prefix_append_right_inj _).1 hp
    have hne' : r ≠ ps.flatMap record := fun he => hne (by rw [he, encode])
    rw [decode, readWord_word h.count]
    simpa only [List.append_cancel_left_eq] using readRecords_of_prefix h.lengths hp' hne'
  · -- not even the number of strings is there
    refine .inr ⟨?_, ?_⟩
    · rintro ⟨k, -, he⟩
      exact hw ⟨_, he.symm⟩
    · have hlt : d.length < wordSize := by
        refine Nat.lt_of_not_le fun hle => hw ?_
        exact List.prefix_of_prefix_length_le (List.prefix_append _ _) hp (by rwa [length_word])
      rw [decode, readWord_eq_none hlt]

theorem decode_append (h : Fits ps) (hx : x ≠ []) : decode (encode ps ++ x) = .error .trailing := by
  rw [decode, encode, List.append_assoc, readWord_word h.count]
  exact readRecords_append h.lengths hx

end GlobSieve.Archive

namespace GlobSieve.Engine

open Archive

theorem textsOfArchive_of_error {d : Bytes} {defect : Defect} (h : decode d = .error defect) :
    textsOfArchive d = .error (.serialization defect.message) := by
  rw [textsOfArchive, h]
  rfl

/-- **Damage is classified exactly.** An archive that lost bytes at its end, any number of them, lacks strings if it ends with
the number of strings or with one of them, and else it ended unexpectedly; an archive with bytes after its end has too many. -/
theorem textsOfArchive_damaged {ps : List Bytes} (h : Fits ps) :
    (∀ d, d <+: encode ps → d ≠ encode ps →
      let between := 8 ≤ d.length ∧ ∃ k < ps.length, d = word ps.length ++ (ps.take k).flatMap record
      (textsOfArchive d = .error (.serialization "Read fewer patterns than expected") ↔ between) ∧
        (textsOfArchive d = .error (.serialization "Serialization data ended unexpectedly") ↔ ¬between)) ∧
      ∀ x, x ≠ [] →
        textsOfArchive (encode ps ++ x) = .error (.serialization "Read more patterns than expected") := by
  refine ⟨fun d hp hne => ?_, fun x hx => ?_⟩
  · intro between
    have hbetween : between ↔ ∃ k < ps.length, d = word ps.length ++ (ps.take k).flatMap record := by
      refine and_iff_right_of_imp ?_
      rintro ⟨k, -, rfl⟩
      rw [List.length_append, length_word]
      exact Nat.le_add_right _ _
    rw [hbetween]
    rcases decode_of_prefix h hp hne with ⟨hends, hread⟩ | ⟨hno, hread⟩
    · simp [textsOfArchive_of_error hread, hends, Defect.message]
    · simp [textsOfArchive_of_error hread, hno, Defect.message]
  · rw [textsOfArchive_of_error (decode_append h hx)]
    rfl

/-- The archive of `ab`, of two empty strings and of `*`: cut off after the first of the empty strings, cut off in the length of
the second, and with a byte too many. -/
theorem textsOfArchive_damaged_empty :
    let ps : List Bytes := [[97, 98], [], [], [42]]
    Fits ps ∧
      textsOfArchive ((encode ps).take 26) = .error (.serialization "Read fewer patterns than expected") ∧
      textsOfArchive ((encode ps).take 27) = .error (.serialization "Serialization data ended unexpectedly") ∧
      textsOfArchive (encode ps ++ [0]) = .error (.serialization "Read more patterns than expected") := by
  intro ps
  have hfits : Fits ps := ⟨by decide, by decide⟩
  obtain ⟨hcut, hlong⟩ := textsOfArchive_damaged hfits
  have hne (n : Nat) (hn : n < 43) : (encode ps).take n ≠ encode ps := by
    intro he
    have hlen := congrArg List.length he
    have hall : (encode ps).length = 43 := by decide
    rw [List.length_take, hall] at hlen
    omega
  refine ⟨hfits, ?_, ?_, hlong [0] (List.cons_ne_nil _ _)⟩
  · refine (hcut _ (List.take_prefix _ _) (hne 26 (by decide))).1.2 ⟨by decide, 2, by decide, by decide⟩
  · refine (hcut _ (List.take_prefix _ _) (hne 27 (by decide))).2.2 ?_
    rintro ⟨-, hk⟩
    revert hk
    decide

end GlobSieve.Engine
