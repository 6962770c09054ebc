import GlobSieve.Fragment.OnePass
import GlobSieve.Fragment.Needles
import GlobSieve.Proofs.Fragment.Pieces
import GlobSieve.Proofs.Glob.Unclosed
import GlobSieve.Proofs.Pattern.Grouping

/-!
# Cutting in one pass is cutting

A `Splitter` and an `Extractor` walk over the lexemes of a pattern, though they look for no bracket behind one that is not
closed (`Splitter.walk_eq_foldl`, `Extractor.walk_eq_foldl`): there is none to be found (`unbracketed_of_closeOffset`).
What they close on the way are the runs between wildcards, and between brackets. So they come to the same fragments
(`fragmentsOnePass_eq`) and needles (`needlesOnePass_eq`).
-/

namespace GlobSieve

open Glob

theorem text_bracket {r : Bytes} {n : Nat} (h : closeOffset r = some n) :
    (Lexeme.bracket (r.take n)).text = Sign.bracketOpen :: r.take (n + 1) := by
  rw [List.take_add_one, getElem?_closeOffset h]
  rfl

/-! ## Fragments -/

namespace Splitter

/-- What a lexeme does to the fragments. -/
def feed (s : Splitter) (x : Lexeme) : Splitter := if x.isWildcard then s.close else s.keep x.text

/-- A pass takes one lexeme after another, if it has not given up brackets too early. -/
theorem walk_eq_foldl {brackets : Bool} {p : Bytes} (s : Splitter) (h : brackets = false → Unbracketed p) :
    s.walk brackets p = (lex p).foldl feed s := by
  fun_induction walk brackets s p with
  | case1 => simp
  | case2 brackets s r ih =>
    rw [ih fun hb => (h hb).of_escape]
    cases r with
    | nil => rw [lex_escape_nil]; simp [feed, Lexeme.isWildcard, Lexeme.text]
    | cons c r => rw [lex_escape]; rfl
  | case3 brackets s b r he hw ih =>
    rw [ih fun hb => (h hb).tail he]
    rcases hw with rfl | rfl
    · rw [lex_star]; rfl
    · rw [lex_query]; rfl
  | case4 brackets s b r _ _ ho n hc ih =>
    obtain ⟨rfl, rfl⟩ := ho
    rw [ih (by simp), lex_bracket hc, List.foldl_cons, ← text_bracket hc]
    rfl
  | case5 brackets s b r _ _ ho hc ih =>
    obtain ⟨rfl, rfl⟩ := ho
    -- from here on it looks for no bracket, and there is none
    rw [ih fun _ => unbracketed_of_closeOffset hc, lex_unclosed hc]
    rfl
  | case6 brackets s b r he hw ho ih =>
    rw [ih fun hb => (h hb).tail he]
    rw [not_or] at hw
    by_cases hopen : b = Sign.bracketOpen
    · have hb : brackets = false := by simpa [hopen] using ho
      rw [hopen, lex_unclosed ((h hb).closeOffset_eq_none hopen)]
      rfl
    · rw [lex_plain r he hw.1 hw.2 hopen]
      rfl

theorem closed_close (s : Splitter) (rs : List Bytes) : s.close.closed ++ rs = s.closed ++ consRun s.current rs := by
  unfold close
  split
  · next h => rw [consRun, if_pos h]
  · next h => rw [consRun, if_neg h, List.append_assoc, List.singleton_append]

theorem current_close (s : Splitter) : s.close.current = [] := by
  unfold close
  split
  · next h => exact List.isEmpty_iff.1 h
  · rfl

/-- What is closed in the end are the texts of the runs of lexemes without a wildcard. -/
theorem closed_foldl_feed (s : Splitter) (xs : List Lexeme) : (xs.foldl feed s).close.closed =
    s.closed ++ consRun (s.current ++ (openRuns Lexeme.inside? xs).1.flatMap Lexeme.text)
      ((openRuns Lexeme.inside? xs).2.map (List.flatMap Lexeme.text)) := by
  induction xs generalizing s with
  | nil =>
    have hlast := closed_close s []
    rw [List.append_nil] at hlast
    rw [List.foldl_nil, hlast]
    simp [openRuns]
  | cons x xs ih =>
    rw [List.foldl_cons, ih, feed, openRuns, Lexeme.inside?_eq]
    cases x.isWildcard with
    | false => simp [keep]
    | true =>
      simp only [if_true, current_close, List.nil_append, closed_close, List.flatMap_nil, List.append_nil,
        map_consRun (isEmpty_flatMap_text _)]

end Splitter

/-- The fragments cut out in one pass are the fragments. -/
theorem fragmentsOnePass_eq (p : Bytes) : fragmentsOnePass p = fragments p := by
  rw [fragmentsOnePass, Splitter.walk_eq_foldl _ (by simp), Splitter.closed_foldl_feed, fragments_eq_pieces, pieces, runs,
    map_consRun (isEmpty_flatMap_text _)]
  rfl

theorem wildcardOnlyOnePass_eq (p : Bytes) : wildcardOnlyOnePass p = wildcardOnly p := by
  rw [wildcardOnlyOnePass, fragmentsOnePass_eq, wildcardOnly]

/-! ## Needles -/

/-- A byte that neither protects the next nor opens a bracket is asked for as it stands. -/
theorem exists_lex_of_ne {b : UInt8} (r : Bytes) (he : b ≠ Sign.escape) (ho : b ≠ Sign.bracketOpen) :
    ∃ x, lex (b :: r) = x :: lex r ∧ x.needleByte? = some b := by
  by_cases hs : b = Sign.star
  · exact ⟨.star, by rw [hs, lex_star], by rw [hs]; rfl⟩
  by_cases hq : b = Sign.query
  · exact ⟨.query, by rw [hq, lex_query], by rw [hq]; rfl⟩
  exact ⟨.plain b, lex_plain r he hs hq ho, rfl⟩

namespace Extractor

/-- What a lexeme does to the needles. -/
def feed (x : Extractor) (l : Lexeme) : Extractor :=
  match l.needleByte? with
  | some b => x.push b
  | none => x.flush

/-- A pass takes one lexeme after another, if it has not given up brackets too early. -/
theorem walk_eq_foldl {brackets : Bool} {f : Bytes} (x : Extractor) (h : brackets = false → Unbracketed f) :
    x.walk brackets f = (lex f).foldl feed x := by
  fun_induction walk brackets x f with
  | case1 => simp
  | case2 brackets x c r ih =>
    rw [ih fun hb => (h hb).of_escape, lex_escape]
    rfl
  | case3 brackets x => rw [lex_escape_nil]; rfl
  | case4 brackets x b r _ ho n hc ih =>
    obtain ⟨rfl, rfl⟩ := ho
    rw [ih (by simp), lex_bracket hc]
    rfl
  | case5 brackets x b r _ ho hc ih =>
    obtain ⟨rfl, rfl⟩ := ho
    -- as for the fragments: no later bracket is closed either
    rw [ih fun _ => unbracketed_of_closeOffset hc, lex_unclosed hc]
    rfl
  | case6 brackets x b r he ho ih =>
    rw [ih fun hb => (h hb).tail he]
    by_cases hopen : b = Sign.bracketOpen
    · have hb : brackets = false := by simpa [hopen] using ho
      rw [hopen, lex_unclosed ((h hb).closeOffset_eq_none hopen)]
      rfl
    · obtain ⟨y, hy, hbyte⟩ := exists_lex_of_ne r he hopen
      rw [hy, List.foldl_cons, feed, hbyte]

/-- A needle that is one already is not listed again. -/
theorem needles_flush {x : Extractor} {done : List Bytes} (h : x.needles = done.eraseDups) :
    x.flush.needles = (done ++ consRun x.run []).eraseDups := by
  rw [flush, consRun, h]
  cases hrun : x.run.isEmpty with
  | true => simp
  | false =>
    rw [if_neg Bool.false_ne_true, eraseDups_concat]
    simp

/-- The needles in the end are the runs, each listed once. -/
theorem needles_foldl_feed {x : Extractor} {done : List Bytes} (h : x.needles = done.eraseDups) (ls : List Lexeme) :
    (ls.foldl feed x).flush.needles = (done ++ consRun (x.run ++ (openRuns Lexeme.needleByte? ls).1)
      (openRuns Lexeme.needleByte? ls).2).eraseDups := by
  induction ls generalizing x done with
  | nil => simpa [openRuns] using needles_flush h
  | cons l ls ih =>
    rw [List.foldl_cons, feed, openRuns]
    cases l.needleByte? with
    | some b =>
      have hpush : (x.push b).needles = done.eraseDups := h
      rw [ih hpush]
      simp [push]
    | none =>
      rw [ih (needles_flush h)]
      simp only [flush, List.nil_append, List.append_nil, List.append_assoc, ← consRun_eq_append]

end Extractor

/-- The needles taken out in one pass are the needles. -/
theorem needlesOnePass_eq (f : Bytes) : needlesOnePass f = needles f := by
  have hstart : Extractor.start.needles = ([] : List Bytes).eraseDups := rfl
  rw [needlesOnePass, Extractor.walk_eq_foldl _ (by simp), Extractor.needles_foldl_feed hstart]
  rfl

end GlobSieve
