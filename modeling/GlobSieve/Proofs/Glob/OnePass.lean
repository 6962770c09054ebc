import Mathlib.Data.List.Chain
import GlobSieve.Glob.OnePass
import GlobSieve.Proofs.Glob.Reading

/-!
# Reading in one pass is reading

A `Reader` walks over the lexemes of the pattern, though it never writes them down (`read_eq_foldl`), and a star that it leaves
out is one that `mergeStars` takes away (`mergeStars_concat`). So it reads the same glob (`parseOnePass_eq`). What `mergeStars`
leaves has no star next to a star (`isChain_mergeStars`), and of such tokens it takes none (`mergeStars_of_isChain`).
-/

namespace GlobSieve.Glob

/-- A bracket is read as a class. -/
theorem exists_bracketToken (body : Bytes) : ∃ negated items, bracketToken body = .oneOf negated items := by
  cases body with
  | nil => exact ⟨false, [], rfl⟩
  | cons b r =>
    rw [bracketToken]
    split <;> exact ⟨_, _, rfl⟩

theorem getLast?_consToken (t u : Token) (us : List Token) : (consToken t (u :: us)).getLast? = (u :: us).getLast? := by
  cases t <;> cases u <;> simp [consToken]

/-- Of a row of tokens the last is left out if it is a star after a star. -/
theorem mergeStars_concat (ts : List Token) (tok : Token) : mergeStars (ts ++ [tok]) =
    if (mergeStars ts).getLast? = some .star ∧ tok = .star then mergeStars ts else mergeStars ts ++ [tok] := by
  induction ts with
  | nil => simp [consToken]
  | cons t ts ih =>
    rw [List.cons_append, mergeStars_cons, mergeStars_cons, ih]
    generalize mergeStars ts = us
    cases us with
    | nil => cases t <;> cases tok <;> simp [consToken]
    | cons u us =>
      rw [getLast?_consToken]
      split
      · rfl
      · cases t <;> cases u <;> simp [consToken]

theorem consToken_of_not_star {tok : Token} {ts : List Token} (h : ∀ u ∈ ts.head?, ¬(tok = .star ∧ u = .star)) :
    consToken tok ts = tok :: ts := by
  unfold consToken
  split
  · simp at h
  · rfl

/-- Where no two stars stand together there is nothing to merge. -/
theorem mergeStars_of_isChain {ts : List Token} (h : ts.IsChain fun a b => ¬(a = .star ∧ b = .star)) :
    mergeStars ts = ts := by
  induction ts with
  | nil => rfl
  | cons tok ts ih =>
    rw [List.isChain_cons] at h
    rw [mergeStars_cons, ih h.2, consToken_of_not_star h.1]

theorem isChain_mergeStars (ts : List Token) : (mergeStars ts).IsChain fun a b => ¬(a = .star ∧ b = .star) := by
  induction ts with
  | nil => exact .nil
  | cons tok ts ih =>
    rw [mergeStars_cons]
    unfold consToken
    split
    · next he => rw [← he]; exact ih
    · next hne =>
      refine List.isChain_cons.2 ⟨fun u hu hs => ?_, ih⟩
      obtain ⟨us, hus⟩ := List.head?_eq_some_iff.1 hu
      rw [hs.2] at hus
      exact hne us hs.1 hus

theorem mem_of_mem_mergeStars {tok : Token} {ts : List Token} (h : tok ∈ mergeStars ts) : tok ∈ ts := by
  induction ts with
  | nil => exact h
  | cons t ts ih =>
    rw [mergeStars_cons] at h
    unfold consToken at h
    split at h
    · next he => exact List.mem_cons_of_mem _ (ih (he ▸ h))
    · rcases List.mem_cons.1 h with rfl | h
      · exact List.mem_cons_self
      · exact List.mem_cons_of_mem _ (ih h)

theorem Lexeme.token?_eq_none_iff {x : Lexeme} : x.token? = none ↔ x = .dangling := by
  cases x <;> simp [token?]

namespace Reader

/-- What a lexeme adds to what was read. -/
def feed (rd : Reader) (x : Lexeme) : Reader :=
  match x.token? with
  | some .star => rd.pushStar
  | some tok => rd.push tok
  | none => { rd with dangling := true }

theorem feed_bracket (rd : Reader) (body : Bytes) : rd.feed (.bracket body) = rd.push (bracketToken body) := by
  obtain ⟨negated, items, he⟩ := exists_bracketToken body
  simp only [feed, Lexeme.token?, he]

/-- A pass takes one lexeme after another. -/
theorem read_eq_foldl (rd : Reader) (p : Bytes) : rd.read p = (lex p).foldl feed rd := by
  fun_induction read rd p with
  | case1 => simp
  | case2 rd c r ih => rw [lex_escape, ih]; rfl
  | case3 rd => rw [lex_escape_nil]; rfl
  | case4 rd r _ ih => rw [lex_star, ih]; rfl
  | case5 rd r _ _ ih => rw [lex_query, ih]; rfl
  | case6 rd r n hc _ _ _ ih => rw [lex_bracket hc, ih, List.foldl_cons, feed_bracket]
  | case7 rd r hc _ _ _ ih => rw [lex_unclosed hc, ih]; rfl
  | case8 rd b r h1 h2 h3 h4 ih => rw [lex_plain r h1 h2 h3 h4, ih]; rfl

theorem foldl_feed_start (xs : List Lexeme) :
    xs.foldl feed start = ⟨mergeStars (xs.filterMap Lexeme.token?), xs.contains .dangling⟩ := by
  induction xs using List.reverseRecOn with
  | nil => rfl
  | append_singleton xs x ih =>
    rw [List.foldl_concat, ih]
    cases htok : x.token? with
    | none =>
      obtain rfl := Lexeme.token?_eq_none_iff.1 htok
      rw [List.filterMap_append, List.filterMap_cons_none htok, List.filterMap_nil, List.append_nil, feed, htok]
      simp
    | some tok =>
      have hne : x ≠ .dangling := fun e => by rw [Lexeme.token?_eq_none_iff.2 e] at htok; cases htok
      have htoks : (xs ++ [x]).filterMap Lexeme.token? = xs.filterMap Lexeme.token? ++ [tok] := by
        rw [List.filterMap_append, List.filterMap_cons_some htok, List.filterMap_nil]
      have hdangling : (xs ++ [x]).contains .dangling = xs.contains .dangling := by simp [hne.symm]
      rw [htoks, mergeStars_concat, hdangling, feed, htok]
      by_cases hstar : tok = .star
      · subst hstar
        simp only [pushStar, push, and_true]
        split <;> rfl
      · rw [if_neg fun h => hstar h.2]
        cases tok <;> simp_all [push]

end Reader

/-- The glob read in one pass is the glob. -/
theorem parseOnePass_eq (m : CaseMode) (p : Bytes) : parseOnePass m p = parse m p := by
  rw [parseOnePass, Reader.read_eq_foldl, Reader.foldl_feed_start]
  rfl

end GlobSieve.Glob
