import GlobSieve.Proofs.Fragment.Gaps

/-!
# Fragments cut again

A fragment is its own only fragment, and the fragments of a pattern with one star between neighbours are cut apart as they
were (`fragments_rejoin`).

The second is not plain, since a bracket that is not closed in the pattern might be closed in the joined text, by a byte of a
later fragment. But only a `]` that no backslash escapes can close a bracket, and a bracket that it does not close has no such
byte behind it, except where it comes first (`closeOffset_eq_none_iff`). Joining takes wildcards out and puts stars in, so no
bracket finds a byte that closes it (`closeOffset_starJoin`), and the joined text has the lexemes of the pattern with fewer
wildcards (`Reads.starJoin`).
-/

namespace GlobSieve

theorem intercalate_singleton_cons {α : Type} (a : α) (r : List α) (rs : List (List α)) :
    [a].intercalate (r :: rs) = r ++ rs.flatMap (a :: ·) := by
  induction rs generalizing r with
  | nil => simp
  | cons s rs ih => simp [ih]

namespace Glob

variable {b : UInt8} {r : Bytes} {x : Lexeme} {xs ys : List Lexeme}

/-! ## Brackets that are not closed -/

/-- A bracket is not closed where no byte closes it, apart from a `]` that comes first, or first behind a negation. -/
theorem closeOffset_eq_none_iff : closeOffset r = none ↔ unescapedClose r = none ∨ ∃ rest, unescapedClose rest = none ∧
    (r = Sign.bracketClose :: rest ∨ ∃ n, Sign.negates n = true ∧ r = n :: Sign.bracketClose :: rest) := by
  constructor
  · intro h
    have hrest : unescapedClose (r.drop (exempt r)) = none := Option.map_eq_none_iff.1 h
    cases r with
    | nil => exact .inl rfl
    | cons b r =>
      rw [exempt] at hrest
      split at hrest
      · next hneg =>
        split at hrest
        · next hclose =>
          obtain ⟨rest, rfl⟩ := List.head?_eq_some_iff.1 hclose
          exact .inr ⟨rest, hrest, .inr ⟨b, hneg, rfl⟩⟩
        · -- the sign of a negation neither escapes nor closes
          have hne : b ≠ Sign.escape ∧ b ≠ Sign.bracketClose := by
            constructor <;> rintro rfl <;> exact absurd hneg (by decide)
          refine .inl ?_
          rw [unescapedClose_of_ne_escape hne.1, if_neg hne.2]
          exact Option.map_eq_none_iff.2 hrest
      · split at hrest
        · next hclose => exact .inr ⟨r, hrest, .inl (congrArg (· :: r) hclose)⟩
        · exact .inl hrest
  · rintro (h | ⟨rest, h, rfl | ⟨n, hn, rfl⟩⟩)
    · exact closeOffset_of_unescapedClose h
    · exact Option.map_eq_none_iff.2 h
    · have hexempt : exempt (n :: Sign.bracketClose :: rest) = 2 := by simp [exempt, hn]
      rw [closeOffset, hexempt]
      exact Option.map_eq_none_iff.2 h

/-! ## Rows of lexemes that are read as they are -/

/-- The text of the lexemes is read as these lexemes. -/
def Reads (xs : List Lexeme) : Prop := lex (xs.flatMap Lexeme.text) = xs

theorem reads_lex (p : Bytes) : Reads (lex p) := by rw [Reads, flatMap_text_lex]

namespace Reads

theorem tail (h : Reads (x :: xs)) : Reads xs := by
  refine lex_flatMap_text_of_suffix (p := (x :: xs).flatMap Lexeme.text) ?_
  rw [h]
  exact List.suffix_cons x xs

theorem star (h : Reads xs) : Reads (.star :: xs) := (lex_star _).trans (congrArg _ h)

/-- A backslash dangles at the end only. -/
theorem eq_nil_of_dangling (h : Reads (.dangling :: xs)) : xs = [] := by
  have hlex : lex (Sign.escape :: xs.flatMap Lexeme.text) = .dangling :: xs := h
  cases hr : xs.flatMap Lexeme.text with
  | nil => exact List.isEmpty_iff.1 (by rw [← isEmpty_flatMap_text, hr]; rfl)
  | cons c r =>
    rw [hr, lex_escape] at hlex
    cases hlex

/-- A bracket is closed by its own last byte. -/
theorem closeOffset_bracket {body : Bytes} (h : Reads (.bracket body :: xs)) :
    closeOffset (body ++ [Sign.bracketClose]) = some body.length := by
  have hlex : lex (Sign.bracketOpen :: (body ++ [Sign.bracketClose] ++ xs.flatMap Lexeme.text)) = .bracket body :: xs := h
  cases hc : closeOffset (body ++ [Sign.bracketClose] ++ xs.flatMap Lexeme.text) with
  | none =>
    rw [lex_unclosed hc] at hlex
    cases hlex
  | some n =>
    have hn := (List.getElem?_eq_some_iff.1 (getElem?_closeOffset hc)).1
    rw [lex_bracket hc, List.cons.injEq] at hlex
    have hbody : body.length = n := by
      rw [← Lexeme.bracket.inj hlex.1, List.length_take_of_le (Nat.le_of_lt hn)]
    rw [← hbody] at hc
    exact (closeOffset_append (by simp)).1 hc

/-- A byte that is read by itself is no sign, or it is a `[` of a bracket that is not closed. -/
theorem of_plain (h : Reads (.plain b :: xs)) : b ≠ Sign.escape ∧ b ≠ Sign.star ∧ b ≠ Sign.query ∧
    (b = Sign.bracketOpen → closeOffset (xs.flatMap Lexeme.text) = none) := by
  have hlex : lex (b :: xs.flatMap Lexeme.text) = .plain b :: xs := h
  refine ⟨?_, ?_, ?_, ?_⟩
  · rintro rfl
    cases hr : xs.flatMap Lexeme.text with
    | nil =>
      rw [hr, lex_escape_nil] at hlex
      cases hlex
    | cons c r =>
      rw [hr, lex_escape] at hlex
      cases hlex
  · rintro rfl
    rw [lex_star] at hlex
    cases hlex
  · rintro rfl
    rw [lex_query] at hlex
    cases hlex
  · rintro rfl
    cases hc : closeOffset (xs.flatMap Lexeme.text) with
    | none => rfl
    | some n =>
      rw [lex_bracket hc] at hlex
      cases hlex

/-- A lexeme may be put before other lexemes, unless it dangles or is a `[` that would be closed there. -/
theorem cons_of_tail (h : Reads (x :: xs)) (hys : Reads ys) (hd : x = .dangling → ys = [])
    (hclose : closeOffset (xs.flatMap Lexeme.text) = none → closeOffset (ys.flatMap Lexeme.text) = none) :
    Reads (x :: ys) := by
  have htail : lex (ys.flatMap Lexeme.text) = ys := hys
  cases x with
  | escaped c => exact (lex_escape c _).trans (congrArg _ htail)
  | dangling =>
    rw [hd rfl]
    exact lex_escape_nil
  | star => exact hys.star
  | query => exact (lex_query _).trans (congrArg _ htail)
  | bracket body =>
    have hc : closeOffset (body ++ [Sign.bracketClose] ++ ys.flatMap Lexeme.text) = some body.length :=
      (closeOffset_append (by simp)).2 h.closeOffset_bracket
    refine (lex_bracket hc).trans ?_
    simp [htail]
  | plain b =>
    obtain ⟨h1, h2, h3, h4⟩ := h.of_plain
    by_cases ho : b = Sign.bracketOpen
    · subst ho
      exact (lex_unclosed (hclose (h4 rfl))).trans (congrArg _ htail)
    · exact (lex_plain _ h1 h2 h3 ho).trans (congrArg _ htail)

/-- A text that begins with a byte without a meaning of its own begins with it as a lexeme. -/
theorem eq_plain_cons (h : Reads xs) (ht : xs.flatMap Lexeme.text = b :: r) (h1 : b ≠ Sign.escape) (h2 : b ≠ Sign.star)
    (h3 : b ≠ Sign.query) (h4 : b ≠ Sign.bracketOpen) : ∃ ys, xs = .plain b :: ys ∧ ys.flatMap Lexeme.text = r := by
  refine ⟨lex r, ?_, flatMap_text_lex r⟩
  rw [← h, ht, lex_plain r h1 h2 h3 h4]

end Reads

/-! ## Stars for wildcards -/

/-- The lexemes with one star for the wildcards between two pieces, and none behind the last piece. -/
def starJoin (xs : List Lexeme) : List Lexeme :=
  (openRuns Lexeme.inside? xs).1 ++ (openRuns Lexeme.inside? xs).2.flatMap (.star :: ·)

theorem starJoin_cons_inside (hx : x.isWildcard = false) : starJoin (x :: xs) = x :: starJoin xs := by
  rw [starJoin, openRuns, Lexeme.inside?_eq, hx]
  rfl

theorem starJoin_cons_wildcard (hx : x.isWildcard = true) : starJoin (x :: xs) =
    if (openRuns Lexeme.inside? xs).1.isEmpty then starJoin xs else .star :: starJoin xs := by
  rw [starJoin, openRuns, Lexeme.inside?_eq, hx, starJoin]
  cases (openRuns Lexeme.inside? xs).1 <;> rfl

/-- The stars cut where the wildcards did. -/
theorem openRuns_starJoin (xs : List Lexeme) : openRuns Lexeme.inside? (starJoin xs) = openRuns Lexeme.inside? xs := by
  induction xs with
  | nil => rfl
  | cons x xs ih =>
    cases hx : x.isWildcard with
    | false => rw [starJoin_cons_inside hx, openRuns, openRuns, ih]
    | true =>
      have hcut : openRuns Lexeme.inside? (x :: xs) =
          ([], consRun (openRuns Lexeme.inside? xs).1 (openRuns Lexeme.inside? xs).2) := by
        rw [openRuns, Lexeme.inside?_eq, hx]
        rfl
      rw [starJoin_cons_wildcard hx, hcut]
      split
      · next hopen => rw [ih, consRun, if_pos hopen, ← List.isEmpty_iff.1 hopen]
      · rw [openRuns, ih]
        rfl

theorem runs_starJoin (xs : List Lexeme) : runs Lexeme.inside? (starJoin xs) = runs Lexeme.inside? xs := by
  rw [runs, openRuns_starJoin]
  rfl

/-- Joining the pieces by stars gives the same row, less a star in front. -/
theorem starJoin_eq (xs : List Lexeme) : starJoin xs = [.star].intercalate (runs Lexeme.inside? xs) ∨
    starJoin xs = .star :: [.star].intercalate (runs Lexeme.inside? xs) := by
  rw [starJoin, runs]
  cases (openRuns Lexeme.inside? xs).1 with
  | cons y ys => exact .inl (intercalate_singleton_cons _ _ _).symm
  | nil =>
    cases (openRuns Lexeme.inside? xs).2 with
    | nil => exact .inl rfl
    | cons r rs =>
      refine .inr ?_
      show _ = Lexeme.star :: [Lexeme.star].intercalate (r :: rs)
      rw [intercalate_singleton_cons]
      rfl

theorem mem_starJoin : ∀ {xs : List Lexeme}, x ∈ starJoin xs → x = .star ∨ x ∈ xs
  | [], h => .inr h
  | y :: xs, h => by
    have hxs : x ∈ starJoin xs → x = .star ∨ x ∈ y :: xs := fun hm => (mem_starJoin hm).imp_right (List.mem_cons_of_mem y)
    cases hy : y.isWildcard with
    | false =>
      rw [starJoin_cons_inside hy] at h
      exact (List.mem_cons.1 h).elim (fun e => .inr (e ▸ List.mem_cons_self)) hxs
    | true =>
      rw [starJoin_cons_wildcard hy] at h
      split at h
      · exact hxs h
      · exact (List.mem_cons.1 h).elim .inl hxs

/-! ## No bracket is closed by joining -/

/-- Whether the lexeme has a byte that closes a bracket before it. -/
def Lexeme.Closes : Lexeme → Prop
  | plain b => b = Sign.bracketClose
  | bracket _ => True
  | _ => False

/-- A bracket is closed by a `]` that is read by itself, or by the end of another bracket. -/
theorem unescapedClose_eq_none_iff (h : Reads xs) :
    unescapedClose (xs.flatMap Lexeme.text) = none ↔ ∀ x ∈ xs, ¬x.Closes := by
  induction xs with
  | nil => simp [unescapedClose]
  | cons x xs ih =>
    have ih := ih h.tail
    rw [List.forall_mem_cons, ← ih]
    have hbyte {b : UInt8} (hb : b ≠ Sign.escape) : unescapedClose (b :: xs.flatMap Lexeme.text) = none ↔
        b ≠ Sign.bracketClose ∧ unescapedClose (xs.flatMap Lexeme.text) = none := by
      rw [unescapedClose_of_ne_escape hb]
      by_cases hc : b = Sign.bracketClose <;> simp [hc]
    cases x with
    | escaped c =>
      show unescapedClose (Sign.escape :: c :: xs.flatMap Lexeme.text) = none ↔ _
      rw [unescapedClose_escape, Option.map_eq_none_iff]
      exact (and_iff_right id).symm
    | dangling =>
      obtain rfl := h.eq_nil_of_dangling
      exact iff_of_true rfl ⟨id, rfl⟩
    | star => exact (hbyte (by decide)).trans (and_congr_left' (iff_of_true (by decide) id))
    | query => exact (hbyte (by decide)).trans (and_congr_left' (iff_of_true (by decide) id))
    | plain b => exact hbyte h.of_plain.1
    | bracket body =>
      refine iff_of_false (fun hn => ?_) fun hn => hn.1 trivial
      -- the bracket is closed behind its body, and so would the one before it be
      have hbody := closeOffset_of_unescapedClose (unescapedClose_tail (by decide) hn)
      have hclosed := (closeOffset_append (x := xs.flatMap Lexeme.text) (by simp)).2 h.closeOffset_bracket
      have hsame := hclosed.symm.trans hbody
      cases hsame

theorem unescapedClose_starJoin (h : Reads xs) (hjoin : Reads (starJoin xs))
    (hn : unescapedClose (xs.flatMap Lexeme.text) = none) :
    unescapedClose ((starJoin xs).flatMap Lexeme.text) = none := by
  rw [unescapedClose_eq_none_iff h] at hn
  rw [unescapedClose_eq_none_iff hjoin]
  intro x hx
  rcases mem_starJoin hx with rfl | hx
  · exact id
  · exact hn x hx

/-- A bracket that is not closed before a row of lexemes is not closed before the row joined by stars. -/
theorem closeOffset_starJoin (h : Reads xs) (hjoin : Reads (starJoin xs))
    (hn : closeOffset (xs.flatMap Lexeme.text) = none) : closeOffset ((starJoin xs).flatMap Lexeme.text) = none := by
  rw [closeOffset_eq_none_iff] at hn ⊢
  have hplain {xs : List Lexeme} {b : UInt8} {r : Bytes} (h : Reads xs) (ht : xs.flatMap Lexeme.text = b :: r)
      (h1 : b ≠ Sign.escape) (h2 : b ≠ Sign.star) (h3 : b ≠ Sign.query) (h4 : b ≠ Sign.bracketOpen) :
      ∃ ys, xs = .plain b :: ys ∧ ys.flatMap Lexeme.text = r ∧ starJoin xs = .plain b :: starJoin ys := by
    obtain ⟨ys, rfl, hys⟩ := h.eq_plain_cons ht h1 h2 h3 h4
    exact ⟨ys, rfl, hys, starJoin_cons_inside rfl⟩
  rcases hn with hn | ⟨rest, hn, ht | ⟨n, hneg, ht⟩⟩
  · exact .inl (unescapedClose_starJoin h hjoin hn)
  · obtain ⟨ys, rfl, rfl, hys⟩ := hplain h ht (by decide) (by decide) (by decide) (by decide)
    rw [hys] at hjoin ⊢
    exact .inr ⟨_, unescapedClose_starJoin h.tail hjoin.tail hn, .inl rfl⟩
  · have hsign : ∀ c, Sign.negates c = false → n ≠ c := by
      rintro c hc rfl
      rw [hneg] at hc
      cases hc
    obtain ⟨zs, rfl, hzs, hzjoin⟩ :=
      hplain h ht (hsign _ (by decide)) (hsign _ (by decide)) (hsign _ (by decide)) (hsign _ (by decide))
    obtain ⟨ys, rfl, rfl, hys⟩ := hplain h.tail hzs (by decide) (by decide) (by decide) (by decide)
    rw [hzjoin, hys] at hjoin ⊢
    exact .inr ⟨_, unescapedClose_starJoin h.tail.tail hjoin.tail.tail hn, .inr ⟨n, hneg, rfl⟩⟩

theorem Reads.starJoin (h : Reads xs) : Reads (starJoin xs) := by
  induction xs with
  | nil => exact h
  | cons x xs ih =>
    have ih := ih h.tail
    cases hx : x.isWildcard with
    | true =>
      rw [starJoin_cons_wildcard hx]
      split
      · exact ih
      · exact ih.star
    | false =>
      rw [starJoin_cons_inside hx]
      refine h.cons_of_tail ih ?_ (closeOffset_starJoin h.tail ih)
      rintro rfl
      rw [h.eq_nil_of_dangling]
      rfl

end Glob

open Glob

variable {p f : Bytes}

/-- A fragment is its own only fragment. -/
theorem fragments_of_mem_fragments (h : f ∈ fragments p) : fragments f = [f] := by
  obtain ⟨hne, hinside⟩ := of_mem_fragments h
  have hlex : lex f ≠ [] := fun e => hne (by rw [← flatMap_text_lex f, e]; rfl)
  have hpieces : pieces f = [lex f] := by
    rw [pieces, Lexeme.inside?, runs_guard, between, List.splitOnP_eq_singleton fun x hx => by simp [hinside x hx]]
    simp [hlex]
  rw [fragments_eq_pieces, hpieces, List.map_singleton, flatMap_text_lex]

/-- The pieces joined by stars are read as they are. -/
theorem lex_intercalate_pieces (p : Bytes) :
    lex (([.star].intercalate (pieces p)).flatMap Lexeme.text) = [.star].intercalate (pieces p) := by
  have hjoin := (reads_lex p).starJoin
  rcases starJoin_eq (lex p) with h | h
  · rwa [h] at hjoin
  · rw [h] at hjoin
    exact hjoin.tail

theorem runs_intercalate_pieces (p : Bytes) : runs Lexeme.inside? ([.star].intercalate (pieces p)) = pieces p := by
  have hruns := runs_starJoin (lex p)
  rcases starJoin_eq (lex p) with h | h
  · rwa [h] at hruns
  · rw [h, runs_cons_none rfl] at hruns
    exact hruns

theorem flatMap_text_intercalate (ps : List (List Lexeme)) : ([.star].intercalate ps).flatMap Lexeme.text =
    [Sign.star].intercalate (ps.map (List.flatMap Lexeme.text)) := by
  cases ps with
  | nil => rfl
  | cons r rs =>
    rw [List.map_cons, intercalate_singleton_cons, intercalate_singleton_cons, List.flatMap_append,
      List.flatMap_assoc, List.flatMap_map]
    rfl

/-- The fragments joined by stars are cut apart again. -/
theorem fragments_intercalate (p : Bytes) : fragments ([Sign.star].intercalate (fragments p)) = fragments p := by
  rw [fragments_eq_pieces p, ← flatMap_text_intercalate, fragments_eq_pieces, pieces, lex_intercalate_pieces,
    runs_intercalate_pieces]

/-- **Cutting is done once and for all.** A fragment cut again is that fragment alone, and it does not consist of wildcards. The
fragments of a pattern, put together with a star between neighbours, are the fragments of the text that this gives, whatever
brackets are left open in them. -/
theorem fragments_rejoin (p : Bytes) :
    (∀ f ∈ fragmentsOnePass p, fragmentsOnePass f = [f] ∧ wildcardOnlyOnePass f = false) ∧
      fragmentsOnePass ([Sign.star].intercalate (fragmentsOnePass p)) = fragmentsOnePass p := by
  simp only [fragmentsOnePass_eq, wildcardOnlyOnePass_eq]
  refine ⟨fun f hf => ?_, fragments_intercalate p⟩
  have hself := fragments_of_mem_fragments hf
  exact ⟨hself, by rw [wildcardOnly, hself]; rfl⟩

-- the bracket stays open: the first `]` is exempt, and the other one is escaped
example : fragmentsOnePass [91, 93, 63, 42, 97, 92, 93] = [[91, 93], [97, 92, 93]] := by decide +kernel

end GlobSieve
