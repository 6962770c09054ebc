import GlobSieve.Proofs.Fragment.OnePass
import GlobSieve.Proofs.Glob.OnePass

/-!
# Three readers, one pattern

A pattern is read three times, into tokens, into fragments, and fragment by fragment into needles. The readers place the same
boundaries (`scanners_agree`): the tokens between two wildcards are the tokens of the fragment there, read on its own, and the
needles of the fragment are the rows of literals among them. All three walk over the same lexemes, and every fragment is read
as the piece that it was cut out of.
-/

namespace GlobSieve

open Glob

namespace Glob

/-- Whether the token is one of the wildcards `*` and `?`. -/
def Token.isWildcard : Token → Bool
  | .star | .any => true
  | _ => false

/-- The byte that a literal asks for. -/
def Token.literal? : Token → Option UInt8
  | .literal b => some b
  | _ => none

/-- The token of a lexeme; a backslash that ends the pattern is taken for itself. -/
def Lexeme.token : Lexeme → Token
  | .escaped b | .plain b => .literal b
  | .dangling => .literal Sign.escape
  | .star => .star
  | .query => .any
  | .bracket body => bracketToken body

theorem Lexeme.token?_eq_some {x : Lexeme} (h : x ≠ .dangling) : x.token? = some x.token := by
  cases x <;> first | rfl | exact absurd rfl h

theorem filterMap_token? {xs : List Lexeme} (h : .dangling ∉ xs) : xs.filterMap Lexeme.token? = xs.map Lexeme.token :=
  List.filterMap_eq_map_iff_forall_eq_some.2 fun _ hx => Lexeme.token?_eq_some fun e => h (e ▸ hx)

theorem Lexeme.isWildcard_token (x : Lexeme) : x.token.isWildcard = x.isWildcard := by
  cases x with
  | bracket body =>
    obtain ⟨negated, items, he⟩ := exists_bracketToken body
    rw [token, he]
    rfl
  | _ => rfl

/-- A token of a fragment asks for a byte literally just if its lexeme does. -/
theorem Lexeme.literal?_token {x : Lexeme} (h : x.isWildcard = false) : x.token.literal? = x.needleByte? := by
  cases x with
  | bracket body =>
    obtain ⟨negated, items, he⟩ := exists_bracketToken body
    rw [token, he]
    rfl
  | star => cases h
  | query => cases h
  | _ => rfl

theorem mergeStars_of_star_not_mem {ts : List Token} (h : .star ∉ ts) : mergeStars ts = ts := by
  have hpairs : ts.Pairwise fun a b => ¬(a = .star ∧ b = .star) :=
    List.pairwise_of_forall_mem_list fun a ha _ _ hs => h (hs.1 ▸ ha)
  exact mergeStars_of_isChain hpairs.isChain

end Glob

/-- A star before a star ends no further run. -/
theorem openRuns_consToken {f : Token → Option Token} (h : f .star = none) (t : Token) (us : List Token) :
    openRuns f (consToken t us) = openRuns f (t :: us) := by
  unfold consToken
  split
  · simp [openRuns, h, consRun]
  · rfl

theorem runs_mergeStars {f : Token → Option Token} (h : f .star = none) (ts : List Token) :
    runs f (mergeStars ts) = runs f ts := by
  have hopen : openRuns f (mergeStars ts) = openRuns f ts := by
    induction ts with
    | nil => rfl
    | cons t ts ih => rw [mergeStars_cons, openRuns_consToken h, openRuns, openRuns, ih]
  rw [runs, hopen]
  rfl

variable {m : CaseMode} {p : Bytes} {piece : List Lexeme}

/-- The tokens between two wildcards are those of a piece. -/
theorem between_tokens (h : .dangling ∉ lex p) :
    between Token.isWildcard (parse m p).tokens = (pieces p).map (List.map Lexeme.token) := by
  have hinside : (fun x : Lexeme => Option.guard (fun tok : Token => !tok.isWildcard) x.token) =
      fun x => x.inside?.map Lexeme.token := by
    funext x
    rw [Lexeme.inside?_eq, Option.guard, Lexeme.isWildcard_token]
    cases x.isWildcard <;> rfl
  have htokens : (parse m p).tokens = mergeStars ((lex p).map Lexeme.token) := by rw [parse, filterMap_token? h]
  rw [← runs_guard, htokens, runs_mergeStars rfl, runs_comp_map, hinside, runs_map]
  rfl

/-- A fragment has the tokens of its piece. -/
theorem tokens_of_piece (hpiece : piece ∈ pieces p) (h : .dangling ∉ lex p) :
    (parse m (piece.flatMap Lexeme.text)).tokens = piece.map Lexeme.token := by
  obtain ⟨hstretch, hw⟩ := infix_of_mem_pieces hpiece
  have hstar : .star ∉ piece.map Lexeme.token := by
    intro hm
    obtain ⟨x, hx, he⟩ := List.mem_map.1 hm
    have := hw x hx
    rw [← Lexeme.isWildcard_token, he] at this
    cases this
  rw [parse, lex_text_piece hpiece, filterMap_token? fun hm => h (hstretch.mem hm), mergeStars_of_star_not_mem hstar]

/-- The needles of a fragment are the rows of literals of its piece. -/
theorem needles_of_piece (hpiece : piece ∈ pieces p) : needles (piece.flatMap Lexeme.text) =
    ((between (fun tok => tok.literal?.isNone) (piece.map Lexeme.token)).map (List.filterMap Token.literal?)).eraseDups := by
  have hliteral : runs Lexeme.needleByte? piece = runs (fun x => x.token.literal?) piece :=
    runs_congr fun x hx => (Lexeme.literal?_token ((infix_of_mem_pieces hpiece).2 x hx)).symm
  rw [needles, lex_text_piece hpiece, hliteral, ← runs_comp_map, runs_eq_between]

theorem Glob.Token.literal_or_oneOf {tok : Token} (h : tok.isWildcard = false) :
    (∃ b, tok = .literal b) ∨ ∃ negated items, tok = .oneOf negated items := by
  cases tok with
  | literal b => exact .inl ⟨b, rfl⟩
  | oneOf negated items => exact .inr ⟨negated, items, rfl⟩
  | any => cases h
  | star => cases h

/-- Unless the pattern ends in a dangling backslash, the fragments cut out of it read as the tokens between its wildcards, which
are literals and classes alone, and the needles of a fragment are its rows of literals, each listed once. -/
theorem scanners_agree (m : CaseMode) (p : Bytes) (h : (parseOnePass m p).dangling = false) :
    between Token.isWildcard (parseOnePass m p).tokens = (fragmentsOnePass p).map (fun f => (parseOnePass m f).tokens) ∧
    ∀ f ∈ fragmentsOnePass p,
      (∀ tok ∈ (parseOnePass m f).tokens, (∃ b, tok = .literal b) ∨ ∃ negated items, tok = .oneOf negated items) ∧
      needlesOnePass f = ((between (fun tok => tok.literal?.isNone) (parseOnePass m f).tokens).map
        (List.filterMap Token.literal?)).eraseDups := by
  simp only [parseOnePass_eq, fragmentsOnePass_eq, needlesOnePass_eq] at h ⊢
  have hd : .dangling ∉ lex p := by simpa [parse] using h
  rw [fragments_eq_pieces, List.map_map, between_tokens hd]
  refine ⟨List.map_congr_left fun piece hpiece => (tokens_of_piece hpiece hd).symm, fun f hf => ?_⟩
  obtain ⟨piece, hpiece, rfl⟩ := List.mem_map.1 hf
  rw [tokens_of_piece hpiece hd]
  refine ⟨fun tok htok => ?_, needles_of_piece hpiece⟩
  obtain ⟨x, hx, rfl⟩ := List.mem_map.1 htok
  refine Token.literal_or_oneOf ?_
  rw [Lexeme.isWildcard_token]
  exact (infix_of_mem_pieces hpiece).2 x hx

/-- Three fragments of `[]*]a\[b*?[^]]c[d\]e?f[`: two brackets that begin with their closing byte, and two that are not
closed. -/
theorem scanners_agree_brackets :
    let p : Bytes := [91, 93, 42, 93, 97, 92, 91, 98, 42, 63, 91, 94, 93, 93, 99, 91, 100, 92, 93, 101, 63, 102, 91]
    let f : Bytes := [91, 94, 93, 93, 99, 91, 100, 92, 93, 101]
    (parseOnePass .sensitive p).dangling = false ∧
      (fragmentsOnePass p).map (fun f => (parseOnePass .sensitive f).tokens) =
        [[.oneOf false [.single 93, .single 42], .literal 97, .literal 91, .literal 98],
          [.oneOf true [.single 93], .literal 99, .literal 91, .literal 100, .literal 93, .literal 101],
          [.literal 102, .literal 91]] ∧
      f ∈ fragmentsOnePass p ∧ needlesOnePass f = [[99, 91, 100, 93, 101]] := by
  intro p f
  have hd : (parseOnePass .sensitive p).dangling = false := by decide +kernel
  have hf : f ∈ fragmentsOnePass p := by decide +kernel
  obtain ⟨hsplit, hneedles⟩ := scanners_agree .sensitive p hd
  exact ⟨hd, hsplit.symm.trans (by decide +kernel), hf, (hneedles f hf).2.trans (by decide +kernel)⟩

end GlobSieve
