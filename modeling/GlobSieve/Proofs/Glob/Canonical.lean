import GlobSieve.Proofs.Glob.OnePass
import GlobSieve.Proofs.Glob.Unclosed

/-!
# Tokens written down as a pattern

Tokens can be written down as a pattern in which every byte that is meant is escaped (`written`). Read again, the pattern has
the tokens that were written down, if these are `Canonical`, and reading gives no others (`canonical_iff_parse_written`).

* A class closes where it was closed, as its items hold no `]` but behind a backslash (`closeOffset_classText`), and its body
  reads as the items (`bracketToken_classText`).
* A class that was read has items, since the first byte of a bracket does not close it, nor the first one after a negation
  (`items_ne_nil_of_closeOffset`). Two stars that were read are one (`isChain_mergeStars`).
-/

namespace GlobSieve.Glob

/-! ## Writing tokens down -/

/-- The item with every byte escaped. -/
def ClassItem.text : ClassItem → Bytes
  | .single b => [Sign.escape, b]
  | .range lo hi => [Sign.escape, lo, Sign.dash, Sign.escape, hi]

/-- What stands between the brackets of a class. -/
def classText (negated : Bool) (items : List ClassItem) : Bytes :=
  (if negated then [Sign.bang] else []) ++ items.flatMap ClassItem.text

/-- The token as a pattern. -/
def Token.text : Token → Bytes
  | .literal b => [Sign.escape, b]
  | .any => [Sign.query]
  | .star => [Sign.star]
  | .oneOf negated items => Sign.bracketOpen :: classText negated items ++ [Sign.bracketClose]

/-- A pattern with these tokens. -/
def written (ts : List Token) : Bytes := ts.flatMap Token.text

/-- No star stands beside another, and every class has items. -/
structure Canonical (ts : List Token) : Prop where
  stars_apart : ts.IsChain fun a b => ¬(a = .star ∧ b = .star)
  items_ne_nil : ∀ negated items, .oneOf negated items ∈ ts → items ≠ []

variable {negated : Bool} {items : List ClassItem} {tok : Token} {ts : List Token} {r : Bytes} {n : Nat}

/-! ## A class that was written down -/

/-- An item begins with a backslash. -/
theorem exists_items_text (h : items ≠ []) : ∃ c s, items.flatMap ClassItem.text = Sign.escape :: c :: s := by
  cases items with
  | nil => exact absurd rfl h
  | cons i items => cases i <;> exact ⟨_, _, rfl⟩

theorem unescapedClose_items (items : List ClassItem) (r : Bytes) :
    unescapedClose (items.flatMap ClassItem.text ++ Sign.bracketClose :: r) =
      some (items.flatMap ClassItem.text).length := by
  induction items with
  | nil =>
    rw [List.flatMap_nil, List.nil_append, unescapedClose_of_ne_escape Sign.bracketClose_ne_escape, if_pos rfl]
    rfl
  | cons i items ih =>
    cases i with
    | single b =>
      rw [List.flatMap_cons, List.append_assoc, ClassItem.text, List.cons_append, List.cons_append, List.nil_append,
        unescapedClose_escape, ih]
      rfl
    | range lo hi =>
      have hdash : Sign.dash ≠ Sign.escape ∧ Sign.dash ≠ Sign.bracketClose := by decide
      rw [List.flatMap_cons, List.append_assoc, ClassItem.text]
      simp only [List.cons_append, List.nil_append]
      rw [unescapedClose_escape, unescapedClose_of_ne_escape hdash.1, if_neg hdash.2, unescapedClose_escape, ih]
      rfl

theorem closeOffset_escape (s : Bytes) : closeOffset (Sign.escape :: s) = unescapedClose (Sign.escape :: s) := by
  have hex : exempt (Sign.escape :: s) = 0 := rfl
  simp [closeOffset, hex]

theorem closeOffset_bang_escape (s : Bytes) :
    closeOffset (Sign.bang :: Sign.escape :: s) = (unescapedClose (Sign.escape :: s)).map (1 + ·) := rfl

/-- The bracket closes where it should. -/
theorem closeOffset_classText (h : items ≠ []) (r : Bytes) :
    closeOffset (classText negated items ++ Sign.bracketClose :: r) = some (classText negated items).length := by
  have hclose := unescapedClose_items items r
  obtain ⟨c, s, hs⟩ := exists_items_text h
  rw [classText, hs]
  rw [hs, List.cons_append] at hclose
  cases negated with
  | false => exact (closeOffset_escape _).trans hclose
  | true =>
    refine (closeOffset_bang_escape _).trans ((congrArg (Option.map (1 + ·)) hclose).trans ?_)
    simp [Nat.add_comm]

theorem firstItem_single (b : UInt8) (items : List ClassItem) :
    firstItem Sign.escape (b :: items.flatMap ClassItem.text) = (.single b, items.flatMap ClassItem.text) := by
  by_cases h : items = []
  · subst h
    rfl
  · obtain ⟨c, s, hs⟩ := exists_items_text h
    rw [hs]
    rfl

theorem firstItem_range (lo hi : UInt8) (r : Bytes) :
    firstItem Sign.escape (lo :: Sign.dash :: Sign.escape :: hi :: r) = (.range lo hi, r) := rfl

theorem classItems_text (items : List ClassItem) : classItems (items.flatMap ClassItem.text) = items := by
  induction items with
  | nil => rw [List.flatMap_nil, classItems]
  | cons i items ih =>
    cases i with
    | single b =>
      rw [List.flatMap_cons, ClassItem.text, List.cons_append, List.cons_append, List.nil_append, classItems,
        firstItem_single, ih]
    | range lo hi =>
      rw [List.flatMap_cons, ClassItem.text]
      simp only [List.cons_append, List.nil_append]
      rw [classItems, firstItem_range, ih]

theorem bracketToken_classText (h : items ≠ []) : bracketToken (classText negated items) = .oneOf negated items := by
  have hitems := classItems_text items
  obtain ⟨c, s, hs⟩ := exists_items_text h
  rw [hs] at hitems
  rw [classText, hs]
  cases negated with
  | false =>
    show Token.oneOf false (classItems (Sign.escape :: c :: s)) = _
    rw [hitems]
  | true =>
    show Token.oneOf true (classItems (Sign.escape :: c :: s)) = _
    rw [hitems]

/-! ## Tokens that were written down -/

/-- The lexeme that the text of a token is read as. -/
def Token.lexeme : Token → Lexeme
  | .literal b => .escaped b
  | .any => .query
  | .star => .star
  | .oneOf negated items => .bracket (classText negated items)

theorem lex_text_append (h : ∀ negated items, tok = .oneOf negated items → items ≠ []) (r : Bytes) :
    lex (tok.text ++ r) = tok.lexeme :: lex r := by
  cases tok with
  | literal b => exact lex_escape b r
  | any => exact lex_query r
  | star => exact lex_star r
  | oneOf negated items =>
    have hclose : closeOffset (classText negated items ++ Sign.bracketClose :: r) = some (classText negated items).length :=
      closeOffset_classText (h _ _ rfl) r
    have htext : (Token.oneOf negated items).text ++ r =
        Sign.bracketOpen :: (classText negated items ++ Sign.bracketClose :: r) := by simp [Token.text]
    have hrest : (classText negated items ++ Sign.bracketClose :: r).drop ((classText negated items).length + 1) = r := by
      rw [← List.drop_drop, List.drop_left, List.drop_one, List.tail_cons]
    rw [htext, lex_bracket hclose, List.take_left, hrest]
    rfl

theorem lex_written (h : ∀ negated items, .oneOf negated items ∈ ts → items ≠ []) :
    lex (written ts) = ts.map Token.lexeme := by
  induction ts with
  | nil => exact lex_nil
  | cons tok ts ih =>
    rw [written, List.flatMap_cons, lex_text_append, ← written, ih, List.map_cons]
    · exact fun negated items hm => h negated items (List.mem_cons_of_mem _ hm)
    · rintro negated items rfl
      exact h negated items List.mem_cons_self

theorem token?_lexeme (h : ∀ negated items, tok = .oneOf negated items → items ≠ []) : tok.lexeme.token? = some tok := by
  cases tok with
  | oneOf negated items => exact congrArg some (bracketToken_classText (h _ _ rfl))
  | _ => rfl

theorem lexeme_ne_dangling (tok : Token) : tok.lexeme ≠ .dangling := by
  cases tok <;> simp [Token.lexeme]

/-! ## Tokens that were read -/

/-- A negated bracket does not end with its second byte, which may not close it. -/
theorem closeOffset_negates_ne_one {b : UInt8} (hb : Sign.negates b = true) (r : Bytes) : closeOffset (b :: r) ≠ some 1 := by
  intro h
  obtain ⟨k, hk, e⟩ := Option.map_eq_some_iff.1 h
  have hex : exempt (b :: r) = if r.head? = some Sign.bracketClose then 2 else 1 := by rw [exempt, if_pos hb]
  by_cases hhead : r.head? = some Sign.bracketClose
  · rw [hex, if_pos hhead] at e
    omega
  · rw [hex, if_neg hhead] at hk e
    obtain rfl : k = 0 := by omega
    have hclose := getElem?_unescapedClose hk
    rw [List.drop_succ_cons, List.drop_zero, ← List.head?_eq_getElem?] at hclose
    exact hhead hclose

theorem classItems_ne_nil {body : Bytes} (h : body ≠ []) : classItems body ≠ [] := by
  cases body with
  | nil => exact absurd rfl h
  | cons b r =>
    rw [classItems]
    exact List.cons_ne_nil _ _

theorem items_ne_nil_of_closeOffset (h : closeOffset r = some n) (he : bracketToken (r.take n) = .oneOf negated items) :
    items ≠ [] := by
  have hn := (List.getElem?_eq_some_iff.1 (getElem?_closeOffset h)).1
  match r, n, hn with
  | b :: r, 0, _ => exact absurd h (closeOffset_cons_ne_zero b r)
  | b :: r, k + 1, hn =>
    rw [List.take_succ_cons, bracketToken] at he
    split at he
    · next hneg =>
      cases he
      refine classItems_ne_nil fun hnil => ?_
      have hk : k ≠ 0 := by
        rintro rfl
        exact closeOffset_negates_ne_one hneg r h
      rw [List.take_eq_nil_iff] at hnil
      rcases hnil with hnil | rfl
      · exact hk hnil
      · simp at hn
    · cases he
      exact classItems_ne_nil (List.cons_ne_nil _ _)

theorem of_first_eq_bracket {b : UInt8} {body : Bytes} (h : (Lexeme.first b r).1 = .bracket body) :
    ∃ n, closeOffset r = some n ∧ body = r.take n := by
  unfold Lexeme.first at h
  split at h
  · cases r <;> cases h
  split at h
  · cases h
  split at h
  · cases h
  split at h
  · cases hc : closeOffset r with
    | none => rw [hc] at h; cases h
    | some n => rw [hc] at h; cases h; exact ⟨n, rfl, rfl⟩
  · cases h

theorem of_bracket_mem_lex {p body : Bytes} (h : .bracket body ∈ lex p) : ∃ r n, closeOffset r = some n ∧ body = r.take n := by
  fun_induction lex p with
  | case1 => cases h
  | case2 b r ih =>
    rcases List.mem_cons.1 h with h | h
    · exact ⟨r, of_first_eq_bracket h.symm⟩
    · exact ih h

theorem canonical_parse (m : CaseMode) (p : Bytes) : Canonical (parse m p).tokens where
  stars_apart := isChain_mergeStars _
  items_ne_nil negated items h := by
    obtain ⟨x, hx, htok⟩ := List.mem_filterMap.1 (mem_of_mem_mergeStars h)
    cases x with
    | bracket body =>
      obtain ⟨r, n, hclose, rfl⟩ := of_bracket_mem_lex hx
      exact items_ne_nil_of_closeOffset hclose (Option.some.inj htok)
    | _ => cases htok

theorem parse_written {m : CaseMode} (h : Canonical ts) : parse m (written ts) = ⟨m, ts, false⟩ := by
  have hlex := lex_written fun negated items => h.items_ne_nil negated items
  have htokens : (ts.map Token.lexeme).filterMap Lexeme.token? = ts := by
    rw [List.filterMap_map]
    refine (List.filterMap_congr fun tok htok => ?_).trans List.filterMap_some
    exact token?_lexeme fun negated items he => h.items_ne_nil negated items (he ▸ htok)
  have hdangling : (ts.map Token.lexeme).contains .dangling = false := by
    simp [lexeme_ne_dangling]
  rw [parse, hlex, htokens, hdangling, mergeStars_of_isChain h.stars_apart]

/-- **Reading undoes writing** for canonical tokens, and these are the tokens that can be read. -/
theorem canonical_iff_parse_written (m : CaseMode) :
    (∀ ts, parseOnePass m (written ts) = ⟨m, ts, false⟩ ↔ Canonical ts) ∧
      ∀ p, Canonical (parseOnePass m p).tokens := by
  simp only [parseOnePass_eq]
  refine ⟨fun ts => ⟨fun h => ?_, parse_written⟩, canonical_parse m⟩
  have hread := canonical_parse m (written ts)
  rwa [h] at hread

/-- Bytes with a meaning are escaped wherever they stand: `[!\]\!-\-]*`. -/
example : written [.oneOf true [.single 93, .range 33 45], .star] = [91, 33, 92, 93, 92, 33, 45, 92, 45, 93, 42] := rfl

end GlobSieve.Glob
