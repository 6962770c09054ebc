import GlobSieve.Glob.InPlace
import GlobSieve.Proofs.Glob.Tokens

/-!
# Matching in place is matching

From turn to turn of a match in place (`turn_keeps`)

* the places stay in range, and since the star met last a byte was taken for each token (`Cursor.Fits`);
* it stays true, or stays false, that the text matches: what is left is described by the tokens left, or it is when the last
  star stands for more (`Cursor.Open`);
* a number goes down that is at most the product of the two lengths at the start (`Cursor.turnsLeft`).

So the turns end in range, within that number, and with the right answer (`answer?_of_fits`).

Earlier stars may be forgotten because a star that is met makes up for them. To let an earlier star stand for more only moves
the tokens before the new star to a later place, and the new star could have stood for what is skipped (`Fits.later`).
-/

namespace GlobSieve.Glob

variable {m : CaseMode} {ts : Array Token} {t : Array UInt8} {c : Cursor}

/-- Nothing but stars describes the empty text. -/
theorem derives_nil_iff : ∀ {us : List Token}, Derives m us [] ↔ us.all (· == .star) = true
  | [] => iff_of_true .nil rfl
  | u :: us => by
    have ih : Derives m us [] ↔ us.all (· == .star) = true := derives_nil_iff
    rw [List.all_cons, Bool.and_eq_true, beq_iff_eq, ← ih]
    constructor
    · intro h
      cases h with
      | star hs h =>
        obtain rfl := List.suffix_nil.1 hs
        exact ⟨rfl, h⟩
    · rintro ⟨rfl, h⟩
      exact .star List.suffix_rfl h

/-- What begins at a place that is in use. -/
theorem drop_of_getElem? {α : Type} {l : Array α} {i : Nat} {x : α} (h : l[i]? = some x) :
    l.toList.drop i = x :: l.toList.drop (i + 1) := by
  obtain ⟨hlt, rfl⟩ := Array.getElem?_eq_some_iff.1 h
  rw [List.drop_eq_getElem_cons (by simpa using hlt), Array.getElem_toList]

namespace Cursor

/-- The places are in range, and no star but the one to try again was met since. -/
structure Fits (ts : Array Token) (t : Array UInt8) (c : Cursor) : Prop where
  token_le : c.token ≤ ts.size
  byte_le : c.byte ≤ t.size
  since_star : ∀ {star stop : Nat}, c.retry = some (star, stop) → ∃ us : List Token,
    .star ∉ us ∧ ts.toList.drop (star + 1) = us ++ ts.toList.drop c.token ∧
      c.token = star + 1 + us.length ∧ c.byte = stop + us.length

/-- The text can be matched from here, or when the last star stands for more. -/
def Open (m : CaseMode) (ts : Array Token) (t : Array UInt8) (c : Cursor) : Prop :=
  Derives m (ts.toList.drop c.token) (t.toList.drop c.byte) ∨
    ∃ star stop later, c.retry = some (star, stop) ∧ stop < later ∧
      Derives m (ts.toList.drop (star + 1)) (t.toList.drop later)

/-- As many turns as can still be made, but for the last. -/
def turnsLeft (ts : Array Token) (t : Array UInt8) (c : Cursor) : Nat :=
  (t.size - c.retry.elim 0 Prod.snd) * (ts.size - c.retry.elim 0 Prod.fst) + (ts.size - c.token)

/-- What a turn that began at `c` may end with. -/
def Keeps (m : CaseMode) (ts : Array Token) (t : Array UInt8) (c : Cursor) : Turn → Prop
  | .goOn c' => c'.Fits ts t ∧ c'.turnsLeft ts t < c.turnsLeft ts t ∧ (c'.Open m ts t ↔ c.Open m ts t)
  | .answer b => b = true ↔ c.Open m ts t
  | .outOfRange => False

/-- Where an earlier star stands for more, the tokens left describe a later part of the text. -/
theorem Fits.later (hc : c.Fits ts t) {star stop later : Nat} (hr : c.retry = some (star, stop)) (hlt : stop < later)
    (hd : Derives m (ts.toList.drop (star + 1)) (t.toList.drop later)) :
    ∃ i, c.byte < i ∧ Derives m (ts.toList.drop c.token) (t.toList.drop i) := by
  obtain ⟨us, hno, hus, -, hbyte⟩ := hc.since_star hr
  rw [hus] at hd
  obtain ⟨-, hd⟩ := Derives.drop_of_star_not_mem hno hd
  rw [List.drop_drop] at hd
  exact ⟨later + us.length, by omega, hd⟩

/-! ## The kinds of turns -/

/-- From a star on the text matches if the star stands for nothing, or for more. -/
theorem derives_iff_open_of_star {i b : Nat} (htok : ts[i]? = some .star) :
    Derives m (ts.toList.drop i) (t.toList.drop b) ↔ (⟨i + 1, b, some (i, b)⟩ : Cursor).Open m ts t := by
  rw [drop_of_getElem? htok]
  constructor
  · intro hd
    obtain ⟨s, hs, hd⟩ := hd.exists_of_star
    obtain ⟨k, rfl⟩ : ∃ k, s = (t.toList.drop b).drop k := ⟨_, List.suffix_iff_eq_drop.1 hs⟩
    rw [List.drop_drop] at hd
    rcases Nat.eq_zero_or_pos k with rfl | hk
    · exact .inl hd
    · exact .inr ⟨_, _, b + k, rfl, by omega, hd⟩
  · rintro (hd | ⟨star, stop, later, hr, hlt, hd⟩)
    · exact .star List.suffix_rfl hd
    · cases hr
      exact .star (List.drop_suffix_drop_left _ (Nat.le_of_lt hlt)) hd

/-- A star is met, and takes the place of the one to try again. -/
theorem keeps_star (hc : c.Fits ts t) (hb : c.byte < t.size) (htok : ts[c.token]? = some .star) :
    c.Keeps m ts t (.goOn ⟨c.token + 1, c.byte, some (c.token, c.byte)⟩) := by
  have hlt := (Array.getElem?_eq_some_iff.1 htok).1
  refine ⟨⟨hlt, hc.byte_le, fun hr => ?_⟩, ?_, ?_⟩
  · cases hr
    exact ⟨[], List.not_mem_nil, rfl, rfl, rfl⟩
  · have hmul : (t.size - c.byte) * (ts.size - c.token) ≤
        (t.size - c.retry.elim 0 Prod.snd) * (ts.size - c.retry.elim 0 Prod.fst) := by
      cases hr : c.retry with
      | none => exact Nat.mul_le_mul (by simp) (by simp)
      | some r =>
        obtain ⟨star, stop⟩ := r
        obtain ⟨us, -, -, htoken, hbyte⟩ := hc.since_star hr
        simp only [Option.elim_some]
        apply Nat.mul_le_mul <;> omega
    simp only [turnsLeft, Option.elim_some]
    omega
  · rw [← derives_iff_open_of_star htok]
    refine ⟨.inl, ?_⟩
    rintro (hd | ⟨star, stop, later, hr, hlt, hd⟩)
    · exact hd
    · -- the new star could have stood for what an earlier one would
      obtain ⟨i, hi, hd⟩ := hc.later hr hlt hd
      rw [drop_of_getElem? htok] at hd ⊢
      exact hd.star_mono (List.drop_suffix_drop_left _ (Nat.le_of_lt hi))

/-- A token takes a byte. -/
theorem keeps_one (hc : c.Fits ts t) (hb : c.byte < t.size) {tok : Token} (htok : ts[c.token]? = some tok)
    (hne : tok ≠ .star) (ha : tok.accepts m t[c.byte] = true) :
    c.Keeps m ts t (.goOn ⟨c.token + 1, c.byte + 1, c.retry⟩) := by
  have hdrop := drop_of_getElem? htok
  have htext := drop_of_getElem? (Array.getElem?_eq_getElem hb)
  have hlt := (Array.getElem?_eq_some_iff.1 htok).1
  refine ⟨⟨hlt, hb, fun hr => ?_⟩, ?_, ?_⟩
  · obtain ⟨us, hno, hus, htoken, hbyte⟩ := hc.since_star hr
    refine ⟨us ++ [tok], ?_, ?_, ?_, ?_⟩
    · rw [List.mem_append, List.mem_singleton]
      exact fun h => h.elim hno fun e => hne e.symm
    · rw [hus, hdrop, List.append_assoc, List.singleton_append]
    · simp only [List.length_append, List.length_singleton]
      omega
    · simp only [List.length_append, List.length_singleton]
      omega
  · simp only [turnsLeft]
    omega
  · refine or_congr_left ?_
    rw [hdrop, htext]
    refine ⟨.one ha, fun hd => ?_⟩
    cases hd with
    | star => exact absurd rfl hne
    | one _ hd => exact hd

/-- What is left does not match from here. -/
theorem keeps_fallBack (hc : c.Fits ts t) (hb : c.byte < t.size)
    (hno : ¬Derives m (ts.toList.drop c.token) (t.toList.drop c.byte)) : c.Keeps m ts t c.fallBack := by
  unfold fallBack
  split
  · next star stop hr =>
    obtain ⟨us, -, -, htoken, hbyte⟩ := hc.since_star hr
    have hle := hc.token_le
    refine ⟨⟨by simp only; omega, by simp only; omega, fun hr' => ?_⟩, ?_, ?_⟩
    · cases hr'
      exact ⟨[], List.not_mem_nil, rfl, rfl, rfl⟩
    · have hrow : (t.size - stop) * (ts.size - star) = (t.size - (stop + 1)) * (ts.size - star) + (ts.size - star) := by
        rw [← Nat.succ_mul, show (t.size - (stop + 1)).succ = t.size - stop by omega]
      simp only [turnsLeft, hr, Option.elim_some]
      omega
    · constructor
      · rintro (hd | ⟨star', stop', later, hr', hlt, hd⟩)
        · exact .inr ⟨star, stop, stop + 1, hr, by omega, hd⟩
        · cases hr'
          exact .inr ⟨star, stop, later, hr, by omega, hd⟩
      · rintro (hd | ⟨star', stop', later, hr', hlt, hd⟩)
        · exact absurd hd hno
        · obtain ⟨rfl, rfl⟩ := Prod.mk.inj (Option.some.inj (hr.symm.trans hr'))
          rcases Nat.eq_or_lt_of_le hlt with rfl | hlt
          · exact .inl hd
          · exact .inr ⟨star, stop + 1, later, rfl, hlt, hd⟩
  · next hr =>
    refine iff_of_false Bool.false_ne_true ?_
    rintro (hd | ⟨star, stop, later, hr', -⟩)
    · exact hno hd
    · rw [hr] at hr'
      cases hr'

/-- The text is at its end. No star can help any more. -/
theorem keeps_finish (hc : c.Fits ts t) (hb : ¬c.byte < t.size) :
    c.Keeps m ts t (.answer ((ts.toList.drop c.token).all (· == .star))) := by
  have hend : ∀ i, c.byte ≤ i → t.toList.drop i = [] := by
    intro i hi
    rw [List.drop_eq_nil_iff, Array.length_toList]
    omega
  show _ = true ↔ c.Open m ts t
  rw [← derives_nil_iff (m := m)]
  constructor
  · intro hd
    rw [← hend c.byte (Nat.le_refl _)] at hd
    exact .inl hd
  · rintro (hd | ⟨star, stop, later, hr, hlt, hd⟩)
    · rwa [hend c.byte (Nat.le_refl _)] at hd
    · obtain ⟨i, hi, hd⟩ := hc.later hr hlt hd
      rwa [hend i (Nat.le_of_lt hi)] at hd

/-! ## Turn after turn -/

/-- What every turn keeps. -/
theorem turn_keeps (hc : c.Fits ts t) : c.Keeps m ts t (c.turn m ts t) := by
  unfold turn
  split
  · next hb =>
    have htext := drop_of_getElem? (Array.getElem?_eq_getElem hb)
    split
    · next htok => exact keeps_star hc hb htok
    · next tok hne htok =>
      split
      · next ha => exact keeps_one hc hb htok hne ha
      · next ha =>
        refine keeps_fallBack hc hb fun hd => ?_
        rw [drop_of_getElem? htok, htext] at hd
        cases hd with
        | star => exact hne rfl
        | one ha' _ => exact ha ha'
    · next htok =>
      refine keeps_fallBack hc hb fun hd => ?_
      rw [List.drop_eq_nil_of_le (by simpa using htok), htext] at hd
      cases hd
  · next hb =>
    rw [if_pos hc.token_le]
    exact keeps_finish hc hb

/-- Enough turns lead to the right answer. -/
theorem answer?_of_fits {k : Nat} (hc : c.Fits ts t) (hk : c.turnsLeft ts t < k) :
    ∃ b, c.answer? m ts t k = some b ∧ (b = true ↔ c.Open m ts t) := by
  induction k generalizing c with
  | zero => exact absurd hk (Nat.not_lt_zero _)
  | succ k ih =>
    have hkeeps := turn_keeps (m := m) hc
    rw [answer?]
    split
    · next c' hturn =>
      rw [hturn] at hkeeps
      obtain ⟨hfits, hless, hopen⟩ := hkeeps
      obtain ⟨b, hb, hiff⟩ := ih hfits (by omega)
      exact ⟨b, hb, hiff.trans hopen⟩
    · next b hturn =>
      rw [hturn] at hkeeps
      exact ⟨b, rfl, hkeeps⟩
    · next hturn =>
      rw [hturn] at hkeeps
      exact hkeeps.elim

theorem fits_start : start.Fits ts t := ⟨Nat.zero_le _, Nat.zero_le _, fun hr => by cases hr⟩

theorem open_start : start.Open m ts t ↔ Derives m ts.toList t.toList := by
  constructor
  · rintro (hd | ⟨star, stop, later, hr, -⟩)
    · exact hd
    · cases hr
  · exact .inl

end Cursor

/-- The match in place comes to its answer, and it is that of the match on lists. -/
theorem acceptsInPlace?_eq (g : Glob) (t : Bytes) : g.acceptsInPlace? t = some (g.accepts t) := by
  unfold acceptsInPlace?
  split
  · next hd => simp [accepts, hd]
  · next hd =>
    have hturns : Cursor.start.turnsLeft g.tokens.toArray t.toArray < g.tokens.length * (t.length + 1) + 1 := by
      simp only [Cursor.turnsLeft, Cursor.start, Option.elim_none, List.size_toArray, Nat.sub_zero]
      rw [Nat.mul_comm, Nat.mul_add_one]
      exact Nat.lt_succ_self _
    obtain ⟨b, hb, hiff⟩ := Cursor.answer?_of_fits (m := g.mode) Cursor.fits_start hturns
    rw [hb, Option.some.injEq, Bool.eq_iff_iff, hiff, accepts_iff_derives, Cursor.open_start]
    simp only [Bool.not_eq_true] at hd
    simp only [hd, true_and]

/-- A match in place ends within its turns and in range, and says whether the tokens describe the text. A star stands for any
text there, and every other token for one byte that it takes. -/
theorem acceptsInPlace_exact (g : Glob) (t : Bytes) :
    (∃ b, g.acceptsInPlace? t = some b ∧ b = g.accepts t ∧
      (b = true ↔ g.dangling = false ∧ Derives g.mode g.tokens t)) ∧
      ∀ tok b, Token.accepts g.mode tok b = true ↔ Takes g.mode b tok :=
  ⟨⟨_, acceptsInPlace?_eq g t, rfl, accepts_iff_derives⟩, fun _ _ => Token.accepts_iff_takes⟩

/-- The text `axbybzc` matches `a*b*c`, whose second star has to be tried again three times. -/
example : acceptsInPlace? ⟨.sensitive, [.literal 97, .star, .literal 98, .star, .literal 99], false⟩
    [97, 120, 98, 121, 98, 122, 99] = some true := by decide

end GlobSieve.Glob
