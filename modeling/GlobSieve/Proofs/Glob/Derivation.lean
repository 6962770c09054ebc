import Mathlib.Data.List.Infix
import GlobSieve.Glob.Pattern

/-!
# Derivations

`Derives m ts t` says declaratively that the tokens `ts` describe the text `t`: a star stands for any text, any other
token for one byte that it accepts. What the matcher finds are derivations (`derives_of_accepts`), and a derivation
splits where its tokens are split (`Derives.split`), so what a part of a pattern asks for stands in a part of the text
(`Derives.exists_slice`);
for a row of literals that is the row itself, up to the mode (`Derives.foldBytes_eq`).

The matcher finds a derivation if there is one (`accepts_iff_derives`), though it tries no star but the last again. The
tokens between two stars take one byte each, so where a derivation places them later than need be, the later star takes
up the difference (`Derives.drop_of_star_not_mem`, `Derives.star_mono`).
-/

namespace GlobSieve.Glob

variable {m : CaseMode} {ts us : List Token} {t : Bytes}

/-- The tokens describe the text. -/
inductive Derives (m : CaseMode) : List Token → Bytes → Prop
  | nil : Derives m [] []
  /-- A star stands for what precedes some rest of the text. -/
  | star {ts : List Token} {s t : Bytes} : s <:+ t → Derives m ts s → Derives m (.star :: ts) t
  | one {tok : Token} {ts : List Token} {b : UInt8} {t : Bytes} :
      tok.accepts m b = true → Derives m ts t → Derives m (tok :: ts) (b :: t)

namespace Derives

/-- A weaker rest of the tokens describes no less. -/
theorem cons_imp {x : Token} (h : Derives m (x :: ts) t) (himp : ∀ s, Derives m ts s → Derives m us s) :
    Derives m (x :: us) t := by
  cases h with
  | star hs h => exact .star hs (himp _ h)
  | one ha h => exact .one ha (himp _ h)

theorem of_consToken {x : Token} (h : Derives m (consToken x ts) t) : Derives m (x :: ts) t := by
  unfold consToken at h
  split at h
  · exact .star List.suffix_rfl h
  · exact h

/-- Rows of stars describe no less than one star. -/
theorem of_mergeStars : ∀ {ts : List Token} {t : Bytes}, Derives m (mergeStars ts) t → Derives m ts t
  | [], _, h => h
  | _ :: _, _, h => h.of_consToken.cons_imp fun _ => of_mergeStars

/-- Where tokens are split the text splits. -/
theorem split : ∀ {ts : List Token} {t : Bytes}, Derives m (ts ++ us) t →
    ∃ a c, t = a ++ c ∧ Derives m ts a ∧ Derives m us c
  | [], t, h => ⟨[], t, rfl, .nil, h⟩
  | _ :: ts, _, h => by
    cases h with
    | star hs h =>
      obtain ⟨a, c, rfl, h1, h2⟩ := split h
      obtain ⟨x, rfl⟩ := hs
      exact ⟨x ++ a, c, (List.append_assoc x a c).symm, .star (List.suffix_append x a) h1, h2⟩
    | one ha h =>
      obtain ⟨a, c, rfl, h1, h2⟩ := split h
      exact ⟨_ :: a, c, rfl, .one ha h1, h2⟩

/-- Texts side by side are described by tokens side by side. -/
theorem append {a c : Bytes} (ha : Derives m ts a) (hc : Derives m us c) : Derives m (ts ++ us) (a ++ c) := by
  induction ha with
  | nil => exact hc
  | star hs _ ih =>
    obtain ⟨x, rfl⟩ := hs
    exact .star ⟨x, (List.append_assoc _ _ _).symm⟩ ih
  | one hb _ ih => exact .one hb ih

/-- Tokens in a row describe a part of the text that all the tokens describe. -/
theorem exists_slice (h : Derives m ts t) (hu : us <:+: ts) : ∃ s, s <:+: t ∧ Derives m us s := by
  obtain ⟨as, cs, rfl⟩ := hu
  rw [List.append_assoc] at h
  obtain ⟨a, r, rfl, -, h⟩ := h.split
  obtain ⟨s, c, rfl, hs, -⟩ := h.split
  exact ⟨s, ⟨a, c, List.append_assoc a s c⟩, hs⟩

/-- A row of literals describes the texts equal to it up to the mode. -/
theorem foldBytes_eq : ∀ {n t : Bytes}, Derives m (n.map .literal) t → m.foldBytes t = m.foldBytes n
  | [], _, h => by cases h; rfl
  | b :: n, _, h => by
    cases h with
    | one ha h =>
      have hb : m.fold b = m.fold _ := CaseMode.sameByte_iff.1 ha
      rw [CaseMode.foldBytes_cons, CaseMode.foldBytes_cons, hb, foldBytes_eq h]

end Derives

/-! ## What the matcher finds -/

theorem derives_of_advance_done (h : advance m ts t = .done) : Derives m ts t := by
  fun_induction advance m ts t with
  | case1 => exact .nil
  | case2 => cases h
  | case3 => cases h
  | case4 => cases h
  | case5 tok ts b t _ ha ih => exact .one ha (ih h)
  | case6 => cases h

/-- Up to a star the tokens were compared, and the star may stand for any text. -/
theorem derives_of_advance_atStar {ts' : List Token} {t' s : Bytes} (h : advance m ts t = .atStar ts' t')
    (hs : s <:+ t') (hd : Derives m ts' s) : Derives m ts t := by
  fun_induction advance m ts t with
  | case1 => cases h
  | case2 => cases h
  | case3 => cases h; exact .star hs hd
  | case4 => cases h
  | case5 tok ts b t _ ha ih => exact .one ha (ih h)
  | case6 => cases h

theorem derives_of_seek (h : seek m ts t = true) : ∃ s, s <:+ t ∧ Derives m ts s := by
  fun_induction seek m ts t with
  | case1 ts t ha => exact ⟨t, List.suffix_rfl, derives_of_advance_done ha⟩
  | case2 ts t ts' t' ha ih =>
    obtain ⟨s, hs, hd⟩ := ih h
    exact ⟨t, List.suffix_rfl, derives_of_advance_atStar ha hs hd⟩
  | case3 => cases h
  | case4 ts b t _ ih =>
    obtain ⟨s, hs, hd⟩ := ih h
    exact ⟨s, hs.trans (List.suffix_cons b t), hd⟩

theorem derives_of_matchTokens (h : matchTokens m ts t = true) : Derives m ts t := by
  unfold matchTokens at h
  split at h
  · next ha => exact derives_of_advance_done ha
  · next ha =>
    obtain ⟨s, hs, hd⟩ := derives_of_seek h
    exact derives_of_advance_atStar ha hs hd
  · cases h

/-- A text that matches a pattern is described by the tokens of its lexemes, and no backslash dangles. -/
theorem derives_of_accepts {p : Bytes} (h : (parse m p).accepts t = true) :
    .dangling ∉ lex p ∧ Derives m ((lex p).filterMap Lexeme.token?) t := by
  simp only [accepts, parse, Bool.and_eq_true, Bool.not_eq_true', List.contains_eq_mem, decide_eq_false_iff_not] at h
  exact ⟨h.1, (derives_of_matchTokens h.2).of_mergeStars⟩

/-! ## The matcher finds a derivation if there is one -/

namespace Derives

theorem exists_of_star (h : Derives m (.star :: ts) t) : ∃ s, s <:+ t ∧ Derives m ts s := by
  cases h with
  | star hs h => exact ⟨_, hs, h⟩
  | one ha _ => cases ha

/-- What a star stands for may begin earlier. -/
theorem star_mono {s : Bytes} (h : Derives m (.star :: ts) s) (hs : s <:+ t) : Derives m (.star :: ts) t := by
  obtain ⟨r, hr, h⟩ := h.exists_of_star
  exact .star (hr.trans hs) h

/-- Tokens other than stars take one byte each. -/
theorem drop_of_star_not_mem : ∀ {us : List Token} {t : Bytes}, .star ∉ us → Derives m (us ++ ts) t →
    us.length ≤ t.length ∧ Derives m ts (t.drop us.length)
  | [], _, _, h => ⟨Nat.zero_le _, h⟩
  | _ :: us, _, hno, h => by
    cases h with
    | star hs h => exact absurd List.mem_cons_self hno
    | one ha h =>
      obtain ⟨hle, hd⟩ := drop_of_star_not_mem (fun hm => hno (List.mem_cons_of_mem _ hm)) h
      exact ⟨Nat.succ_le_succ hle, hd⟩

end Derives

theorem derives_nil_left_iff : Derives m [] t ↔ t = [] :=
  ⟨fun h => by cases h; rfl, fun h => h ▸ .nil⟩

theorem derives_star_iff : Derives m (.star :: ts) t ↔ ∃ s, s <:+ t ∧ Derives m ts s :=
  ⟨Derives.exists_of_star, fun ⟨_, hs, h⟩ => .star hs h⟩

theorem derives_cons_iff {tok : Token} (hne : tok ≠ .star) :
    Derives m (tok :: ts) t ↔ ∃ b s, t = b :: s ∧ tok.accepts m b = true ∧ Derives m ts s := by
  constructor
  · intro h
    cases h with
    | star => exact absurd rfl hne
    | one ha h => exact ⟨_, _, rfl, ha, h⟩
  · rintro ⟨b, s, rfl, ha, h⟩
    exact .one ha h

/-- Up to the star there are no others, and a byte is taken for each token. -/
theorem of_advance_atStar {ts' : List Token} {t' : Bytes} (h : advance m ts t = .atStar ts' t') :
    ∃ us, ts = us ++ .star :: ts' ∧ .star ∉ us ∧ t' = t.drop us.length := by
  fun_induction advance m ts t with
  | case1 => cases h
  | case2 => cases h
  | case3 => cases h; exact ⟨[], rfl, List.not_mem_nil, rfl⟩
  | case4 => cases h
  | case5 tok ts b t hne ha ih =>
    obtain ⟨us, rfl, hno, rfl⟩ := ih h
    refine ⟨tok :: us, rfl, fun hm => ?_, rfl⟩
    rcases List.mem_cons.1 hm with rfl | hm
    · exact hne rfl
    · exact hno hm
  | case6 => cases h

theorem not_derives_of_advance_mismatch (h : advance m ts t = .mismatch) : ¬Derives m ts t := by
  fun_induction advance m ts t with
  | case1 => cases h
  | case2 =>
    intro hd
    cases hd
  | case3 => cases h
  | case4 tok ts hne =>
    intro hd
    cases hd
    exact hne rfl
  | case5 tok ts b t hne ha ih =>
    intro hd
    cases hd with
    | star => exact hne rfl
    | one _ hd => exact ih h hd
  | case6 tok ts b t hne ha =>
    intro hd
    cases hd with
    | star => exact hne rfl
    | one ha' _ => exact ha ha'

/-- A derivation for any later part of the text is found. -/
theorem seek_of_derives {s : Bytes} (hs : s <:+ t) (hd : Derives m ts s) : seek m ts t = true := by
  fun_induction seek m ts t generalizing s with
  | case1 => rfl
  | case2 ts t ts' t' ha ih =>
    -- the tokens up to the star are placed no later than in the derivation, and the star stands for what lies between
    obtain ⟨us, rfl, hno, rfl⟩ := of_advance_atStar ha
    obtain ⟨hle, hstar⟩ := Derives.drop_of_star_not_mem hno hd
    have hdrop : s.drop us.length <:+ t.drop us.length := by
      have hlen := hs.length_le
      refine List.suffix_of_suffix_length_le ((List.drop_suffix _ s).trans hs) (List.drop_suffix _ t) ?_
      rw [List.length_drop, List.length_drop]
      omega
    obtain ⟨r, hr, h⟩ := (hstar.star_mono hdrop).exists_of_star
    exact ih hr h
  | case3 ts ha =>
    obtain rfl := List.suffix_nil.1 hs
    exact absurd hd (not_derives_of_advance_mismatch ha)
  | case4 ts b t ha ih =>
    rcases List.suffix_cons_iff.1 hs with rfl | hs
    · exact absurd hd (not_derives_of_advance_mismatch ha)
    · exact ih hs hd

theorem matchTokens_iff_derives : matchTokens m ts t = true ↔ Derives m ts t := by
  refine ⟨derives_of_matchTokens, fun hd => ?_⟩
  unfold matchTokens
  split
  · rfl
  · next ha =>
    obtain ⟨us, rfl, hno, rfl⟩ := of_advance_atStar ha
    obtain ⟨r, hr, h⟩ := (Derives.drop_of_star_not_mem hno hd).2.exists_of_star
    exact seek_of_derives hr h
  · next ha => exact absurd hd (not_derives_of_advance_mismatch ha)

/-- A text matches if the tokens describe it and no backslash dangles. -/
theorem accepts_iff_derives {g : Glob} : g.accepts t = true ↔ g.dangling = false ∧ Derives g.mode g.tokens t := by
  rw [accepts, Bool.and_eq_true, Bool.not_eq_true', matchTokens_iff_derives]

end GlobSieve.Glob
