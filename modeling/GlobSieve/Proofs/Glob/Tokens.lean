import GlobSieve.Proofs.Glob.Derivation

/-!
# The bytes that a token takes

`Takes m b tok` says declaratively that the token takes the byte: a literal takes what the mode does not tell apart from it,
and a class is asked for the forms of the byte (`CaseMode.forms`), both letters of it where case is ignored. This is what
`Token.accepts` decides (`Token.accepts_iff_takes`).

A literal compares folded bytes, while a class looks up both forms among items that were never folded. Both go by the folded
byte alone (`Token.accepts_congr`), and so does a whole match (`accepts_congr`).
-/

namespace GlobSieve

theorem upperByte_lowerByte (b : UInt8) : upperByte (lowerByte b) = upperByte b := by
  by_cases h : 65 ≤ b ∧ b ≤ 90
  · -- a capital becomes a small letter, and that the capital again
    have hlower : lowerByte b = b + 32 := if_pos h
    simp only [UInt8.le_iff_toNat_le, UInt8.reduceToNat] at h
    have hsum : (b + 32).toNat = b.toNat + 32 := by
      simp only [UInt8.toNat_add, UInt8.reduceToNat]
      omega
    have hsmall : 97 ≤ b + 32 ∧ b + 32 ≤ 122 := by
      simp only [UInt8.le_iff_toNat_le, UInt8.reduceToNat, hsum]
      omega
    have hcapital : ¬(97 ≤ b ∧ b ≤ 122) := by
      simp only [UInt8.le_iff_toNat_le, UInt8.reduceToNat]
      omega
    rw [hlower, upperByte, if_pos hsmall, upperByte, if_neg hcapital, UInt8.add_sub_cancel]
  · rw [lowerByte, if_neg h]

namespace CaseMode

/-- The bytes that a class is asked for in place of a byte. -/
def forms : CaseMode → UInt8 → List UInt8
  | sensitive, b => [b]
  | insensitive, b => [lowerByte b, upperByte b]

/-- Bytes that are not told apart have the same forms. -/
theorem forms_congr {m : CaseMode} {a b : UInt8} (h : m.fold a = m.fold b) : m.forms a = m.forms b := by
  cases m with
  | sensitive => rw [show a = b from h]
  | insensitive =>
    have hlower : lowerByte a = lowerByte b := h
    rw [forms, forms, hlower, ← upperByte_lowerByte a, hlower, upperByte_lowerByte]

end CaseMode

namespace Glob

/-- The bytes that an item stands for. -/
def ClassItem.Lists : ClassItem → UInt8 → Prop
  | .single c, b => b = c
  | .range lo hi, b => lo ≤ b ∧ b ≤ hi

/-- The token takes the byte. -/
inductive Takes (m : CaseMode) (b : UInt8) : Token → Prop
  | literal {c : UInt8} : m.fold c = m.fold b → Takes m b (.literal c)
  | any : Takes m b .any
  | member {items : List ClassItem} : (∃ i ∈ items, ∃ c ∈ m.forms b, i.Lists c) → Takes m b (.oneOf false items)
  | nonmember {items : List ClassItem} : (¬∃ i ∈ items, ∃ c ∈ m.forms b, i.Lists c) → Takes m b (.oneOf true items)

variable {m : CaseMode} {a b : UInt8} {tok : Token} {ts : List Token} {s t : Bytes}

theorem ClassItem.lists_iff {i : ClassItem} : i.lists b = true ↔ i.Lists b := by
  cases i with
  | single c => exact beq_iff_eq.trans eq_comm
  | range lo hi => simp [ClassItem.lists, ClassItem.Lists]

theorem classHas_iff {items : List ClassItem} :
    classHas m items b = true ↔ ∃ i ∈ items, ∃ c ∈ m.forms b, i.Lists c := by
  cases m with
  | sensitive => simp [classHas, CaseMode.forms, ClassItem.lists_iff]
  | insensitive =>
    simp only [classHas, CaseMode.forms, Bool.or_eq_true, List.any_eq_true, ClassItem.lists_iff, List.mem_cons,
      List.not_mem_nil, or_false, exists_eq_or_imp, exists_eq_left, and_or_left, exists_or]

theorem Token.accepts_iff_takes : tok.accepts m b = true ↔ Takes m b tok := by
  cases tok with
  | literal c =>
    refine CaseMode.sameByte_iff.trans ⟨.literal, fun h => ?_⟩
    cases h with
    | literal h => exact h
  | any => exact iff_of_true rfl .any
  | star =>
    have hno : ¬Takes m b .star := fun h => nomatch h
    exact iff_of_false Bool.false_ne_true hno
  | oneOf negated items =>
    have hhas : classHas m items b = true ↔ ∃ i ∈ items, ∃ c ∈ m.forms b, i.Lists c := classHas_iff
    cases negated with
    | false =>
      refine Iff.trans (by simp [Token.accepts]) (hhas.trans ⟨.member, fun h => ?_⟩)
      cases h with
      | member h => exact h
    | true =>
      refine Iff.trans (by simp [Token.accepts]) (hhas.not.trans ⟨.nonmember, fun h => ?_⟩)
      cases h with
      | nonmember h => exact h

/-! ## The folded text decides -/

/-- A token does not tell bytes apart that the mode does not. -/
theorem Token.accepts_congr (tok : Token) (h : m.fold a = m.fold b) : tok.accepts m a = tok.accepts m b := by
  have hforms := CaseMode.forms_congr h
  rw [Bool.eq_iff_iff, accepts_iff_takes, accepts_iff_takes]
  constructor
  · rintro (h' | _ | h' | h')
    · exact .literal (h'.trans h)
    · exact .any
    · exact .member (hforms ▸ h')
    · exact .nonmember (hforms ▸ h')
  · rintro (h' | _ | h' | h')
    · exact .literal (h'.trans h.symm)
    · exact .any
    · exact .member (hforms ▸ h')
    · exact .nonmember (hforms ▸ h')

/-- Tokens that describe a text describe every text that folds to the same bytes. -/
theorem Derives.congr (h : Derives m ts s) (he : m.foldBytes s = m.foldBytes t) : Derives m ts t := by
  induction h generalizing t with
  | nil =>
    obtain rfl := List.map_eq_nil_iff.1 he.symm
    exact .nil
  | @star ts r s hr _ ih =>
    -- the rest of the text begins where it did
    obtain ⟨x, rfl⟩ := hr
    rw [CaseMode.foldBytes_append] at he
    obtain ⟨y, z, rfl, -, hz⟩ := List.append_eq_map_iff.1 he
    exact .star (List.suffix_append y z) (ih hz.symm)
  | one ha _ ih =>
    obtain ⟨b, t, rfl, hb, ht⟩ := List.map_eq_cons_iff.1 he.symm
    exact .one ((Token.accepts_congr _ hb).trans ha) (ih ht.symm)

/-- Whether a text matches is decided by what it folds to. -/
theorem accepts_congr {g : Glob} (h : g.mode.foldBytes s = g.mode.foldBytes t) : g.accepts s = g.accepts t := by
  rw [Bool.eq_iff_iff, accepts_iff_derives, accepts_iff_derives]
  exact and_congr_right fun _ => ⟨fun hd => hd.congr h, fun hd => hd.congr h.symm⟩

end Glob

end GlobSieve
