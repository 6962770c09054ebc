import GlobSieve.Proofs.Glob.InPlace
import GlobSieve.Proofs.Glob.OnePass

/-!
# Folding the pattern instead of ignoring case

To ignore case is to fold the pattern and the text and then to count case, for patterns whose ranges do not mix cases
(`answers_of_folded`).

The bytes that patterns give a meaning to are no letters, so a folded pattern has its brackets, escapes and ranges where they
were, and reads as the folded tokens (`parse_foldBytes`). What remains is a question of one byte at a time
(`derives_fold_iff`): a class that is asked for both forms of a byte has one of them just if the folded class has the folded
byte (`ClassItem.OneCase.lists_fold`). For a range this depends on its letters. Those of `A-C` become `a-c`, but `Z-a`, which
has `_` between its ends, becomes `z-a`, which has nothing.
-/

namespace GlobSieve

/-! ## Letters -/

/-- The byte is an ASCII capital. -/
def IsCapital (b : UInt8) : Prop := 65 ≤ b.toNat ∧ b.toNat ≤ 90

/-- The byte is a small ASCII letter. -/
def IsSmall (b : UInt8) : Prop := 97 ≤ b.toNat ∧ b.toNat ≤ 122

def IsLetter (b : UInt8) : Prop := IsCapital b ∨ IsSmall b

instance (b : UInt8) : Decidable (IsCapital b) := inferInstanceAs (Decidable (_ ∧ _))

instance (b : UInt8) : Decidable (IsSmall b) := inferInstanceAs (Decidable (_ ∧ _))

instance (b : UInt8) : Decidable (IsLetter b) := inferInstanceAs (Decidable (_ ∨ _))

variable {b s : UInt8}

theorem lowerByte_cases (b : UInt8) :
    (IsCapital b ∧ (lowerByte b).toNat = b.toNat + 32) ∨ (¬IsCapital b ∧ lowerByte b = b) := by
  unfold lowerByte IsCapital
  simp only [UInt8.le_iff_toNat_le, UInt8.reduceToNat]
  split
  · next h =>
    refine .inl ⟨h, ?_⟩
    simp only [UInt8.toNat_add, UInt8.reduceToNat]
    omega
  · next h => exact .inr ⟨h, rfl⟩

theorem upperByte_cases (b : UInt8) :
    (IsSmall b ∧ (upperByte b).toNat + 32 = b.toNat) ∨ (¬IsSmall b ∧ upperByte b = b) := by
  unfold upperByte IsSmall
  simp only [UInt8.le_iff_toNat_le, UInt8.reduceToNat]
  split
  · next h =>
    refine .inl ⟨h, ?_⟩
    rw [UInt8.toNat_sub_of_le _ _ (by simp only [UInt8.le_iff_toNat_le, UInt8.reduceToNat]; omega)]
    simp only [UInt8.reduceToNat]
    omega
  · next h => exact .inr ⟨h, rfl⟩

theorem lowerByte_of_not_isCapital (h : ¬IsCapital b) : lowerByte b = b :=
  (lowerByte_cases b).elim (fun hb => absurd hb.1 h) And.right

/-- A byte whose upper-case form is no letter has no other form. -/
theorem upperByte_eq_lowerByte (h : ¬IsLetter (upperByte b)) : upperByte b = lowerByte b := by
  have hl := lowerByte_cases b
  have hu := upperByte_cases b
  simp only [IsLetter, IsCapital, IsSmall, ← UInt8.toNat_inj] at h hl hu ⊢
  omega

namespace CaseMode

variable {m : CaseMode}

/-- Only the byte itself folds to a byte that is no letter. The bytes that patterns give a meaning to are such bytes. -/
theorem fold_eq_iff (hs : ¬IsLetter s) : m.fold b = s ↔ b = s := by
  cases m with
  | sensitive => exact Iff.rfl
  | insensitive =>
    simp only [fold]
    rcases lowerByte_cases b with ⟨hb, hsum⟩ | ⟨-, hb⟩
    · simp only [← UInt8.toNat_inj, hsum, IsLetter, IsCapital, IsSmall] at hs hb ⊢
      omega
    · rw [hb]

/-- A byte negates a class just if its folding does. -/
@[simp] theorem negates_fold : Glob.Sign.negates (m.fold b) = Glob.Sign.negates b := by
  rw [Bool.eq_iff_iff]
  simp (disch := decide) only [Glob.Sign.negates, Bool.or_eq_true, beq_iff_eq, fold_eq_iff]

end CaseMode

namespace Glob

variable (m : CaseMode)

open CaseMode

theorem unescapedClose_foldBytes (r : Bytes) : unescapedClose (m.foldBytes r) = unescapedClose r := by
  fun_induction unescapedClose r with
  | case1 => rfl
  | case2 => simp (disch := decide) [unescapedClose, fold_eq_iff]
  | case3 b h => simp (disch := decide) [unescapedClose, fold_eq_iff, h]
  | case4 c r ih => simp (disch := decide) [unescapedClose, fold_eq_iff, ih]
  | case5 => simp (disch := decide) [unescapedClose, fold_eq_iff, Sign.bracketClose_ne_escape]
  | case6 b c r h1 h2 ih => simp (disch := decide) [unescapedClose, fold_eq_iff, h1, h2, ← ih]

theorem exempt_foldBytes (r : Bytes) : exempt (m.foldBytes r) = exempt r := by
  cases r with
  | nil => rfl
  | cons b r => cases r <;> simp (disch := decide) [exempt, fold_eq_iff]

/-- A bracket closes where it did. -/
theorem closeOffset_foldBytes (r : Bytes) : closeOffset (m.foldBytes r) = closeOffset r := by
  rw [closeOffset, exempt_foldBytes, foldBytes, ← List.map_drop, ← foldBytes, unescapedClose_foldBytes, closeOffset]

/-- The lexeme with its bytes folded. -/
def Lexeme.fold : Lexeme → Lexeme
  | .escaped b => .escaped (m.fold b)
  | .bracket body => .bracket (m.foldBytes body)
  | .plain b => .plain (m.fold b)
  | x => x

theorem first_foldBytes (b : UInt8) (r : Bytes) : Lexeme.first (m.fold b) (m.foldBytes r) =
    ((Lexeme.first b r).1.fold m, m.foldBytes (Lexeme.first b r).2) := by
  simp (disch := decide) only [Lexeme.first, fold_eq_iff, closeOffset_foldBytes]
  split
  · cases r <;> rfl
  split
  · rfl
  split
  · rfl
  split
  · cases closeOffset r with
    | none => rfl
    | some n => simp only [Lexeme.fold, foldBytes, List.map_take, List.map_drop]
  · rfl

theorem lex_foldBytes (p : Bytes) : lex (m.foldBytes p) = (lex p).map (Lexeme.fold m) := by
  fun_induction lex p with
  | case1 => exact lex_nil
  | case2 b r ih => rw [foldBytes_cons, lex_cons, first_foldBytes, ih, List.map_cons]

def ClassItem.fold : ClassItem → ClassItem
  | .single b => .single (m.fold b)
  | .range lo hi => .range (m.fold lo) (m.fold hi)

def Token.fold : Token → Token
  | .literal b => .literal (m.fold b)
  | .oneOf negated items => .oneOf negated (items.map (ClassItem.fold m))
  | tok => tok

theorem member_foldBytes (b : UInt8) (r : Bytes) :
    member (m.fold b) (m.foldBytes r) = (m.fold (member b r).1, m.foldBytes (member b r).2) := by
  cases r with
  | nil => rfl
  | cons c r =>
    simp (disch := decide) only [member, foldBytes_cons, fold_eq_iff]
    split <;> rfl

theorem firstItem_foldBytes (b : UInt8) (r : Bytes) :
    firstItem (m.fold b) (m.foldBytes r) = ((firstItem b r).1.fold m, m.foldBytes (firstItem b r).2) := by
  unfold firstItem
  rw [member_foldBytes]
  obtain ⟨lo, rest⟩ := member b r
  match rest with
  | [] => rfl
  | [d] => rfl
  | d :: c :: r' =>
    simp (disch := decide) only [foldBytes_cons, fold_eq_iff, member_foldBytes]
    split <;> rfl

theorem classItems_foldBytes (body : Bytes) : classItems (m.foldBytes body) = (classItems body).map (ClassItem.fold m) := by
  fun_induction classItems body with
  | case1 => rw [foldBytes_nil, classItems]; rfl
  | case2 b r ih => rw [foldBytes_cons, classItems, firstItem_foldBytes, ih, List.map_cons]

theorem bracketToken_foldBytes (body : Bytes) : bracketToken (m.foldBytes body) = (bracketToken body).fold m := by
  cases body with
  | nil => rfl
  | cons b r =>
    simp only [foldBytes_cons, bracketToken, negates_fold]
    split
    · rw [classItems_foldBytes]; rfl
    · rw [← foldBytes_cons, classItems_foldBytes]; rfl

theorem token?_fold (x : Lexeme) : (x.fold m).token? = x.token?.map (Token.fold m) := by
  cases x with
  | bracket body => exact congrArg some (bracketToken_foldBytes m body)
  | _ => rfl

theorem consToken_fold (t : Token) (ts : List Token) :
    consToken (t.fold m) (ts.map (Token.fold m)) = (consToken t ts).map (Token.fold m) := by
  cases ts with
  | nil => cases t <;> rfl
  | cons u ts => cases t <;> cases u <;> rfl

theorem mergeStars_fold (ts : List Token) : mergeStars (ts.map (Token.fold m)) = (mergeStars ts).map (Token.fold m) := by
  induction ts with
  | nil => rfl
  | cons t ts ih => rw [List.map_cons, mergeStars_cons, ih, consToken_fold, mergeStars_cons]

theorem Lexeme.fold_eq_dangling {x : Lexeme} : x.fold m = .dangling ↔ x = .dangling := by
  cases x <;> simp [Lexeme.fold]

/-- **A folded pattern has the folded tokens.** -/
theorem parse_foldBytes (m' m'' : CaseMode) (p : Bytes) :
    parse m' (m.foldBytes p) = ⟨m', (parse m'' p).tokens.map (Token.fold m), (parse m'' p).dangling⟩ := by
  have htokens : (lex (m.foldBytes p)).filterMap Lexeme.token? = ((lex p).filterMap Lexeme.token?).map (Token.fold m) := by
    rw [lex_foldBytes, List.filterMap_map, List.map_filterMap]
    exact List.filterMap_congr fun x _ => token?_fold m x
  have hdangling : (lex (m.foldBytes p)).contains .dangling = (lex p).contains .dangling := by
    rw [Bool.eq_iff_iff, lex_foldBytes]
    simp [Lexeme.fold_eq_dangling]
  rw [parse, htokens, mergeStars_fold, hdangling]
  rfl

/-! ## Matching -/

variable {m}

/-- The letters of the range, if there are any, are all small or all capitals, and then its ends are. -/
def ClassItem.OneCase : ClassItem → Prop
  | .single _ => True
  | .range lo hi => (IsSmall lo ∧ IsSmall hi) ∨ (IsCapital lo ∧ IsCapital hi) ∨
      (¬IsLetter lo ∧ ¬IsLetter hi ∧ ∀ b, lo ≤ b → b ≤ hi → ¬IsLetter b)

/-- An item has one of the forms of a byte just if the folded item has the folded byte. -/
theorem ClassItem.OneCase.lists_fold {i : ClassItem} (h : i.OneCase) (b : UInt8) :
    (i.fold .insensitive).lists (lowerByte b) = true ↔ i.lists (lowerByte b) = true ∨ i.lists (upperByte b) = true := by
  have hl := lowerByte_cases b
  have hu := upperByte_cases b
  cases i with
  | single c =>
    simp only [ClassItem.lists_iff, ClassItem.Lists, ClassItem.fold, CaseMode.fold]
    have hc := lowerByte_cases c
    simp only [IsCapital, IsSmall, ← UInt8.toNat_inj] at hc hl hu ⊢
    omega
  | range lo hi =>
    simp only [ClassItem.lists_iff, ClassItem.Lists, ClassItem.fold, CaseMode.fold]
    have hlo := lowerByte_cases lo
    have hhi := lowerByte_cases hi
    rcases h with h | h | ⟨hnlo, hnhi, hno⟩
    · simp only [IsCapital, IsSmall, ← UInt8.toNat_inj, UInt8.le_iff_toNat_le] at h hlo hhi hl hu ⊢
      omega
    · simp only [IsCapital, IsSmall, ← UInt8.toNat_inj, UInt8.le_iff_toNat_le] at h hlo hhi hl hu ⊢
      omega
    · rw [lowerByte_of_not_isCapital fun hc => hnlo (.inl hc), lowerByte_of_not_isCapital fun hc => hnhi (.inl hc)]
      refine ⟨.inl, fun h => h.elim id ?_⟩
      -- a form between the ends is no letter, so it is the only one
      rintro ⟨h1, h2⟩
      have hform := upperByte_eq_lowerByte (hno _ h1 h2)
      rw [hform] at h1 h2
      exact ⟨h1, h2⟩

/-- The ranges of the token do not mix cases. -/
def Token.OneCase : Token → Prop
  | .oneOf _ items => ∀ i ∈ items, i.OneCase
  | _ => True

theorem Token.OneCase.accepts_fold {tok : Token} (h : tok.OneCase) (b : UInt8) :
    (tok.fold .insensitive).accepts .sensitive (lowerByte b) = tok.accepts .insensitive b := by
  cases tok with
  | oneOf negated items =>
    have hhas : classHas .sensitive (items.map (ClassItem.fold .insensitive)) (lowerByte b) =
        classHas .insensitive items b := by
      rw [Bool.eq_iff_iff]
      simp only [classHas, List.any_map, Bool.or_eq_true, List.any_eq_true, Function.comp_apply, ← exists_or, ← and_or_left]
      exact exists_congr fun i => and_congr_right fun hi => (h i hi).lists_fold b
    simp only [Token.fold, Token.accepts, hhas]
  | _ => rfl

theorem Token.fold_eq_star {tok : Token} : tok.fold m = .star ↔ tok = .star := by
  cases tok <;> simp [Token.fold]

/-- Tokens whose ranges do not mix cases describe a text, whatever the case, just if the folded tokens describe the folded
text. -/
theorem derives_fold_iff {ts : List Token} {t : Bytes} (h : ∀ tok ∈ ts, tok.OneCase) :
    Derives .sensitive (ts.map (Token.fold .insensitive)) (CaseMode.insensitive.foldBytes t) ↔ Derives .insensitive ts t := by
  induction ts generalizing t with
  | nil =>
    rw [List.map_nil, derives_nil_left_iff, derives_nil_left_iff]
    exact List.map_eq_nil_iff
  | cons tok ts ih =>
    rw [List.forall_mem_cons] at h
    have ih {s : Bytes} := ih (t := s) h.2
    rw [List.map_cons]
    by_cases hs : tok = .star
    · subst hs
      rw [derives_star_iff, show Token.fold .insensitive .star = .star from rfl, derives_star_iff]
      simp only [CaseMode.foldBytes, List.suffix_map_iff]
      constructor
      · rintro ⟨_, ⟨s, hs, rfl⟩, hd⟩
        exact ⟨s, hs, ih.1 hd⟩
      · rintro ⟨s, hs, hd⟩
        exact ⟨_, ⟨s, hs, rfl⟩, ih.2 hd⟩
    · rw [derives_cons_iff hs, derives_cons_iff fun e => hs (Token.fold_eq_star.1 e)]
      constructor
      · rintro ⟨c, r, ht, ha, hd⟩
        obtain ⟨b, s, rfl, rfl, rfl⟩ := List.map_eq_cons_iff.1 ht
        exact ⟨b, s, rfl, (h.1.accepts_fold b).symm.trans ha, ih.1 hd⟩
      · rintro ⟨b, s, rfl, ha, hd⟩
        exact ⟨_, _, rfl, (h.1.accepts_fold b).trans ha, ih.2 hd⟩

theorem accepts_foldBytes {p t : Bytes} (h : ∀ tok ∈ (parse .insensitive p).tokens, tok.OneCase) :
    (parse .sensitive (CaseMode.insensitive.foldBytes p)).accepts (CaseMode.insensitive.foldBytes t) =
      (parse .insensitive p).accepts t := by
  rw [Bool.eq_iff_iff, accepts_iff_derives, accepts_iff_derives, parse_foldBytes _ _ .insensitive]
  exact and_congr_right fun _ => derives_fold_iff h

/-- A pattern whose ranges do not mix cases answers, when case is ignored, as the folded pattern does for the folded text when
case counts. -/
theorem answers_of_folded (p t : Bytes) (h : ∀ tok ∈ (parseOnePass .insensitive p).tokens, tok.OneCase) :
    ∃ answer, (parseOnePass .insensitive p).acceptsInPlace? t = some answer ∧
      (parseOnePass .sensitive (CaseMode.insensitive.foldBytes p)).acceptsInPlace?
        (CaseMode.insensitive.foldBytes t) = some answer := by
  rw [parseOnePass_eq] at h ⊢
  rw [parseOnePass_eq, acceptsInPlace?_eq, acceptsInPlace?_eq, accepts_foldBytes h]
  exact ⟨_, rfl, rfl⟩

/-- The pattern `*[!A-C\]]X[0-9a-fQ-S]\K?`, which has a range of each kind, and the text `zzDxrkM`. -/
theorem answers_of_folded_ranges :
    let p : Bytes := [42, 91, 33, 65, 45, 67, 92, 93, 93, 88, 91, 48, 45, 57, 97, 45, 102, 81, 45, 83, 93, 92, 75, 63]
    let t : Bytes := [122, 122, 68, 120, 114, 107, 77]
    (∀ tok ∈ (parseOnePass .insensitive p).tokens, tok.OneCase) ∧
      (parseOnePass .sensitive (CaseMode.insensitive.foldBytes p)).acceptsInPlace?
        (CaseMode.insensitive.foldBytes t) = some true := by
  intro p t
  have htokens : (parseOnePass .insensitive p).tokens = [.star, .oneOf true [.range 65 67, .single 93], .literal 88,
      .oneOf false [.range 48 57, .range 97 102, .range 81 83], .literal 75, .any] := by decide +kernel
  have hdigits : (ClassItem.range 48 57).OneCase := by
    refine .inr (.inr ⟨by decide, by decide, fun b _ hb => ?_⟩)
    simp only [IsLetter, IsCapital, IsSmall, UInt8.le_iff_toNat_le, UInt8.reduceToNat] at hb ⊢
    omega
  have hsingle : (ClassItem.single 93).OneCase := trivial
  have hsmall : (ClassItem.range 97 102).OneCase := .inl (by decide)
  have hcapitals : (ClassItem.range 65 67).OneCase ∧ (ClassItem.range 81 83).OneCase :=
    ⟨.inr (.inl (by decide)), .inr (.inl (by decide))⟩
  have h : ∀ tok ∈ (parseOnePass .insensitive p).tokens, tok.OneCase := by
    rw [htokens]
    simp [Token.OneCase, hdigits, hsmall, hcapitals, hsingle]
  obtain ⟨answer, hanswer, hfolded⟩ := answers_of_folded p t h
  have htrue : (parseOnePass .insensitive p).acceptsInPlace? t = some true := by decide +kernel
  exact ⟨h, hfolded.trans (hanswer.symm.trans htrue)⟩

/-- The range `Z-a` mixes cases: with it the folded pattern does not match `_`, though the pattern does. -/
example : (parse .insensitive [91, 90, 45, 97, 93]).accepts [95] = true ∧
    (parse .sensitive (CaseMode.insensitive.foldBytes [91, 90, 45, 97, 93])).accepts [95] = false := by decide +kernel

end Glob

end GlobSieve
