import Mathlib.Data.List.Forall2
import GlobSieve.Proofs.Fragment.Agreement
import GlobSieve.Proofs.Fragment.Presence

/-!
# A matching text holds every fragment, in order

A text that matches a pattern can be cut so that every fragment of the pattern matches a slice of its own, the slices lie side
by side in the order of the fragments, and every needle stands in the slice of its fragment (`exists_cuts_of_accepts`).

`Slices R as t` says that `t` has such slices, in the relation `R` to the members of `as`. They are found along the lexemes of
the pattern (`slices_of_derives`): a lexeme that is inside a piece makes the slice of the piece longer, and what a wildcard
stands for lies between two slices.
-/

namespace GlobSieve

open Glob

/-! ## Slices -/

section Slices

variable {α : Type} {R R' : α → Bytes → Prop} {as : List α} {t : Bytes}

/-- Slices of a text, from left to right, in relation to the members of a list. -/
inductive Slices (R : α → Bytes → Prop) : List α → Bytes → Prop
  | nil (t : Bytes) : Slices R [] t
  | cons {a : α} {as : List α} {s t : Bytes} (gap : Bytes) : R a s → Slices R as t → Slices R (a :: as) (gap ++ (s ++ t))

namespace Slices

/-- Nothing need be done about more text in front. -/
theorem append_left (x : Bytes) (h : Slices R as t) : Slices R as (x ++ t) := by
  cases h with
  | nil => exact .nil _
  | cons gap ha h =>
    rw [← List.append_assoc]
    exact .cons (x ++ gap) ha h

theorem imp (h : Slices R as t) (himp : ∀ a ∈ as, ∀ s, R a s → R' a s) : Slices R' as t := by
  induction h with
  | nil t => exact .nil t
  | cons gap ha _ ih =>
    exact .cons gap (himp _ List.mem_cons_self _ ha) (ih fun a hm => himp a (List.mem_cons_of_mem _ hm))

/-- Slices are slices, by their bounds. -/
theorem exists_cuts (h : Slices R as t) (pre : Bytes) : ∃ cuts : List (Nat × Nat),
    (∀ c ∈ cuts, pre.length ≤ c.1) ∧ cuts.Pairwise (fun c d => c.2 ≤ d.1) ∧
    List.Forall₂ (fun a c => c.1 ≤ c.2 ∧ c.2 ≤ (pre ++ t).length ∧ R a ((pre ++ t).extract c.1 c.2)) as cuts := by
  induction h generalizing pre with
  | nil => exact ⟨[], by simp, .nil, .nil⟩
  | @cons a as s t gap ha _ ih =>
    obtain ⟨cuts, hfrom, happart, hcuts⟩ := ih (pre ++ gap ++ s)
    have htext : pre ++ gap ++ s ++ t = pre ++ (gap ++ (s ++ t)) := by simp only [List.append_assoc]
    have hslice : (pre ++ (gap ++ (s ++ t))).extract (pre ++ gap).length ((pre ++ gap).length + s.length) = s := by
      rw [← List.append_assoc, List.extract_eq_take_drop, List.drop_left, Nat.add_sub_cancel_left, List.take_left]
    rw [htext] at hcuts
    refine ⟨((pre ++ gap).length, (pre ++ gap).length + s.length) :: cuts, List.forall_mem_cons.2 ⟨?_, fun c hc => ?_⟩,
      List.pairwise_cons.2 ⟨fun c hc => ?_, happart⟩, .cons ⟨Nat.le_add_right _ _, ?_, ?_⟩ hcuts⟩
    · simp
    · have := hfrom c hc
      simp only [List.length_append] at this
      omega
    · have := hfrom c hc
      simp only [List.length_append] at this ⊢
      omega
    · simp only [List.length_append]
      omega
    · rwa [hslice]

end Slices

end Slices

/-! ## The slices of the pieces -/

variable {m : CaseMode} {p t : Bytes}

/-- The text is what the tokens of a piece describe. -/
def DerivesPiece (m : CaseMode) (piece : List Lexeme) (s : Bytes) : Prop := Derives m (piece.filterMap Lexeme.token?) s

/-- The piece that lexemes open with may have been empty. -/
theorem slices_consRun {piece : List Lexeme} {s : Bytes} (hs : DerivesPiece m piece s) {ps : List (List Lexeme)}
    (h : Slices (DerivesPiece m) ps t) (gap : Bytes) : Slices (DerivesPiece m) (consRun piece ps) (gap ++ (s ++ t)) := by
  unfold consRun
  split
  · exact (h.append_left s).append_left gap
  · exact .cons gap hs h

/-- What lexemes describe begins with a slice for the piece that they open with, which may be empty, and has slices for the
later pieces after it. -/
theorem slices_of_derives {xs : List Lexeme} (h : Derives m (xs.filterMap Lexeme.token?) t) : ∃ s r, t = s ++ r ∧
    DerivesPiece m (openRuns Lexeme.inside? xs).1 s ∧ Slices (DerivesPiece m) (openRuns Lexeme.inside? xs).2 r := by
  induction xs generalizing t with
  | nil => exact ⟨t, [], (List.append_nil t).symm, h, .nil _⟩
  | cons x xs ih =>
    rw [← List.singleton_append, List.filterMap_append] at h
    obtain ⟨a, c, rfl, ha, hc⟩ := h.split
    obtain ⟨s, r, rfl, hs, hr⟩ := ih hc
    rw [openRuns, Lexeme.inside?_eq]
    cases x.isWildcard with
    | true => exact ⟨[], a ++ (s ++ r), rfl, .nil, slices_consRun hs hr a⟩
    | false =>
      refine ⟨a ++ s, r, (List.append_assoc a s r).symm, ?_, hr⟩
      have := ha.append hs
      rwa [← List.filterMap_append] at this

theorem accepts_of_derivesPiece {piece : List Lexeme} {s : Bytes} (hpiece : piece ∈ pieces p) (hd : .dangling ∉ lex p)
    (hs : DerivesPiece m piece s) : (parse m (piece.flatMap Lexeme.text)).accepts s = true := by
  have hd' : .dangling ∉ piece := fun hm => hd ((infix_of_mem_pieces hpiece).1.mem hm)
  refine accepts_iff_derives.2 ⟨?_, ?_⟩
  · simpa [parse, lex_text_piece hpiece] using hd'
  · rw [tokens_of_piece hpiece hd, ← filterMap_token? hd']
    exact hs

/-- A text that matches a pattern has slices, side by side and in order, that match its fragments and hold their needles. -/
theorem exists_cuts_of_accepts (h : (Glob.parse m p).accepts t = true) : ∃ cuts : List (Nat × Nat),
    cuts.Pairwise (fun c d => c.2 ≤ d.1) ∧
    List.Forall₂ (fun f c => c.1 ≤ c.2 ∧ c.2 ≤ t.length ∧ (Glob.parse m f).accepts (t.extract c.1 c.2) = true ∧
      ∀ n ∈ needles f, m.foldBytes n <:+: m.foldBytes (t.extract c.1 c.2)) (fragments p) cuts := by
  obtain ⟨hd, hder⟩ := derives_of_accepts h
  obtain ⟨s, r, rfl, hs, hr⟩ := slices_of_derives hder
  have hpieces : Slices (DerivesPiece m) (pieces p) (s ++ r) := slices_consRun hs hr []
  have hfragments : Slices (fun piece s => (Glob.parse m (piece.flatMap Lexeme.text)).accepts s = true ∧
      ∀ n ∈ needles (piece.flatMap Lexeme.text), m.foldBytes n <:+: m.foldBytes s) (pieces p) (s ++ r) :=
    hpieces.imp fun _ hpiece _ hs =>
      ⟨accepts_of_derivesPiece hpiece hd hs, fun _ hn => needle_infix_of_piece hpiece hd hs hn⟩
  obtain ⟨cuts, -, happart, hcuts⟩ := hfragments.exists_cuts []
  refine ⟨cuts, happart, ?_⟩
  rw [fragments_eq_pieces, List.forall₂_map_left_iff]
  exact hcuts

/-- In `xABybxazABxb`, whatever the case, the two fragments `ab` of `*ab?[a-c]*ab*` and the class between them have slices. -/
theorem exists_cuts_of_accepts_repeated :
    let p : Bytes := [42, 97, 98, 63, 91, 97, 45, 99, 93, 42, 97, 98, 42]
    let t : Bytes := [120, 65, 66, 121, 98, 120, 97, 122, 65, 66, 120, 98]
    (Glob.parse .insensitive p).accepts t = true ∧ fragments p = [[97, 98], [91, 97, 45, 99, 93], [97, 98]] ∧
      ∃ a b c d e f : Nat, a ≤ b ∧ b ≤ c ∧ c ≤ d ∧ d ≤ e ∧ e ≤ f ∧ f ≤ t.length ∧
        (Glob.parse .insensitive [97, 98]).accepts (t.extract a b) = true ∧
        (Glob.parse .insensitive [91, 97, 45, 99, 93]).accepts (t.extract c d) = true ∧
        (Glob.parse .insensitive [97, 98]).accepts (t.extract e f) = true := by
  intro p t
  have hp : (Glob.parse .insensitive p).accepts t = true := by decide +kernel
  have hf : fragments p = [[97, 98], [91, 97, 45, 99, 93], [97, 98]] := by decide +kernel
  obtain ⟨cuts, happart, hcuts⟩ := exists_cuts_of_accepts hp
  rw [hf] at hcuts
  cases hcuts with | cons h1 hcuts =>
  cases hcuts with | cons h2 hcuts =>
  cases hcuts with | cons h3 hcuts =>
  cases hcuts
  simp only [List.pairwise_cons, List.mem_cons, forall_eq_or_imp] at happart
  exact ⟨hp, hf, _, _, _, _, _, _, h1.1, happart.1.1, h2.1, happart.2.1.1, h3.1, h3.2.1, h1.2.2.1, h2.2.2.1, h3.2.2.1⟩

end GlobSieve
